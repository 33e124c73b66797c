import Eka.Documents.Registration
import Eka.Http.Application
import Eka.System.Listing

/-!
# The contract of the API

What each request is answered with, as a table over the token, the request, the rows of the
tenant and what Redis replies, and what a request leaves behind that is answered with an error:
nothing at all. No status of the table depends on how a handler is written, so the proof is one
lemma for each route: which of the exceptions of its handler can occur, and when.
-/

namespace Eka

open Py Relational Transition Fallible

/-! ## The table -/

/-- The status of a registration: a live document with the hash is the answer; without one, a
    blank title is refused, and a source type that is none of the enumeration, a NUL, or the hash
    of a deleted document ends in an exception that nothing maps. -/
def registrationStatus (command : RegisterDocumentCommand) (t : Documents) : Nat :=
  let stored := t.rows.filter fun row =>
    row.tenantId == command.tenantId && row.contentHash.value == command.contentHash
  if stored.any (·.status != .deleted) then 201
  else if strip command.title = [] then 422
  else if SourceType.all.all (·.value != command.sourceType) ||
      (strip command.title).contains '\x00' || command.sourceUri.contains '\x00' ||
      !stored.isEmpty then 500
  else 201

/-- The status of a search that has a query. What Redis has is decoded with no regard to what it
    is, and a text that is no string is found out in the response; without it the search is live,
    and the database may refuse it. -/
def searchStatus (handler : SearchHandler) (codec : BytesCodec) (reply : RedisReply)
    (tenantId : UUID) (query : SearchQuery) (t : Chunks) : Nat :=
  match reply.receive codec with
  | .error _ => 500
  | .ok (some results) => if results.all (·.text.isString) then 200 else 500
  | .ok none =>
      if query.text.contains '\x00' || (handler.embedder.dimension != embeddingDim &&
          t.rows.any (PgVectorHybridRetriever.inScope tenantId query.collectionId)) then 500
      else 200

namespace Endpoint

/-- The status of a request that conforms to its schema. -/
def status {F : Type} (app : App) (env : AppEnv F) (tenantId : UUID) (s : Store) : Endpoint → Nat
  | .registerDocument body => registrationStatus ⟨tenantId, body.collectionId, body.title,
      body.sourceType, body.sourceUri, body.contentHash⟩ s.documents
  | .getDocument documentId =>
      if (Documents.select tenantId documentId s.documents).isSome then 200 else 404
  | .deleteDocument documentId =>
      if (Documents.select tenantId documentId s.documents).isSome then 204 else 404
  | .uploadContent documentId content =>
      match Documents.select tenantId documentId s.documents with
      | none => 404
      | some row =>
          if app.api.config.sha256 content ≠ row.contentHash.value then 422
          else if content.contains '\x00' then 500
          else 202
  | .listDocuments _ _ offset _ _ => if offset < 2 ^ 63 then 200 else 500
  | .listJobs jobStatus _ offset =>
      if offset < 2 ^ 63 && !jobStatus.any (·.contains '\x00') then 200 else 500
  | .search query collectionId topK =>
      match SearchQuery.make query topK collectionId with
      | .ok query => searchStatus app.api.search app.codec
          (env.reply (app.api.search.key tenantId query)) tenantId query s.chunks
      | .error _ => 422
  | .answer query _ _ => if strip query = [] then 422 else 200
  | _ => 200

end Endpoint

namespace App

variable {F : Type}

/-- The status of a request for a token. -/
def tokenStatus (app : App) (env : AppEnv F) (body : TokenRequest) : Nat :=
  if body.subject = [] then 422
  else if !app.authDevTokenEnabled then 404
  else if seconds datetimeEnd ≤ env.now + seconds app.jwtAccessTtlSeconds then 500
  else if (env.encode (JwtTokenIssuer.claims app.verifier.issuer body.tenantId body.subject
      body.roles.toFinset (env.now / 1000000) app.jwtAccessTtlSeconds) app.verifier.secret
      app.verifier.algorithm).isSome then 200
  else 500

/-- The status of any request: it is one for a token, or the caller is unknown, or cannot be made
    out, or the request does not conform, or the table of the endpoints says. -/
def status (app : App) (env : AppEnv F) (s : Store) : AppRequest → Nat
  | .issueToken body => app.tokenStatus env body
  | .call request =>
      match getCurrentIdentity app.verifier env.jwt request.bearer request.header with
      | .error (.authenticationError _) => 401
      | .error _ => 500
      | .ok identity =>
          if request.endpoint.conforms then request.endpoint.status app env identity.tenantId s
          else 422

end App

/-! ## Who is calling -/

/-- Besides its own error, `verify` raises the `TypeError` of the loop over the roles. -/
theorem JwtTokenVerifier.verify_error {F : Type} {jwt : PyJwt F} {verifier : JwtTokenVerifier}
    {token : Str} {e : VerifyError} (h : verifier.verify jwt token = .error e) :
    (∃ message, e = .authenticationError message) ∨ ∃ message, e = .typeError message := by
  cases hdecode : verifier.decode jwt token with
  | none =>
      obtain ⟨message, hverify⟩ := verify_none hdecode
      rw [hverify] at h
      cases h
      exact .inl ⟨message, rfl⟩
  | some payload =>
      rw [verify_some hdecode] at h
      obtain ⟨sub, hsub⟩ := exists_subject hdecode
      cases htenant : tenant jwt payload with
      | error e' =>
          rw [htenant] at h
          cases h
          exact .inl (tenant_error htenant)
      | ok tenantId =>
          cases hroles : roles jwt payload with
          | error e' =>
              rw [htenant, hroles] at h
              cases h
              exact .inr (roles_error hroles)
          | ok roles =>
              rw [htenant, hroles, hsub] at h
              cases h

theorem getCurrentIdentity_error {F : Type} {jwt : PyJwt F} {verifier : JwtTokenVerifier}
    {bearer header : Option Str} {e : VerifyError}
    (h : getCurrentIdentity verifier jwt bearer header = .error e) :
    (∃ message, e = .authenticationError message) ∨ ∃ message, e = .typeError message := by
  unfold getCurrentIdentity at h
  split at h
  · cases h
    exact .inl ⟨_, rfl⟩
  · cases h
    exact .inl ⟨_, rfl⟩
  · exact JwtTokenVerifier.verify_error h

/-! ## Registration -/

namespace RegisterDocumentHandler

variable {command : RegisterDocumentCommand} {id : UUID} {now : Instant} {t : Documents}

theorem handle_error {e : Error} (h : (handle command id now t).1 = .error e) :
    (handle command id now t).2 = t := by
  unfold handle at h ⊢
  split
  · rfl
  · rfl
  · next hlookup =>
      rw [hlookup] at h
      simp only at h ⊢
      split
      · rfl
      · next hadd =>
          rw [hadd] at h
          cases h

theorem sha256Re_of_hex {hash : Str} (hlength : hash.length = 64)
    (hhex : ∀ c ∈ hash, isLowerHex c = true) : sha256Re hash = true := by
  unfold sha256Re
  rw [List.take_of_length_le hlength.le, List.drop_eq_nil_of_le hlength.le, hlength]
  simpa using hhex

/-- Without a live document of its hash, a registration goes on to build one. -/
theorem lookup_of_find_none (h : sha256Re command.contentHash = true)
    (hfind : Documents.findByContentHash command.tenantId ⟨command.contentHash, h⟩ t = none) :
    lookup command id now t = (build command ⟨command.contentHash, h⟩ id now).map .inr := by
  have hmake : ContentHash.make command.contentHash = .ok ⟨command.contentHash, h⟩ := dif_pos h
  unfold lookup
  rw [hmake]
  simp only [bind, Except.bind, hfind]
  cases build command ⟨command.contentHash, h⟩ id now <;> rfl

/-- A text that is no longer than its column goes in unless it has a NUL. -/
theorem varchar_isSome_iff {n : Nat} {s : Str} (h : s.length ≤ n) :
    (varchar n s).isSome ↔ '\x00' ∉ s := by
  unfold varchar
  by_cases hnul : '\x00' ∈ s
  · rw [if_pos hnul]
    exact iff_of_false Bool.false_ne_true (not_not_intro hnul)
  · rw [if_neg hnul, if_pos h]
    exact iff_of_true rfl hnul

theorem status_of_error {e : Error} (h : (handle command id now t).1 = .error e) :
    (HttpResponse.ofResult ((handle command id now t).1.map .registered)).status =
      (HttpResponse.ofError e).status := by
  rw [h]
  rfl

/-- The title of a request that conforms is refused when it is blank. -/
theorem build_blank (hash : ContentHash) (id : UUID) (now : Instant) (h : strip command.title = []) :
    ∃ message, build command hash id now = .error (.validationError message) := by
  unfold build Title.make
  rw [dif_pos h]
  exact ⟨_, rfl⟩

theorem build_source (hash : ContentHash) (id : UUID) (now : Instant)
    (htitle : strip command.title ≠ []) (hshort : (strip command.title).length ≤ maxTitleLen)
    (h : SourceType.all.all (·.value != command.sourceType) = true) :
    ∃ message, build command hash id now = .error (.valueError message) := by
  have hmake : Title.make command.title =
      .ok ⟨strip command.title, strip_strip _, htitle, hshort⟩ := by
    unfold Title.make
    rw [dif_neg htitle, dif_pos hshort]
  have hfind : SourceType.all.find? (fun s => s.value == command.sourceType) = none := by
    rw [List.find?_eq_none]
    intro s hs
    have hne := List.all_eq_true.mp h s hs
    simpa using hne
  unfold build SourceType.ofValue
  rw [hmake, hfind]
  exact ⟨_, rfl⟩

/-- A document that was built is added, unless it does not go into its columns or the tenant has a
    row of its hash. -/
theorem built_status {document : Document}
    (hlookup : lookup command id now t = .ok (.inr document)) (hid : document.id = id)
    (hfresh : ∀ row ∈ t.rows, row.id ≠ id) :
    (HttpResponse.ofResult ((handle command id now t).1.map .registered)).status =
      if (DocumentModel.ofDomain document).fitColumns.isSome ∧ ∀ row ∈ t.rows,
        ¬ (row.tenantId = document.tenantId ∧ row.contentHash = document.contentHash) then 201
      else 500 := by
  cases hfit : (DocumentModel.ofDomain document).fitColumns with
  | none =>
      have hhandle : (handle command id now t).1 = .error .dataError := by
        unfold handle Documents.addCommit
        simp only [hlookup, hfit]
      rw [if_neg fun h => absurd h.1 Bool.false_ne_true, status_of_error hhandle]
      rfl
  | some row =>
      obtain ⟨uri, -, rfl⟩ := Documents.fitColumns_some hfit
      by_cases hfree : ∀ row ∈ t.rows,
          ¬ (row.tenantId = document.tenantId ∧ row.contentHash = document.contentHash)
      · obtain ⟨t', hinsert⟩ : ∃ t',
            t.insert { DocumentModel.ofDomain document with sourceUri := uri } = some t' := by
          refine Table.exists_insert ?_
          rintro row hrow (hsame | hclash)
          · exact hfresh row hrow (hsame.trans hid)
          · exact hfree row hrow hclash
        have hhandle : (handle command id now t).1 = .ok (.fromAggregate document) := by
          unfold handle Documents.addCommit
          simp only [hlookup, hfit, hinsert]
        rw [if_pos ⟨rfl, hfree⟩, hhandle]
        rfl
      · have hinsert : t.insert { DocumentModel.ofDomain document with sourceUri := uri } = none := by
          push Not at hfree
          obtain ⟨row, hrow, hclash⟩ := hfree
          exact Table.insert_eq_none.mpr ⟨row, hrow, .inr hclash⟩
        have hhandle : (handle command id now t).1 = .error .integrityError := by
          unfold handle Documents.addCommit
          simp only [hlookup, hfit, hinsert]
        rw [if_neg fun h => hfree h.2, status_of_error hhandle]
        rfl

/-- Without a live document of its hash, a registration is answered by what its texts are and by
    the deleted rows of the hash. -/
theorem unfound_status (hre : sha256Re command.contentHash = true)
    (hlength : command.contentHash.length = 64) (htitle : command.title.length ≤ 512)
    (huri : command.sourceUri.length ≤ 2048) (hfresh : ∀ row ∈ t.rows, row.id ≠ id)
    (hfind : Documents.findByContentHash command.tenantId ⟨command.contentHash, hre⟩ t = none)
    {stored : List DocumentModel} (hempty : stored = [] ↔ ∀ row ∈ t.rows,
      ¬ (row.tenantId = command.tenantId ∧ row.contentHash = ⟨command.contentHash, hre⟩)) :
    (HttpResponse.ofResult ((handle command id now t).1.map .registered)).status =
      if strip command.title = [] then 422
      else if SourceType.all.all (·.value != command.sourceType) ||
          (strip command.title).contains '\x00' || command.sourceUri.contains '\x00' ||
          !stored.isEmpty then 500
      else 201 := by
  have hlookup := @lookup_of_find_none command id now t hre hfind
  by_cases hblank : strip command.title = []
  · obtain ⟨message, hbuild⟩ := build_blank ⟨command.contentHash, hre⟩ id now hblank
    have hhandle : (handle command id now t).1 = .error (.validationError message) := by
      unfold handle
      rw [hlookup, hbuild]
      rfl
    rw [if_pos hblank, status_of_error hhandle]
    rfl
  · have hshort := (length_strip_le command.title).trans htitle
    rw [if_neg hblank]
    by_cases hsource : SourceType.all.all (·.value != command.sourceType) = true
    · obtain ⟨message, hbuild⟩ :=
        build_source ⟨command.contentHash, hre⟩ id now hblank hshort hsource
      have hhandle : (handle command id now t).1 = .error (.valueError message) := by
        unfold handle
        rw [hlookup, hbuild]
        rfl
      rw [hsource, Bool.true_or, Bool.true_or, Bool.true_or, if_pos rfl, status_of_error hhandle]
      rfl
    · obtain ⟨source, hmem, hvalue⟩ : ∃ t ∈ SourceType.all, t.value = command.sourceType := by
        simpa using hsource
      obtain ⟨title, sourceType, htitle', -, hbuild⟩ := exists_build command
        ⟨command.contentHash, hre⟩ id now ⟨hblank, hshort, source, hmem, hvalue⟩
      rw [hbuild] at hlookup
      have hfits : (DocumentModel.ofDomain (Document.register id now command.tenantId
          command.collectionId title sourceType command.sourceUri
            ⟨command.contentHash, hre⟩)).fitColumns.isSome ↔
          '\x00' ∉ strip command.title ∧ '\x00' ∉ command.sourceUri := by
        rw [DocumentModel.fitColumns_ofDomain, ← htitle']
        exact and_congr_right' ((and_iff_right hlength).trans (varchar_isSome_iff huri))
      rw [built_status hlookup rfl hfresh, Bool.eq_false_iff.mpr hsource, Bool.false_or]
      by_cases hrefused : ((strip command.title).contains '\x00' ||
          command.sourceUri.contains '\x00' || !stored.isEmpty) = true
      · rw [if_pos hrefused, if_neg]
        rintro ⟨hfit, hfree⟩
        obtain ⟨hnul, hnul'⟩ := hfits.mp hfit
        rw [hempty.mpr hfree] at hrefused
        simp [hnul, hnul'] at hrefused
      · rw [if_neg hrefused, if_pos]
        simp only [Bool.or_eq_true, not_or, List.contains_iff_mem, Bool.not_eq_true',
          Bool.not_eq_false, List.isEmpty_iff] at hrefused
        exact ⟨hfits.mpr hrefused.1, hempty.mp hrefused.2⟩

/-- The table of registrations. -/
theorem handle_status (hlength : command.contentHash.length = 64)
    (hhex : ∀ c ∈ command.contentHash, isLowerHex c = true) (htitle : command.title.length ≤ 512)
    (huri : command.sourceUri.length ≤ 2048) (hfresh : ∀ row ∈ t.rows, row.id ≠ id) :
    (HttpResponse.ofResult ((handle command id now t).1.map .registered)).status =
      registrationStatus command t := by
  have hre := sha256Re_of_hex hlength hhex
  have hstored : ∀ row : DocumentModel, row ∈ t.rows.filter (fun row =>
      row.tenantId == command.tenantId && row.contentHash.value == command.contentHash) ↔
      row ∈ t.rows ∧ row.tenantId = command.tenantId ∧
        row.contentHash = ⟨command.contentHash, hre⟩ := by
    intro row
    simp only [List.mem_filter, Bool.and_eq_true, beq_iff_eq]
    exact and_congr_right' (and_congr_right'
      ⟨fun h => ContentHash.ext h, congrArg ContentHash.value⟩)
  unfold registrationStatus
  simp only
  generalize t.rows.filter (fun row => row.tenantId == command.tenantId &&
    row.contentHash.value == command.contentHash) = stored at hstored
  cases hfind : Documents.findByContentHash command.tenantId ⟨command.contentHash, hre⟩ t with
  | some existing =>
      obtain ⟨row, hrow, htenant, hhash, hlive, -⟩ := Documents.findByContentHash_eq_some.mp hfind
      have hany : stored.any (·.status != .deleted) = true :=
        List.any_eq_true.mpr ⟨row, (hstored row).mpr ⟨hrow, htenant, hhash⟩, bne_iff_ne.mpr hlive⟩
      have hmake : ContentHash.make command.contentHash = .ok ⟨command.contentHash, hre⟩ :=
        dif_pos hre
      have hhandle : (handle command id now t).1 = .ok (.fromAggregate existing) := by
        unfold handle lookup
        rw [hmake]
        simp only [bind, Except.bind, hfind]
        rfl
      rw [if_pos hany, hhandle]
      rfl
  | none =>
      have hnone := Documents.findByContentHash_eq_none.mp hfind
      have hany : stored.any (·.status != .deleted) ≠ true := by
        intro hany
        obtain ⟨row, hmem, hlive⟩ := List.any_eq_true.mp hany
        obtain ⟨hrow, htenant, hhash⟩ := (hstored row).mp hmem
        exact bne_iff_ne.mp hlive (hnone row hrow htenant hhash)
      have hempty : stored = [] ↔ ∀ row ∈ t.rows, ¬ (row.tenantId = command.tenantId ∧
          row.contentHash = ⟨command.contentHash, hre⟩) := by
        rw [List.eq_nil_iff_forall_not_mem]
        refine forall_congr' fun row => ?_
        rw [hstored row, @not_and (row ∈ t.rows)]
      rw [if_neg hany]
      exact unfound_status hre hlength htitle huri hfresh hfind hempty

end RegisterDocumentHandler

/-! ## What an error leaves behind -/

/-- With an id that no job has, a job is enqueued or found. -/
theorem UploadDocumentContentHandler.exists_enqueue (config : Config) {id : UUID} {s : Store}
    (hid : s.Unused id) (tenantId documentId : UUID) (document : DocumentDTO) (now : Instant) :
    ∃ jobs, enqueue config id tenantId documentId document now s.jobs = .ok jobs := by
  unfold enqueue SqlAlchemyJobQueue.enqueue
  split
  · exact ⟨_, rfl⟩
  · next hnone =>
      obtain ⟨jobs, hinsert⟩ := Table.exists_insert (t := s.jobs) (r := SqlAlchemyJobQueue.newRow id
        tenantId documentId document.collectionId document.version config.maxAttempts now) (by
          rintro row hrow (hsame | ⟨hdocument, hversion⟩)
          · exact hid.jobs row hrow hsame
          · exact hnone (List.any_eq_true.mpr ⟨row, hrow, by
              rw [hdocument, hversion]
              exact Bool.and_eq_true_iff.mpr ⟨beq_self_eq_true _, beq_self_eq_true _⟩⟩))
      rw [hinsert]
      exact ⟨jobs, rfl⟩

theorem DeleteDocumentHandler.handle_error {command : DeleteDocumentCommand} {now : Instant}
    {t : Documents} {e : Error} (h : (handle command now t).1 = .error e) :
    (handle command now t).2 = t := by
  unfold handle at h ⊢
  split
  · rfl
  · next hread =>
      rw [hread] at h
      simp only at h ⊢
      split
      · rfl
      · next hsave =>
          rw [hsave] at h
          cases h

/-- The content is only written when the job can be, too. -/
theorem UploadDocumentContentHandler.handle_error {config : Config} {tenantId documentId id : UUID}
    {content : Str} {now : Instant} {s : Store} {e : Error} (hid : s.Unused id)
    (h : (handle config tenantId documentId content id now s).1 = .error e) :
    (handle config tenantId documentId content id now s).2 = s := by
  rw [handle_eq] at h ⊢
  split
  · rfl
  · next document hcheck =>
      rw [hcheck] at h
      simp only at h ⊢
      split
      · rfl
      · next contents hput =>
          obtain ⟨jobs, henqueue⟩ := exists_enqueue config hid tenantId documentId document now
          rw [hput] at h
          simp only [henqueue] at h
          cases h

theorem SearchHandler.handleReply_error {handler : SearchHandler} {codec : BytesCodec}
    {get : RedisReply} {set : Outcome} {now : Instant} {tenantId : UUID} {query : SearchQuery}
    {t : Chunks} {redis : Redis} {e : Error}
    (h : (handler.handleReply codec get set now tenantId query t redis).1 = .error e) :
    (handler.handleReply codec get set now tenantId query t redis).2 = redis := by
  unfold handleReply at h ⊢
  split
  · rfl
  · rfl
  · next hget =>
      rw [hget] at h
      simp only at h ⊢
      split
      · rfl
      · next hlive =>
          rw [hlive] at h
          cases h

/-- What goes into the cache is a list of results, so nothing is turned down after the write. -/
theorem SearchHandler.handleReply_refused {handler : SearchHandler} {codec : BytesCodec}
    {get : RedisReply} {set : Outcome} {now : Instant} {tenantId : UUID} {query : SearchQuery}
    {t : Chunks} {redis : Redis} {e : Error}
    (h : ((handler.handleReply codec get set now tenantId query t redis).1.bind
      (·.mapM LoadedChunk.toScored)) = .error e) :
    (handler.handleReply codec get set now tenantId query t redis).2 = redis := by
  cases hreply : (handler.handleReply codec get set now tenantId query t redis).1 with
  | error e => exact handleReply_error hreply
  | ok chunks =>
      rw [hreply] at h
      unfold handleReply at hreply ⊢
      split
      · rfl
      · rfl
      · next hget =>
          rw [hget] at hreply
          simp only at hreply ⊢
          split
          · rfl
          · next ranked hlive =>
              rw [hlive] at hreply
              cases hreply
              have hscored : (ranked.map ScoredChunk.loaded).mapM LoadedChunk.toScored =
                .error e := h
              rw [mapM_toScored.mpr rfl] at hscored
              cases hscored

/-- An operation that raises has written nothing. -/
theorem Operation.performReply_error {F : Type} {app : App} {env : AppEnv F} {id tenantId : UUID}
    {s : Backend} (hid : s.store.Unused id) {operation : Operation} {e : Error}
    (h : (operation.performReply app env id tenantId s).1 = .error e) :
    (operation.performReply app env id tenantId s).2 = s := by
  cases operation with
  | register collectionId title sourceType sourceUri contentHash =>
      have herror := RegisterDocumentHandler.handle_error (map_error.mp h)
      exact congrArg (fun t : Documents =>
        ({ s with store := { s.store with documents := t } } : Backend)) herror
  | get documentId => rfl
  | list request collectionId => rfl
  | delete documentId =>
      have herror := DeleteDocumentHandler.handle_error (map_error.mp h)
      exact congrArg (fun t : Documents =>
        ({ s with store := { s.store with documents := t } } : Backend)) herror
  | upload documentId content =>
      have herror := UploadDocumentContentHandler.handle_error hid (map_error.mp h)
      exact congrArg (fun store : Store => ({ s with store := store } : Backend)) herror
  | listChunks documentId => rfl
  | listJobs request status => rfl
  | search query =>
      have herror := SearchHandler.handleReply_refused (map_error.mp h)
      exact congrArg (fun redis : Redis => ({ s with redis := redis } : Backend)) herror

/-! ## The other routes -/

namespace HttpResponse

theorem ofResult_ok {α : Type} {f : α → Answer} {x : Except Error α} {a : α} (h : x = .ok a) :
    (ofResult (x.map f)).status = (f a).status := by
  rw [h]
  rfl

theorem ofResult_error {α : Type} {f : α → Answer} {x : Except Error α} {e : Error}
    (h : x = .error e) : (ofResult (x.map f)).status = (ofError e).status := by
  rw [h]
  rfl

/-- Only an exception is answered with the status of an error. -/
theorem error_of_status {x : Except Error Answer} (h : 400 ≤ (ofResult x).status) :
    ∃ e, x = .error e := by
  cases x with
  | error e => exact ⟨e, rfl⟩
  | ok answer => cases answer <;> exact absurd h (Nat.not_le_of_lt (Nat.le_of_ble_eq_true rfl))

end HttpResponse

open HttpResponse in
theorem GetDocumentHandler.handle_status (tenantId documentId : UUID) (t : Documents) :
    (ofResult ((handle tenantId documentId t).map .found)).status =
      if (Documents.select tenantId documentId t).isSome then 200 else 404 := by
  unfold handle Documents.get
  cases Documents.select tenantId documentId t with
  | none => rfl
  | some row => rfl

open HttpResponse in
theorem DeleteDocumentHandler.handle_status (command : DeleteDocumentCommand) (now : Instant)
    (t : Documents) :
    (ofResult ((handle command now t).1.map fun _ => .deleted)).status =
      if (Documents.select command.tenantId command.documentId t).isSome then 204 else 404 := by
  cases hselect : Documents.select command.tenantId command.documentId t with
  | none =>
      have hhandle : (handle command now t).1 =
          .error (.notFoundError "document not found".toList) := by
        unfold handle read
        simp only [hselect]
      rw [ofResult_error hhandle]
      rfl
  | some row =>
      obtain ⟨-, -, -, hlive⟩ := Documents.select_eq_some.mp hselect
      obtain ⟨document, hread⟩ : ∃ document, read command now t = .ok (row, document) := by
        unfold read
        rw [hselect]
        simp only
        rw [show row.toDomain.delete now = _ from Document.delete_live hlive]
        exact ⟨_, rfl⟩
      obtain ⟨-, -, -, hsaves⟩ := read_saves hread
      obtain ⟨_, t', hsave, -⟩ := hsaves.saveCommit t
      have hhandle : (handle command now t).1 = .ok () := by
        unfold handle
        simp only [hread, hsave]
      rw [ofResult_ok hhandle]
      rfl

open HttpResponse in
theorem UploadDocumentContentHandler.handle_status {config : Config} {id : UUID} {s : Store}
    (hid : s.Unused id) (tenantId documentId : UUID) (content : Str) (now : Instant) :
    (ofResult ((handle config tenantId documentId content id now s).1.map fun _ =>
        .accepted)).status =
      match Documents.select tenantId documentId s.documents with
      | none => 404
      | some row =>
          if config.sha256 content ≠ row.contentHash.value then 422
          else if content.contains '\x00' then 500
          else 202 := by
  rw [handle_eq]
  unfold check Documents.get
  cases Documents.select tenantId documentId s.documents with
  | none => rfl
  | some row =>
      simp only [Option.map_some]
      by_cases hhash : config.sha256 content ≠ row.contentHash.value
      · rw [if_pos hhash, if_pos (show config.sha256 content ≠
          (DocumentDTO.fromAggregate row.toDomain).contentHash from hhash)]
        rfl
      · rw [if_neg hhash, if_neg (show ¬ config.sha256 content ≠
          (DocumentDTO.fromAggregate row.toDomain).contentHash from hhash)]
        simp only
        by_cases hnul : '\x00' ∈ content
        · have hput : SqlAlchemyContentStore.put tenantId documentId content now s.contents =
              .error .dataError := by
            unfold SqlAlchemyContentStore.put Text.store
            rw [dif_pos hnul]
            rfl
          rw [hput, if_pos (List.contains_iff_mem.mpr hnul)]
          rfl
        · obtain ⟨contents, hput⟩ := @SqlAlchemyContentStore.exists_put tenantId documentId
            content hnul now s.contents
          obtain ⟨jobs, henqueue⟩ := exists_enqueue config hid tenantId documentId
            (.fromAggregate row.toDomain) now
          rw [hput, if_neg fun h => hnul (List.contains_iff_mem.mp h)]
          simp only [henqueue]
          rfl

/-- A list of chunks is refused for no other reason than a blank text. -/
theorem exists_listChunks {t : Chunks} (hblank : ∀ row ∈ t.rows, ¬ Blank row.text.value)
    (ties : Arrangement ChunkModel) (tenantId documentId : UUID) :
    ∃ items, listChunks ties tenantId documentId t = .ok items := by
  obtain ⟨chunks, hchunks⟩ : ∃ chunks,
      SqlAlchemyChunkRepository.listForDocument ties tenantId documentId t = .ok chunks :=
    exists_mapM_ok fun row hrow =>
      ChunkModel.exists_toDomain (hblank row (mem_select.mp hrow).1)
  exact ⟨_, map_ok.mpr ⟨chunks, hchunks, rfl⟩⟩

open HttpResponse in
theorem ListJobsHandler.handle_status (ties : Arrangement IngestionJobModel) (tenantId : UUID)
    (request : PageRequest) (status : Option Str) (t : Jobs) :
    (ofResult ((handle ties tenantId request status t).map .jobs)).status =
      if !status.any (·.contains '\x00') then 200 else 500 := by
  unfold handle
  simp only [List.contains_eq_mem]
  by_cases hnul : status.any ('\x00' ∈ ·) = true
  · rw [if_pos hnul, hnul]
    rfl
  · rw [if_neg hnul, Bool.eq_false_iff.mpr hnul]
    rfl

namespace PgVectorHybridRetriever

/-- The database refuses one of the two statements: the text has a NUL, or there is a row in scope
    to compare a vector of another dimension with. -/
def Refuses (tenantId : UUID) (query : SearchQuery) (embedding : Embedding) (t : Chunks) : Prop :=
  '\x00' ∈ query.text ∨
    embedding.dimension ≠ embeddingDim ∧ t.rows.any (inScope tenantId query.collectionId) = true

variable {server : SearchServer} {tenantId : UUID} {query : SearchQuery} {embedding : Embedding}
  {poolSize : Nat} {t : Chunks}

theorem retrieve_refused (h : Refuses tenantId query embedding t) :
    retrieve server tenantId query embedding poolSize t = .error .dataError := by
  unfold retrieve
  by_cases hdimension : embedding.dimension ≠ embeddingDim ∧
      t.rows.any (inScope tenantId query.collectionId) = true
  · rw [show vectorRows server tenantId query embedding poolSize t = .error .dataError
      from if_pos hdimension]
    rfl
  · obtain ⟨vector, hvector⟩ : ∃ rows,
        vectorRows server tenantId query embedding poolSize t = .ok rows := ⟨_, if_neg hdimension⟩
    rw [hvector, show keywordRows server tenantId query poolSize t = .error .dataError
      from if_pos (h.resolve_right hdimension)]
    rfl

theorem retrieve_accepted (h : ¬ Refuses tenantId query embedding t) :
    ∃ results, retrieve server tenantId query embedding poolSize t = .ok results := by
  obtain ⟨vector, hvector⟩ : ∃ rows,
      vectorRows server tenantId query embedding poolSize t = .ok rows :=
    ⟨_, if_neg fun hdimension => h (.inr hdimension)⟩
  obtain ⟨keyword, hkeyword⟩ : ∃ rows, keywordRows server tenantId query poolSize t = .ok rows :=
    ⟨_, if_neg fun hnul => h (.inl hnul)⟩
  obtain ⟨fused, hfused⟩ := exists_fused vector keyword
  obtain ⟨results, hresults⟩ := exists_scored hvector hkeyword hfused
  exact ⟨results, retrieve_of_arms hvector hkeyword hfused hresults⟩

end PgVectorHybridRetriever

namespace SearchHandler

variable (handler : SearchHandler) (tenantId : UUID) (query : SearchQuery) (t : Chunks)

theorem refuses_iff : (query.text.contains '\x00' ||
    (handler.embedder.dimension != embeddingDim &&
      t.rows.any (PgVectorHybridRetriever.inScope tenantId query.collectionId))) = true ↔
    PgVectorHybridRetriever.Refuses tenantId query (handler.embedder.embedOne query.text) t := by
  unfold PgVectorHybridRetriever.Refuses
  rw [handler.embedder.sized, Bool.or_eq_true, List.contains_iff_mem, Bool.and_eq_true,
    bne_iff_ne]

/-- Results out of Redis are answered with if each has a string for its text. -/
theorem loaded_status (results : List LoadedChunk) :
    (HttpResponse.ofResult ((results.mapM LoadedChunk.toScored).map .results)).status =
      if results.all (·.text.isString) then 200 else 500 := by
  by_cases hall : results.all (·.text.isString) = true
  · obtain ⟨scored, hscored⟩ := all_isString.mp hall
    rw [if_pos hall, hscored]
    rfl
  · rw [if_neg hall]
    cases hscored : results.mapM LoadedChunk.toScored with
    | error e =>
        show (HttpResponse.ofError e).status = 500
        rw [mapM_toScored_error hscored]
        rfl
    | ok scored => exact absurd (all_isString.mpr ⟨scored, hscored⟩) hall

/-- With a reply, a search succeeds on serialized lists of results and on the empty values. -/
theorem searchStatus_bytes {codec : BytesCodec} {raw : List UInt8} :
    searchStatus handler codec (.bytes raw) tenantId query t = 200 ↔
      IsResultList codec raw ∨ IsEmptyValue codec raw := by
  simp only [searchStatus, RedisReply.receive]
  constructor
  · intro h
    cases hloaded : deserializeBytes codec raw with
    | error e =>
        rw [hloaded] at h
        cases h
    | ok results =>
        rw [hloaded] at h
        by_cases hall : results.all (·.text.isString) = true
        · obtain ⟨ranked, hranked⟩ := all_isString.mp hall
          rw [mapM_toScored.mp hranked] at hloaded
          exact (isResultList_of_deserializeBytes hloaded).imp_right And.left
        · have hstatus : (if results.all (·.text.isString) then 200 else 500) = 200 := h
          rw [if_neg hall] at hstatus
          cases hstatus
  · rintro (hlist | hempty)
    · obtain ⟨results, hloaded⟩ := hlist.exists_deserializeBytes
      rw [hloaded]
      refine if_pos (List.all_eq_true.mpr fun chunk hchunk => ?_)
      obtain ⟨items, hjson, hitems⟩ := hlist
      obtain ⟨value, items', hjson', hiterate, hchunks⟩ := deserializeBytes_ok.mp hloaded
      cases hjson.unique hjson'
      cases hiterate
      obtain ⟨item, hitem, htoChunk⟩ := mem_of_mapM_ok hchunks hchunk
      obtain ⟨text, htext⟩ := (hitems item hitem).text
      obtain ⟨-, -, hchunkText, -⟩ := Json.toChunk_ok.mp htoChunk
      rw [htext] at hchunkText
      rw [← Except.ok.inj hchunkText]
      rfl
    · rw [hempty.deserializeBytes]
      rfl

open HttpResponse in
theorem handleReply_status (app : App) (get : RedisReply) (set : Outcome) (now : Instant)
    (redis : Redis) :
    (ofResult (((handler.handleReply app.codec get set now tenantId query t redis).1.bind
      (·.mapM LoadedChunk.toScored)).map .results)).status =
      searchStatus handler app.codec get tenantId query t := by
  unfold handleReply searchStatus
  cases hget : get.receive app.codec with
  | error e =>
      show (ofError e).status = 500
      rw [app.receive_error hget]
      rfl
  | ok cached =>
      cases cached with
      | some results => exact loaded_status results
      | none =>
          simp only
          unfold live
          by_cases h : PgVectorHybridRetriever.Refuses tenantId query
              (handler.embedder.embedOne query.text) t
          · rw [if_pos ((handler.refuses_iff tenantId query t).mpr h),
              PgVectorHybridRetriever.retrieve_refused h]
            rfl
          · obtain ⟨candidates, hretrieve⟩ := @PgVectorHybridRetriever.retrieve_accepted
              handler.server tenantId query _ handler.poolSize t h
            rw [if_neg fun hcondition => h ((handler.refuses_iff tenantId query t).mp hcondition),
              hretrieve]
            show (ofResult (((List.map ScoredChunk.loaded _).mapM LoadedChunk.toScored).map
              Answer.results)).status = _
            rw [mapM_toScored.mpr rfl]
            rfl

end SearchHandler

/-! ## Every request -/

namespace HttpApi

open HttpResponse

variable {F : Type} {http : HttpApi} {env : HttpEnv F} {id tenantId : UUID} {s : Service}

/-- A page that conforms is only refused for its offset, and that by the driver. -/
theorem page_eq {limit offset : Int} (h : (fieldWithin 1 maxLimit limit && 0 ≤ offset) = true)
    (sort : Option PageSort) : (offset < 2 ^ 63 ∧ ∃ request, page limit offset sort = .ok request) ∨
      (¬ offset < 2 ^ 63 ∧ page limit offset sort = .error .dataError) := by
  simp only [fieldWithin, Bool.and_eq_true, decide_eq_true_eq] at h
  obtain ⟨⟨hge, hle⟩, hoffset⟩ := h
  obtain ⟨request, hmake, hrequest⟩ : ∃ request, PageRequest.make limit offset sort = .ok request ∧
      request.offset = offset.toNat := by
    unfold PageRequest.make
    rw [dif_pos ⟨hge, hle⟩, if_neg (by omega)]
    exact ⟨_, rfl, rfl⟩
  unfold page
  rw [hmake]
  simp only [hrequest]
  by_cases hbig : offset < 2 ^ 63
  · exact .inl ⟨hbig, request, if_pos (by omega)⟩
  · exact .inr ⟨hbig, if_neg (by omega)⟩

/-- A query that is turned down is a client error. -/
theorem searchQuery_error {text : Str} {topK : Int} {collectionId : Option UUID} {e : Error}
    (h : SearchQuery.make text topK collectionId = .error e) : (ofError e).status = 422 := by
  unfold SearchQuery.make at h
  split at h
  · cases h
    rfl
  · split at h
    · cases h
    · cases h
      rfl

theorem answered_error {endpoint : Endpoint} {e : Error} (h : operation endpoint = .error e) :
    http.answered env id tenantId s endpoint = (.ofError e, s) := by
  unfold answered
  rw [h]

theorem answered_ok {endpoint : Endpoint} {op : Operation} (h : operation endpoint = .ok op) :
    http.answered env id tenantId s endpoint =
      (http.respond tenantId (op.perform http.api env.toApiEnv id tenantId s).1 endpoint,
        (op.perform http.api env.toApiEnv id tenantId s).2) := by
  unfold answered
  rw [h]

end HttpApi

namespace App

open HttpResponse HttpApi

variable {F : Type} {app : App} {env : AppEnv F} {id tenantId : UUID} {s : Backend}

theorem answered_error {endpoint : Endpoint} {e : Error} (h : operation endpoint = .error e) :
    app.answered env id tenantId s endpoint = (.ofError e, s) := by
  unfold answered
  rw [h]

theorem answered_ok {endpoint : Endpoint} {op : Operation} (h : operation endpoint = .ok op) :
    app.answered env id tenantId s endpoint =
      (app.respond tenantId (op.performReply app env id tenantId s).1 endpoint,
        (op.performReply app env id tenantId s).2) := by
  unfold answered
  rw [h]

theorem answered_status (hid : s.store.Unused id)
    (hblank : ∀ row ∈ s.store.chunks.rows, ¬ Blank row.text.value) {endpoint : Endpoint}
    (h : endpoint.conforms = true) : (app.answered env id tenantId s endpoint).1.status =
      endpoint.status app env tenantId s.store := by
  cases endpoint with
  | registerDocument body =>
      simp only [Endpoint.conforms, fieldLength, Bool.and_eq_true, decide_eq_true_eq,
        beq_iff_eq, List.all_eq_true] at h
      obtain ⟨⟨⟨⟨-, htitle⟩, -, huri⟩, hlength⟩, hhex⟩ := h
      exact RegisterDocumentHandler.handle_status hlength hhex htitle huri hid.documents
  | getDocument documentId => exact GetDocumentHandler.handle_status tenantId documentId _
  | listDocuments collectionId limit offset sortBy sortDir =>
      show _ = if offset < 2 ^ 63 then 200 else 500
      rcases page_eq h (some ⟨sortBy, sortDir⟩) with ⟨hsmall, request, hpage⟩ | ⟨hbig, hpage⟩
      · have hop : operation (.listDocuments collectionId limit offset sortBy sortDir) =
            .ok (.list request collectionId) := congrArg (Except.map _) hpage
        rw [answered_ok hop, if_pos hsmall]
        rfl
      · have hop : operation (.listDocuments collectionId limit offset sortBy sortDir) =
            .error .dataError := congrArg (Except.map _) hpage
        rw [answered_error hop, if_neg hbig]
        rfl
  | deleteDocument documentId => exact DeleteDocumentHandler.handle_status ⟨tenantId, documentId⟩ _ _
  | uploadContent documentId content =>
      exact UploadDocumentContentHandler.handle_status hid tenantId documentId content _
  | listChunks documentId =>
      obtain ⟨items, hitems⟩ := exists_listChunks hblank app.api.chunkTies tenantId documentId
      exact ofResult_ok hitems
  | listJobs jobStatus limit offset =>
      show _ = if offset < 2 ^ 63 && !jobStatus.any (·.contains '\x00') then 200 else 500
      rcases page_eq h none with ⟨hsmall, request, hpage⟩ | ⟨hbig, hpage⟩
      · have hop : operation (.listJobs jobStatus limit offset) =
            .ok (.listJobs request jobStatus) := congrArg (Except.map _) hpage
        rw [answered_ok hop, decide_eq_true hsmall, Bool.true_and]
        exact ListJobsHandler.handle_status app.api.jobTies tenantId request jobStatus _
      · have hop : operation (.listJobs jobStatus limit offset) = .error .dataError :=
          congrArg (Except.map _) hpage
        rw [answered_error hop, decide_eq_false hbig, Bool.false_and]
        rfl
  | search query collectionId topK =>
      show _ = match SearchQuery.make query topK collectionId with
        | .ok query => searchStatus app.api.search app.codec
            (env.reply (app.api.search.key tenantId query)) tenantId query s.store.chunks
        | .error _ => 422
      cases hmake : SearchQuery.make query topK collectionId with
      | error e =>
          have hop : operation (.search query collectionId topK) = .error e :=
            congrArg (Except.map _) hmake
          rw [answered_error hop]
          exact searchQuery_error hmake
      | ok searchQuery =>
          have hop : operation (.search query collectionId topK) = .ok (.search searchQuery) :=
            congrArg (Except.map _) hmake
          rw [answered_ok hop]
          exact SearchHandler.handleReply_status app.api.search tenantId searchQuery
            s.store.chunks app _ _ _ _
  | answer query collectionId topK =>
      simp only [Endpoint.conforms, fieldWithin, Bool.and_eq_true, decide_eq_true_eq] at h
      show _ = if strip query = [] then 422 else 200
      by_cases hblank : strip query = []
      · have hmake : SearchQuery.make query topK collectionId =
            .error (.validationError "query text must not be empty".toList) := dif_pos hblank
        have hop : operation (.answer query collectionId topK) =
            .error (.validationError "query text must not be empty".toList) :=
          congrArg (Except.map _) hmake
        rw [answered_error hop, if_pos hblank]
        rfl
      · obtain ⟨searchQuery, hmake⟩ : ∃ searchQuery,
            SearchQuery.make query topK collectionId = .ok searchQuery := by
          unfold SearchQuery.make
          rw [dif_neg hblank, dif_pos (show 1 ≤ topK ∧ topK ≤ (maxTopK : Int) from h.2)]
          exact ⟨_, rfl⟩
        have hop : operation (.answer query collectionId topK) = .ok (.search searchQuery) :=
          congrArg (Except.map _) hmake
        rw [answered_ok hop, if_neg hblank]
        unfold respond
        simp only [hmake]

theorem answered_unchanged (hid : s.store.Unused id) {endpoint : Endpoint}
    (h : 400 ≤ (app.answered env id tenantId s endpoint).1.status) :
    (app.answered env id tenantId s endpoint).2 = s := by
  cases hop : operation endpoint with
  | error e => rw [answered_error hop]
  | ok op =>
      rw [answered_ok hop] at h ⊢
      obtain ⟨e, herror⟩ : ∃ e, (op.performReply app env id tenantId s).1 = .error e := by
        cases endpoint with
        | answer query collectionId topK =>
            cases hmake : SearchQuery.make query topK collectionId with
            | error e =>
                have hop' : operation (.answer query collectionId topK) = .error e :=
                  congrArg (Except.map _) hmake
                rw [hop'] at hop
                cases hop
            | ok searchQuery =>
                unfold respond at h
                simp only [hmake] at h
                omega
        | _ => exact error_of_status h
      exact Operation.performReply_error hid herror

theorem issueToken_status (app : App) (env : AppEnv F) (body : TokenRequest) :
    (app.issueToken env body).status = app.tokenStatus env body := by
  unfold issueToken tokenStatus TokenRequest.conforms
  by_cases hsubject : body.subject = []
  · rw [if_pos hsubject, hsubject]
    rfl
  · have hlength : decide (1 ≤ body.subject.length) = true :=
      decide_eq_true (List.length_pos_iff.mpr hsubject)
    rw [if_neg hsubject, if_pos hlength]
    cases app.authDevTokenEnabled with
    | false => rfl
    | true =>
        rw [if_pos rfl, if_neg (show ¬ (!true) = true from Bool.false_ne_true)]
        by_cases hlate : seconds datetimeEnd ≤ env.now + seconds app.jwtAccessTtlSeconds
        · rw [if_pos hlate, JwtTokenIssuer.issue_late hlate]
          rfl
        · rw [if_neg hlate, JwtTokenIssuer.issue_eq hlate]
          unfold issuer
          cases env.encode _ app.verifier.secret app.verifier.algorithm with
          | none => rfl
          | some token => rfl

end App

namespace HttpApi

/-! ### Two callers -/

/-- A PyJWT that has seen a token of tenant 1 and one of tenant 2. -/
def helloJwt : PyJwt Unit where
  decode token _ _ issuer required :=
    (if token = "one".toList then some ⟨1⟩ else if token = "two".toList then some ⟨2⟩
      else none).bind fun tenantId : UUID =>
        let claims := JwtTokenIssuer.claims issuer tenantId "alice".toList ∅ 0 3600
        if ∀ claim ∈ required, (claims.get? claim).isSome then some claims else none
  codec := ⟨fun _ => [], fun _ => .error .infrastructure, fun _ => none, fun s => s,
    fun _ => none⟩
  reprFloat _ := []
  requires := by
    intro token secret algorithms issuer required claims h
    obtain ⟨tenantId, -, h⟩ := Option.bind_eq_some_iff.mp h
    simp only at h
    split at h
    · next hall =>
        cases h
        exact hall
    · cases h

noncomputable def helloHttp : HttpApi := ⟨System.helloApi, ⟨"secret".toList, "HS256".toList, []⟩, []⟩

def helloHttpEnv : HttpEnv Unit := ⟨System.helloEnv, helloJwt⟩

theorem helloJwt_identity {token : Str} {tenantId : UUID}
    (h : token = "one".toList ∧ tenantId = ⟨1⟩ ∨ token = "two".toList ∧ tenantId = ⟨2⟩) :
    getCurrentIdentity helloHttp.verifier helloJwt (some token) none =
      .ok ⟨tenantId, "alice".toList, ∅⟩ := by
  rcases h with ⟨rfl, rfl⟩ | ⟨rfl, rfl⟩
  · have hdecode : helloHttp.verifier.decode helloJwt "one".toList =
        some (JwtTokenIssuer.claims [] ⟨1⟩ "alice".toList ∅ 0 3600) := rfl
    exact JwtTokenVerifier.verify_issued hdecode
  · have hdecode : helloHttp.verifier.decode helloJwt "two".toList =
        some (JwtTokenIssuer.claims [] ⟨2⟩ "alice".toList ∅ 0 3600) := rfl
    exact JwtTokenVerifier.verify_issued hdecode

end HttpApi

namespace App

/-- The API over a Redis of empty values, with no endpoint for tokens. -/
noncomputable def helloApp : App where
  toHttpApi := HttpApi.helloHttp
  codec := emptyCodec
  decode h := by cases h
  loads h := by
    cases h
    rfl
  authDevTokenEnabled := false
  jwtAccessTtlSeconds := 3600

def helloAppEnv : AppEnv Unit where
  toHttpEnv := HttpApi.helloHttpEnv
  reply _ := .bytes []
  encode _ _ _ := none

end App

end Eka
