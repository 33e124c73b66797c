import Eka.Lib.Agree
import Eka.System.Api
import Eka.System.Settled

/-!
# The rows of other tenants

`complete`, `fail`, the flush of a session and the conflict target of `put` find their
rows by a job id or a document id alone. They stay within a tenant all the same: what a
call or a worker has in its hands names a document of its own tenant, and the rows that
hang on a document are its tenant's.
-/

namespace Eka

open Py Relational Transition

/-- The rows of the tenant are the same in both. -/
structure Store.Agrees (tenantId : UUID) (s₁ s₂ : Store) : Prop where
  documents : Table.Agree (fun row => row.tenantId = tenantId) s₁.documents s₂.documents
  contents : Table.Agree (fun row => row.tenantId = tenantId) s₁.contents s₂.contents
  chunks : Table.Agree (fun row => row.tenantId = tenantId) s₁.chunks s₂.chunks
  jobs : Table.Agree (fun row => row.tenantId = tenantId) s₁.jobs s₂.jobs

/-! ## Transactions for another tenant -/

namespace Store

variable {config : Config} {tenantId other : UUID} {s s' s'' : Store}

theorem Agrees.refl (tenantId : UUID) (s : Store) : s.Agrees tenantId s :=
  ⟨.refl _ _, .refl _ _, .refl _ _, .refl _ _⟩

theorem Agrees.trans (h : s.Agrees tenantId s') (h' : s'.Agrees tenantId s'') :
    s.Agrees tenantId s'' :=
  ⟨h.documents.trans h'.documents, h.contents.trans h'.contents, h.chunks.trans h'.chunks,
    h.jobs.trans h'.jobs⟩

theorem agrees_add {document : Document} (hother : document.tenantId ≠ tenantId)
    (h : onDocuments (Documents.addCommit document) s = .ok s') : s.Agrees tenantId s' := by
  obtain ⟨t, ht, rfl⟩ := Fallible.map_ok.mp h
  obtain ⟨uri, -, hins⟩ := Documents.addCommit_ok ht
  exact ⟨Table.agree_insert hins hother, .refl _ _, .refl _ _, .refl _ _⟩

/-- A flush writes to the row of its document. -/
theorem agrees_save {loaded : DocumentModel} {document : Document} {target : DocumentStatus}
    (hsaves : Documents.Saves loaded document target) (howned : s.documents.Owned loaded.id other)
    (hother : other ≠ tenantId)
    (h : onDocuments (Documents.saveCommit loaded document) s = .ok s') :
    s.Agrees tenantId s' := by
  obtain ⟨t, ht, rfl⟩ := Fallible.map_ok.mp h
  obtain ⟨now, events, rfl⟩ := hsaves.moved
  rw [Documents.saveCommit_statusChange] at ht
  cases ht
  refine ⟨Table.agree_update (Documents.moveTo_keepsKeys loaded target now) (fun _ => Iff.rfl) ?_,
    .refl _ _, .refl _ _, .refl _ _⟩
  intro row hrow hid
  obtain ⟨row', hrow', rfl⟩ := howned
  rw [← beq_iff_eq.mp hid, Documents.byId_of_mem hrow] at hrow'
  rw [Option.some.inj hrow']
  exact hother

/-- A `put` writes to the row of its document, whoever stored it. -/
theorem agrees_put {documentId : UUID} {content : Str} {now : Instant} (hother : other ≠ tenantId)
    (hrows : ∀ row ∈ s.contents.rows, row.documentId = documentId → row.tenantId = other)
    (h : onContents (SqlAlchemyContentStore.put other documentId content now) s = .ok s') :
    s.Agrees tenantId s' := by
  obtain ⟨t, ht, rfl⟩ := Fallible.map_ok.mp h
  obtain ⟨text, -, ht⟩ := Fallible.bind_ok.mp ht
  refine ⟨.refl _ _, ?_, .refl _ _, .refl _ _⟩
  cases hins : s.contents.insert ⟨documentId, other, text, now, now⟩ with
  | some t₁ =>
      simp only [hins, pure, Except.pure, Except.ok.injEq] at ht
      subst ht
      exact Table.agree_insert hins hother
  | none =>
      simp only [hins, pure, Except.pure, Except.ok.injEq] at ht
      subst ht
      refine Table.agree_update (SqlAlchemyContentStore.overwrite_keepsKeys text now)
        (fun _ => Iff.rfl) ?_
      intro row hrow hid
      rw [hrows row hrow (beq_iff_eq.mp hid)]
      exact hother

theorem agrees_enqueue {id documentId : UUID} {document : DocumentDTO} {now : Instant}
    (hother : other ≠ tenantId)
    (h : onJobs (UploadDocumentContentHandler.enqueue config id other documentId document now) s =
      .ok s') : s.Agrees tenantId s' := by
  obtain ⟨t, ht, rfl⟩ := Fallible.map_ok.mp h
  refine ⟨.refl _ _, .refl _ _, .refl _ _, ?_⟩
  rcases SqlAlchemyJobQueue.enqueue_ok ht with ⟨rfl, -⟩ | ⟨-, hins⟩
  · exact .refl _ _
  · exact Table.agree_insert hins hother

theorem agrees_storeChunks {job : IngestionJob} {newUuid : Nat → UUID} {text : Str}
    {now : Instant} (hother : job.tenantId ≠ tenantId)
    (h : onChunks (IngestDocumentHandler.storeChunks config job newUuid text now) s = .ok s') :
    s.Agrees tenantId s' := by
  obtain ⟨t, ht, rfl⟩ := Fallible.map_ok.mp h
  obtain ⟨rows, hrows, -, hcolumns⟩ := IngestDocumentHandler.storeChunks_ok ht
  refine ⟨.refl _ _, .refl _ _, ?_, .refl _ _⟩
  intro row htenant
  show row ∈ s.chunks.rows ↔ row ∈ t.rows
  rw [hrows, List.mem_append, List.mem_filter]
  constructor
  · intro hrow
    refine .inl ⟨hrow, ?_⟩
    simp [SqlAlchemyChunkRepository.ofDocument, htenant, Ne.symm hother]
  · rintro (hold | hnew)
    · exact hold.1
    · rw [(hcolumns row hnew).1] at htenant
      exact absurd htenant hother

/-- A statement on some rows of the queue, none of them the tenant's. -/
theorem agrees_jobs {t : Jobs} {q : UUID → Prop} [DecidablePred q]
    {f : IngestionJobModel → IngestionJobModel}
    (hrows : ∀ id, t.byId id = if q id then (s.jobs.byId id).map f else s.jobs.byId id)
    (htenant : ∀ row, (f row).tenantId = row.tenantId)
    (hother : ∀ id row, q id → s.jobs.byId id = some row → row.tenantId ≠ tenantId) :
    s.Agrees tenantId { s with jobs := t } := by
  refine ⟨.refl _ _, .refl _ _, .refl _ _, ?_⟩
  intro row hrow
  show row ∈ s.jobs.rows ↔ row ∈ t.rows
  have hmem : ∀ t : Jobs, row ∈ t.rows ↔ t.byId row.id = some row := fun t =>
    ⟨SqlAlchemyJobQueue.byId_of_mem, fun h => (SqlAlchemyJobQueue.byId_eq_some.mp h).1⟩
  rw [hmem, hmem, hrows]
  by_cases hq : q row.id
  · rw [if_pos hq]
    refine iff_of_false (fun h => hother row.id row hq h hrow) ?_
    intro h
    obtain ⟨old, hold, rfl⟩ := Option.map_eq_some_iff.mp h
    rw [htenant] at hrow
    exact hother _ old hq hold hrow
  · rw [if_neg hq]

end Store

/-! ## Whom a step acts for -/

def Request.tenantId : Request → UUID
  | .register command => command.tenantId
  | .delete command => command.tenantId
  | .upload tenantId _ _ => tenantId

/-- The tenant of a call that is going on. -/
def Call.tenantId : Call → Option UUID
  | .idle => none
  | .registering document => some document.tenantId
  | .deleting loaded _ => some loaded.tenantId
  | .uploading tenantId _ _ _ => some tenantId
  | .enqueuing tenantId _ _ => some tenantId

/-- A step of a call or of a worker on behalf of a tenant, or a claim of the tenant's jobs. -/
def System.ActsFor (s : System) (tenantId : UUID) : Label → Prop
  | .request _ request _ _ => request.tenantId = tenantId
  | .proceed c _ _ _ => (s.calls c).tenantId = some tenantId
  | .dequeue _ _ _ picked _ => ∀ id ∈ picked, ∀ row, s.store.jobs.byId id = some row →
      row.tenantId = tenantId
  | .advance w _ _ _ => ∃ phase job rest, s.workers w = .busy phase job rest ∧
      job.tenantId = tenantId
  | .exit _ => False

theorem RegisterDocumentHandler.lookup_tenantId {command : RegisterDocumentCommand} {id : UUID}
    {now : Instant} {t : Documents} {document : Document}
    (h : lookup command id now t = .ok (.inr document)) : document.tenantId = command.tenantId := by
  obtain ⟨contentHash, -, h⟩ := Fallible.bind_ok.mp h
  split at h
  · cases h
  · obtain ⟨built, hbuild, h⟩ := Fallible.bind_ok.mp h
    cases h
    obtain ⟨title, -, hbuild⟩ := Fallible.bind_ok.mp hbuild
    obtain ⟨sourceType, -, hbuild⟩ := Fallible.bind_ok.mp hbuild
    cases hbuild
    rfl

/-! ## Steps for another tenant -/

section Writes

variable {config : Config} {tenantId other : UUID} {s s' : Store}

theorem Call.Writes.agrees {call : Call} (hwrites : call.Writes config s s')
    (hlinked : s.Linked config) (hcall : call.Linked config s.documents)
    (htenant : call.tenantId = some other) (hother : other ≠ tenantId) : s.Agrees tenantId s' := by
  cases call with
  | idle => exact hwrites.elim
  | registering document =>
      cases htenant
      exact Store.agrees_add hother hwrites
  | deleting loaded document =>
      cases htenant
      exact Store.agrees_save hcall.1 hcall.2 hother hwrites
  | uploading tenant documentId content document =>
      cases htenant
      obtain ⟨now, hput⟩ := hwrites
      exact Store.agrees_put hother (hlinked.contents_tenant hcall.1.owned) hput
  | enqueuing tenant documentId document =>
      cases htenant
      obtain ⟨id, now, henqueue⟩ := hwrites
      exact Store.agrees_enqueue hother henqueue

theorem Phase.Writes.agrees {phase : Phase} {job : IngestionJob} {now : Instant}
    {newUuid : Nat → UUID} (hwrites : phase.Writes config job now newUuid s s')
    (hphase : phase.Linked job) (hdocument : s.documents.Owned job.documentId job.tenantId)
    (hjob : ∀ row, s.jobs.byId job.id = some row → row.tenantId = job.tenantId)
    (hother : job.tenantId ≠ tenantId) : s.Agrees tenantId s' := by
  have hrow : ∀ id row, id = job.id → s.jobs.byId id = some row → row.tenantId ≠ tenantId := by
    rintro id row rfl hrow
    rw [hjob row hrow]
    exact hother
  cases hwrites.written with
  | @saved _ loaded document t hsaving hsave =>
      obtain ⟨hid, target, -, hsaves⟩ := hphase.saves hsaving
      exact Store.agrees_save hsaves (hid ▸ hdocument) hother
        (Fallible.map_ok.mpr ⟨t, hsave, rfl⟩)
  | @chunked text t hstore =>
      exact Store.agrees_storeChunks hother (Fallible.map_ok.mpr ⟨t, hstore, rfl⟩)
  | completed =>
      exact Store.agrees_jobs (SqlAlchemyJobQueue.complete_byId job now s.jobs) (fun _ => rfl) hrow
  | failed exc =>
      refine Store.agrees_jobs (SqlAlchemyJobQueue.fail_byId job _ now s.jobs) ?_ hrow
      intro row
      exact congrArg IngestionJob.tenantId (SqlAlchemyJobQueue.failed_toJob job _ now row)

end Writes

namespace System

variable {config : Config} {s s' : System} {label : Label} {tenantId other : UUID}

/-- No step on behalf of a tenant changes a row of another one. -/
theorem step_agrees (h : Reachable (step config) init s) (hacts : s.ActsFor other label)
    (hother : other ≠ tenantId) (hstep : step config s label = some s') :
    s.store.Agrees tenantId s'.store := by
  have howned := reachable_owned h
  have hlinked := reachable_linked h
  cases step_cases hstep with
  | request => exact .refl tenantId s.store
  | proceed c id now outcome call store leads writes =>
      rcases writes with rfl | ⟨hwrites, -⟩
      · exact .refl tenantId s.store
      · exact hwrites.agrees hlinked.store (hlinked.calls c) hacts hother
  | dequeue w workerId batchSize picked now jobs t idle claimed =>
      obtain ⟨-, -, -, hrows⟩ := SqlAlchemyJobQueue.dequeue_eq_some claimed
      refine Store.agrees_jobs hrows (fun _ => rfl) ?_
      intro id row hpicked hrow
      rw [hacts id hpicked row hrow]
      exact hother
  | advance w now newUuid outcome phase job rest worker store busy leads writes =>
      obtain ⟨phase', job', rest', busy', rfl⟩ := hacts
      rw [busy] at busy'
      cases busy'
      rcases writes with rfl | ⟨hwrites, -⟩
      · exact .refl tenantId s.store
      · have hdocument := (held_described howned hlinked.store busy).owned
        refine hwrites.agrees (hlinked.workers w phase job rest busy) hdocument ?_ hother
        intro row hrow
        obtain ⟨row', hrow', hfits⟩ := held_row howned busy
        obtain rfl : row = row' := Option.some.inj (hrow.symm.trans hrow')
        exact hfits.subject.2.1
  | exit => exact hacts.elim

end System

/-! ## Requests of another tenant -/

/-- A search of the tenant finds the same in both. -/
def SearchHandler.CachesAgree (handler : SearchHandler) (tenantId : UUID)
    (cache₁ cache₂ : SearchCache) : Prop :=
  ∀ query : SearchQuery, cache₁.get? (handler.key tenantId query) =
    cache₂.get? (handler.key tenantId query)

/-- A search writes under keys that no search of another tenant reads. -/
theorem SearchHandler.handle_others (handler : SearchHandler) {tenantId other : UUID}
    (hother : other ≠ tenantId) (env : SearchEnv) (query : SearchQuery) (t : Chunks)
    (cache : SearchCache) :
    handler.CachesAgree tenantId cache (handler.handle env other query t cache).2 := by
  intro query'
  have hkey : handler.key tenantId query' ≠ handler.key other query :=
    fun h => hother (tenant_of_buildCacheKey h).symm
  unfold handle
  split
  · rfl
  · split
    · rfl
    · exact (RedisSearchCache.get?_set hkey _ _ _ _ _).symm

section Requests

variable {config : Config} {tenantId other : UUID} {s : Store}

theorem RegisterDocumentHandler.handle_others {command : RegisterDocumentCommand}
    (hother : command.tenantId ≠ tenantId) (id : UUID) (now : Instant) (s : Store) :
    s.Agrees tenantId { s with documents := (handle command id now s.documents).2 } := by
  unfold handle
  split
  · exact .refl tenantId s
  · exact .refl tenantId s
  · next document hlookup =>
      cases hadd : Documents.addCommit document s.documents with
      | error e => exact .refl tenantId s
      | ok t =>
          refine Store.agrees_add ?_ (Store.onDocuments_of_ok hadd)
          rw [lookup_tenantId hlookup]
          exact hother

theorem DeleteDocumentHandler.handle_others {command : DeleteDocumentCommand}
    (hother : command.tenantId ≠ tenantId) (now : Instant) (s : Store) :
    s.Agrees tenantId { s with documents := (handle command now s.documents).2 } := by
  unfold handle
  split
  · exact .refl tenantId s
  · next loaded document hread =>
      cases hsave : Documents.saveCommit loaded document s.documents with
      | error e => exact .refl tenantId s
      | ok t =>
          obtain ⟨hrow, hid, htenant, hsaves⟩ := read_saves hread
          refine Store.agrees_save hsaves ⟨loaded, ?_, htenant⟩ hother
            (Store.onDocuments_of_ok hsave)
          rw [hid]
          exact hrow

theorem UploadDocumentContentHandler.handle_others (hlinked : s.Linked config)
    (hother : other ≠ tenantId) (documentId : UUID) (content : Str) (id : UUID) (now : Instant) :
    s.Agrees tenantId (handle config other documentId content id now s).2 := by
  rw [handle_eq]
  split
  · exact .refl tenantId s
  · next document hcheck =>
      obtain ⟨row, hrow, htenant, -⟩ := check_ok hcheck
      split
      · exact .refl tenantId s
      · next contents hput =>
          have hcontents : s.Agrees tenantId { s with contents := contents } :=
            Store.agrees_put hother (hlinked.contents_tenant ⟨row, hrow, htenant⟩)
              (Store.onContents_of_ok hput)
          split
          · exact hcontents
          · next jobs henqueue =>
              exact hcontents.trans (Store.agrees_enqueue hother
                (Store.onJobs_of_ok (s := { s with contents := contents }) henqueue))

/-- No request of one tenant changes a row of another one. -/
theorem Request.perform_others (hlinked : s.Linked config) {request : Request}
    (hother : request.tenantId ≠ tenantId) (id : UUID) (now : Instant) :
    s.Agrees tenantId (request.perform config id now s) := by
  cases request with
  | register command => exact RegisterDocumentHandler.handle_others hother id now s
  | delete command => exact DeleteDocumentHandler.handle_others hother now s
  | upload tenant documentId content =>
      exact UploadDocumentContentHandler.handle_others hlinked hother documentId content id now

end Requests

/-- The rows of the tenant and what its searches find in the cache are the same in both. -/
structure Service.Agrees (api : Api) (tenantId : UUID) (s₁ s₂ : Service) : Prop where
  store : s₁.store.Agrees tenantId s₂.store
  cache : api.search.CachesAgree tenantId s₁.cache s₂.cache

/-- No operation of one tenant changes what belongs to another one. -/
theorem Operation.perform_others {api : Api} {s : Service} {tenantId other : UUID}
    (hlinked : s.store.Linked api.config) (hother : other ≠ tenantId) (env : ApiEnv) (id : UUID)
    (operation : Operation) : s.Agrees api tenantId (operation.perform api env id other s).2 := by
  constructor
  · rw [perform_store]
    cases hrequest : operation.request other with
    | none => exact .refl tenantId s.store
    | some request =>
        refine Request.perform_others hlinked ?_ id env.now
        cases operation <;> cases hrequest <;> exact hother
  · cases operation with
    | search query => exact api.search.handle_others hother env.search query _ s.cache
    | register => exact fun _ => rfl
    | get => exact fun _ => rfl
    | list => exact fun _ => rfl
    | delete => exact fun _ => rfl
    | upload => exact fun _ => rfl
    | listChunks => exact fun _ => rfl
    | listJobs => exact fun _ => rfl

end Eka
