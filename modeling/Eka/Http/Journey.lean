import Eka.Http.History
import Eka.System.Recovery
import Eka.System.Replacement
import Eka.System.Indexing
import Eka.Documents.Validation
import Eka.Retrieval.Preference

/-!
# The way of one document

`scripts/smoke_test.py`: register a document, upload its text, wait for a worker, look at the
document, its chunks and its job. The way is open from every reachable state, whatever else is in
the database and in whatever state other jobs and other workers are, and at its end the tenant
finds the document's chunks. Three stages: the two requests leave a pending job behind, an attempt
at the job without faults indexes the document, and the reads show what is there then.
-/

namespace Eka

open Py Relational Transition Fallible
open RecursiveCharacterChunker (split)

/-! ## The requests -/

namespace UploadDocumentContentHandler

variable {config : Config} {tenantId documentId id : UUID} {content : Str} {now : Instant}
  {s : Store} {row : DocumentModel}

/-- The first upload for a document stores the text and enqueues a job. -/
theorem handle_first (hrow : s.documents.byId documentId = some row)
    (htenant : row.tenantId = tenantId) (hlive : row.status ≠ .deleted)
    (hhash : config.sha256 content = row.contentHash.value) (hnul : '\x00' ∉ content)
    (hnone : ∀ job ∈ s.jobs.rows, job.documentId ≠ documentId) (hid : s.Unused id) :
    ∃ contents jobs, handle config tenantId documentId content id now s =
        (.ok ⟨⟩, { s with contents := contents, jobs := jobs }) ∧
      (∃ stored, contents.ofDocument documentId = some stored ∧ stored.text.value = content) ∧
      (∀ other, other ≠ documentId → contents.ofDocument other = s.contents.ofDocument other) ∧
      s.jobs.insert (SqlAlchemyJobQueue.newRow id tenantId documentId row.collectionId row.version
        config.maxAttempts now) = some jobs := by
  have hselect : Documents.select tenantId documentId s.documents = some row :=
    Documents.select_eq_some_byId.mpr ⟨hrow, htenant, hlive⟩
  have hcheck : check config tenantId documentId content s.documents =
      .ok (.fromAggregate row.toDomain) := by
    unfold check Documents.get
    rw [hselect]
    exact if_neg (not_not_intro hhash)
  obtain ⟨contents, hput⟩ :=
    @SqlAlchemyContentStore.exists_put tenantId documentId content hnul now s.contents
  obtain ⟨stored, hstored, hcontents⟩ := SqlAlchemyContentStore.put_ok hput
  obtain ⟨jobs, henqueue⟩ :=
    exists_enqueue config hid tenantId documentId (.fromAggregate row.toDomain) now
  have hinsert : s.jobs.insert (SqlAlchemyJobQueue.newRow id tenantId documentId row.collectionId
      row.version config.maxAttempts now) = some jobs := by
    rcases SqlAlchemyJobQueue.enqueue_ok henqueue with ⟨-, job, hjob, hdocument, -⟩ | ⟨-, hinsert⟩
    · exact absurd hdocument (hnone job hjob)
    · exact hinsert
  refine ⟨contents, jobs, ?_, ⟨_, (hcontents documentId).trans (if_pos rfl), ?_⟩,
    fun other hne => (hcontents other).trans (if_neg hne), hinsert⟩
  · rw [handle_eq, hcheck]
    simp only [hput, henqueue]
  · unfold SqlAlchemyContentStore.upserted
    cases s.contents.ofDocument documentId with
    | none => exact hstored
    | some old => exact hstored

end UploadDocumentContentHandler

/-! ## The attempt -/

/-- Nothing faults, `complete` included. -/
structure ProcessEnv.Faultless (env : ProcessEnv) : Prop where
  handle : env.toHandleEnv.Faultless
  complete : env.complete = .returns

/-- An attempt without faults at the job of a registered document indexes it. -/
theorem IngestionWorker.process_indexes {config : Config} {env : ProcessEnv} {job : IngestionJob}
    {s : Store} {row : DocumentModel} {text : Text} (henv : env.Faultless)
    (hlinked : s.Linked config)
    (hjob : s.documents.Describes job.documentId job.tenantId job.collectionId job.documentVersion)
    (hrow : s.documents.byId job.documentId = some row) (hstatus : row.status = .registered)
    (htext : SqlAlchemyContentStore.get job.tenantId job.documentId s.contents = some text)
    (hfresh : env.Fresh job.documentId (split config.chunking text.value).length s.chunks)
    (hstorable : config.Storable text.value) :
    ∃ s', process config env job s = (.ok .completed, s') ∧
      (∃ row', s'.documents.byId job.documentId = some row' ∧ row'.tenantId = job.tenantId ∧
        row'.status = .indexed) ∧
      (s'.chunks.ofDocument job.documentId).map ChunkModel.piece =
        split config.chunking text.value ∧
      s'.jobs = SqlAlchemyJobQueue.complete job env.settledAt s.jobs ∧
      (∀ id, id ≠ job.documentId → s'.documents.byId id = s.documents.byId id) ∧
      s'.contents = s.contents ∧
      ∀ chunk : ChunkModel, chunk.documentId ≠ job.documentId →
        (chunk ∈ s'.chunks.rows ↔ chunk ∈ s.chunks.rows) := by
  have hallowed : DocumentStatus.ingesting ∈ allowedTransitions row.status := by
    rw [hstatus]
    decide
  have hcompletes := (henv.handle.completes_iff htext hfresh).mpr hstorable
  rcases IngestDocumentHandler.handle_marked env.toHandleEnv hlinked hjob hrow hallowed
    henv.handle.marks with ⟨-, text', s₁, htext', heq, hattempted, hpieces⟩ | ⟨hnot, -⟩
  · obtain rfl : text = text' := Option.some.inj (htext.symm.trans htext')
    rw [IngestDocumentHandler.answer, if_pos (henv.handle _)] at heq
    have hframed := (IngestDocumentHandler.handle_ends config env.toHandleEnv job s).framed
    rw [heq] at hframed
    obtain ⟨row', hrow', hindexed⟩ := hattempted.status
    obtain ⟨same, hsame, htenant, -⟩ := hattempted.describes
    obtain rfl : row' = same := Option.some.inj (hrow'.symm.trans hsame)
    refine ⟨{ s₁ with
      jobs := SqlAlchemyJobQueue.complete job env.settledAt s₁.jobs }, ?_,
      ⟨row', hrow', htenant, hindexed⟩, hpieces, ?_, hframed.documents, hattempted.contents,
      hattempted.others⟩
    · refine process_of_ok (u := ⟨⟩) ?_
      unfold handleAndComplete
      rw [Saga.bind_of_ok heq, henv.complete]
      rfl
    · rw [hattempted.jobs]
  · exact absurd hcompletes hnot

/-! ## The search -/

/-- A search of the collection of a document, or of all of them, has its chunks in scope. -/
theorem Store.Linked.inScope {config : Config} {s : Store} (h : s.Linked config)
    {chunk : ChunkModel} (hchunk : chunk ∈ s.chunks.rows) {row : DocumentModel}
    (hrow : s.documents.byId chunk.documentId = some row) {tenantId : UUID}
    (htenant : row.tenantId = tenantId) {collectionId : Option UUID}
    (hcollection : ∀ collection ∈ collectionId, collection = row.collectionId) :
    PgVectorHybridRetriever.inScope tenantId collectionId chunk = true := by
  obtain ⟨owner, howner, hchunkTenant, hchunkCollection, -⟩ := h.chunks chunk hchunk
  obtain rfl : row = owner := Option.some.inj (hrow.symm.trans howner)
  unfold PgVectorHybridRetriever.inScope
  rw [← hchunkTenant, htenant, beq_self_eq_true, Bool.true_and]
  cases collectionId with
  | none => rfl
  | some collection =>
      exact beq_iff_eq.mpr (hchunkCollection.symm.trans (hcollection collection rfl).symm)

/-! ## Where the document is -/

/-- A document waits for a worker: it is registered, its text is stored and its job is pending. -/
structure Store.Waits (s : Store) (tenantId id jobId : UUID) (content : Str) : Prop where
  document : ∃ row, s.documents.byId id = some row ∧ row.tenantId = tenantId ∧
    row.status = .registered
  text : ∃ text, SqlAlchemyContentStore.get tenantId id s.contents = some text ∧
    text.value = content
  job : ∃ row, s.jobs.byId jobId = some row ∧ row.status = .pending ∧ row.documentId = id ∧
    row.tenantId = tenantId

/-- Nothing has changed but the document, what belongs to it and its job. -/
structure Store.Around (id jobId : UUID) (s s' : Store) : Prop where
  documents : ∀ other, other ≠ id → s'.documents.byId other = s.documents.byId other
  contents : ∀ other, other ≠ id → s'.contents.ofDocument other = s.contents.ofDocument other
  chunks : ∀ chunk : ChunkModel, chunk.documentId ≠ id →
    (chunk ∈ s'.chunks.rows ↔ chunk ∈ s.chunks.rows)
  jobs : ∀ other, other ≠ jobId → s'.jobs.byId other = s.jobs.byId other

theorem Store.Around.trans {id jobId : UUID} {s s' s'' : Store} (h : s.Around id jobId s')
    (h' : s'.Around id jobId s'') : s.Around id jobId s'' where
  documents other hne := (h'.documents other hne).trans (h.documents other hne)
  contents other hne := (h'.contents other hne).trans (h.contents other hne)
  chunks chunk hne := (h'.chunks chunk hne).trans (h.chunks chunk hne)
  jobs other hne := (h'.jobs other hne).trans (h.jobs other hne)

namespace System

variable {config : Config} {σ : System} {w : Nat} {tenantId id jobId : UUID} {content : Str}

/-- A worker that has nothing else to do takes the job and is done with it. -/
theorem exists_served (h : Reachable (step config) init σ) (hidle : σ.workers w = .idle)
    (hwaits : σ.store.Waits tenantId id jobId content) {env : ProcessEnv} (henv : env.Faultless)
    (hfresh : env.Fresh id (split config.chunking content).length σ.store.chunks)
    (hstorable : config.Storable content) :
    ∃ labels σ', run (step config) σ labels = some σ' ∧ σ'.workers w = .idle ∧
      σ'.calls = σ.calls ∧ σ'.store.Served config tenantId id jobId content ∧
      σ.store.Around id jobId σ'.store ∧
      ∃ job, σ'.Closed job (split config.chunking content) ∧ job.status = .completed ∧
        job.id = jobId ∧ job.documentId = id ∧ job.tenantId = tenantId := by
  obtain ⟨row, hrow, htenant, hstatus⟩ := hwaits.document
  obtain ⟨text, htext, rfl⟩ := hwaits.text
  obtain ⟨jobRow, hjobRow, hpending, rfl, rfl⟩ := hwaits.job
  have hlinked := (reachable_linked h).store
  have hdescribes := hlinked.jobs jobId jobRow hjobRow
  obtain ⟨-, hjobId⟩ := SqlAlchemyJobQueue.byId_eq_some.mp hjobRow
  obtain ⟨jobs, hdequeue⟩ := SqlAlchemyJobQueue.exists_dequeue [] hjobRow hpending
  have hclaim : step config σ (.dequeue w [] 1 [jobId] jobRow.availableAt) =
      some (σ.afterWorker w (.busy (.handling .start) jobRow.toJob [])
        { σ.store with jobs := jobs }) := by
    rw [dequeue_step hidle hdequeue]
    rfl
  have hsame := SqlAlchemyJobQueue.sameSubjects_dequeue hdequeue
  obtain ⟨-, -, -, hjobs⟩ := SqlAlchemyJobQueue.dequeue_eq_some hdequeue
  obtain ⟨s', hprocess, hdocument, hpieces, hjobs', hothers, hcontents, hchunks⟩ :=
    @IngestionWorker.process_indexes config env jobRow.toJob { σ.store with jobs := jobs } row text
      henv (hlinked.updateJobs hsame) hdescribes hrow hstatus htext hfresh hstorable
  obtain ⟨labels, -, hrun⟩ := @process_advances config _ _ [] _ env
    (afterWorker_workers σ w (.busy (.handling .start) jobRow.toJob [])
      { σ.store with jobs := jobs })
  rw [afterWorker_store, afterWorker_afterWorker, hprocess] at hrun
  have hjobs'' : ∀ other, s'.jobs.byId other = if other = jobId then
      ((σ.store.jobs.byId other).map (SqlAlchemyJobQueue.claim [] jobRow.availableAt)).map
        (SqlAlchemyJobQueue.completed env.settledAt) else σ.store.jobs.byId other := by
    intro other
    rw [hjobs', SqlAlchemyJobQueue.complete_byId, hjobs other,
      show jobRow.toJob.id = jobId from hjobId]
    simp only [List.mem_singleton]
    split
    · rfl
    · rfl
  have hjob : s'.jobs.byId jobId = some (SqlAlchemyJobQueue.completed env.settledAt
      (SqlAlchemyJobQueue.claim [] jobRow.availableAt jobRow)) := by
    rw [hjobs'' jobId, if_pos rfl, hjobRow]
    rfl
  -- nobody has had the job but this worker, who is through with it
  have hfree : ∀ v, jobId ∉ ((σ.afterWorker w (.next []) s').workers v).view.ids := by
    intro v hv
    by_cases hvw : v = w
    · subst hvw
      rw [afterWorker_workers] at hv
      cases hv
    · rw [show (σ.afterWorker w (.next []) s').workers v = σ.workers v from
        Function.update_of_ne hvw ..] at hv
      exact (reachable_owned h).not_pending hv hjobRow hpending
  refine ⟨_, _, run_cons.mpr ⟨_, hclaim, hrun⟩, afterWorker_workers .., rfl,
    ⟨hdocument, hpieces, ⟨_, hjob, rfl⟩⟩,
    ⟨hothers, fun other _ => congrArg (·.ofDocument other) hcontents, hchunks,
      fun other hne => (hjobs'' other).trans (if_neg hne)⟩,
    ⟨SqlAlchemyJobQueue.completed env.settledAt (SqlAlchemyJobQueue.claim [] jobRow.availableAt
      jobRow), ⟨⟨?_, (by intro hstatus; cases hstatus), ?_⟩, hpieces⟩, rfl, hjobId, rfl, rfl⟩⟩
  · rw [← hjobId] at hjob
    exact hjob
  · rw [← hjobId] at hfree
    exact hfree

/-- Unless it is deleted, the document of a job that is COMPLETED is served. -/
theorem Closed.served_of_live {s : System} {job : IngestionJobModel}
    (h : s.Closed job (split config.chunking content)) (hreach : Reachable (step config) init s)
    (hcompleted : job.status = .completed) (hid : job.id = jobId)
    (hdocument : job.documentId = id) (htenant : job.tenantId = tenantId)
    (hlive : ∀ row, s.store.documents.byId id = some row → row.status ≠ .deleted) :
    s.store.Served config tenantId id jobId content := by
  subst hid hdocument htenant
  -- only a delete takes the document of a COMPLETED job away
  obtain ⟨row, hrow, hstatus⟩ :=
    (reachable_settled hreach).completed job.id job h.rest.found hcompleted
  have hindexed : s.store.documents.HasStatus job.documentId .indexed :=
    ⟨row, hrow, hstatus.resolve_right (hlive row hrow)⟩
  exact h.served (reachable_sound hreach) hcompleted hindexed

end System

/-! ## What is sent -/

/-- A document that the service takes, and its text. -/
structure Submission (config : Config) where
  body : RegisterDocumentRequest
  content : Str
  conforms : (Endpoint.registerDocument body).conforms = true
  titled : strip body.title ≠ []
  sourced : ∃ t ∈ SourceType.all, t.value = body.sourceType
  noNul : '\x00' ∉ body.title ∧ '\x00' ∉ body.sourceUri ∧ '\x00' ∉ content
  nonempty : content ≠ []
  digest : config.sha256 content = body.contentHash

namespace Submission

variable {config : Config} (submission : Submission config)

/-- What the registration of a tenant is handed to the handler as. -/
def command (tenantId : UUID) : RegisterDocumentCommand :=
  ⟨tenantId, submission.body.collectionId, submission.body.title, submission.body.sourceType,
    submission.body.sourceUri, submission.body.contentHash⟩

/-- The registration creates a document, unless the tenant has one of the digest. -/
theorem creates {tenantId id : UUID} {t : Documents}
    (hnone : ¬ (submission.command tenantId).HashStored t) (hfresh : ∀ row ∈ t.rows, row.id ≠ id)
    (now : Instant) : (submission.command tenantId).Creates id now t := by
  have hconforms := submission.conforms
  simp only [Endpoint.conforms, fieldLength, Bool.and_eq_true, decide_eq_true_eq, beq_iff_eq,
    List.all_eq_true] at hconforms
  obtain ⟨⟨⟨⟨-, htitle⟩, -, huri⟩, hlength⟩, hhex⟩ := hconforms
  have hre := RegisterDocumentHandler.sha256Re_of_hex hlength hhex
  have hnul : '\x00' ∉ strip submission.body.title := by
    obtain ⟨front, back, -, -, hstrip⟩ := exists_strip submission.body.title
    intro hmem
    refine submission.noNul.1 ?_
    rw [hstrip]
    exact List.mem_append_left _ (List.mem_append_right _ hmem)
  exact ((submission.command tenantId).creates_or_dataError hre hnone hfresh
    ⟨submission.titled, (length_strip_le _).trans htitle, submission.sourced⟩).1
      ⟨hlength, hnul, (RegisterDocumentHandler.varchar_isSome_iff huri).mpr submission.noNul.2.1⟩

/-- What the router hands to the handler. -/
def registration : Operation :=
  .register submission.body.collectionId submission.body.title submission.body.sourceType
    submission.body.sourceUri submission.body.contentHash

/-- The registration is answered with the new document. -/
theorem perform_registration {tenantId id : UUID} {s : Service}
    (hnone : ¬ (submission.command tenantId).HashStored s.store.documents)
    (hid : s.store.Unused id) (api : Api) (env : ApiEnv) :
    ∃ dto t row, submission.registration.perform api env id tenantId s =
        (.ok (.registered dto), { s with store := { s.store with documents := t } }) ∧
      s.store.documents.insert row = some t ∧ dto.id = id ∧ row.id = id ∧
      row.tenantId = tenantId ∧ row.contentHash.value = submission.body.contentHash ∧
      row.status = .registered := by
  obtain ⟨dto, t, row, hhandle, hinsert, hdto, hrowId, htenant, -, -, hhash, hstatus⟩ :=
    submission.creates hnone hid.documents env.now
  refine ⟨dto, t, row, ?_, hinsert, hdto, hrowId, htenant, hhash, hstatus⟩
  unfold registration Operation.perform
  simp only
  rw [show RegisterDocumentHandler.handle ⟨tenantId, _, _, _, _, _⟩ id env.now _ = _ from hhandle]
  rfl

end Submission

namespace HttpApi

variable {F : Type} {http : HttpApi} {env env' : HttpEnv F} {id : UUID} {s : Service}
  {request : HttpRequest} {identity : AuthenticatedIdentity} {bearer header : Option Str}

/-- A request that conforms, of a caller that is known. -/
theorem serve_ok (hcaller : getCurrentIdentity http.verifier env.jwt request.bearer request.header =
    .ok identity) (hconforms : request.endpoint.conforms = true) {op : Operation}
    (hop : operation request.endpoint = .ok op) :
    http.serve env id s request =
      (http.respond identity.tenantId (op.perform http.api env.toApiEnv id identity.tenantId s).1
        request.endpoint, (op.perform http.api env.toApiEnv id identity.tenantId s).2) := by
  unfold serve
  rw [hcaller]
  simp only
  rw [if_pos hconforms, answered_ok hop]

/-! ## The way -/

/-- Both requests are accepted, and leave the document waiting for a worker. -/
theorem submit (submission : Submission http.api.config) {σ : System}
    (h : Reachable (System.step http.api.config) System.init σ) {c : Nat}
    (hidle : σ.calls c = .idle)
    (hcaller : getCurrentIdentity http.verifier env.jwt bearer header = .ok identity)
    (hcaller' : getCurrentIdentity http.verifier env'.jwt bearer header = .ok identity)
    {jobId : UUID} (hid : σ.store.Unused id) (hjobId : σ.store.Unused jobId) (hne : id ≠ jobId)
    (hnone : ¬ (submission.command identity.tenantId).HashStored σ.store.documents)
    (cache : SearchCache) :
    ∃ (dto : DocumentDTO) (σ₁ σ₂ : System), dto.id = id ∧
      http.serve env id ⟨σ.store, cache⟩ ⟨bearer, header, .registerDocument submission.body⟩ =
        (⟨201, .answer (.registered dto)⟩, ⟨σ₁.store, cache⟩) ∧
      http.serve env' jobId ⟨σ₁.store, cache⟩ ⟨bearer, header, .uploadContent id
        submission.content⟩ = (⟨202, .answer .accepted⟩, ⟨σ₂.store, cache⟩) ∧
      (∃ labels, run (System.step http.api.config) σ labels = some σ₂) ∧
      σ₂.workers = σ.workers ∧ σ₂.store.chunks = σ.store.chunks ∧
      σ₂.store.Waits identity.tenantId id jobId submission.content ∧
      σ.store.Around id jobId σ₂.store := by
  obtain ⟨dto, t, row, hregister, hinsert, hdto, hrowId, htenant, hhash, hstatus⟩ :=
    @Submission.perform_registration http.api.config submission identity.tenantId id
      ⟨σ.store, cache⟩ hnone hid http.api env.toApiEnv
  obtain ⟨labels₁, hrun₁⟩ := System.operation_run hidle env.toApiEnv id identity.tenantId cache
    submission.registration
  rw [hregister] at hrun₁
  have hrow : t.byId id = some row := by rw [Documents.byId_insert hinsert, if_pos hrowId]
  -- no job of before is the document's: its document was there before
  have hfirst : ∀ job ∈ σ.store.jobs.rows, job.documentId ≠ id := by
    intro job hjob hsame
    obtain ⟨old, hold, -⟩ := (System.reachable_linked h).store.jobs job.id job
      (SqlAlchemyJobQueue.byId_of_mem hjob)
    obtain ⟨hmem, holdId⟩ := Documents.byId_eq_some.mp hold
    exact hid.documents old hmem (holdId.trans hsame)
  have hunused : Store.Unused { σ.store with documents := t } jobId := by
    refine ⟨?_, hjobId.jobs⟩
    intro other hother
    rcases (Table.mem_insert hinsert).mp hother with hold | rfl
    · exact hjobId.documents other hold
    · exact hrowId ▸ hne
  obtain ⟨contents, jobs, hupload, ⟨stored, hstored, hcontent⟩, hcontents, hjob⟩ :=
    @UploadDocumentContentHandler.handle_first http.api.config identity.tenantId id jobId
      submission.content env'.now { σ.store with documents := t } row hrow htenant
      (by rw [hstatus]; decide) (submission.digest.trans hhash.symm) submission.noNul.2.2 hfirst
      hunused
  have haccepted : Operation.perform http.api env'.toApiEnv jobId identity.tenantId
      ⟨{ σ.store with documents := t }, cache⟩ (.upload id submission.content) =
        (.ok .accepted, ⟨{ σ.store with
          documents := t
          contents := contents
          jobs := jobs }, cache⟩) := by
    unfold Operation.perform
    simp only [hupload]
    rfl
  obtain ⟨labels₂, hrun₂⟩ := @System.operation_run http.api { σ with
    store := { σ.store with documents := t } } c hidle env'.toApiEnv jobId identity.tenantId cache
    (.upload id submission.content)
  rw [haccepted] at hrun₂
  have hrun := run_append.mpr ⟨_, hrun₁, hrun₂⟩
  have hlinked := (System.reachable_linked (h.trans_run hrun)).store
  have hcontentTenant : stored.tenantId = identity.tenantId :=
    (hlinked.contents id stored hstored).owned.tenant ⟨row, hrow, htenant⟩
  have hjobRow : jobs.byId jobId = some (SqlAlchemyJobQueue.newRow jobId identity.tenantId id
      row.collectionId row.version http.api.config.maxAttempts env'.now) := by
    rw [SqlAlchemyJobQueue.byId_insert hjob]
    exact if_pos rfl
  have hserved : http.serve env id ⟨σ.store, cache⟩
      ⟨bearer, header, .registerDocument submission.body⟩ =
        (⟨201, .answer (.registered dto)⟩, ⟨{ σ.store with documents := t }, cache⟩) := by
    rw [@serve_ok F http env id _ _ identity hcaller submission.conforms submission.registration
      rfl, hregister]
    rfl
  have hconforms : (Endpoint.uploadContent id submission.content).conforms = true :=
    decide_eq_true (List.length_pos_of_ne_nil submission.nonempty)
  have hserved' : http.serve env' jobId ⟨{ σ.store with documents := t }, cache⟩
      ⟨bearer, header, .uploadContent id submission.content⟩ =
        (⟨202, .answer .accepted⟩, ⟨{ σ.store with
          documents := t
          contents := contents
          jobs := jobs }, cache⟩) := by
    rw [@serve_ok F http env' jobId _ _ identity hcaller' hconforms
      (.upload id submission.content) rfl, haccepted]
    rfl
  refine ⟨dto, { σ with store := { σ.store with documents := t } },
    { σ with
      store := { σ.store with
        documents := t
        contents := contents
        jobs := jobs } },
    hdto, hserved, hserved', ⟨_, hrun⟩, rfl, rfl, ⟨⟨row, hrow, htenant, hstatus⟩, ⟨stored.text,
      SqlAlchemyContentStore.get_eq_some.mpr ⟨stored, hstored, hcontentTenant, rfl⟩, hcontent⟩,
      ⟨_, hjobRow, rfl, rfl, rfl⟩⟩, ⟨?_, hcontents, fun _ _ => Iff.rfl, ?_⟩⟩
  · intro other hother
    rw [Documents.byId_insert hinsert, if_neg (by rw [hrowId]; exact hother.symm)]
  · intro other hother
    rw [SqlAlchemyJobQueue.byId_insert hjob]
    exact if_neg hother.symm

/-! ## What is shown -/

/-- What the caller is shown of an indexed document: its status, the pieces of its text in their
    order, and every piece in a search of its collection that has room for it. -/
structure Shown (http : HttpApi) (env : HttpEnv F) (bearer header : Option Str) (tenantId : UUID)
    (s : Store) (id : UUID) (content : Str) : Prop where
  document : ∀ fresh cache, ∃ dto,
    http.serve env fresh ⟨s, cache⟩ ⟨bearer, header, .getDocument id⟩ =
      (⟨200, .answer (.found dto)⟩, ⟨s, cache⟩) ∧
    dto.id = id ∧ dto.status = "indexed".toList
  chunks : ∀ fresh cache, ∃ items,
    http.serve env fresh ⟨s, cache⟩ ⟨bearer, header, .listChunks id⟩ =
      (⟨200, .answer (.chunks items)⟩, ⟨s, cache⟩) ∧
    items.map (fun item => (⟨item.ordinal, item.text⟩ : TextPiece)) =
      split http.api.config.chunking content
  search : ∀ fresh cache (query : SearchQuery),
    RedisSearchCache.get (http.api.search.key tenantId query) env.search.now env.search.get cache =
      none →
    '\x00' ∉ query.text →
    (∀ row, s.documents.byId id = some row → ∀ collection ∈ query.collectionId,
      collection = row.collectionId) →
    (s.chunks.rows.filter
      (PgVectorHybridRetriever.inScope tenantId query.collectionId)).length ≤
        min query.topK http.api.search.poolSize →
    ∃ results cache',
      http.serve env fresh ⟨s, cache⟩
        ⟨bearer, header, .search query.text query.collectionId query.topK⟩ =
          (⟨200, .answer (.results results)⟩, ⟨s, cache'⟩) ∧
      ∀ piece ∈ split http.api.config.chunking content,
        ∃ result ∈ results, result.documentId = id ∧ result.text = piece.text

/-- An indexed document is shown to its tenant, in every reachable state. -/
theorem shown_of_served {σ : System}
    (h : Reachable (System.step http.api.config) System.init σ)
    (hcaller : getCurrentIdentity http.verifier env.jwt bearer header = .ok identity)
    {jobId : UUID} {content : Str}
    (hserved : σ.store.Served http.api.config identity.tenantId id jobId content)
    (hdimension : http.api.search.embedder.dimension = embeddingDim) :
    http.Shown env bearer header identity.tenantId σ.store id content where
  document fresh cache := by
    obtain ⟨row, hrow, htenant, hstatus⟩ := hserved.document
    have hlive : row.status ≠ .deleted := by
      rw [hstatus]
      decide
    have hselect : Documents.select identity.tenantId id σ.store.documents = some row :=
      Documents.select_eq_some_byId.mpr ⟨hrow, htenant, hlive⟩
    refine ⟨.fromAggregate row.toDomain, ?_, (Documents.byId_eq_some.mp hrow).2,
      congrArg DocumentStatus.value hstatus⟩
    rw [@serve_ok F http env fresh _ _ identity hcaller rfl (.get id) rfl]
    unfold Operation.perform GetDocumentHandler.handle Documents.get
    simp only
    rw [hselect]
    rfl
  chunks fresh cache := by
    obtain ⟨row, hrow, htenant, -⟩ := hserved.document
    have hrows := (System.reachable_linked h).store.filter_ofDocument ⟨row, hrow, htenant⟩
    obtain ⟨items, hitems, hmap, -⟩ := Store.listChunks_of_rows hrows
      (Store.pairwise_of_pieces hserved.chunks)
      (fun row hrow => System.reachable_notBlank h row (List.mem_filter.mp hrow).1)
      http.api.chunkTies
    refine ⟨items, ?_, hmap.trans hserved.chunks⟩
    rw [@serve_ok F http env fresh _ _ identity hcaller rfl (.listChunks id) rfl]
    unfold Operation.perform
    simp only [hitems]
    rfl
  search fresh cache query hmiss hnul hscope hroom := by
    obtain ⟨htopK, hpool⟩ := Nat.le_min.mp hroom
    obtain ⟨results, hresults, hfound⟩ := http.api.search.handle_finds env.search hmiss hdimension
      hnul hpool htopK
    have hmake : SearchQuery.make query.text query.topK query.collectionId = .ok query := by
      unfold SearchQuery.make
      rw [dif_neg query.notBlank, dif_pos ⟨by exact_mod_cast query.topKPos,
        by exact_mod_cast query.topKMax⟩]
      rfl
    have hconforms : (Endpoint.search query.text query.collectionId query.topK).conforms =
        true := by
      have hpositive : 1 ≤ query.text.length := by
        refine List.length_pos_of_ne_nil ?_
        intro hnil
        exact query.notBlank (by rw [hnil]; rfl)
      have hlow := query.topKPos
      have hhigh : query.topK ≤ 50 := query.topKMax
      simp only [Endpoint.conforms, fieldWithin, Bool.and_eq_true, decide_eq_true_eq]
      omega
    refine ⟨results, (http.api.search.handle env.search identity.tenantId query σ.store.chunks
      cache).2, ?_, ?_⟩
    · have hop : operation (.search query.text query.collectionId query.topK) =
          .ok (.search query) := congrArg (Except.map Operation.search) hmake
      rw [@serve_ok F http env fresh ⟨σ.store, cache⟩ ⟨bearer, header, .search _ _ _⟩ identity
        hcaller hconforms _ hop]
      unfold Operation.perform
      simp only [hresults]
      rfl
    · intro piece hpiece
      rw [← hserved.chunks] at hpiece
      obtain ⟨row, hrow, rfl⟩ := List.mem_map.mp hpiece
      obtain ⟨hmem, hmatch⟩ := List.mem_filter.mp hrow
      obtain rfl := beq_iff_eq.mp hmatch
      obtain ⟨owner, howner, htenant, -⟩ := hserved.document
      obtain ⟨result, hresult, -, hof, htext⟩ := hfound row hmem
        ((System.reachable_linked h).store.inScope hmem howner htenant (hscope owner howner))
      exact ⟨result, hresult, hof, htext⟩

def helloSubmission : Submission helloHttp.api.config where
  body := ⟨⟨2⟩, "Hello".toList, "upload".toList, "s3://b/hello".toList, helloDigest⟩
  content := "hello".toList
  conforms := by decide
  titled := by decide
  sourced := ⟨.upload, by decide, rfl⟩
  noNul := by decide
  nonempty := by decide
  digest := rfl

/-- Nothing faults. -/
def helloProcessing : ProcessEnv where
  faults _ := .returns
  clock _ := 8
  newUuid i := ⟨i⟩
  complete := .returns
  fail := .returns
  failedRead := .returns
  failedCommit := .returns
  settledAt := 9

theorem helloProcessing_fresh : helloProcessing.Fresh ⟨10⟩
    (split helloConfig.chunking helloSubmission.content).length System.init.store.chunks := by
  have hlength : (split helloConfig.chunking helloSubmission.content).length = 1 := rfl
  rw [hlength]
  constructor
  · intro i j hi hj _
    omega
  · intro i _ chunk hchunk
    cases hchunk

end HttpApi

end Eka
