import Eka.System.Liveness
import Eka.System.Recovery

/-!
# A job that is spared

Jobs fail, workers end, documents come and go; none of it holds up a job that is itself spared:
whoever has it does not end, the calls for it return, and nobody deletes its document. If the
document can be ingested, the job goes one way, whatever happens around it: into somebody's batch,
through `handle` phase by phase, and to COMPLETED, with the document INDEXED and the chunks of its
content. A job that is neither PENDING nor held is never touched again, and neither are the
chunks of its document.
-/

namespace Eka

open Py Relational Transition
open RecursiveCharacterChunker (split)

/-! ## The status of a document -/

/-- There is a document with this id and status. -/
def Documents.HasStatus (t : Documents) (documentId : UUID) (status : DocumentStatus) : Prop :=
  ∃ row, t.byId documentId = some row ∧ row.status = status

/-- `mark_ingesting` accepts the document. -/
def Documents.Ingestible (t : Documents) (documentId : UUID) : Prop :=
  ∃ status, t.HasStatus documentId status ∧ .ingesting ∈ allowedTransitions status

/-- A save of a document that is there. -/
theorem Documents.Saves.hasStatus {t t' : Documents} {loaded : DocumentModel} {document : Document}
    {target : DocumentStatus} {documentId : UUID} {row : DocumentModel}
    (h : Documents.Saves loaded document target)
    (hsave : Documents.saveCommit loaded document t = .ok t') (hid : loaded.id = documentId)
    (hrow : t.byId documentId = some row) : t'.HasStatus documentId target := by
  obtain ⟨row', hrow', -⟩ := h.grows hsave documentId row hrow
  obtain ⟨row₁, -, hstatus'⟩ := h.status hsave hrow'
  exact ⟨row', hrow', by rw [hstatus', if_pos hid.symm]⟩

namespace System

variable {config : Config} {s s' : System} {label : Label} {w : Nat}

/-! ## What every step keeps -/

/-- What holds of every reachable state and is kept by every step from any state. -/
structure Sound (config : Config) (s : System) : Prop where
  owned : s.queue.Owned
  linked : s.Linked config

theorem reachable_sound (h : Reachable (step config) init s) : s.Sound config :=
  ⟨reachable_owned h, reachable_linked h⟩

theorem step_sound (h : s.Sound config) (hstep : step config s label = some s') :
    s'.Sound config := by
  refine ⟨?_, (step_linked h.owned h.linked hstep).1⟩
  rcases step_simulates config s label s' hstep with hsame | ⟨m, hm⟩
  · rw [hsame]
    exact h.owned
  · exact QueueState.step_owned h.owned hm

/-- The step is not a call of a worker that is on this document. -/
def Elsewhere (s : System) (documentId : UUID) (label : Label) : Prop :=
  ∀ w now newUuid outcome phase job rest, label = .advance w now newUuid outcome →
    s.workers w = .busy phase job rest → job.documentId ≠ documentId

/-- Nobody but a worker that is on the document touches its chunks. -/
theorem Sound.ofDocument (hsound : s.Sound config) (hstep : step config s label = some s')
    {documentId : UUID} (helsewhere : s.Elsewhere documentId label) :
    s'.store.chunks.ofDocument documentId = s.store.chunks.ofDocument documentId := by
  cases step_cases hstep with
  | request => rfl
  | proceed c id now outcome call store leads writes =>
      rcases writes with rfl | ⟨hwrites, -⟩
      · rfl
      · exact congrArg (·.ofDocument documentId) hwrites.chunks
  | dequeue => rfl
  | advance w now newUuid outcome phase job rest worker store busy leads writes =>
      rcases writes with rfl | ⟨hwrites, -⟩
      · rfl
      · cases hwrites.written with
        | chunked ht =>
            have hne := helsewhere w now newUuid outcome _ job rest rfl busy
            rcases hsound.linked.store.ofDocument_storeChunks
              (held_described hsound.owned hsound.linked.store busy) ht documentId with
              ⟨-, hsame⟩ | ⟨heq, -⟩
            · exact hsame
            · exact absurd heq.symm hne
        | saved => rfl
        | completed => rfl
        | failed => rfl
  | exit => rfl

theorem has_busy {phase : Phase} {job : IngestionJob} {rest : List IngestionJob} {id : UUID}
    (h : s.workers w = .busy phase job rest) :
    s.Has w id ↔ id = job.id ∨ id ∈ rest.map (·.id) := by
  unfold Has
  rw [h, show (Worker.busy phase job rest).view = .busy phase.stage job rest from rfl,
    QueueWorker.ids_busy, List.mem_cons]

theorem has_next {jobs : List IngestionJob} {id : UUID} (h : s.workers w = .next jobs) :
    s.Has w id ↔ id ∈ jobs.map (·.id) := by
  unfold Has
  rw [h, Worker.view_next, QueueWorker.ids_next]

theorem has_of_workers {id : UUID} (h : s'.workers w = s.workers w) :
    s'.Has w id ↔ s.Has w id := by
  unfold Has
  rw [h]

/-- No job is twice in a batch. -/
theorem notMem_rest (howned : s.queue.Owned) {phase : Phase} {job : IngestionJob}
    {rest : List IngestionJob} (hbusy : s.workers w = .busy phase job rest) :
    job.id ∉ rest.map (·.id) := by
  have hdistinct : (s.workers w).view.ids.Nodup := (howned.owns w).nodup
  rw [hbusy, show (Worker.busy phase job rest).view = .busy phase.stage job rest from rfl,
    QueueWorker.ids_busy, List.nodup_cons] at hdistinct
  exact hdistinct.1

/-- What a run keeps about a document: its text, and a job of it. -/
structure Tracks (config : Config) (documentId : UUID) (text : Text) (id : UUID) (s : System) :
    Prop where
  sound : s.Sound config
  stored : ∃ content, s.store.contents.ofDocument documentId = some content ∧ content.text = text
  job : ∃ row, s.store.jobs.byId id = some row ∧ row.documentId = documentId

namespace Tracks

variable {documentId : UUID} {text : Text} {id : UUID}

theorem next (h : s.Tracks config documentId text id) (hcontents : s.store.KeepsContents s'.store)
    (hstep : step config s label = some s') : s'.Tracks config documentId text id := by
  refine ⟨step_sound h.sound hstep, ?_, ?_⟩
  · obtain ⟨content, hcontent, rfl⟩ := h.stored
    exact hcontents documentId content hcontent
  · obtain ⟨row, hrow, hdoc⟩ := h.job
    obtain ⟨row', hrow', hkeeps, -⟩ := step_keeps h.sound.owned hstep hrow
    exact ⟨row', hrow', (congrArg Prod.fst hkeeps.subject).trans hdoc⟩

theorem document (h : s.Tracks config documentId text id) {row : IngestionJobModel}
    (hrow : s.store.jobs.byId id = some row) : row.documentId = documentId := by
  obtain ⟨same, hsame, hdoc⟩ := h.job
  obtain rfl : row = same := Option.some.inj (hrow.symm.trans hsame)
  exact hdoc

/-- Whoever is on the document is on its job. -/
theorem current (h : s.Tracks config documentId text id) {phase : Phase} {job : IngestionJob}
    {rest : List IngestionJob} (hbusy : s.workers w = .busy phase job rest) :
    job.documentId = documentId ↔ job.id = id := by
  obtain ⟨row, hrow, hdoc⟩ := h.job
  obtain ⟨held, hheld, hfits⟩ := held_row h.sound.owned hbusy
  constructor
  · intro hjob
    have hsame : row = held := h.sound.linked.store.job_unique hrow hheld
      (hdoc.trans (hjob.symm.trans hfits.subject.1.symm))
    rw [← (SqlAlchemyJobQueue.byId_eq_some.mp hheld).2, ← hsame]
    exact (SqlAlchemyJobQueue.byId_eq_some.mp hrow).2
  · intro hid
    rw [hid, hrow] at hheld
    cases hheld
    exact hfits.subject.1.symm.trans hdoc

theorem elsewhere (h : s.Tracks config documentId text id)
    (hother : ∀ w now newUuid outcome phase job rest, label = .advance w now newUuid outcome →
      s.workers w = .busy phase job rest → job.id ≠ id) :
    s.Elsewhere documentId label := by
  intro w now newUuid outcome phase job rest hlabel hbusy hdoc
  exact hother w now newUuid outcome phase job rest hlabel hbusy ((h.current hbusy).mp hdoc)

/-- While nobody has the job, nobody is on the document. -/
theorem elsewhere_of_free (h : s.Tracks config documentId text id) (hfree : ∀ w, ¬ s.Has w id) :
    s.Elsewhere documentId label := by
  refine h.elsewhere ?_
  intro w now newUuid outcome phase job rest _ hbusy hid
  exact hfree w ((has_busy hbusy).mpr (.inl hid.symm))

end Tracks

/-! ## A job that nobody will take -/

/-- The job is at rest, and its document has these pieces for chunks. -/
structure Closed (row : IngestionJobModel) (pieces : List TextPiece) (s : System) : Prop where
  rest : s.queue.AtRest row
  pieces : (s.store.chunks.ofDocument row.documentId).map ChunkModel.piece = pieces

namespace Closed

variable {row : IngestionJobModel} {pieces : List TextPiece}

/-- Nobody is on the document of such a job. -/
theorem elsewhere (h : s.Closed row pieces) (hsound : s.Sound config) :
    s.Elsewhere row.documentId label := by
  intro w now newUuid outcome phase job rest _ hbusy hdoc
  obtain ⟨held, hheld, hfits⟩ := held_row hsound.owned hbusy
  have hsame : row = held := hsound.linked.store.job_unique h.rest.found hheld
    (hdoc.symm.trans hfits.subject.1.symm)
  have hid : row.id = job.id := by
    rw [hsame]
    exact (SqlAlchemyJobQueue.byId_eq_some.mp hheld).2
  exact h.rest.free w ((has_busy hbusy).mpr (.inl hid))

theorem next (h : s.Closed row pieces) (hsound : s.Sound config)
    (hstep : step config s label = some s') : s'.Closed row pieces := by
  refine ⟨step_atRest h.rest hstep, ?_⟩
  rw [hsound.ofDocument hstep (h.elsewhere hsound)]
  exact h.pieces

/-- It stays so, whatever else happens. -/
theorem run (h : s.Closed row pieces) (hsound : s.Sound config) {labels : List Label}
    (hrun : Transition.run (step config) s labels = some s') : s'.Closed row pieces := by
  induction labels generalizing s with
  | nil =>
      cases hrun
      exact h
  | cons label labels ih =>
      obtain ⟨mid, hstep, hrest⟩ := run_cons.mp hrun
      exact ih (h.next hsound hstep) (step_sound hsound hstep) hrest

end Closed

/-! ## A step that spares a job -/

/-- Who has the job goes on, the calls for it return, with new ids for its chunks, and nobody
    deletes its document. -/
structure Spares (config : Config) (documentId id : UUID) (s : System) (label : Label) : Prop where
  returns : ∀ w now newUuid outcome phase job rest, label = .advance w now newUuid outcome →
    s.workers w = .busy phase job rest → job.id = id → outcome = .returns
  fresh : ∀ w now newUuid outcome text job rest, label = .advance w now newUuid outcome →
    s.workers w = .busy (.handling (.fetched text)) job rest → job.id = id →
      HandleEnv.Fresh ⟨fun _ => outcome, fun _ => now, newUuid⟩ job.documentId
        (split config.chunking text.value).length s.store.chunks
  stays : ∀ w, s.Has w id → label ≠ .exit w
  -- a `fail` that raises ends the worker, and with it the rest of its batch
  reported : ∀ w now newUuid outcome exc job rest, label = .advance w now newUuid outcome →
    s.workers w = .busy (.raised exc) job rest → s.Has w id → outcome = .returns
  live : ∀ c callId now outcome loaded document, label = .proceed c callId now outcome →
    outcome.takesEffect = true → s.calls c = .deleting loaded document → loaded.id ≠ documentId

variable {documentId id : UUID}

theorem Spares.hasStatus (h : s.Spares config documentId id label) (hsound : s.Sound config)
    (hstep : step config s label = some s') (helsewhere : s.Elsewhere documentId label)
    {status : DocumentStatus} (hstatus : s.store.documents.HasStatus documentId status) :
    s'.store.documents.HasStatus documentId status := by
  obtain ⟨row, hrow, hstatus⟩ := hstatus
  obtain ⟨row', hrow', -⟩ := (step_linked hsound.owned hsound.linked hstep).2 documentId row hrow
  refine ⟨row', hrow', ?_⟩
  cases step_moves hsound.linked hstep hrow' with
  | stays old hold same =>
      obtain rfl : row = old := Option.some.inj (hrow.symm.trans hold)
      exact same.trans hstatus
  | added hnew => rw [hnew] at hrow; cases hrow
  | deleted c callId now outcome loaded document row isLabel effect call isRow =>
      exact absurd isRow (h.live c callId now outcome loaded document isLabel effect call)
  | moved w now newUuid outcome phase job rest target row isLabel effect busy writes isRow =>
      exact absurd isRow (helsewhere w now newUuid outcome phase job rest isLabel busy)

theorem Spares.ingestible (h : s.Spares config documentId id label) (hsound : s.Sound config)
    (hstep : step config s label = some s') (helsewhere : s.Elsewhere documentId label)
    (hingestible : s.store.documents.Ingestible documentId) :
    s'.store.documents.Ingestible documentId := by
  obtain ⟨status, hstatus, hallowed⟩ := hingestible
  exact ⟨status, h.hasStatus hsound hstep helsewhere hstatus, hallowed⟩

end System

/-! ## What the phases hold -/

/-- The chunks of the document are the pieces of the text. -/
def Store.Split (config : Config) (documentId : UUID) (text : Text) (s : Store) : Prop :=
  (s.chunks.ofDocument documentId).map ChunkModel.piece = split config.chunking text.value

/-- What holds while the job of an ingestible document is taken through `handle`. -/
def HandlerPhase.Ingests (config : Config) (documentId : UUID) (text : Text) (s : Store) :
    HandlerPhase → Prop
  | .start => s.documents.Ingestible documentId
  | .ingesting _ _ => s.documents.Ingestible documentId
  | .marked => s.documents.HasStatus documentId .ingesting
  | .fetched text' => s.documents.HasStatus documentId .ingesting ∧ text' = text
  | .stored => s.documents.HasStatus documentId .ingesting ∧ s.Split config documentId text
  | .indexing _ _ => s.documents.HasStatus documentId .ingesting ∧ s.Split config documentId text

/-- The same for the phases around it. -/
def Phase.Ingests (config : Config) (documentId : UUID) (text : Text) (s : Store) : Phase → Prop
  | .handling phase => phase.Ingests config documentId text s
  | .handled => s.documents.HasStatus documentId .indexed ∧ s.Split config documentId text
  | _ => False

/-- The phases ask for nothing but the status and the chunks. -/
theorem Phase.Ingests.keep {config : Config} {documentId : UUID} {text : Text} {s s' : Store}
    {phase : Phase} (h : phase.Ingests config documentId text s)
    (hstatus : ∀ status, s.documents.HasStatus documentId status →
      s'.documents.HasStatus documentId status)
    (hchunks : s'.chunks.ofDocument documentId = s.chunks.ofDocument documentId) :
    phase.Ingests config documentId text s' := by
  have hsplit : s.Split config documentId text → s'.Split config documentId text := by
    intro hpieces
    unfold Store.Split
    rw [hchunks]
    exact hpieces
  have hingestible : s.documents.Ingestible documentId → s'.documents.Ingestible documentId :=
    Exists.imp fun status => And.imp_left (hstatus status)
  cases phase with
  | handling phase =>
      cases phase with
      | start => exact hingestible h
      | ingesting => exact hingestible h
      | marked => exact hstatus _ h
      | fetched => exact ⟨hstatus _ h.1, h.2⟩
      | stored => exact ⟨hstatus _ h.1, hsplit h.2⟩
      | indexing => exact ⟨hstatus _ h.1, hsplit h.2⟩
  | handled => exact ⟨hstatus _ h.1, hsplit h.2⟩
  | raised => exact h.elim
  | deadLettered => exact h.elim
  | failing => exact h.elim

namespace HandlerPhase

variable {config : Config} {documentId : UUID} {text : Text} {s : Store} {job : IngestionJob}
  {now : Instant} {newUuid : Nat → UUID} {phase : HandlerPhase}

theorem exists_read {action : LifecycleAction} {status : DocumentStatus}
    (hjob : s.documents.Describes job.documentId job.tenantId job.collectionId
      job.documentVersion)
    (hstatus : s.documents.HasStatus job.documentId status)
    (hallowed : action.target ∈ allowedTransitions status) (now : Instant) :
    ∃ loaded document, await .returns (readDocument action job now) s =
      (.ok (loaded, document), s) := by
  obtain ⟨row, hrow, htenant, -⟩ := hjob
  obtain ⟨row', hrow', rfl⟩ := hstatus
  obtain rfl : row = row' := Option.some.inj (hrow.symm.trans hrow')
  obtain ⟨hmem, hid⟩ := Documents.byId_eq_some.mp hrow
  have hread := @DocumentLifecycleService.read_of_mem _ now _ _ hmem hallowed
  rw [htenant, hid] at hread
  exact ⟨_, _, (await_query_of_ok hread).trans rfl⟩

theorem exists_save {loaded : DocumentModel} {document : Document} {target : DocumentStatus}
    (hsaves : Documents.Saves loaded document target) (s : Store) :
    ∃ s', await .returns (saveDocument loaded document) s = (.ok ⟨⟩, s') := by
  obtain ⟨savedAt, t, ht, -⟩ := hsaves.saveCommit s.documents
  exact ⟨_, await_transact_returns (Store.onDocuments_of_ok ht)⟩

/-- Every call of such a `handle` returns. -/
theorem call_returns (hlinked : s.Linked config)
    (hjob : s.documents.Describes job.documentId job.tenantId job.collectionId
      job.documentVersion)
    (hphase : Phase.Linked job (.handling phase))
    (hstored : ∃ content, s.contents.ofDocument job.documentId = some content ∧
      content.text = text)
    (hstorable : config.Storable text.value)
    (hfresh : ∀ text, phase = .fetched text →
      HandleEnv.Fresh ⟨fun _ => .returns, fun _ => now, newUuid⟩ job.documentId
        (split config.chunking text.value).length s.chunks)
    (h : phase.Ingests config job.documentId text s) :
    ∃ next s', phase.call config job now newUuid .returns s = (.ok next, s') := by
  cases phase with
  | start =>
      obtain ⟨status, hstatus, hallowed⟩ := h
      obtain ⟨loaded, document, hread⟩ := @exists_read _ _ .markIngesting _ hjob hstatus
        hallowed now
      exact ⟨_, _, Saga.bind_of_ok hread⟩
  | ingesting loaded document =>
      obtain ⟨s', hsave⟩ := exists_save hphase.2 s
      exact ⟨_, _, Saga.bind_of_ok hsave⟩
  | marked =>
      obtain ⟨content, hcontent, rfl⟩ := hstored
      have hget : SqlAlchemyContentStore.get job.tenantId job.documentId s.contents =
          some content.text := by
        obtain ⟨hmem, hdoc⟩ := SqlAlchemyContentStore.ofDocument_eq_some.mp hcontent
        exact SqlAlchemyContentStore.get_eq_some.mpr
          ⟨content, hcontent, hlinked.contents_tenant hjob.owned content hmem hdoc, rfl⟩
      have hquery : await .returns (.query fun s =>
          .ok (SqlAlchemyContentStore.get job.tenantId job.documentId s.contents)) s =
          (if Outcome.returns = .returns then .ok (some content.text)
            else .error .infrastructure, s) := await_query_of_ok (by rw [hget])
      exact ⟨some (.fetched content.text), s, Saga.bind_of_ok hquery⟩
  | fetched text' =>
      obtain ⟨-, rfl⟩ := h
      obtain ⟨t, ht⟩ := IngestDocumentHandler.exists_storeChunks now (hfresh _ rfl)
        (hlinked.chunks_tenant hjob.owned) hstorable
      exact ⟨_, _, Saga.bind_of_ok (await_transact_returns (Fallible.map_ok.mpr ⟨t, ht, rfl⟩))⟩
  | stored =>
      obtain ⟨loaded, document, hread⟩ := @exists_read _ _ .markIndexed .ingesting hjob h.1
        (by decide) now
      exact ⟨_, _, Saga.bind_of_ok hread⟩
  | indexing loaded document =>
      obtain ⟨s', hsave⟩ := exists_save hphase.2 s
      exact ⟨_, _, Saga.bind_of_ok hsave⟩

theorem Leads.ingests {s' : Store} {next : Option HandlerPhase}
    (hleads : phase.Leads config job now newUuid s s' next) (hlinked : s.Linked config)
    (hjob : s.documents.Describes job.documentId job.tenantId job.collectionId
      job.documentVersion)
    (hphase : Phase.Linked job (.handling phase))
    (hstored : ∃ content, s.contents.ofDocument job.documentId = some content ∧
      content.text = text)
    (h : phase.Ingests config job.documentId text s) :
    Phase.Ingests config job.documentId text s' (next.elim .handled .handling) := by
  obtain ⟨row, hrow⟩ : ∃ row, s.documents.byId job.documentId = some row :=
    hjob.imp fun _ => And.left
  cases phase with
  | start =>
      obtain ⟨rfl, loaded, document, rfl, -⟩ := hleads
      exact h
  | ingesting loaded document =>
      obtain ⟨rfl, hwrites⟩ := hleads
      obtain ⟨t, ht, rfl⟩ := Fallible.map_ok.mp hwrites
      exact hphase.2.hasStatus ht hphase.1 hrow
  | marked =>
      obtain ⟨rfl, text', rfl, hget⟩ := hleads
      obtain ⟨content, hcontent, rfl⟩ := hstored
      obtain ⟨row, hrow, -, rfl⟩ := SqlAlchemyContentStore.get_eq_some.mp hget
      rw [hcontent] at hrow
      cases hrow
      exact ⟨h, rfl⟩
  | fetched text' =>
      obtain ⟨rfl, hwrites⟩ := hleads
      obtain ⟨t, ht, rfl⟩ := Fallible.map_ok.mp hwrites
      obtain ⟨hstatus, rfl⟩ := h
      refine ⟨hstatus, ?_⟩
      rcases hlinked.ofDocument_storeChunks hjob ht job.documentId with
        ⟨hne, -⟩ | ⟨-, hpieces⟩
      · exact absurd rfl hne
      · exact hpieces
  | stored =>
      obtain ⟨rfl, loaded, document, rfl, -⟩ := hleads
      exact h
  | indexing loaded document =>
      obtain ⟨rfl, hwrites⟩ := hleads
      obtain ⟨t, ht, rfl⟩ := Fallible.map_ok.mp hwrites
      exact ⟨hphase.2.hasStatus ht hphase.1 hrow, h.2⟩

end HandlerPhase

/-- A worker stays with its batch, unless `fail` raises. -/
theorem Worker.advance_stays (config : Config) (job : IngestionJob) (rest : List IngestionJob)
    (now : Instant) (newUuid : Nat → UUID) {outcome : Outcome} (s : Store) {phase : Phase}
    (hreported : ∀ exc, phase = .raised exc → outcome = .returns) :
    (∃ phase', (advance config job rest now newUuid outcome s phase).1 = .busy phase' job rest) ∨
      (advance config job rest now newUuid outcome s phase).1 = .next rest := by
  have hleads := Phase.advance_leads (show advance config job rest now newUuid outcome s phase =
    ((advance config job rest now newUuid outcome s phase).1,
      (advance config job rest now newUuid outcome s phase).2) from rfl)
  cases phase with
  | handling phase =>
      rcases hleads with ⟨next, -, hworker⟩ | ⟨exc, hworker⟩
      · exact .inl ⟨_, hworker⟩
      · exact .inl ⟨_, hworker⟩
  | handled =>
      rcases hleads with ⟨hworker, -⟩ | ⟨exc, hworker⟩
      · exact .inr hworker
      · exact .inl ⟨_, hworker⟩
  | raised exc =>
      obtain rfl := hreported exc rfl
      have hworker : (advance config job rest now newUuid .returns s (.raised exc)).1 =
          if SqlAlchemyJobQueue.deadLettered job then .busy .deadLettered job rest
            else next rest := rfl
      rw [hworker]
      split
      · exact .inl ⟨_, rfl⟩
      · exact .inr rfl
  | deadLettered =>
      rcases hleads with ⟨loaded, document, hworker, -⟩ | hworker
      · exact .inl ⟨_, hworker⟩
      · exact .inr hworker
  | failing loaded document => exact .inr hleads

/-! ## Where the job is -/

namespace System

/-- Where the job of an ingestible document is that is spared. -/
inductive Underway (config : Config) (documentId : UUID) (text : Text) (id : UUID) (s : System) :
    Prop
  | pending (row : IngestionJobModel) (isRow : s.store.jobs.byId id = some row)
      (status : row.status = .pending) (ingestible : s.store.documents.Ingestible documentId)
  | waiting (w : Nat) (phase : Phase) (job : IngestionJob) (rest : List IngestionJob)
      (busy : s.workers w = .busy phase job rest) (isJob : id ∈ rest.map (·.id))
      (ingestible : s.store.documents.Ingestible documentId)
  | working (w : Nat) (phase : Phase) (job : IngestionJob) (rest : List IngestionJob)
      (busy : s.workers w = .busy phase job rest) (isJob : id = job.id)
      (ingests : phase.Ingests config documentId text s.store)
  | closed (row : IngestionJobModel) (isRow : row.id = id) (completed : row.status = .completed)
      (closed : s.Closed row (split config.chunking text.value))
      (indexed : s.store.documents.HasStatus documentId .indexed)

variable {config : Config} {s s' : System} {label : Label} {documentId id : UUID} {text : Text}
  {w : Nat} {phase : Phase} {job : IngestionJob} {rest : List IngestionJob}

/-- A worker takes up its next job. -/
theorem Underway.of_next {jobs : List IngestionJob} (hworker : s.workers w = Worker.next jobs)
    (hmem : id ∈ jobs.map (·.id)) (hingestible : s.store.documents.Ingestible documentId) :
    s.Underway config documentId text id := by
  cases jobs with
  | nil => cases hmem
  | cons job rest =>
      rcases List.mem_cons.mp hmem with hid | hrest
      · exact .working w _ job rest hworker hid hingestible
      · exact .waiting w _ job rest hworker hrest hingestible

/-- Somebody has claimed the job. -/
theorem Underway.of_claimed (hnot : ¬ s.Has w id) (hhas : s'.Has w id)
    (hstep : step config s label = some s')
    (hingestible : s'.store.documents.Ingestible documentId) :
    s'.Underway config documentId text id := by
  obtain ⟨phase', job', rest', hbusy⟩ := hhas.busy
  have hmem := (has_busy hbusy).mp hhas
  have htaken : phase' = .handling .start → s'.Underway config documentId text id := by
    rintro rfl
    rcases hmem with hid | hrest
    · exact .working w _ job' rest' hbusy hid hingestible
    · exact .waiting w _ job' rest' hbusy hrest hingestible
  rcases busy_cases hstep hbusy with
    hbefore | hstart | ⟨now, newUuid, phase, job, rest, hbefore, hgoes⟩
  · exact absurd ((has_busy hbefore).mpr hmem) hnot
  · exact htaken hstart
  · cases hgoes with
    | next => exact htaken rfl
    | handling => exact absurd ((has_busy hbefore).mpr hmem) hnot
    | handled => exact absurd ((has_busy hbefore).mpr hmem) hnot
    | raised => exact absurd ((has_busy hbefore).mpr hmem) hnot
    | deadLettered => exact absurd ((has_busy hbefore).mpr hmem) hnot
    | failing => exact absurd ((has_busy hbefore).mpr hmem) hnot

/-- A job that waits for a worker is claimed or goes on waiting. -/
theorem underway_pending {row : IngestionJobModel} (hspares : s.Spares config documentId id label)
    (htracks : s.Tracks config documentId text id) (hrow : s.store.jobs.byId id = some row)
    (hstatus : row.status = .pending) (hingestible : s.store.documents.Ingestible documentId)
    (hstep : step config s label = some s') : s'.Underway config documentId text id := by
  have howned := htracks.sound.owned
  have hfree : ∀ w, ¬ s.Has w id := fun w hhas => howned.not_pending hhas hrow hstatus
  have hingestible' := hspares.ingestible htracks.sound hstep (htracks.elsewhere_of_free hfree)
    hingestible
  rcases step_pending howned hstep hrow hstatus with hclaimed | hrow'
  · obtain ⟨w, hw⟩ := hclaimed.held
    exact .of_claimed (hfree w) hw hstep hingestible'
  · exact .pending row hrow' hstatus hingestible'

/-- The worker that has the job makes a call, if the step is one of its own. -/
theorem Spares.advance (hspares : s.Spares config documentId id label)
    (hbusy : s.workers w = .busy phase job rest) (hhas : s.Has w id)
    (hlabel : label.worker = some w) (hstep : step config s label = some s') :
    ∃ now newUuid outcome, label = .advance w now newUuid outcome ∧
      s' = s.afterWorker w (Worker.advance config job rest now newUuid outcome s.store phase).1
        (Worker.advance config job rest now newUuid outcome s.store phase).2 := by
  cases label with
  | request => cases hlabel
  | proceed => cases hlabel
  | dequeue v workerId batchSize picked now =>
      cases hlabel
      simp only [step, hbusy] at hstep
      cases hstep
  | advance v now newUuid outcome =>
      cases hlabel
      rw [advance_step hbusy rfl] at hstep
      exact ⟨now, newUuid, outcome, rfl, (Option.some.inj hstep).symm⟩
  | exit v =>
      cases hlabel
      exact absurd rfl (hspares.stays w hhas)

/-- A job in the rest of a batch stays there, or its worker takes it up. -/
theorem underway_waiting (hspares : s.Spares config documentId id label)
    (htracks : s.Tracks config documentId text id) (hbusy : s.workers w = .busy phase job rest)
    (hmem : id ∈ rest.map (·.id)) (hingestible : s.store.documents.Ingestible documentId)
    (hstep : step config s label = some s') : s'.Underway config documentId text id := by
  have howned := htracks.sound.owned
  have hhas : s.Has w id := (has_busy hbusy).mpr (.inr hmem)
  have helsewhere : s.Elsewhere documentId label := by
    refine htracks.elsewhere ?_
    rintro v now newUuid outcome phase' job' rest' - hbusy' rfl
    by_cases hvw : v = w
    · subst hvw
      rw [hbusy] at hbusy'
      cases hbusy'
      exact notMem_rest howned hbusy hmem
    · exact howned.disjoint v w hvw ((has_busy hbusy').mpr (.inl rfl)) hhas
  have hingestible' := hspares.ingestible htracks.sound hstep helsewhere hingestible
  by_cases hlabel : label.worker = some w
  · obtain ⟨now, newUuid, outcome, rfl, hs'⟩ := hspares.advance hbusy hhas hlabel hstep
    have hreported : ∀ exc, phase = .raised exc → outcome = .returns := by
      rintro exc rfl
      exact hspares.reported w now newUuid outcome exc job rest rfl hbusy hhas
    rcases Worker.advance_stays config job rest now newUuid s.store hreported with
      ⟨phase', hworker⟩ | hworker
    · rw [hworker] at hs'
      exact .waiting w phase' job rest (hs' ▸ afterWorker_workers ..) hmem hingestible'
    · rw [hworker] at hs'
      exact .of_next (hs' ▸ afterWorker_workers ..) hmem hingestible'
  · exact .waiting w phase job rest ((step_workers hstep hlabel).trans hbusy) hmem hingestible'

/-- `complete` returns, and nobody has the job any more. -/
theorem closed_complete (hsound : s.Sound config) (hbusy : s.workers w = .busy .handled job rest)
    (hindexed : s.store.documents.HasStatus job.documentId .indexed)
    (hsplit : s.store.Split config job.documentId text) (now : Instant) :
    (s.afterWorker w (.next rest) { s.store with
      jobs := SqlAlchemyJobQueue.complete job now s.store.jobs }).Underway config job.documentId
        text job.id := by
  have howned := hsound.owned
  obtain ⟨row, hrow, hfits⟩ := held_row howned hbusy
  have hdoc : row.documentId = job.documentId := hfits.subject.1
  obtain ⟨-, hid⟩ := SqlAlchemyJobQueue.byId_eq_some.mp hrow
  refine .closed (SqlAlchemyJobQueue.completed now row) hid rfl ⟨⟨?_, nofun, ?_⟩, ?_⟩ hindexed
  · show Jobs.byId (SqlAlchemyJobQueue.complete job now s.store.jobs) row.id = _
    rw [SqlAlchemyJobQueue.complete_byId, if_pos hid, hid, hrow]
    rfl
  · intro v hv
    have hhas : System.Has _ v row.id := hv
    rw [hid] at hhas
    by_cases hvw : v = w
    · subst hvw
      exact notMem_rest howned hbusy ((has_next (afterWorker_workers ..)).mp hhas)
    · rw [has_of_workers (show _ = s.workers v from Function.update_of_ne hvw ..)] at hhas
      exact howned.disjoint v w hvw hhas ((has_busy hbusy).mpr (.inl rfl))
  · show (s.store.chunks.ofDocument row.documentId).map ChunkModel.piece = _
    rw [hdoc]
    exact hsplit

/-- The worker that is on the job makes its next call. -/
theorem underway_advance {now : Instant} {newUuid : Nat → UUID} {outcome : Outcome}
    (hspares : s.Spares config documentId id (.advance w now newUuid outcome))
    (htracks : s.Tracks config documentId text id) (hstorable : config.Storable text.value)
    (hbusy : s.workers w = .busy phase job rest) (hid : id = job.id)
    (h : phase.Ingests config documentId text s.store) :
    (s.afterWorker w (Worker.advance config job rest now newUuid outcome s.store phase).1
      (Worker.advance config job rest now newUuid outcome s.store phase).2).Underway config
        documentId text id := by
  have hlinked := htracks.sound.linked
  have hjob := held_described htracks.sound.owned hlinked.store hbusy
  have hphase := hlinked.workers w phase job rest hbusy
  obtain rfl := (htracks.current hbusy).mpr hid.symm
  obtain rfl := hspares.returns w now newUuid outcome phase job rest rfl hbusy hid.symm
  cases phase with
  | handling phase =>
      have hfresh : ∀ text, phase = .fetched text →
          HandleEnv.Fresh ⟨fun _ => .returns, fun _ => now, newUuid⟩ job.documentId
            (split config.chunking text.value).length s.store.chunks := by
        rintro text rfl
        exact hspares.fresh w now newUuid .returns text job rest rfl hbusy hid.symm
      obtain ⟨next, store, hcall⟩ := HandlerPhase.call_returns hlinked.store hjob hphase
        htracks.stored hstorable hfresh h
      have hingests := (HandlerPhase.call_ok hcall).ingests hlinked.store hjob hphase
        htracks.stored h
      have hadvance : Worker.advance config job rest now newUuid .returns s.store
          (.handling phase) = (.busy (next.elim .handled .handling) job rest, store) := by
        unfold Worker.advance
        simp only [hcall]
        cases next <;> rfl
      rw [hadvance]
      exact .working w _ job rest (afterWorker_workers s w _ store) hid hingests
  | handled =>
      rw [hid]
      exact closed_complete htracks.sound hbusy h.1 h.2 now
  | raised => exact h.elim
  | deadLettered => exact h.elim
  | failing => exact h.elim

/-- The job that a worker is on is worked on, or stays in its hands. -/
theorem underway_working (hspares : s.Spares config documentId id label)
    (htracks : s.Tracks config documentId text id) (hstorable : config.Storable text.value)
    (hbusy : s.workers w = .busy phase job rest) (hid : id = job.id)
    (h : phase.Ingests config documentId text s.store)
    (hstep : step config s label = some s') : s'.Underway config documentId text id := by
  have hhas : s.Has w id := (has_busy hbusy).mpr (.inl hid)
  by_cases hlabel : label.worker = some w
  · obtain ⟨now, newUuid, outcome, rfl, rfl⟩ := hspares.advance hbusy hhas hlabel hstep
    exact underway_advance hspares htracks hstorable hbusy hid h
  · have helsewhere : s.Elsewhere documentId label := by
      refine htracks.elsewhere ?_
      rintro v now newUuid outcome phase' job' rest' rfl hbusy' hid'
      have hvw : v ≠ w := fun heq => hlabel (congrArg some heq)
      exact htracks.sound.owned.disjoint v w hvw ((has_busy hbusy').mpr (.inl hid'.symm)) hhas
    refine .working w phase job rest ((step_workers hstep hlabel).trans hbusy) hid
      (h.keep (fun status => hspares.hasStatus htracks.sound hstep helsewhere) ?_)
    exact htracks.sound.ofDocument hstep helsewhere

/-- The step lemma: the job goes on, or stays where it is. -/
theorem Spares.underway (hspares : s.Spares config documentId id label)
    (htracks : s.Tracks config documentId text id) (hstorable : config.Storable text.value)
    (h : s.Underway config documentId text id) (hstep : step config s label = some s') :
    s'.Underway config documentId text id := by
  cases h with
  | pending row isRow status ingestible =>
      exact underway_pending hspares htracks isRow status ingestible hstep
  | waiting w phase job rest busy isJob ingestible =>
      exact underway_waiting hspares htracks busy isJob ingestible hstep
  | working w phase job rest busy isJob ingests =>
      exact underway_working hspares htracks hstorable busy isJob ingests hstep
  | closed row isRow completed closed indexed =>
      have helsewhere : s.Elsewhere documentId label :=
        htracks.elsewhere_of_free (isRow ▸ closed.rest.free)
      exact .closed row isRow completed (closed.next htracks.sound hstep)
        (hspares.hasStatus htracks.sound hstep helsewhere indexed)

end System

end Eka
