import Mathlib.Logic.Function.Basic
import Eka.Ingestion.Pipeline
import Eka.Ingestion.QueueSystem

/-!
# The running system

Any number of API calls and worker processes over one database. A step is a read or the
commit of a transaction (what is awaited before a commit shows nowhere, and the `DELETE`
of the chunk transaction cannot meet another one, since a document has one job and a job
one holder). Every step may raise, with or without having taken effect, and a worker may
exit between any two.

The transactions are those of the handlers: `await`, `query` and `transact` on the same
functions, with the position in the handler as a value in between.
-/

namespace Eka

open Py Relational Transition

/-- Where `handle` stands (`pipeline.py:41-75`): before the read or the commit of
    `mark_ingesting`, before `content.get`, before the chunk transaction, before the read or the
    commit of `mark_indexed`. -/
inductive HandlerPhase where
  | start
  | ingesting (loaded : DocumentModel) (document : Document)
  | marked
  | fetched (text : Text)
  | stored
  | indexing (loaded : DocumentModel) (document : Document)
  deriving DecidableEq

/-- Where `_process` stands (`worker.py:73-90`): in `handle`, before `complete`, before `fail`,
    before the read or the commit of `mark_failed`. -/
inductive Phase where
  | handling (phase : HandlerPhase)
  | handled
  | raised (exc : Error)
  | deadLettered
  | failing (loaded : DocumentModel) (document : Document)
  deriving DecidableEq

inductive Worker where
  | idle
  | busy (phase : Phase) (job : IngestionJob) (rest : List IngestionJob)
  | exited
  deriving DecidableEq

/-- The API operations that write. -/
inductive Request where
  | register (command : RegisterDocumentCommand)
  | delete (command : DeleteDocumentCommand)
  | upload (tenantId documentId : UUID) (content : Str)
  deriving DecidableEq

/-- An API call between its first read and its end: before the commit of a register or delete,
    before the content transaction or the `enqueue` of an upload. -/
inductive Call where
  | idle
  | registering (document : Document)
  | deleting (loaded : DocumentModel) (document : Document)
  | uploading (tenantId documentId : UUID) (content : Str) (document : DocumentDTO)
  | enqueuing (tenantId documentId : UUID) (document : DocumentDTO)
  deriving DecidableEq

/-- The commit of a session that loaded a row and saves the aggregate. -/
def saveDocument (loaded : DocumentModel) (document : Document) : Saga Store Error PUnit :=
  .transact (Store.onDocuments (Documents.saveCommit loaded document))

/-- The read of a lifecycle transaction. -/
def readDocument (action : LifecycleAction) (job : IngestionJob) (now : Instant) :
    Saga Store Error (DocumentModel × Document) :=
  .query fun s =>
    DocumentLifecycleService.read action job.tenantId job.documentId now s.documents

/-- One read or commit of `handle`, and where it leads; `none` when `handle` has returned. -/
def HandlerPhase.call (config : Config) (job : IngestionJob) (now : Instant)
    (newUuid : Nat → UUID) (outcome : Outcome) :
    HandlerPhase → Saga Store Error (Option HandlerPhase)
  | .start => do
      let (loaded, document) ← await outcome (readDocument .markIngesting job now)
      return some (.ingesting loaded document)
  | .ingesting loaded document => do
      await outcome (saveDocument loaded document)
      return some .marked
  | .marked => do
      let text ← await outcome (.query fun s =>
        .ok (SqlAlchemyContentStore.get job.tenantId job.documentId s.contents))
      match text with
      | none => .raise (.contentMissingError "no stored content for document".toList)
      | some text => return some (.fetched text)
  | .fetched text => do
      await outcome (.transact (Store.onChunks
        (IngestDocumentHandler.storeChunks config job newUuid text.value now)))
      return some .stored
  | .stored => do
      let (loaded, document) ← await outcome (readDocument .markIndexed job now)
      return some (.indexing loaded document)
  | .indexing loaded document => do
      await outcome (saveDocument loaded document)
      return none

namespace Worker

/-- The loop of `_drain_once` on the rest of the batch (`worker.py:69-71`). -/
def next : List IngestionJob → Worker
  | [] => .idle
  | job :: rest => .busy (.handling .start) job rest

/-- One read or commit of `_process` (`worker.py:73-90`). -/
def advance (config : Config) (job : IngestionJob) (rest : List IngestionJob) (now : Instant)
    (newUuid : Nat → UUID) (outcome : Outcome) (s : Store) : Phase → Worker × Store
  | .handling phase =>
      match phase.call config job now newUuid outcome s with
      | (.ok (some phase'), s') => (.busy (.handling phase') job rest, s')
      | (.ok none, s') => (.busy .handled job rest, s')
      | (.error exc, s') => (.busy (.raised exc) job rest, s')
  | .handled =>
      match await outcome (.transact (Store.onJobs fun t =>
          .ok (SqlAlchemyJobQueue.complete job now t))) s with
      | (.ok _, s') => (next rest, s')
      | (.error exc, s') => (.busy (.raised exc) job rest, s')
  | .raised exc =>
      match await outcome (.transact (Store.onJobs fun t =>
          .ok (SqlAlchemyJobQueue.fail job (config.repr exc) now t).2)) s with
      | (.ok _, s') =>
          (if SqlAlchemyJobQueue.deadLettered job then .busy .deadLettered job rest
            else next rest, s')
      | (.error _, s') => (.exited, s')
  | .deadLettered =>
      match await outcome (readDocument .markFailed job now) s with
      | (.ok (loaded, document), s') => (.busy (.failing loaded document) job rest, s')
      | (.error _, s') => (next rest, s')
  | .failing loaded document => (next rest, (await outcome (saveDocument loaded document) s).2)

end Worker

namespace Call

/-- The first read of an API call; a call that raises there, or finds the document it was to
    register, is over. -/
def start (config : Config) (id : UUID) (now : Instant) (s : Store) : Request → Call
  | .register command =>
      match RegisterDocumentHandler.lookup command id now s.documents with
      | .ok (.inr document) => .registering document
      | _ => .idle
  | .delete command =>
      match DeleteDocumentHandler.read command now s.documents with
      | .ok (loaded, document) => .deleting loaded document
      | .error _ => .idle
  | .upload tenantId documentId content =>
      match UploadDocumentContentHandler.check config tenantId documentId content s.documents with
      | .ok document => .uploading tenantId documentId content document
      | .error _ => .idle

/-- One commit of an API call. -/
def advance (config : Config) (id : UUID) (now : Instant) (outcome : Outcome) (s : Store) :
    Call → Option (Call × Store)
  | .idle => none
  | .registering document =>
      some (.idle, (await outcome (.transact (Store.onDocuments
        (Documents.addCommit document))) s).2)
  | .deleting loaded document => some (.idle, (await outcome (saveDocument loaded document) s).2)
  | .uploading tenantId documentId content document =>
      match await outcome (.transact (Store.onContents
          (SqlAlchemyContentStore.put tenantId documentId content now))) s with
      | (.ok _, s') => some (.enqueuing tenantId documentId document, s')
      | (.error _, s') => some (.idle, s')
  | .enqueuing tenantId documentId document =>
      some (.idle, (await outcome (.transact (Store.onJobs
        (UploadDocumentContentHandler.enqueue config id tenantId documentId document now))) s).2)

end Call

/-- The database, the worker processes and the API calls. -/
structure System where
  store : Store
  workers : Nat → Worker
  calls : Nat → Call

inductive Label where
  | request (c : Nat) (request : Request) (id : UUID) (now : Instant)
  | proceed (c : Nat) (id : UUID) (now : Instant) (outcome : Outcome)
  | dequeue (w : Nat) (workerId : Str) (batchSize : Nat) (picked : List UUID) (now : Instant)
  | advance (w : Nat) (now : Instant) (newUuid : Nat → UUID) (outcome : Outcome)
  | exit (w : Nat)

namespace System

def init : System := ⟨Store.empty, fun _ => .idle, fun _ => .idle⟩

def step (config : Config) (s : System) : Label → Option System
  | .request c request id now =>
      match s.calls c with
      | .idle => some { s with
          calls := Function.update s.calls c (Call.start config id now s.store request) }
      | _ => none
  | .proceed c id now outcome =>
      ((s.calls c).advance config id now outcome s.store).map fun (call, store) =>
        { s with store := store, calls := Function.update s.calls c call }
  | .dequeue w workerId batchSize picked now =>
      match s.workers w with
      | .idle =>
          (SqlAlchemyJobQueue.dequeue workerId batchSize picked now s.store.jobs).map
            fun (jobs, t) => { s with
              store := { s.store with jobs := t }
              workers := Function.update s.workers w (Worker.next jobs) }
      | _ => none
  | .advance w now newUuid outcome =>
      match s.workers w with
      | .busy phase job rest =>
          let (worker, store) := Worker.advance config job rest now newUuid outcome s.store phase
          some { s with store := store, workers := Function.update s.workers w worker }
      | _ => none
  | .exit w =>
      match s.workers w with
      | .exited => none
      | _ => some { s with workers := Function.update s.workers w .exited }

end System

/-! ## What one call of the handler does -/

namespace HandlerPhase

/-- What the commit of a phase writes. -/
def Writes (config : Config) (job : IngestionJob) (now : Instant) (newUuid : Nat → UUID)
    (s s' : Store) : HandlerPhase → Prop
  | .ingesting loaded document =>
      Store.onDocuments (Documents.saveCommit loaded document) s = .ok s'
  | .fetched text =>
      Store.onChunks (IngestDocumentHandler.storeChunks config job newUuid text.value now) s =
        .ok s'
  | .indexing loaded document =>
      Store.onDocuments (Documents.saveCommit loaded document) s = .ok s'
  | _ => False

/-- Where a call that returned has led. -/
def Leads (config : Config) (job : IngestionJob) (now : Instant) (newUuid : Nat → UUID)
    (s s' : Store) (next : Option HandlerPhase) : HandlerPhase → Prop
  | .start => s' = s ∧ ∃ loaded document, next = some (.ingesting loaded document) ∧
      DocumentLifecycleService.read .markIngesting job.tenantId job.documentId now s.documents =
        .ok (loaded, document)
  | .ingesting loaded document => next = some .marked ∧
      Writes config job now newUuid s s' (.ingesting loaded document)
  | .marked => s' = s ∧ ∃ text, next = some (.fetched text) ∧
      SqlAlchemyContentStore.get job.tenantId job.documentId s.contents = some text
  | .fetched text => next = some .stored ∧ Writes config job now newUuid s s' (.fetched text)
  | .stored => s' = s ∧ ∃ loaded document, next = some (.indexing loaded document) ∧
      DocumentLifecycleService.read .markIndexed job.tenantId job.documentId now s.documents =
        .ok (loaded, document)
  | .indexing loaded document => next = none ∧
      Writes config job now newUuid s s' (.indexing loaded document)

variable {config : Config} {job : IngestionJob} {now : Instant} {newUuid : Nat → UUID}
  {outcome : Outcome} {s s' : Store} {phase : HandlerPhase}

/-- A call that returned led on. -/
theorem call_ok {next : Option HandlerPhase}
    (h : phase.call config job now newUuid outcome s = (.ok next, s')) :
    phase.Leads config job now newUuid s s' next := by
  cases phase with
  | start =>
      obtain ⟨⟨loaded, document⟩, s₁, hread, hnext⟩ := Saga.bind_ok.mp h
      obtain ⟨-, hread, rfl⟩ := await_query_ok hread
      cases hnext
      exact ⟨rfl, loaded, document, rfl, hread⟩
  | ingesting loaded document =>
      obtain ⟨_, s₁, hcommit, hnext⟩ := Saga.bind_ok.mp h
      cases hnext
      exact ⟨rfl, (await_transact_ok hcommit).2⟩
  | marked =>
      obtain ⟨text, s₁, hget, hnext⟩ := Saga.bind_ok.mp h
      obtain ⟨-, hget, rfl⟩ := await_query_ok hget
      cases text with
      | none => cases hnext
      | some text =>
          cases hnext
          exact ⟨rfl, text, rfl, Except.ok.inj hget⟩
  | fetched text =>
      obtain ⟨_, s₁, hcommit, hnext⟩ := Saga.bind_ok.mp h
      cases hnext
      exact ⟨rfl, (await_transact_ok hcommit).2⟩
  | stored =>
      obtain ⟨⟨loaded, document⟩, s₁, hread, hnext⟩ := Saga.bind_ok.mp h
      obtain ⟨-, hread, rfl⟩ := await_query_ok hread
      cases hnext
      exact ⟨rfl, loaded, document, rfl, hread⟩
  | indexing loaded document =>
      obtain ⟨_, s₁, hcommit, hnext⟩ := Saga.bind_ok.mp h
      cases hnext
      exact ⟨rfl, (await_transact_ok hcommit).2⟩

/-- A call, whether it returned or raised, wrote nothing or committed its phase's write. -/
theorem call_snd : (phase.call config job now newUuid outcome s).2 = s ∨
    phase.Writes config job now newUuid s (phase.call config job now newUuid outcome s).2 ∧
      outcome.takesEffect = true := by
  cases phase with
  | start =>
      left
      unfold call
      rw [Saga.bind_snd fun _ _ => rfl]
      exact await_query_snd _ _ _
  | ingesting loaded document =>
      unfold call
      rw [Saga.bind_snd fun _ _ => rfl]
      exact await_transact_snd _ _ _
  | marked =>
      left
      unfold call
      rw [Saga.bind_snd fun text _ => by cases text <;> rfl]
      exact await_query_snd _ _ _
  | fetched text =>
      unfold call
      rw [Saga.bind_snd fun _ _ => rfl]
      exact await_transact_snd _ _ _
  | stored =>
      left
      unfold call
      rw [Saga.bind_snd fun _ _ => rfl]
      exact await_query_snd _ _ _
  | indexing loaded document =>
      unfold call
      rw [Saga.bind_snd fun _ _ => rfl]
      exact await_transact_snd _ _ _

end HandlerPhase

/-! ## What one call of a worker does -/

namespace Phase

/-- What the commit of a phase writes. -/
def Writes (config : Config) (job : IngestionJob) (now : Instant) (newUuid : Nat → UUID)
    (s s' : Store) : Phase → Prop
  | .handling phase => phase.Writes config job now newUuid s s'
  | .handled => s' = { s with jobs := SqlAlchemyJobQueue.complete job now s.jobs }
  | .raised exc =>
      s' = { s with jobs := (SqlAlchemyJobQueue.fail job (config.repr exc) now s.jobs).2 }
  | .deadLettered => False
  | .failing loaded document =>
      Store.onDocuments (Documents.saveCommit loaded document) s = .ok s'

/-- The document that the commit of a phase saves, with the row it was loaded from. -/
def saving : Phase → Option (DocumentModel × Document)
  | .handling (.ingesting loaded document) => some (loaded, document)
  | .handling (.indexing loaded document) => some (loaded, document)
  | .failing loaded document => some (loaded, document)
  | _ => none

/-- What a write was: the save of a document, the chunks of a text, or the end of a job. -/
inductive Written (config : Config) (job : IngestionJob) (now : Instant) (newUuid : Nat → UUID)
    (s : Store) : Phase → Store → Prop
  | saved {phase : Phase} {loaded : DocumentModel} {document : Document} {t : Documents}
      (saving : phase.saving = some (loaded, document))
      (commit : Documents.saveCommit loaded document s.documents = .ok t) :
      Written config job now newUuid s phase { s with documents := t }
  | chunked {text : Text} {t : Chunks}
      (commit : IngestDocumentHandler.storeChunks config job newUuid text.value now s.chunks =
        .ok t) :
      Written config job now newUuid s (.handling (.fetched text)) { s with chunks := t }
  | completed : Written config job now newUuid s .handled
      { s with jobs := SqlAlchemyJobQueue.complete job now s.jobs }
  | failed (exc : Error) : Written config job now newUuid s (.raised exc)
      { s with jobs := (SqlAlchemyJobQueue.fail job (config.repr exc) now s.jobs).2 }

theorem Writes.written {config : Config} {job : IngestionJob} {now : Instant}
    {newUuid : Nat → UUID} {s s' : Store} {phase : Phase}
    (h : phase.Writes config job now newUuid s s') :
    Written config job now newUuid s phase s' := by
  cases phase with
  | handling phase =>
      cases phase with
      | start => exact h.elim
      | ingesting => obtain ⟨t, ht, rfl⟩ := Fallible.map_ok.mp h; exact .saved rfl ht
      | marked => exact h.elim
      | fetched => obtain ⟨t, ht, rfl⟩ := Fallible.map_ok.mp h; exact .chunked ht
      | stored => exact h.elim
      | indexing => obtain ⟨t, ht, rfl⟩ := Fallible.map_ok.mp h; exact .saved rfl ht
  | handled => obtain rfl : s' = _ := h; exact .completed
  | raised exc => obtain rfl : s' = _ := h; exact .failed exc
  | deadLettered => exact h.elim
  | failing => obtain ⟨t, ht, rfl⟩ := Fallible.map_ok.mp h; exact .saved rfl ht

/-- Where a call of a worker leads: on in its phase with the write committed, or to where an
    exception leads. -/
def Leads (config : Config) (job : IngestionJob) (rest : List IngestionJob) (now : Instant)
    (newUuid : Nat → UUID) (s s' : Store) (worker : Worker) : Phase → Prop
  | .handling phase =>
      (∃ next, phase.Leads config job now newUuid s s' next ∧
        worker = .busy (next.elim .handled .handling) job rest) ∨
      ∃ exc, worker = .busy (.raised exc) job rest
  | .handled =>
      (worker = .next rest ∧ Writes config job now newUuid s s' .handled) ∨
      ∃ exc, worker = .busy (.raised exc) job rest
  | .raised exc =>
      (worker = (if SqlAlchemyJobQueue.deadLettered job then .busy .deadLettered job rest
        else .next rest) ∧ Writes config job now newUuid s s' (.raised exc)) ∨ worker = .exited
  | .deadLettered =>
      (∃ loaded document, worker = .busy (.failing loaded document) job rest ∧
        DocumentLifecycleService.read .markFailed job.tenantId job.documentId now s.documents =
          .ok (loaded, document)) ∨ worker = .next rest
  | .failing _ _ => worker = .next rest

variable {config : Config} {job : IngestionJob} {rest : List IngestionJob} {now : Instant}
  {newUuid : Nat → UUID} {outcome : Outcome} {s s' : Store} {phase : Phase} {worker : Worker}

theorem advance_handling_snd (config : Config) (job : IngestionJob) (rest : List IngestionJob)
    (now : Instant) (newUuid : Nat → UUID) (outcome : Outcome) (s : Store) (phase : HandlerPhase) :
    (Worker.advance config job rest now newUuid outcome s (.handling phase)).2 =
      (phase.call config job now newUuid outcome s).2 := by
  unfold Worker.advance
  simp only
  split <;> next hcall => rw [hcall]

theorem advance_writes
    (h : Worker.advance config job rest now newUuid outcome s phase = (worker, s')) :
    s' = s ∨ phase.Writes config job now newUuid s s' ∧ outcome.takesEffect = true := by
  cases phase with
  | handling phase =>
      have hs' := advance_handling_snd config job rest now newUuid outcome s phase
      rw [h] at hs'
      rw [show s' = _ from hs']
      exact HandlerPhase.call_snd
  | handled =>
      have hs' : (await outcome (.transact (Store.onJobs fun t =>
          .ok (SqlAlchemyJobQueue.complete job now t))) s).2 = s' := by
        unfold Worker.advance at h
        simp only at h
        split at h <;> next hcall => cases h; rw [hcall]
      rw [← hs']
      exact (await_transact_snd _ _ _).imp_right (And.imp_left fun h => (Except.ok.inj h).symm)
  | raised exc =>
      have hs' : (await outcome (.transact (Store.onJobs fun t =>
          .ok (SqlAlchemyJobQueue.fail job (config.repr exc) now t).2)) s).2 = s' := by
        unfold Worker.advance at h
        simp only at h
        split at h <;> next hcall => cases h; rw [hcall]
      rw [← hs']
      exact (await_transact_snd _ _ _).imp_right (And.imp_left fun h => (Except.ok.inj h).symm)
  | deadLettered =>
      have hs' : (await outcome (readDocument .markFailed job now) s).2 = s' := by
        unfold Worker.advance at h
        simp only at h
        split at h <;> next hcall => cases h; rw [hcall]
      rw [← hs']
      exact .inl (await_query_snd _ _ _)
  | failing loaded document =>
      cases h
      exact await_transact_snd _ _ _

theorem advance_leads
    (h : Worker.advance config job rest now newUuid outcome s phase = (worker, s')) :
    phase.Leads config job rest now newUuid s s' worker := by
  cases phase with
  | handling phase =>
      unfold Worker.advance at h
      simp only at h
      split at h
      · next hcall => cases h; exact .inl ⟨_, HandlerPhase.call_ok hcall, rfl⟩
      · next hcall => cases h; exact .inl ⟨_, HandlerPhase.call_ok hcall, rfl⟩
      · next exc _ hcall => cases h; exact .inr ⟨exc, rfl⟩
  | handled =>
      unfold Worker.advance at h
      simp only at h
      split at h
      · next hcall =>
          cases h
          exact .inl ⟨rfl, (Except.ok.inj (await_transact_ok hcall).2).symm⟩
      · next exc _ hcall => cases h; exact .inr ⟨exc, rfl⟩
  | raised exc =>
      unfold Worker.advance at h
      simp only at h
      split at h
      · next hcall =>
          cases h
          exact .inl ⟨rfl, (Except.ok.inj (await_transact_ok hcall).2).symm⟩
      · cases h; exact .inr rfl
  | deadLettered =>
      unfold Worker.advance at h
      simp only at h
      split at h
      · next loaded document _ hcall =>
          cases h
          exact .inl ⟨loaded, document, rfl, (await_query_ok hcall).2.1⟩
      · cases h; exact .inr rfl
  | failing loaded document => cases h; rfl

/-- What a worker that is still busy is on: the next job of its batch, or the next call for the
    same one. -/
inductive Goes (config : Config) (job : IngestionJob) (rest : List IngestionJob) (now : Instant)
    (newUuid : Nat → UUID) (s s' : Store) : Phase → Phase → IngestionJob → List IngestionJob → Prop
  | next (phase : Phase) (job' : IngestionJob) (rest' : List IngestionJob) :
      Goes config job rest now newUuid s s' phase (.handling .start) job' rest'
  | handling {phase phase' : HandlerPhase}
      (leads : phase.Leads config job now newUuid s s' (some phase')) :
      Goes config job rest now newUuid s s' (.handling phase) (.handling phase') job rest
  | handled {phase : HandlerPhase} (leads : phase.Leads config job now newUuid s s' none) :
      Goes config job rest now newUuid s s' (.handling phase) .handled job rest
  | raised (phase : Phase) (exc : Error) :
      Goes config job rest now newUuid s s' phase (.raised exc) job rest
  | deadLettered (exc : Error) :
      Goes config job rest now newUuid s s' (.raised exc) .deadLettered job rest
  | failing {loaded : DocumentModel} {document : Document}
      (read : DocumentLifecycleService.read .markFailed job.tenantId job.documentId now
        s.documents = .ok (loaded, document)) :
      Goes config job rest now newUuid s s' .deadLettered (.failing loaded document) job rest

theorem Goes.of_next {jobs : List IngestionJob} {phase phase' : Phase} {job' : IngestionJob}
    {rest' : List IngestionJob} (h : Worker.next jobs = .busy phase' job' rest') :
    Goes config job rest now newUuid s s' phase phase' job' rest' := by
  cases jobs with
  | nil => cases h
  | cons j js =>
      cases h
      exact .next phase job' rest'

theorem Leads.goes (hleads : phase.Leads config job rest now newUuid s s' worker) {phase' : Phase}
    {job' : IngestionJob} {rest' : List IngestionJob} (hworker : worker = .busy phase' job' rest') :
    Goes config job rest now newUuid s s' phase phase' job' rest' := by
  subst hworker
  cases phase with
  | handling phase =>
      rcases hleads with ⟨next, hphase, hw⟩ | ⟨exc, hw⟩
      · cases next with
        | none =>
            cases hw
            exact .handled hphase
        | some next =>
            cases hw
            exact .handling hphase
      · cases hw
        exact .raised _ exc
  | handled =>
      rcases hleads with ⟨hw, -⟩ | ⟨exc, hw⟩
      · exact .of_next hw.symm
      · cases hw
        exact .raised _ exc
  | raised exc =>
      rcases hleads with ⟨hw, -⟩ | hw
      · split at hw
        · cases hw
          exact .deadLettered exc
        · exact .of_next hw.symm
      · cases hw
  | deadLettered =>
      rcases hleads with ⟨loaded, document, hw, hread⟩ | hw
      · cases hw
        exact .failing hread
      · exact .of_next hw.symm
  | failing loaded document => exact .of_next (Eq.symm hleads)

end Phase

/-! ## What one call of the API does -/

namespace Call

/-- What the commit of a call writes. -/
def Writes (config : Config) (s s' : Store) : Call → Prop
  | .idle => False
  | .registering document => Store.onDocuments (Documents.addCommit document) s = .ok s'
  | .deleting loaded document =>
      Store.onDocuments (Documents.saveCommit loaded document) s = .ok s'
  | .uploading tenantId documentId content _ => ∃ now,
      Store.onContents (SqlAlchemyContentStore.put tenantId documentId content now) s = .ok s'
  | .enqueuing tenantId documentId document => ∃ id now, Store.onJobs
      (UploadDocumentContentHandler.enqueue config id tenantId documentId document now) s = .ok s'

/-- What a write was: one table has changed. -/
inductive Written (config : Config) (s : Store) : Call → Store → Prop
  | registered {document : Document} {t : Documents}
      (commit : Documents.addCommit document s.documents = .ok t) :
      Written config s (.registering document) { s with documents := t }
  | deleted {loaded : DocumentModel} {document : Document} {t : Documents}
      (commit : Documents.saveCommit loaded document s.documents = .ok t) :
      Written config s (.deleting loaded document) { s with documents := t }
  | uploaded {tenantId documentId : UUID} {content : Str} {document : DocumentDTO} {now : Instant}
      {t : Contents}
      (put : SqlAlchemyContentStore.put tenantId documentId content now s.contents = .ok t) :
      Written config s (.uploading tenantId documentId content document)
        { s with contents := t }
  | enqueued {tenantId documentId : UUID} {document : DocumentDTO} {id : UUID} {now : Instant}
      {t : Jobs}
      (enqueue : UploadDocumentContentHandler.enqueue config id tenantId documentId document now
        s.jobs = .ok t) :
      Written config s (.enqueuing tenantId documentId document) { s with jobs := t }

theorem Writes.written {config : Config} {s s' : Store} {call : Call}
    (h : call.Writes config s s') : Written config s call s' := by
  cases call with
  | idle => exact h.elim
  | registering => obtain ⟨t, ht, rfl⟩ := Fallible.map_ok.mp h; exact .registered ht
  | deleting => obtain ⟨t, ht, rfl⟩ := Fallible.map_ok.mp h; exact .deleted ht
  | uploading =>
      obtain ⟨now, hput⟩ := h
      obtain ⟨t, ht, rfl⟩ := Fallible.map_ok.mp hput
      exact .uploaded ht
  | enqueuing =>
      obtain ⟨id, now, henqueue⟩ := h
      obtain ⟨t, ht, rfl⟩ := Fallible.map_ok.mp henqueue
      exact .enqueued ht

/-- A call is over after its commit, but an upload goes on to `enqueue`. -/
def Leads (config : Config) (s s' : Store) : Call → Call → Prop
  | .uploading tenantId documentId content document, next =>
      (next = .enqueuing tenantId documentId document ∧
        Writes config s s' (.uploading tenantId documentId content document)) ∨ next = .idle
  | _, next => next = .idle

variable {config : Config} {id : UUID} {now : Instant} {outcome : Outcome} {s s' : Store}
  {call next : Call}

theorem advance_spec (h : call.advance config id now outcome s = some (next, s')) :
    call.Leads config s s' next ∧
      (s' = s ∨ call.Writes config s s' ∧ outcome.takesEffect = true) := by
  cases call with
  | idle => cases h
  | registering document =>
      cases h
      exact ⟨rfl, await_transact_snd _ _ _⟩
  | deleting loaded document =>
      cases h
      exact ⟨rfl, await_transact_snd _ _ _⟩
  | uploading tenantId documentId content document =>
      have hs' : (await outcome (.transact (Store.onContents
          (SqlAlchemyContentStore.put tenantId documentId content now))) s).2 = s' := by
        simp only [advance] at h
        split at h <;> next hcall => cases h; rw [hcall]
      constructor
      · simp only [advance] at h
        split at h
        · next hcall =>
            cases h
            exact .inl ⟨rfl, now, (await_transact_ok hcall).2⟩
        · cases h
          exact .inr rfl
      · rw [← hs']
        exact (await_transact_snd _ _ _).imp_right (And.imp_left fun h => ⟨now, h⟩)
  | enqueuing tenantId documentId document =>
      cases h
      exact ⟨rfl, (await_transact_snd _ _ _).imp_right (And.imp_left fun h => ⟨id, now, h⟩)⟩

end Call

/-! ## What one step does -/

/-- The ways a step can go, with what it writes and where it leads. -/
inductive System.Stepped (config : Config) (s : System) : Label → System → Prop
  | request (c : Nat) (request : Request) (id : UUID) (now : Instant) (idle : s.calls c = .idle) :
      Stepped config s (.request c request id now) { s with
        calls := Function.update s.calls c (Call.start config id now s.store request) }
  | proceed (c : Nat) (id : UUID) (now : Instant) (outcome : Outcome) (call : Call) (store : Store)
      (leads : (s.calls c).Leads config s.store store call)
      (writes : store = s.store ∨
        (s.calls c).Writes config s.store store ∧ outcome.takesEffect = true) :
      Stepped config s (.proceed c id now outcome) { s with
        store := store, calls := Function.update s.calls c call }
  | dequeue (w : Nat) (workerId : Str) (batchSize : Nat) (picked : List UUID) (now : Instant)
      (jobs : List IngestionJob) (t : Jobs) (idle : s.workers w = .idle)
      (claimed : SqlAlchemyJobQueue.dequeue workerId batchSize picked now s.store.jobs =
        some (jobs, t)) :
      Stepped config s (.dequeue w workerId batchSize picked now) { s with
        store := { s.store with jobs := t }
        workers := Function.update s.workers w (Worker.next jobs) }
  | advance (w : Nat) (now : Instant) (newUuid : Nat → UUID) (outcome : Outcome) (phase : Phase)
      (job : IngestionJob) (rest : List IngestionJob) (worker : Worker) (store : Store)
      (busy : s.workers w = .busy phase job rest)
      (leads : phase.Leads config job rest now newUuid s.store store worker)
      (writes : store = s.store ∨
        phase.Writes config job now newUuid s.store store ∧ outcome.takesEffect = true) :
      Stepped config s (.advance w now newUuid outcome) { s with
        store := store, workers := Function.update s.workers w worker }
  | exit (w : Nat) :
      Stepped config s (.exit w) { s with workers := Function.update s.workers w .exited }

theorem System.step_cases {config : Config} {s s' : System} {label : Label}
    (h : System.step config s label = some s') : Stepped config s label s' := by
  cases label with
  | request c request id now =>
      simp only [step] at h
      split at h
      · next hidle => cases h; exact .request c request id now hidle
      · cases h
  | proceed c id now outcome =>
      obtain ⟨⟨call, store⟩, hcall, rfl⟩ := Option.map_eq_some_iff.mp h
      obtain ⟨hleads, hwrites⟩ := Call.advance_spec hcall
      exact .proceed c id now outcome call store hleads hwrites
  | dequeue w workerId batchSize picked now =>
      simp only [step] at h
      split at h
      · next hidle =>
          obtain ⟨⟨jobs, t⟩, hdeq, rfl⟩ := Option.map_eq_some_iff.mp h
          exact .dequeue w workerId batchSize picked now jobs t hidle hdeq
      · cases h
  | advance w now newUuid outcome =>
      simp only [step] at h
      split at h
      · next phase job rest hbusy =>
          cases hadv : Worker.advance config job rest now newUuid outcome s.store phase with
          | mk worker store =>
              rw [hadv] at h
              cases h
              exact .advance w now newUuid outcome phase job rest worker store hbusy
                (Phase.advance_leads hadv) (Phase.advance_writes hadv)
      · cases h
  | exit w =>
      simp only [step] at h
      split at h
      · cases h
      · cases h
        exact .exit w

/-- Where a worker that is busy after a step was before: where it is, idle, or one call back. -/
theorem System.busy_cases {config : Config} {s s' : System} {label : Label}
    (h : System.step config s label = some s') {w : Nat} {phase' : Phase} {job' : IngestionJob}
    {rest' : List IngestionJob} (hbusy : s'.workers w = .busy phase' job' rest') :
    s.workers w = .busy phase' job' rest' ∨ phase' = .handling .start ∨
      ∃ now newUuid phase job rest, s.workers w = .busy phase job rest ∧
        Phase.Goes config job rest now newUuid s.store s'.store phase phase' job' rest' := by
  cases step_cases h with
  | request => exact .inl hbusy
  | proceed => exact .inl hbusy
  | dequeue v workerId batchSize picked now jobs t idle claimed =>
      by_cases hw : w = v
      · subst hw
        simp only [Function.update_self] at hbusy
        cases jobs with
        | nil => cases hbusy
        | cons j js =>
            cases hbusy
            exact .inr (.inl rfl)
      · simp only [Function.update_of_ne hw] at hbusy
        exact .inl hbusy
  | advance v now newUuid outcome phase job rest worker store busy leads writes =>
      by_cases hw : w = v
      · subst hw
        simp only [Function.update_self] at hbusy
        exact .inr (.inr ⟨now, newUuid, phase, job, rest, busy, leads.goes hbusy⟩)
      · simp only [Function.update_of_ne hw] at hbusy
        exact .inl hbusy
  | exit v =>
      by_cases hw : w = v
      · subst hw
        simp only [Function.update_self] at hbusy
        cases hbusy
      · simp only [Function.update_of_ne hw] at hbusy
        exact .inl hbusy

end Eka
