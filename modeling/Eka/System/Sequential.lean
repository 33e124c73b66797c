import Eka.System.Step

/-!
# Handlers that run alone

The handlers as functions on the database are runs of the system in which nobody else
moves: what is invariant in the system holds before and after them, and what is proved
of them alone is proved of these runs.
-/

namespace Eka

open Py Relational Transition

variable {config : Config} {w : Nat} {job : IngestionJob} {rest : List IngestionJob}

namespace System

/-- The system after a call of worker `w`. -/
def afterWorker (s : System) (w : Nat) (worker : Worker) (store : Store) : System :=
  { s with store := store, workers := Function.update s.workers w worker }

@[simp] theorem afterWorker_store (s : System) (w : Nat) (worker : Worker) (store : Store) :
    (s.afterWorker w worker store).store = store := rfl

@[simp] theorem afterWorker_workers (s : System) (w : Nat) (worker : Worker) (store : Store) :
    (s.afterWorker w worker store).workers w = worker := Function.update_self ..

@[simp] theorem afterWorker_afterWorker (s : System) (w : Nat) (worker worker' : Worker)
    (store store' : Store) : (s.afterWorker w worker store).afterWorker w worker' store' =
      s.afterWorker w worker' store' := by
  simp [afterWorker]

/-- A worker with nothing to do claims a batch. -/
theorem dequeue_step {s : System} {workerId : Str} {batchSize : Nat} {picked : List UUID}
    {now : Instant} {jobs : List IngestionJob} {t : Jobs} (hidle : s.workers w = .idle)
    (hdequeue : SqlAlchemyJobQueue.dequeue workerId batchSize picked now s.store.jobs =
      some (jobs, t)) :
    step config s (.dequeue w workerId batchSize picked now) =
      some (s.afterWorker w (Worker.next jobs) { s.store with jobs := t }) := by
  simp only [step, hidle, hdequeue, Option.map_some]
  rfl

/-- A worker that is on a job makes its next call. -/
theorem advance_step {s : System} {phase : Phase} {now : Instant} {newUuid : Nat → UUID}
    {outcome : Outcome} {worker : Worker} {store : Store}
    (hbusy : s.workers w = .busy phase job rest)
    (hadvance : Worker.advance config job rest now newUuid outcome s.store phase =
      (worker, store)) :
    step config s (.advance w now newUuid outcome) = some (s.afterWorker w worker store) := by
  simp only [step, hbusy, hadvance]
  rfl

/-- `s'` is reached from `s` by calls of worker `w` alone. -/
def Advances (config : Config) (w : Nat) (s s' : System) : Prop :=
  ∃ labels, (∀ l ∈ labels, ∃ now newUuid outcome, l = .advance w now newUuid outcome) ∧
    run (step config) s labels = some s'

theorem Advances.refl (s : System) : Advances config w s s :=
  ⟨[], by simp, rfl⟩

theorem Advances.trans {s₁ s₂ s₃ : System} (h : Advances config w s₁ s₂)
    (h' : Advances config w s₂ s₃) : Advances config w s₁ s₃ := by
  obtain ⟨xs, hxs, hrun⟩ := h
  obtain ⟨ys, hys, hrun'⟩ := h'
  refine ⟨xs ++ ys, ?_, run_append.mpr ⟨s₂, hrun, hrun'⟩⟩
  intro l hl
  rcases List.mem_append.mp hl with hl | hl
  · exact hxs l hl
  · exact hys l hl

/-- One call. -/
theorem Advances.one {s : System} {phase : Phase} (hbusy : s.workers w = .busy phase job rest)
    (now : Instant) (newUuid : Nat → UUID) (outcome : Outcome) {worker : Worker} {store : Store}
    (hadvance : Worker.advance config job rest now newUuid outcome s.store phase =
      (worker, store)) : Advances config w s (s.afterWorker w worker store) := by
  refine ⟨[.advance w now newUuid outcome], ?_, ?_⟩
  · intro l hl
    exact ⟨now, newUuid, outcome, List.mem_singleton.mp hl⟩
  · exact run_cons.mpr ⟨_, advance_step hbusy hadvance, run_nil _⟩

/-- One more call. -/
theorem Advances.andThen {s : System} {phase : Phase} {store : Store}
    (h : Advances config w s (s.afterWorker w (.busy phase job rest) store)) (now : Instant)
    (newUuid : Nat → UUID) (outcome : Outcome) {worker : Worker} {store' : Store}
    (hadvance : Worker.advance config job rest now newUuid outcome store phase =
      (worker, store')) : Advances config w s (s.afterWorker w worker store') := by
  have hthen : Advances config w _ _ := .one
    (afterWorker_workers s w (.busy phase job rest) store) now newUuid outcome hadvance
  rw [afterWorker_afterWorker] at hthen
  exact h.trans hthen

end System

/-! ## The handler of the worker -/

/-- Where an answer of `handle` leads its worker. -/
def Phase.ofHandle : Except Error PUnit → Phase
  | .ok _ => .handled
  | .error exc => .raised exc

/-- From this phase of `handle` on, the calls of worker `w` do what `x` does. -/
def HandlerPhase.Takes (config : Config) (w : Nat) (job : IngestionJob)
    (rest : List IngestionJob) (phase : HandlerPhase) (x : Saga Store Error PUnit) : Prop :=
  ∀ s : System, s.workers w = .busy (.handling phase) job rest →
    System.Advances config w s
      (s.afterWorker w (.busy (.ofHandle (x s.store).1) job rest) (x s.store).2)

namespace HandlerPhase

/-- One call, and then what its answer asks for. -/
theorem takes_call (phase : HandlerPhase) (now : Instant) (newUuid : Nat → UUID)
    (outcome : Outcome) (k : Option HandlerPhase → Saga Store Error PUnit)
    (hnone : k none = pure ⟨⟩)
    (hsome : ∀ phase' s s', phase.call config job now newUuid outcome s = (.ok (some phase'), s') →
      Takes config w job rest phase' (k (some phase'))) :
    Takes config w job rest phase (phase.call config job now newUuid outcome >>= k) := by
  intro s hbusy
  rcases hcall : phase.call config job now newUuid outcome s.store with ⟨exc | _ | phase', s'⟩
  · rw [Saga.bind_of_error hcall]
    refine .one hbusy now newUuid outcome ?_
    simp only [Worker.advance, hcall]
    rfl
  · rw [Saga.bind_of_ok hcall, hnone]
    refine .one hbusy now newUuid outcome ?_
    simp only [Worker.advance, hcall]
    rfl
  · rw [Saga.bind_of_ok hcall]
    have hfirst : System.Advances config w s
        (s.afterWorker w (.busy (.handling phase') job rest) s') := by
      refine .one hbusy now newUuid outcome ?_
      simp only [Worker.advance, hcall]
    have hthen := hsome phase' s.store s' hcall _ (System.afterWorker_workers s w _ s')
    simp only [System.afterWorker_store, System.afterWorker_afterWorker] at hthen
    exact hfirst.trans hthen

theorem takes_indexing (loaded : DocumentModel) (document : Document) (outcome : Outcome) :
    Takes config w job rest (.indexing loaded document)
      (await outcome (saveDocument loaded document)) := by
  have h : Takes config w job rest (.indexing loaded document) _ :=
    takes_call (.indexing loaded document) 0 (fun _ => ⟨0⟩) outcome (fun _ => pure ⟨⟩) rfl
      (by
        intro phase' s s' hcall
        obtain ⟨hnext, -⟩ := call_ok hcall
        cases hnext)
  simp only [call, bind_assoc, pure_bind] at h
  rwa [bind_pure_unit] at h

/-- A lifecycle transaction is a read and then a commit. -/
theorem transition_bind (job : IngestionJob) (action : LifecycleAction) (now : Instant)
    (read commit : Outcome) (k : PUnit → Saga Store Error PUnit) :
    (DocumentLifecycleService.transition action job.tenantId job.documentId now read commit >>= k) =
      (await read (readDocument action job now) >>= fun held =>
        await commit (saveDocument held.1 held.2) >>= k) := by
  unfold DocumentLifecycleService.transition readDocument saveDocument
  simp only [bind_assoc]

theorem takes_stored (now : Instant) (read commit : Outcome) :
    Takes config w job rest .stored (DocumentLifecycleService.transition .markIndexed
      job.tenantId job.documentId now read commit) := by
  have h : Takes config w job rest .stored _ :=
    takes_call .stored now (fun _ => ⟨0⟩) read
      (fun next => next.elim (pure ⟨⟩) fun
        | .indexing loaded document => await commit (saveDocument loaded document)
        | _ => pure ⟨⟩) rfl
      (by
        intro phase' s s' hcall
        obtain ⟨-, loaded, document, hnext, -⟩ := call_ok hcall
        cases hnext
        exact takes_indexing loaded document commit)
  simp only [call, bind_assoc, pure_bind] at h
  exact h

theorem takes_fetched (env : HandleEnv) (text : Text) :
    Takes config w job rest (.fetched text)
      (IngestDocumentHandler.chunkAndIndex config env job text.value) := by
  rw [IngestDocumentHandler.chunkAndIndex_eq]
  have h : Takes config w job rest (.fetched text) _ :=
    takes_call (.fetched text) (env.clock .chunkCommit) env.newUuid
      (IngestDocumentHandler.chunkOutcome config env text.value)
      (fun next => next.elim (pure ⟨⟩) fun
        | .stored => DocumentLifecycleService.transition .markIndexed job.tenantId
            job.documentId (env.clock .indexedCommit) (env.faults .indexedRead)
            (env.faults .indexedCommit)
        | _ => pure ⟨⟩) rfl
      (by
        intro phase' s s' hcall
        obtain ⟨hnext, -⟩ := call_ok hcall
        cases hnext
        exact takes_stored _ _ _)
  simp only [call, bind_assoc, pure_bind] at h
  exact h

theorem takes_marked (env : HandleEnv) :
    Takes config w job rest .marked (IngestDocumentHandler.ingest config env job) := by
  have h : Takes config w job rest .marked _ :=
    takes_call .marked 0 (fun _ => ⟨0⟩) (env.faults .contentGet)
      (fun next => next.elim (pure ⟨⟩) fun
        | .fetched text => IngestDocumentHandler.chunkAndIndex config env job text.value
        | _ => pure ⟨⟩) rfl
      (by
        intro phase' s s' hcall
        obtain ⟨-, text, hnext, -⟩ := call_ok hcall
        cases hnext
        exact takes_fetched env text)
  unfold IngestDocumentHandler.ingest
  simp only [call, bind_assoc] at h
  refine cast (congrArg _ (congrArg _ (funext fun text => ?_))) h
  cases text <;> rfl

theorem takes_ingesting (env : HandleEnv) (loaded : DocumentModel) (document : Document) :
    Takes config w job rest (.ingesting loaded document) (do
      await (env.faults .ingestingCommit) (saveDocument loaded document)
      IngestDocumentHandler.ingest config env job) := by
  have h : Takes config w job rest (.ingesting loaded document) _ :=
    takes_call (.ingesting loaded document) 0 (fun _ => ⟨0⟩) (env.faults .ingestingCommit)
      (fun next => next.elim (pure ⟨⟩) fun
        | .marked => IngestDocumentHandler.ingest config env job
        | _ => pure ⟨⟩) rfl
      (by
        intro phase' s s' hcall
        obtain ⟨hnext, -⟩ := call_ok hcall
        cases hnext
        exact takes_marked env)
  simp only [call, bind_assoc, pure_bind] at h
  exact h

/-- `handle` on its own is what a worker does from `start` on, call by call. -/
theorem takes_start (env : HandleEnv) :
    Takes config w job rest .start (IngestDocumentHandler.handle config env job) := by
  have h : Takes config w job rest .start _ :=
    takes_call .start (env.clock .ingestingCommit) (fun _ => ⟨0⟩) (env.faults .ingestingRead)
      (fun next => next.elim (pure ⟨⟩) fun
        | .ingesting loaded document => do
            await (env.faults .ingestingCommit) (saveDocument loaded document)
            IngestDocumentHandler.ingest config env job
        | _ => pure ⟨⟩) rfl
      (by
        intro phase' s s' hcall
        obtain ⟨-, loaded, document, hnext, -⟩ := call_ok hcall
        cases hnext
        exact takes_ingesting env loaded document)
  unfold IngestDocumentHandler.handle
  rw [transition_bind]
  simp only [call, bind_assoc, pure_bind] at h
  exact h

end HandlerPhase

/-! ## The loop body of the worker -/

namespace System

variable {s : System}

/-- Where `_process` leaves its worker. -/
def afterProcess (rest : List IngestionJob) : Except Error Verdict → Worker
  | .ok _ => .next rest
  | .error _ => .exited

theorem markFailed_advances (env : ProcessEnv)
    (hbusy : s.workers w = .busy .deadLettered job rest) :
    Advances config w s (s.afterWorker w (.next rest)
      (DocumentLifecycleService.transition .markFailed job.tenantId job.documentId env.settledAt
        env.failedRead env.failedCommit s.store).2) := by
  have hcalls := HandlerPhase.transition_bind job .markFailed env.settledAt env.failedRead
    env.failedCommit pure
  simp only [bind_pure] at hcalls
  rw [hcalls]
  rcases hread : await env.failedRead (readDocument .markFailed job env.settledAt) s.store with
    ⟨e | ⟨loaded, document⟩, s₁⟩
  · rw [Saga.bind_of_error hread]
    refine .one hbusy env.settledAt env.newUuid env.failedRead ?_
    simp only [Worker.advance, hread]
  · rw [Saga.bind_of_ok hread]
    have hfirst : Advances config w s
        (s.afterWorker w (.busy (.failing loaded document) job rest) s₁) := by
      refine .one hbusy env.settledAt env.newUuid env.failedRead ?_
      simp only [Worker.advance, hread]
    exact hfirst.andThen env.settledAt env.newUuid env.failedCommit rfl

theorem handleFailure_advances (env : ProcessEnv) (exc : Error)
    (hbusy : s.workers w = .busy (.raised exc) job rest) :
    Advances config w s (s.afterWorker w
      (afterProcess rest (IngestionWorker.handleFailure config env job exc s.store).1)
      (IngestionWorker.handleFailure config env job exc s.store).2) := by
  unfold IngestionWorker.handleFailure
  rcases hfail : await env.fail (.transact (Store.onJobs fun t =>
    .ok (SqlAlchemyJobQueue.fail job (config.repr exc) env.settledAt t).2)) s.store with
    ⟨e | _, s₁⟩
  · rw [Saga.bind_of_error hfail]
    refine .one hbusy env.settledAt env.newUuid env.fail ?_
    simp only [Worker.advance, hfail]
    rfl
  · rw [Saga.bind_of_ok hfail]
    by_cases hdead : SqlAlchemyJobQueue.deadLettered job = true
    · have hfirst : Advances config w s (s.afterWorker w (.busy .deadLettered job rest) s₁) := by
        refine .one hbusy env.settledAt env.newUuid env.fail ?_
        simp only [Worker.advance, hfail, if_pos hdead]
      have hthen : Advances config w _ _ := markFailed_advances env
        (afterWorker_workers s w (.busy .deadLettered job rest) s₁)
      simp only [afterWorker_store, afterWorker_afterWorker] at hthen
      simp only [hdead, if_true]
      exact hfirst.trans hthen
    · simp only [hdead]
      refine .one hbusy env.settledAt env.newUuid env.fail ?_
      simp only [Worker.advance, hfail, hdead]
      rfl

theorem handleAndComplete_advances (env : ProcessEnv)
    (hbusy : s.workers w = .busy (.handling .start) job rest) :
    Advances config w s (s.afterWorker w
      (match (IngestionWorker.handleAndComplete config env job s.store).1 with
        | .ok _ => .next rest
        | .error exc => .busy (.raised exc) job rest)
      (IngestionWorker.handleAndComplete config env job s.store).2) := by
  have hhandle : Advances config w _ _ := HandlerPhase.takes_start env.toHandleEnv s hbusy
  unfold IngestionWorker.handleAndComplete
  rcases hh : IngestDocumentHandler.handle config env.toHandleEnv job s.store with ⟨exc | _, s₁⟩
  · rw [hh] at hhandle
    rw [Saga.bind_of_error hh]
    exact hhandle
  · rw [hh] at hhandle
    rw [Saga.bind_of_ok hh]
    refine hhandle.andThen env.settledAt env.newUuid env.complete ?_
    simp only [Phase.ofHandle, Worker.advance]
    split
    · next hcomplete => rw [hcomplete]
    · next hcomplete => rw [hcomplete]

/-- `_process` on its own is what a worker does with the first job of its batch. -/
theorem process_advances (env : ProcessEnv)
    (hbusy : s.workers w = .busy (.handling .start) job rest) :
    Advances config w s (s.afterWorker w
      (afterProcess rest (IngestionWorker.process config env job s.store).1)
      (IngestionWorker.process config env job s.store).2) := by
  have htry : Advances config w _ _ := handleAndComplete_advances env hbusy
  rcases h : IngestionWorker.handleAndComplete config env job s.store with ⟨exc | _, s₁⟩
  · rw [h] at htry
    rw [IngestionWorker.process_of_error h]
    have hthen : Advances config w _ _ := handleFailure_advances env exc
      (afterWorker_workers s w (.busy (.raised exc) job rest) s₁)
    simp only [afterWorker_store, afterWorker_afterWorker] at hthen
    exact htry.trans hthen
  · rw [h] at htry
    rw [IngestionWorker.process_of_ok h]
    exact htry

end System

/-! ## The handlers of the API -/

/-- The database after a handler of the API that nothing faults. -/
def Request.perform (config : Config) (id : UUID) (now : Instant) (s : Store) : Request → Store
  | .register command =>
      { s with documents := (RegisterDocumentHandler.handle command id now s.documents).2 }
  | .delete command =>
      { s with documents := (DeleteDocumentHandler.handle command now s.documents).2 }
  | .upload tenantId documentId content =>
      (UploadDocumentContentHandler.handle config tenantId documentId content id now s).2

namespace System

variable {s : System} {c : Nat}

/-- One call of a handler that has started. -/
theorem proceed_step {call next : Call} {store : Store} {id : UUID} {now : Instant}
    (h : call.advance config id now .returns s.store = some (next, store)) :
    step config { s with calls := Function.update s.calls c call } (.proceed c id now .returns) =
      some { s with store := store, calls := Function.update s.calls c next } := by
  simp [step, h]

theorem update_idle (hidle : s.calls c = .idle) : Function.update s.calls c .idle = s.calls := by
  rw [← hidle, Function.update_eq_self]

section Requests

variable {request : Request} {id : UUID} {now : Instant}

theorem request_step (hidle : s.calls c = .idle) (request : Request) (id : UUID) (now : Instant) :
    step config s (.request c request id now) = some { s with
      calls := Function.update s.calls c (Call.start config id now s.store request) } := by
  simp only [step, hidle]

/-- A handler that raises before it writes is over after its first read. -/
theorem perform_run_of_over (hidle : s.calls c = .idle)
    (hstart : Call.start config id now s.store request = .idle)
    (hperform : request.perform config id now s.store = s.store) :
    ∃ labels, run (step config) s labels =
      some { s with store := request.perform config id now s.store } := by
  have hrequest : step config s (.request c request id now) = _ :=
    request_step hidle request id now
  rw [hstart, update_idle hidle] at hrequest
  rw [hperform]
  exact ⟨[_], run_cons.mpr ⟨_, hrequest, rfl⟩⟩

/-- One that makes one write is over after it. -/
theorem once_run (hidle : s.calls c = .idle) {call : Call} {store : Store}
    (hstart : Call.start config id now s.store request = call)
    (hadvance : call.advance config id now .returns s.store = some (.idle, store)) :
    run (step config) s [.request c request id now, .proceed c id now .returns] =
      some { s with store := store } := by
  have hrequest : step config s (.request c request id now) = _ :=
    request_step hidle request id now
  rw [hstart] at hrequest
  have hproceed := proceed_step (c := c) hadvance
  rw [update_idle hidle] at hproceed
  exact run_cons.mpr ⟨_, hrequest, run_cons.mpr ⟨_, hproceed, rfl⟩⟩

/-- An upload that is not refused writes the content and then the job. -/
theorem upload_run (hidle : s.calls c = .idle) {tenantId documentId : UUID} {content : Str}
    {document : DocumentDTO} {stored store : Store}
    (hcheck : UploadDocumentContentHandler.check config tenantId documentId content
      s.store.documents = .ok document)
    (hput : (Saga.transact (Store.onContents (SqlAlchemyContentStore.put tenantId documentId
      content now)) : Saga Store Error PUnit) s.store = (.ok ⟨⟩, stored))
    (henqueue : ((Saga.transact (Store.onJobs (UploadDocumentContentHandler.enqueue config id
      tenantId documentId document now)) : Saga Store Error PUnit) stored).2 = store) :
    run (step config) s [.request c (.upload tenantId documentId content) id now,
      .proceed c id now .returns, .proceed c id now .returns] = some { s with store := store } := by
  have hrequest : step config s (.request c (.upload tenantId documentId content) id now) = _ :=
    request_step hidle _ id now
  rw [show Call.start config id now s.store (.upload tenantId documentId content) =
    .uploading tenantId documentId content document by simp only [Call.start, hcheck]] at hrequest
  have hproceed : step config { s with
      calls := Function.update s.calls c (.uploading tenantId documentId content document) }
      (.proceed c id now .returns) = some { s with
        store := stored
        calls := Function.update s.calls c (.enqueuing tenantId documentId document) } :=
    proceed_step (by simp only [Call.advance, await, hput])
  have hlast : step config { s with
      store := stored
      calls := Function.update s.calls c (.enqueuing tenantId documentId document) }
      (.proceed c id now .returns) = some _ :=
    proceed_step (s := { s with store := stored }) rfl
  rw [update_idle hidle] at hlast
  rw [← henqueue]
  exact run_cons.mpr ⟨_, hrequest, run_cons.mpr ⟨_, hproceed, run_cons.mpr ⟨_, hlast, rfl⟩⟩⟩

theorem perform_run_of_once (hidle : s.calls c = .idle) {call : Call} {store : Store}
    (hstart : Call.start config id now s.store request = call)
    (hadvance : call.advance config id now .returns s.store = some (.idle, store))
    (hperform : request.perform config id now s.store = store) :
    ∃ labels, run (step config) s labels =
      some { s with store := request.perform config id now s.store } := by
  rw [hperform]
  exact ⟨_, once_run hidle hstart hadvance⟩

theorem perform_run_upload (hidle : s.calls c = .idle) {tenantId documentId : UUID}
    {content : Str} {document : DocumentDTO}
    (hcheck : UploadDocumentContentHandler.check config tenantId documentId content
      s.store.documents = .ok document) :
    ∃ labels, run (step config) s labels = some { s with
      store := Request.perform config id now s.store (.upload tenantId documentId content) } := by
  have hperform : Request.perform config id now s.store
      (.upload tenantId documentId content) = ((do
        Saga.transact (Store.onContents
          (SqlAlchemyContentStore.put tenantId documentId content now))
        Saga.transact (Store.onJobs (UploadDocumentContentHandler.enqueue config id tenantId
          documentId document now)) : Saga Store Error PUnit) s.store).2 := by
    simp only [Request.perform, UploadDocumentContentHandler.handle]
    rw [Saga.bind_of_ok (show Saga.query _ s.store = (.ok document, s.store) by
      rw [Saga.query, hcheck])]
  rcases hput : (Saga.transact (Store.onContents (SqlAlchemyContentStore.put tenantId
    documentId content now)) : Saga Store Error PUnit) s.store with ⟨e | _, stored⟩
  · rw [Saga.bind_of_error hput] at hperform
    refine perform_run_of_once hidle (show Call.start config id now s.store
      (.upload tenantId documentId content) = .uploading tenantId documentId content document
      by simp only [Call.start, hcheck]) ?_ hperform
    simp only [Call.advance, await, hput]
  · rw [Saga.bind_of_ok hput] at hperform
    rw [hperform]
    exact ⟨_, upload_run hidle hcheck hput rfl⟩

end Requests

/-- A handler of the API on its own is a run of the system. -/
theorem perform_run (hidle : s.calls c = .idle) (request : Request) (id : UUID) (now : Instant) :
    ∃ labels, run (step config) s labels =
      some { s with store := request.perform config id now s.store } := by
  cases request with
  | register command =>
      rcases hlookup : RegisterDocumentHandler.lookup command id now s.store.documents with
        e | existing | document
      · refine perform_run_of_over hidle ?_ ?_
        · simp only [Call.start, hlookup]
        · simp only [Request.perform, RegisterDocumentHandler.handle, hlookup]
      · refine perform_run_of_over hidle ?_ ?_
        · simp only [Call.start, hlookup]
        · simp only [Request.perform, RegisterDocumentHandler.handle, hlookup]
      · have hstart : Call.start config id now s.store (.register command) =
            .registering document := by
          simp only [Call.start, hlookup]
        refine perform_run_of_once hidle hstart rfl ?_
        simp only [Request.perform, RegisterDocumentHandler.handle, hlookup]
        cases hadd : Documents.addCommit document s.store.documents with
        | error e => simp [await, Saga.transact, Store.onDocuments, hadd, Except.map]
        | ok t => simp [await, Saga.transact, Store.onDocuments, hadd, Except.map]
  | delete command =>
      rcases hread : DeleteDocumentHandler.read command now s.store.documents with
        e | ⟨loaded, document⟩
      · refine perform_run_of_over hidle ?_ ?_
        · simp only [Call.start, hread]
        · simp only [Request.perform, DeleteDocumentHandler.handle, hread]
      · have hstart : Call.start config id now s.store (.delete command) =
            .deleting loaded document := by
          simp only [Call.start, hread]
        refine perform_run_of_once hidle hstart rfl ?_
        simp only [Request.perform, DeleteDocumentHandler.handle, hread]
        cases hsave : Documents.saveCommit loaded document s.store.documents with
        | error e =>
            simp [await, saveDocument, Saga.transact, Store.onDocuments, hsave, Except.map]
        | ok t => simp [await, saveDocument, Saga.transact, Store.onDocuments, hsave, Except.map]
  | upload tenantId documentId content =>
      rcases hcheck : UploadDocumentContentHandler.check config tenantId documentId content
        s.store.documents with e | document
      · refine perform_run_of_over hidle ?_ ?_
        · simp only [Call.start, hcheck]
        · simp only [Request.perform, UploadDocumentContentHandler.handle]
          rw [Saga.bind_of_error (show Saga.query _ s.store = (.error e, s.store) by
            rw [Saga.query, hcheck])]
      · exact perform_run_upload hidle hcheck

end System

end Eka
