import Eka.System.Step

/-!
# The queue inside the system

The system refines the queue and its workers: forgetting the other tables and the
position inside `handle`, every step is a step of `QueueState` or invisible there. So
the jobs of the system are owned as the queue's invariant says.
-/

namespace Eka

open Py Relational Transition

/-- The position in `_process`, as the queue sees it. -/
def Phase.stage : Phase → Stage
  | .handling _ => .handling
  | .handled => .handled
  | .raised _ => .raised
  | .deadLettered => .deadLettered
  | .failing _ _ => .deadLettered

def Worker.view : Worker → QueueWorker
  | .idle => .idle
  | .busy phase job rest => .busy phase.stage job rest
  | .exited => .exited

/-- The queue of a system. -/
def System.queue (s : System) : QueueState := ⟨s.store.jobs, fun w => (s.workers w).view⟩

@[simp] theorem Worker.view_next (jobs : List IngestionJob) :
    (Worker.next jobs).view = QueueWorker.next jobs := by
  cases jobs <;> rfl

namespace System

variable {config : Config}

theorem queue_update (s : System) (store : Store) (w : Nat) (worker : Worker)
    (calls : Nat → Call) :
    System.queue ⟨store, Function.update s.workers w worker, calls⟩ =
      ⟨store.jobs, Function.update s.queue.workers w worker.view⟩ := by
  have hworkers : (fun v => (Function.update s.workers w worker v).view) =
      Function.update (fun v => (s.workers v).view) w worker.view := by
    funext v
    by_cases hv : v = w
    · rw [hv, Function.update_self, Function.update_self]
    · rw [Function.update_of_ne hv, Function.update_of_ne hv]
  unfold queue
  rw [hworkers]

/-- A worker's step, seen from the queue. -/
theorem queue_step_work {s : System} {w : Nat} {event : WorkerEvent} {worker : QueueWorker}
    {t : Jobs} (h : QueueWorker.step s.store.jobs (s.workers w).view event = some (worker, t)) :
    QueueState.step s.queue (.work w event) =
      some ⟨t, Function.update s.queue.workers w worker⟩ := by
  unfold QueueState.step queue
  simp only [h, Option.map_some]

/-- What the queue sees of one call of a worker: nothing, or one event. -/
theorem advance_view {job : IngestionJob} {rest : List IngestionJob} {now : Instant}
    {newUuid : Nat → UUID} {outcome : Outcome} {s s' : Store} {phase : Phase} {worker : Worker}
    (hleads : phase.Leads config job rest now newUuid s s' worker)
    (hwrites : s' = s ∨
      phase.Writes config job now newUuid s s' ∧ outcome.takesEffect = true) :
    (worker.view = .busy phase.stage job rest ∧ s'.jobs = s.jobs) ∨
      ∃ event, QueueWorker.step s.jobs (.busy phase.stage job rest) event =
        some (worker.view, s'.jobs) := by
  cases phase with
  | handling phase =>
      have hjobs : s'.jobs = s.jobs := by
        rcases hwrites with rfl | ⟨hwrites, -⟩
        · rfl
        · cases hwrites.written <;> rfl
      rcases hleads with ⟨next, -, rfl⟩ | ⟨exc, rfl⟩
      · cases next with
        | none => exact .inr ⟨.handle false, by rw [hjobs]; rfl⟩
        | some phase' => exact .inl ⟨rfl, hjobs⟩
      · exact .inr ⟨.handle true, by rw [hjobs]; rfl⟩
  | handled =>
      rcases hleads with ⟨rfl, hwrite⟩ | ⟨exc, rfl⟩
      · refine .inr ⟨.complete now .returns, ?_⟩
        rw [hwrite, Worker.view_next]
        rfl
      · rcases hwrites with rfl | ⟨hwrite, -⟩
        · exact .inr ⟨.complete now .raises, rfl⟩
        · exact .inr ⟨.complete now .raisesAfter, by rw [hwrite]; rfl⟩
  | raised exc =>
      rcases hleads with ⟨rfl, hwrite⟩ | rfl
      · refine .inr ⟨.fail (config.repr exc) now .returns, ?_⟩
        rw [hwrite]
        show some (if SqlAlchemyJobQueue.deadLettered job then _ else _, _) = some (_, _)
        split
        · rfl
        · rw [Worker.view_next]
          rfl
      · rcases hwrites with rfl | ⟨hwrite, -⟩
        · exact .inr ⟨.fail (config.repr exc) now .raises, rfl⟩
        · exact .inr ⟨.fail (config.repr exc) now .raisesAfter, by rw [hwrite]; rfl⟩
  | deadLettered =>
      have hjobs : s'.jobs = s.jobs := by
        rcases hwrites with rfl | ⟨hwrite, -⟩
        · rfl
        · cases hwrite.written
          rfl
      rcases hleads with ⟨loaded, document, rfl, -⟩ | rfl
      · exact .inl ⟨rfl, hjobs⟩
      · exact .inr ⟨.markFailed, by rw [hjobs, Worker.view_next]; rfl⟩
  | failing loaded document =>
      have hjobs : s'.jobs = s.jobs := by
        rcases hwrites with rfl | ⟨hwrite, -⟩
        · rfl
        · cases hwrite.written
          rfl
      obtain rfl : worker = .next rest := hleads
      exact .inr ⟨.markFailed, by rw [hjobs, Worker.view_next]; rfl⟩

/-- What the queue sees of what a call of the API writes: nothing, or a new job. -/
theorem call_view {s : System} {call : Call} {store : Store} (calls : Nat → Call)
    (h : call.Writes config s.store store) :
    System.queue ⟨store, s.workers, calls⟩ = s.queue ∨
      ∃ label, QueueState.step s.queue label = some (System.queue ⟨store, s.workers, calls⟩) := by
  cases h.written with
  | registered => exact .inl rfl
  | deleted => exact .inl rfl
  | uploaded => exact .inl rfl
  | @enqueued tenantId documentId document id now t henqueue =>
      right
      refine ⟨.enqueue id tenantId documentId document.collectionId document.version
        config.maxAttempts now, ?_⟩
      have hpos : ¬ config.maxAttempts < 1 := Nat.not_lt.mpr config.maxAttemptsPos
      simp only [UploadDocumentContentHandler.enqueue] at henqueue
      simp only [QueueState.step, queue, hpos, if_false, henqueue]

/-- The system refines its queue. -/
theorem step_simulates (config : Config) :
    Simulates (System.step config) QueueState.step System.queue := by
  intro s label s' h
  cases step_cases h with
  | request => exact .inl rfl
  | proceed c id now outcome call store leads writes =>
      rcases writes with rfl | ⟨hwrites, -⟩
      · exact .inl rfl
      · exact call_view _ hwrites
  | dequeue w workerId batchSize picked now jobs t idle claimed =>
      right
      refine ⟨.work w (.dequeue workerId batchSize picked now), ?_⟩
      rw [queue_update, Worker.view_next]
      refine queue_step_work ?_
      rw [idle]
      show (SqlAlchemyJobQueue.dequeue workerId batchSize picked now s.store.jobs).map _ = _
      rw [claimed]
      rfl
  | advance w now newUuid outcome phase job rest worker store busy leads writes =>
      rw [queue_update]
      have hview : (s.workers w).view = .busy phase.stage job rest := by rw [busy]; rfl
      rcases advance_view leads writes with ⟨hsame, hjobs⟩ | ⟨event, hevent⟩
      · left
        rw [hsame, hjobs, ← hview]
        show (⟨_, Function.update _ w (s.queue.workers w)⟩ : QueueState) = _
        rw [Function.update_eq_self]
        rfl
      · right
        refine ⟨.work w event, queue_step_work ?_⟩
        rw [hview]
        exact hevent
  | exit w =>
      have hrunning : s.workers w ≠ .exited := by
        intro hw
        simp [step, hw] at h
      right
      rw [queue_update]
      refine ⟨.work w .exit, queue_step_work ?_⟩
      cases hw : s.workers w with
      | idle => rfl
      | busy phase job rest => cases phase <;> rfl
      | exited => exact absurd hw hrunning

theorem reachable_owned {s : System} (h : Reachable (System.step config) init s) :
    s.queue.Owned :=
  QueueState.reachable_owned (h.simulate (step_simulates config))

/-- The row of the job that a worker is on. -/
theorem held_row {s : System} (howned : s.queue.Owned) {w : Nat} {phase : Phase}
    {job : IngestionJob} {rest : List IngestionJob} (hbusy : s.workers w = .busy phase job rest) :
    ∃ row, s.store.jobs.byId job.id = some row ∧ phase.stage.Fits job row := by
  have hheld : (phase.stage, job) ∈ (s.queue.workers w).holding := by
    show _ ∈ (s.workers w).view.holding
    rw [hbusy]
    exact List.mem_cons_self
  exact (howned.owns w).fits _ hheld

end System

end Eka
