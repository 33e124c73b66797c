import Mathlib.Logic.Function.Basic
import Eka.Ingestion.Queue
import Eka.Lib.Transition

/-!
# Workers over the queue

The worker loop of `worker.py:56-90` as far as the queue sees it: any number of
worker processes claim batches and settle their jobs one at a time, and any of them
may stop between two awaited calls. What `handler.handle` and `mark_failed` do to
other tables is left open here; they return or raise.

`Owned` is the invariant. A job in the hands of a worker is in nobody else's, its row
is the snapshot the worker holds, and the row's status is what the worker's position
in `_process` says. Everything else about the queue follows from it.
-/

namespace Eka

open Py Relational Transition

/-- Where `_process` stands with its job (`worker.py:73-90`): in `handle`, before `complete`,
    in the `except` block before `fail`, before `mark_failed`. -/
inductive Stage where
  | handling
  | handled
  | raised
  | deadLettered
  deriving DecidableEq, Repr

/-- A worker process: waiting in `run`, on a job of its batch, or gone. -/
inductive QueueWorker where
  | idle
  | busy (stage : Stage) (job : IngestionJob) (rest : List IngestionJob)
  | exited
  deriving DecidableEq, Repr

/-- What a worker process does next. A `dequeue` that raises ends the process and is an
    `exit`. -/
inductive WorkerEvent where
  | dequeue (workerId : Str) (batchSize : Nat) (picked : List UUID) (now : Instant)
  | handle (raises : Bool)
  | complete (now : Instant) (outcome : Outcome)
  | fail (error : Str) (now : Instant) (outcome : Outcome)
  | markFailed
  | exit
  deriving DecidableEq, Repr

namespace QueueWorker

/-- The loop of `_drain_once` on the rest of the batch (`worker.py:69-71`). -/
def next : List IngestionJob → QueueWorker
  | [] => .idle
  | job :: rest => .busy .handling job rest

/-- One awaited call of a worker (`worker.py:67-90`). An exception of `fail` is raised inside
    the `except` block, so it leaves `_process` and `run` and ends the process; one of
    `mark_failed` is swallowed. -/
def step (t : Jobs) : QueueWorker → WorkerEvent → Option (QueueWorker × Jobs)
  | .idle, .dequeue workerId batchSize picked now =>
      (SqlAlchemyJobQueue.dequeue workerId batchSize picked now t).map fun (jobs, t') =>
        (next jobs, t')
  | .busy .handling job rest, .handle raises =>
      some (.busy (if raises then .raised else .handled) job rest, t)
  | .busy .handled job rest, .complete now outcome =>
      some (if outcome = .returns then next rest else .busy .raised job rest,
        if outcome.takesEffect then SqlAlchemyJobQueue.complete job now t else t)
  | .busy .raised job rest, .fail error now outcome =>
      let answer := SqlAlchemyJobQueue.fail job error now t
      some (if outcome ≠ .returns then .exited
          else if answer.1 then .busy .deadLettered job rest else next rest,
        if outcome.takesEffect then answer.2 else t)
  | .busy .deadLettered _ rest, .markFailed => some (next rest, t)
  | .exited, _ => none
  | _, .exit => some (.exited, t)
  | _, _ => none

/-- The jobs in the hands of a worker, each with where the worker stands with it. -/
def holding : QueueWorker → List (Stage × IngestionJob)
  | .busy stage job rest => (stage, job) :: rest.map fun j => (.handling, j)
  | _ => []

/-- The ids of the jobs in the hands of a worker. -/
def ids (worker : QueueWorker) : List UUID := worker.holding.map (·.2.id)

end QueueWorker

/-- The queue and its workers. -/
structure QueueState where
  jobs : Jobs
  workers : Nat → QueueWorker

inductive QueueLabel where
  | enqueue (id tenantId documentId collectionId : UUID) (documentVersion maxAttempts : Nat)
      (now : Instant)
  | work (w : Nat) (event : WorkerEvent)
  deriving DecidableEq, Repr

namespace QueueState

def init : QueueState := ⟨Table.empty, fun _ => .idle⟩

/-- One step of the system; an `enqueue` that raises changes nothing. -/
def step (s : QueueState) : QueueLabel → Option QueueState
  | .enqueue id tenantId documentId collectionId documentVersion maxAttempts now =>
      if maxAttempts < 1 then none
      else
        match SqlAlchemyJobQueue.enqueue id tenantId documentId collectionId documentVersion
            maxAttempts now s.jobs with
        | .error _ => some s
        | .ok t => some { s with jobs := t }
  | .work w event =>
      (QueueWorker.step s.jobs (s.workers w) event).map fun (worker, t) =>
        ⟨t, Function.update s.workers w worker⟩

end QueueState

/-! ## The invariant -/

/-- What the row of a job is while a worker stands at this stage with it. -/
def Stage.Fits (job : IngestionJob) (row : IngestionJobModel) : Stage → Prop
  | .handling => row.toJob = job ∧ row.status = .processing
  | .handled => row.toJob = job ∧ row.status = .processing
  | .raised => row.toJob = job ∧ (row.status = .processing ∨ row.status = .completed)
  | .deadLettered => row.toJob = { job with attempts := job.attempts + 1 } ∧
      row.status = .deadLetter

/-- Whatever the stage, the row is about the same version of the same document. -/
theorem Stage.Fits.subject {job : IngestionJob} {row : IngestionJobModel} {stage : Stage}
    (h : stage.Fits job row) :
    row.documentId = job.documentId ∧ row.tenantId = job.tenantId ∧
      row.collectionId = job.collectionId ∧ row.documentVersion = job.documentVersion := by
  have hsnap : row.toJob = job ∨ row.toJob = { job with attempts := job.attempts + 1 } := by
    cases stage with
    | handling => exact .inl h.1
    | handled => exact .inl h.1
    | raised => exact .inl h.1
    | deadLettered => exact .inr h.1
  rcases hsnap with rfl | hsnap
  · exact ⟨rfl, rfl, rfl, rfl⟩
  · exact ⟨congrArg IngestionJob.documentId hsnap, congrArg IngestionJob.tenantId hsnap,
      congrArg IngestionJob.collectionId hsnap, congrArg IngestionJob.documentVersion hsnap⟩

/-- The attempts of a row and its lock agree with its status. -/
structure IngestionJobModel.Accounted (row : IngestionJobModel) : Prop where
  dead : row.status = .deadLetter → row.attempts = row.maxAttempts
  alive : row.status ≠ .deadLetter → row.attempts < row.maxAttempts
  locked : row.lockedBy.isSome = true ↔ row.status = .processing

/-- A worker's jobs are distinct, and each has a row that fits its stage. -/
structure QueueWorker.Owns (t : Jobs) (worker : QueueWorker) : Prop where
  nodup : worker.ids.Nodup
  fits : ∀ p ∈ worker.holding, ∃ row, t.byId p.2.id = some row ∧ p.1.Fits p.2 row

structure QueueState.Owned (s : QueueState) : Prop where
  owns : ∀ w, (s.workers w).Owns s.jobs
  disjoint : ∀ v w, v ≠ w → List.Disjoint (s.workers v).ids (s.workers w).ids
  accounted : ∀ id row, s.jobs.byId id = some row → row.Accounted

namespace QueueWorker

open SqlAlchemyJobQueue

@[simp] theorem holding_next (jobs : List IngestionJob) :
    (next jobs).holding = jobs.map fun job => (.handling, job) := by
  cases jobs <;> rfl

@[simp] theorem ids_next (jobs : List IngestionJob) : (next jobs).ids = jobs.map (·.id) := by
  simp [ids, Function.comp_def]

@[simp] theorem ids_idle : ids .idle = [] := rfl

@[simp] theorem ids_exited : ids .exited = [] := rfl

@[simp] theorem ids_busy (stage : Stage) (job : IngestionJob) (rest : List IngestionJob) :
    ids (.busy stage job rest) = job.id :: rest.map (·.id) := by
  simp [ids, holding, Function.comp_def]

variable {t t' : Jobs} {worker worker' : QueueWorker} {event : WorkerEvent}

/-- The ways a step of a worker can go. -/
inductive Stepped (t : Jobs) : QueueWorker → WorkerEvent → QueueWorker → Jobs → Prop
  | dequeue (workerId : Str) (batchSize : Nat) (picked : List UUID) (now : Instant)
      (jobs : List IngestionJob) (t' : Jobs)
      (claimed : SqlAlchemyJobQueue.dequeue workerId batchSize picked now t = some (jobs, t')) :
      Stepped t .idle (.dequeue workerId batchSize picked now) (next jobs) t'
  | handle (job : IngestionJob) (rest : List IngestionJob) (raises : Bool) :
      Stepped t (.busy .handling job rest) (.handle raises)
        (.busy (if raises then .raised else .handled) job rest) t
  | completed (job : IngestionJob) (rest : List IngestionJob) (now : Instant) :
      Stepped t (.busy .handled job rest) (.complete now .returns) (next rest)
        (complete job now t)
  | notCompleted (job : IngestionJob) (rest : List IngestionJob) (now : Instant) :
      Stepped t (.busy .handled job rest) (.complete now .raises) (.busy .raised job rest) t
  | completedLate (job : IngestionJob) (rest : List IngestionJob) (now : Instant) :
      Stepped t (.busy .handled job rest) (.complete now .raisesAfter) (.busy .raised job rest)
        (complete job now t)
  | failed (job : IngestionJob) (rest : List IngestionJob) (error : Str) (now : Instant)
      (last : deadLettered job = false) :
      Stepped t (.busy .raised job rest) (.fail error now .returns) (next rest)
        (fail job error now t).2
  | deadLettered (job : IngestionJob) (rest : List IngestionJob) (error : Str) (now : Instant)
      (last : deadLettered job = true) :
      Stepped t (.busy .raised job rest) (.fail error now .returns)
        (.busy .deadLettered job rest) (fail job error now t).2
  | notFailed (job : IngestionJob) (rest : List IngestionJob) (error : Str) (now : Instant) :
      Stepped t (.busy .raised job rest) (.fail error now .raises) .exited t
  | failedLate (job : IngestionJob) (rest : List IngestionJob) (error : Str) (now : Instant) :
      Stepped t (.busy .raised job rest) (.fail error now .raisesAfter) .exited
        (fail job error now t).2
  | markFailed (job : IngestionJob) (rest : List IngestionJob) :
      Stepped t (.busy .deadLettered job rest) .markFailed (next rest) t
  | exit (worker : QueueWorker) : Stepped t worker .exit .exited t

theorem step_cases (h : worker.step t event = some (worker', t')) :
    Stepped t worker event worker' t' := by
  unfold step at h
  split at h
  · next workerId batchSize picked now =>
      obtain ⟨⟨jobs, t₁⟩, hdeq, heq⟩ := Option.map_eq_some_iff.mp h
      cases heq
      exact .dequeue workerId batchSize picked now jobs _ hdeq
  · next job rest raises =>
      cases h
      exact .handle job rest raises
  · next job rest now outcome =>
      cases outcome with
      | returns => cases h; exact .completed job rest now
      | raises => cases h; exact .notCompleted job rest now
      | raisesAfter => cases h; exact .completedLate job rest now
  · next job rest error now outcome =>
      cases outcome with
      | returns =>
          simp only [ne_eq, not_true_eq_false, if_false] at h
          split at h
          · next hlast => cases h; exact .deadLettered job rest error now hlast
          · next hlast =>
              cases h
              exact .failed job rest error now (Bool.eq_false_iff.mpr hlast)
      | raises => cases h; exact .notFailed job rest error now
      | raisesAfter => cases h; exact .failedLate job rest error now
  · next job rest => cases h; exact .markFailed job rest
  · cases h
  · cases h; exact .exit worker
  · cases h

/-- A step of a worker leaves alone what it does not hold and cannot claim. -/
theorem step_frame (h : worker.step t event = some (worker', t')) {id : UUID}
    (hpending : ∀ row, t.byId id = some row → row.status ≠ .pending) (hid : id ∉ worker.ids) :
    t'.byId id = t.byId id ∧ id ∉ worker'.ids := by
  cases step_cases h with
  | dequeue workerId batchSize picked now jobs t' hdeq =>
      obtain ⟨-, hids, hclaimed, hrows⟩ := dequeue_eq_some hdeq
      have hpicked : id ∉ picked := by
        rw [← hids]
        intro hmem
        obtain ⟨job, hjob, rfl⟩ := List.mem_map.mp hmem
        obtain ⟨row, hrow, -, hstatus, -⟩ := hclaimed job hjob
        exact hpending row hrow hstatus
      rw [hrows, if_neg hpicked, ids_next, hids]
      exact ⟨rfl, hpicked⟩
  | handle => exact ⟨rfl, by simpa using hid⟩
  | completed job rest now =>
      simp only [ids_busy, List.mem_cons, not_or] at hid
      rw [complete_byId, if_neg hid.1, ids_next]
      exact ⟨rfl, hid.2⟩
  | notCompleted => exact ⟨rfl, by simpa using hid⟩
  | completedLate job rest now =>
      simp only [ids_busy, List.mem_cons, not_or] at hid ⊢
      rw [complete_byId, if_neg hid.1]
      exact ⟨rfl, hid⟩
  | failed job rest error now =>
      simp only [ids_busy, List.mem_cons, not_or] at hid
      rw [fail_byId, if_neg hid.1, ids_next]
      exact ⟨rfl, hid.2⟩
  | deadLettered job rest error now =>
      simp only [ids_busy, List.mem_cons, not_or] at hid ⊢
      rw [fail_byId, if_neg hid.1]
      exact ⟨rfl, hid⟩
  | notFailed => exact ⟨rfl, by simp⟩
  | failedLate job rest error now =>
      simp only [ids_busy, List.mem_cons, not_or] at hid
      rw [fail_byId, if_neg hid.1]
      exact ⟨rfl, by simp⟩
  | markFailed job rest =>
      simp only [ids_busy, List.mem_cons, not_or] at hid
      rw [ids_next]
      exact ⟨rfl, hid.2⟩
  | exit => exact ⟨rfl, by simp⟩

/-! ### What a worker's own step does to its jobs -/

theorem owns_exited (t : Jobs) : Owns t .exited := ⟨.nil, by simp [holding]⟩

theorem owns_busy {stage : Stage} {job : IngestionJob} {rest : List IngestionJob} :
    Owns t (.busy stage job rest) ↔
      (∃ row, t.byId job.id = some row ∧ stage.Fits job row) ∧ job.id ∉ rest.map (·.id) ∧
        Owns t (next rest) := by
  constructor
  · intro h
    have hnodup := h.nodup
    rw [ids_busy, List.nodup_cons] at hnodup
    refine ⟨h.fits (stage, job) List.mem_cons_self, hnodup.1, ?_, ?_⟩
    · rw [ids_next]
      exact hnodup.2
    · intro p hp
      rw [holding_next] at hp
      exact h.fits p (List.mem_cons_of_mem _ hp)
  · rintro ⟨hjob, hnot, hrest⟩
    have hnodup := hrest.nodup
    rw [ids_next] at hnodup
    refine ⟨?_, ?_⟩
    · rw [ids_busy]
      exact List.nodup_cons.mpr ⟨hnot, hnodup⟩
    · intro p hp
      rcases List.mem_cons.mp hp with rfl | hp
      · exact hjob
      · refine hrest.fits p ?_
        rw [holding_next]
        exact hp

/-- A worker whose rows are untouched still owns its jobs. -/
theorem Owns.congr (h : worker.Owns t) (hrows : ∀ id ∈ worker.ids, t'.byId id = t.byId id) :
    worker.Owns t' := by
  refine ⟨h.nodup, ?_⟩
  intro p hp
  have hid : p.2.id ∈ worker.ids := List.mem_map.mpr ⟨p, hp, rfl⟩
  rw [hrows p.2.id hid]
  exact h.fits p hp

theorem ne_of_mem_rest {job : IngestionJob} {rest : List IngestionJob}
    (hnot : job.id ∉ rest.map (·.id)) {id : UUID} (hid : id ∈ (next rest).ids) : id ≠ job.id := by
  rintro rfl
  rw [ids_next] at hid
  exact hnot hid

/-- What a worker owns of the rest of its batch, when only the row of the current job changes. -/
theorem Owns.rest {job : IngestionJob} {rest : List IngestionJob} (h : Owns t (next rest))
    (hnot : job.id ∉ rest.map (·.id)) (hrows : ∀ id, id ≠ job.id → t'.byId id = t.byId id) :
    Owns t' (next rest) :=
  h.congr fun id hid => hrows id (ne_of_mem_rest hnot hid)

theorem complete_byId_of_ne (job : IngestionJob) (now : Instant) (t : Jobs) (id : UUID)
    (h : id ≠ job.id) : Jobs.byId (complete job now t) id = t.byId id := by
  rw [complete_byId, if_neg h]

theorem fail_byId_of_ne (job : IngestionJob) (error : Str) (now : Instant) (t : Jobs) (id : UUID)
    (h : id ≠ job.id) : Jobs.byId (fail job error now t).2 id = t.byId id := by
  rw [fail_byId, if_neg h]

theorem step_owns (h : worker.step t event = some (worker', t')) (howns : worker.Owns t) :
    worker'.Owns t' := by
  cases step_cases h with
  | dequeue workerId batchSize picked now jobs t' hdeq =>
      obtain ⟨hnodup, hids, hclaimed, hrows⟩ := dequeue_eq_some hdeq
      refine ⟨by rwa [ids_next, hids], ?_⟩
      intro p hp
      rw [holding_next] at hp
      obtain ⟨job, hjob, rfl⟩ := List.mem_map.mp hp
      obtain ⟨row, hrow, hsnap, -, -⟩ := hclaimed job hjob
      have hmem : job.id ∈ picked := by
        rw [← hids]
        exact List.mem_map.mpr ⟨job, hjob, rfl⟩
      refine ⟨claim workerId now row, ?_, hsnap, rfl⟩
      rw [hrows, if_pos hmem, hrow]
      rfl
  | handle job rest raises =>
      obtain ⟨⟨row, hrow, hsnap, hstatus⟩, hnot, hrest⟩ := owns_busy.mp howns
      refine owns_busy.mpr ⟨⟨row, hrow, ?_⟩, hnot, hrest⟩
      cases raises
      · exact ⟨hsnap, hstatus⟩
      · exact ⟨hsnap, .inl hstatus⟩
  | completed job rest now =>
      obtain ⟨-, hnot, hrest⟩ := owns_busy.mp howns
      exact hrest.rest hnot (complete_byId_of_ne job now t)
  | notCompleted job rest now =>
      obtain ⟨⟨row, hrow, hsnap, hstatus⟩, hnot, hrest⟩ := owns_busy.mp howns
      exact owns_busy.mpr ⟨⟨row, hrow, hsnap, .inl hstatus⟩, hnot, hrest⟩
  | completedLate job rest now =>
      obtain ⟨⟨row, hrow, hsnap, -⟩, hnot, hrest⟩ := owns_busy.mp howns
      have hrest' := hrest.rest hnot (complete_byId_of_ne job now t)
      refine owns_busy.mpr ⟨⟨SqlAlchemyJobQueue.completed now row, ?_, hsnap, .inr rfl⟩, hnot,
        hrest'⟩
      rw [complete_byId, if_pos rfl, hrow]
      rfl
  | failed job rest error now =>
      obtain ⟨-, hnot, hrest⟩ := owns_busy.mp howns
      exact hrest.rest hnot (fail_byId_of_ne job error now t)
  | deadLettered job rest error now hlast =>
      obtain ⟨⟨row, hrow, hsnap, -⟩, hnot, hrest⟩ := owns_busy.mp howns
      have hrest' := hrest.rest hnot (fail_byId_of_ne job error now t)
      refine owns_busy.mpr ⟨⟨SqlAlchemyJobQueue.failed job error now row, ?_, ?_, ?_⟩, hnot,
        hrest'⟩
      · rw [fail_byId, if_pos rfl, hrow]
        rfl
      · rw [failed_toJob, hsnap]
      · rw [failed_status, hlast]
        rfl
  | notFailed => exact owns_exited t
  | failedLate => exact owns_exited _
  | markFailed => exact (owns_busy.mp howns).2.2
  | exit => exact owns_exited t

end QueueWorker

/-! ### What a step does to one row -/

/-- The event claims the job with this id. -/
def WorkerEvent.claims (id : UUID) : WorkerEvent → Bool
  | .dequeue _ _ picked _ => picked.contains id
  | _ => false

def QueueLabel.claims (id : UUID) : QueueLabel → Bool
  | .enqueue .. => false
  | .work _ event => event.claims id

/-- The event records a failure of the job with this id. -/
def QueueWorker.records (id : UUID) : QueueWorker → WorkerEvent → Bool
  | .busy .raised job _, .fail _ _ outcome => outcome.takesEffect && job.id == id
  | _, _ => false

/-- The changes of the row under one id, and whether the job is claimed by them. -/
inductive RowStep : Bool → Option IngestionJobModel → Option IngestionJobModel → Prop
  | same (row : Option IngestionJobModel) : RowStep false row row
  | enqueued (id tenantId documentId collectionId : UUID) (version maxAttempts : Nat)
      (now : Instant) (positive : 1 ≤ maxAttempts) :
      RowStep false none (some (SqlAlchemyJobQueue.newRow id tenantId documentId collectionId
        version maxAttempts now))
  | claimed (workerId : Str) (now : Instant) (row : IngestionJobModel)
      (pending : row.status = .pending) :
      RowStep true (some row) (some (SqlAlchemyJobQueue.claim workerId now row))
  | completed (now : Instant) (row : IngestionJobModel) (processing : row.status = .processing) :
      RowStep false (some row) (some (SqlAlchemyJobQueue.completed now row))
  | failed (error : Str) (now : Instant) (row : IngestionJobModel)
      (held : row.status = .processing ∨ row.status = .completed) :
      RowStep false (some row) (some (SqlAlchemyJobQueue.failed row.toJob error now row))

namespace QueueWorker

open SqlAlchemyJobQueue

variable {t t' : Jobs} {worker worker' : QueueWorker} {event : WorkerEvent} {id : UUID}

/-- What a step of a worker does to one job: its row after the step, and whether the worker
    has it then. -/
inductive Touched (id : UUID) (t : Jobs) :
    QueueWorker → WorkerEvent → QueueWorker → Option IngestionJobModel → Prop
  | untouched (worker : QueueWorker) (event : WorkerEvent) (worker' : QueueWorker)
      (held : id ∈ worker'.ids → id ∈ worker.ids) (unclaimed : event.claims id = false)
      (quiet : worker.records id event = false) : Touched id t worker event worker' (t.byId id)
  | claimed (workerId : Str) (batchSize : Nat) (picked : List UUID) (now : Instant)
      (worker' : QueueWorker) (row : IngestionJobModel) (isPicked : id ∈ picked)
      (found : t.byId id = some row) (pending : row.status = .pending)
      (due : row.availableAt ≤ now) :
      Touched id t .idle (.dequeue workerId batchSize picked now) worker'
        (some (claim workerId now row))
  | completed (job : IngestionJob) (rest : List IngestionJob) (now : Instant) (outcome : Outcome)
      (worker' : QueueWorker) (row : IngestionJobModel) (isJob : job.id = id)
      (found : t.byId id = some row) (processing : row.status = .processing)
      (held : id ∈ worker'.ids → id ∈ (busy .handled job rest).ids) :
      Touched id t (.busy .handled job rest) (.complete now outcome) worker'
        (some (SqlAlchemyJobQueue.completed now row))
  | failed (job : IngestionJob) (rest : List IngestionJob) (error : Str) (now : Instant)
      (outcome : Outcome) (worker' : QueueWorker) (row : IngestionJobModel) (isJob : job.id = id)
      (takes : outcome.takesEffect = true) (found : t.byId id = some row)
      (snapshot : row.toJob = job) (unsettled : row.status = .processing ∨ row.status = .completed)
      (held : id ∈ worker'.ids → deadLettered job = true) :
      Touched id t (.busy .raised job rest) (.fail error now outcome) worker'
        (some (SqlAlchemyJobQueue.failed job error now row))

theorem records_exit (id : UUID) (worker : QueueWorker) : worker.records id .exit = false := by
  cases worker with
  | idle => rfl
  | exited => rfl
  | busy stage job rest => cases stage <;> rfl

/-- What is left of a batch was in it. -/
theorem mem_busy_of_next {stage : Stage} {job : IngestionJob} {rest : List IngestionJob}
    (h : id ∈ (next rest).ids) : id ∈ (busy stage job rest).ids := by
  rw [ids_next] at h
  rw [ids_busy]
  exact List.mem_cons_of_mem _ h

/-- A commit of `complete`, seen from any job. -/
theorem touched_complete {job : IngestionJob} {rest : List IngestionJob} {now : Instant}
    {outcome : Outcome} {row : IngestionJobModel} (hrow : t.byId job.id = some row)
    (hstatus : row.status = .processing)
    (hheld : id ∈ worker'.ids → id ∈ (busy .handled job rest).ids) :
    Touched id t (.busy .handled job rest) (.complete now outcome) worker'
      (Jobs.byId (complete job now t) id) := by
  rw [complete_byId]
  by_cases hid : id = job.id
  · subst hid
    rw [if_pos rfl, hrow]
    exact .completed job rest now outcome worker' row rfl hrow hstatus hheld
  · rw [if_neg hid]
    exact .untouched _ _ _ hheld rfl rfl

/-- A commit of `fail`. -/
theorem touched_fail {job : IngestionJob} {rest : List IngestionJob} {error : Str} {now : Instant}
    {outcome : Outcome} {row : IngestionJobModel} (htakes : outcome.takesEffect = true)
    (hrow : t.byId job.id = some row) (hsnap : row.toJob = job)
    (hstatus : row.status = .processing ∨ row.status = .completed)
    (hheld : id ∈ worker'.ids → id ∈ (busy .raised job rest).ids)
    (hsettled : job.id ∈ worker'.ids → deadLettered job = true) :
    Touched id t (.busy .raised job rest) (.fail error now outcome) worker'
      (Jobs.byId (fail job error now t).2 id) := by
  rw [fail_byId]
  by_cases hid : id = job.id
  · subst hid
    rw [if_pos rfl, hrow]
    exact .failed job rest error now outcome worker' row rfl htakes hrow hsnap hstatus hsettled
  · rw [if_neg hid]
    refine .untouched _ _ _ hheld rfl ?_
    simp [records, Ne.symm hid]

/-- The inversion lemma for one job of the queue. -/
theorem step_touched (h : worker.step t event = some (worker', t')) (howns : worker.Owns t)
    (id : UUID) : Touched id t worker event worker' (t'.byId id) := by
  cases step_cases h with
  | dequeue workerId batchSize picked now jobs t' hdeq =>
      obtain ⟨-, hids, hclaimed, hrows⟩ := dequeue_eq_some hdeq
      by_cases hmem : id ∈ picked
      · rw [← hids] at hmem
        obtain ⟨job, hjob, rfl⟩ := List.mem_map.mp hmem
        obtain ⟨row, hrow, -, hpending, hdue⟩ := hclaimed job hjob
        rw [hids] at hmem
        rw [hrows, if_pos hmem, hrow]
        exact .claimed workerId batchSize picked now _ row hmem hrow hpending hdue
      · rw [hrows, if_neg hmem]
        refine .untouched _ _ _ ?_ (by simpa [WorkerEvent.claims] using hmem) rfl
        intro hheld
        rw [ids_next, hids] at hheld
        exact absurd hheld hmem
  | handle job rest raises =>
      exact .untouched _ _ _ (by simp) rfl rfl
  | completed job rest now =>
      obtain ⟨⟨row, hrow, -, hstatus⟩, -, -⟩ := owns_busy.mp howns
      exact touched_complete hrow hstatus mem_busy_of_next
  | notCompleted job rest now => exact .untouched _ _ _ (by simp) rfl rfl
  | completedLate job rest now =>
      obtain ⟨⟨row, hrow, -, hstatus⟩, -, -⟩ := owns_busy.mp howns
      exact touched_complete hrow hstatus (by simp)
  | failed job rest error now hlast =>
      obtain ⟨⟨row, hrow, hsnap, hstatus⟩, hnot, -⟩ := owns_busy.mp howns
      refine touched_fail rfl hrow hsnap hstatus mem_busy_of_next ?_
      intro hheld
      rw [ids_next] at hheld
      exact absurd hheld hnot
  | deadLettered job rest error now hlast =>
      obtain ⟨⟨row, hrow, hsnap, hstatus⟩, -, -⟩ := owns_busy.mp howns
      exact touched_fail rfl hrow hsnap hstatus (by simp) fun _ => hlast
  | notFailed job rest error now => exact .untouched _ _ _ (by simp) rfl rfl
  | failedLate job rest error now =>
      obtain ⟨⟨row, hrow, hsnap, hstatus⟩, -, -⟩ := owns_busy.mp howns
      exact touched_fail rfl hrow hsnap hstatus (by simp) (by simp)
  | markFailed job rest => exact .untouched _ _ _ mem_busy_of_next rfl rfl
  | exit => exact .untouched _ _ _ (by simp) rfl (records_exit id worker)

/-- The row alone. -/
theorem Touched.rowStep {row' : Option IngestionJobModel}
    (h : Touched id t worker event worker' row') :
    RowStep (event.claims id) (t.byId id) row' := by
  cases h with
  | untouched _ _ _ _ hunclaimed =>
      rw [hunclaimed]
      exact .same _
  | claimed workerId batchSize picked now _ row hpicked hrow hpending =>
      have hclaims : WorkerEvent.claims id (.dequeue workerId batchSize picked now) = true := by
        simpa [WorkerEvent.claims] using hpicked
      rw [hclaims, hrow]
      exact .claimed workerId now row hpending
  | completed _ _ now _ _ row _ hrow hstatus =>
      rw [hrow]
      exact .completed now row hstatus
  | failed job _ error now _ _ row _ _ hrow hsnap hstatus =>
      rw [hrow, ← hsnap]
      exact .failed error now row hstatus

theorem step_row (h : worker.step t event = some (worker', t')) (howns : worker.Owns t)
    (id : UUID) : RowStep (event.claims id) (t.byId id) (t'.byId id) :=
  (step_touched h howns id).rowStep

end QueueWorker

theorem RowStep.accounted {claims : Bool} {old new : Option IngestionJobModel}
    (h : RowStep claims old new) (hold : ∀ row, old = some row → row.Accounted) :
    ∀ row, new = some row → row.Accounted := by
  intro row' hnew
  cases h with
  | same => exact hold row' hnew
  | enqueued id tenantId documentId collectionId version maxAttempts now positive =>
      cases hnew
      exact ⟨by simp [SqlAlchemyJobQueue.newRow], fun _ => positive,
        by simp [SqlAlchemyJobQueue.newRow]⟩
  | claimed workerId now row pending =>
      cases hnew
      have hrow := hold row rfl
      have halive : row.attempts < row.maxAttempts := hrow.alive (by simp [pending])
      exact ⟨by simp [SqlAlchemyJobQueue.claim], fun _ => halive,
        by simp [SqlAlchemyJobQueue.claim]⟩
  | completed now row processing =>
      cases hnew
      have hrow := hold row rfl
      have halive : row.attempts < row.maxAttempts := hrow.alive (by simp [processing])
      exact ⟨by simp [SqlAlchemyJobQueue.completed], fun _ => halive,
        by simp [SqlAlchemyJobQueue.completed]⟩
  | failed error now row held =>
      cases hnew
      have hrow := hold row rfl
      have halive : row.attempts < row.maxAttempts := by
        refine hrow.alive ?_
        rcases held with hs | hs <;> simp [hs]
      have hdead : SqlAlchemyJobQueue.deadLettered row.toJob = true ↔
          row.maxAttempts ≤ row.attempts + 1 := by
        simp [SqlAlchemyJobQueue.deadLettered, IngestionJobModel.toJob]
      have hattempts : row.toJob.attempts = row.attempts := rfl
      by_cases hlast : row.maxAttempts ≤ row.attempts + 1
      · refine ⟨fun _ => ?_, ?_, ?_⟩
        · rw [SqlAlchemyJobQueue.failed_attempts, SqlAlchemyJobQueue.failed_maxAttempts, hattempts]
          omega
        · simp [hdead.mpr hlast]
        · simp [hdead.mpr hlast]
      · refine ⟨?_, fun _ => ?_, ?_⟩
        · simp [hdead, hlast]
        · rw [SqlAlchemyJobQueue.failed_attempts, SqlAlchemyJobQueue.failed_maxAttempts, hattempts]
          omega
        · simp [hdead, hlast]

/-- How often the job of a row has been claimed: once for each attempt that failed, and once
    more while it is being processed or after it completed. -/
def IngestionJobModel.claimCount (row : IngestionJobModel) : Nat :=
  if row.status = .processing ∨ row.status = .completed then row.attempts + 1 else row.attempts

theorem RowStep.claimCount {claims : Bool} {old new : Option IngestionJobModel}
    (h : RowStep claims old new) :
    (new.map IngestionJobModel.claimCount).getD 0 =
      (old.map IngestionJobModel.claimCount).getD 0 + claims.toNat := by
  cases h with
  | same => rfl
  | enqueued => rfl
  | claimed workerId now row pending =>
      simp [SqlAlchemyJobQueue.claim, IngestionJobModel.claimCount, pending]
  | completed now row processing =>
      simp [SqlAlchemyJobQueue.completed, IngestionJobModel.claimCount, processing]
  | failed error now row held =>
      have hattempts : row.toJob.attempts = row.attempts := rfl
      by_cases hdead : SqlAlchemyJobQueue.deadLettered row.toJob = true <;>
        simp [IngestionJobModel.claimCount, hdead, held, hattempts]

/-! ## Every step keeps the invariant -/

namespace QueueState

open SqlAlchemyJobQueue

variable {s s' : QueueState} {label : QueueLabel}

theorem init_owned : Owned init where
  owns := fun _ => ⟨.nil, by simp [init, QueueWorker.holding]⟩
  disjoint := fun _ _ _ => by simp [init]
  accounted := by simp [init]

/-- The row under an id after an `enqueue`. -/
theorem enqueue_row {id tenantId documentId collectionId : UUID} {version maxAttempts : Nat}
    {now : Instant} {t t' : Jobs} (hpos : 1 ≤ maxAttempts)
    (h : enqueue id tenantId documentId collectionId version maxAttempts now t = .ok t')
    (id' : UUID) : RowStep false (t.byId id') (t'.byId id') := by
  rcases enqueue_ok h with ⟨rfl, -⟩ | ⟨-, hins⟩
  · exact .same _
  · have hnew := byId_of_insert hins
    rw [byId_insert hins]
    rw [newRow_id] at hnew ⊢
    by_cases hid : id = id'
    · subst hid
      rw [if_pos rfl, hnew]
      exact .enqueued id tenantId documentId collectionId version maxAttempts now hpos
    · rw [if_neg hid]
      exact .same _

/-- An `enqueue` does not touch a row that exists. -/
theorem enqueue_frame {id tenantId documentId collectionId : UUID} {version maxAttempts : Nat}
    {now : Instant} {t t' : Jobs}
    (h : enqueue id tenantId documentId collectionId version maxAttempts now t = .ok t')
    {id' : UUID} {row : IngestionJobModel} (hrow : t.byId id' = some row) :
    t'.byId id' = some row := by
  rcases enqueue_ok h with ⟨rfl, -⟩ | ⟨-, hins⟩
  · exact hrow
  · have hnew := byId_of_insert hins
    rw [byId_insert hins]
    rw [newRow_id] at hnew ⊢
    rw [if_neg]
    · exact hrow
    · rintro rfl
      rw [hrow] at hnew
      cases hnew

/-- A held row is never up for a claim. -/
theorem Owned.not_pending (h : Owned s) {w : Nat} {id : UUID} (hid : id ∈ (s.workers w).ids)
    {row : IngestionJobModel} (hrow : s.jobs.byId id = some row) : row.status ≠ .pending := by
  obtain ⟨p, hp, rfl⟩ := List.mem_map.mp hid
  obtain ⟨row', hrow', hfits⟩ := (h.owns w).fits p hp
  obtain rfl : row = row' := Option.some.inj (hrow.symm.trans hrow')
  intro hpending
  cases hstage : p.1 with
  | handling => rw [hstage] at hfits; simp [Stage.Fits, hpending] at hfits
  | handled => rw [hstage] at hfits; simp [Stage.Fits, hpending] at hfits
  | raised => rw [hstage] at hfits; simp [Stage.Fits, hpending] at hfits
  | deadLettered => rw [hstage] at hfits; simp [Stage.Fits, hpending] at hfits

theorem step_row (howned : Owned s) (h : s.step label = some s') (id : UUID) :
    RowStep (label.claims id) (s.jobs.byId id) (s'.jobs.byId id) := by
  cases label with
  | enqueue jobId tenantId documentId collectionId version maxAttempts now =>
      simp only [step] at h
      split at h
      · cases h
      · next hpos =>
          split at h
          · cases h
            exact .same _
          · next t ht =>
              cases h
              exact enqueue_row (by omega) ht id
  | work w event =>
      obtain ⟨⟨worker, t⟩, hstep, rfl⟩ := Option.map_eq_some_iff.mp h
      exact QueueWorker.step_row hstep (howned.owns w) id

/-- The step lemma: whatever happens next, every job stays in at most one pair of hands and
    its row stays what its holder takes it to be. -/
theorem step_owned (howned : Owned s) (h : s.step label = some s') : Owned s' := by
  have haccounted : ∀ id row, s'.jobs.byId id = some row → row.Accounted := fun id =>
    (step_row howned h id).accounted (howned.accounted id)
  cases label with
  | enqueue jobId tenantId documentId collectionId version maxAttempts now =>
      simp only [step] at h
      split at h
      · cases h
      · split at h
        · cases h
          exact howned
        · next t ht =>
            cases h
            refine ⟨fun w => ⟨(howned.owns w).nodup, ?_⟩, howned.disjoint, haccounted⟩
            intro p hp
            obtain ⟨row, hrow, hfits⟩ := (howned.owns w).fits p hp
            exact ⟨row, enqueue_frame ht hrow, hfits⟩
  | work w event =>
      obtain ⟨⟨worker, t⟩, hstep, rfl⟩ := Option.map_eq_some_iff.mp h
      -- what another worker holds is framed by the step of `w`
      have hframe : ∀ v, v ≠ w → ∀ id ∈ (s.workers v).ids,
          t.byId id = s.jobs.byId id ∧ id ∉ worker.ids := by
        intro v hv id hid
        refine QueueWorker.step_frame hstep (fun row hrow => howned.not_pending hid hrow) ?_
        exact howned.disjoint v w hv hid
      refine ⟨?_, ?_, haccounted⟩
      · apply (Function.forall_update_iff s.workers fun _ worker => worker.Owns t).mpr
        refine ⟨QueueWorker.step_owns hstep (howned.owns w), ?_⟩
        intro v hv
        exact (howned.owns v).congr fun id hid => (hframe v hv id hid).1
      · intro u v huv
        by_cases hu : u = w
        · have hv : v ≠ w := fun hv => huv (hu.trans hv.symm)
          simp only [hu, Function.update_self, Function.update_of_ne hv]
          intro id hidu hidv
          exact (hframe v hv id hidv).2 hidu
        · by_cases hv : v = w
          · simp only [hv, Function.update_self, Function.update_of_ne hu]
            intro id hidu hidv
            exact (hframe u hu id hidu).2 hidv
          · simp only [Function.update_of_ne hu, Function.update_of_ne hv]
            exact howned.disjoint u v huv

theorem reachable_owned (h : Reachable step init s) : Owned s :=
  h.invariant init_owned fun _ _ _ howned hstep => step_owned howned hstep

/-- How often a run claims the job with this id. -/
def claims (id : UUID) (labels : List QueueLabel) : Nat := labels.countP (·.claims id)

/-- The run lemma for the attempts: a row counts the claims of its job. -/
theorem run_claims {labels : List QueueLabel} (h : run step init labels = some s) (id : UUID) :
    claims id labels = ((s.jobs.byId id).map IngestionJobModel.claimCount).getD 0 := by
  have hboth : Owned s ∧
      claims id labels = ((s.jobs.byId id).map IngestionJobModel.claimCount).getD 0 := by
    refine run_induction (J := fun labels s => Owned s ∧
      claims id labels = ((s.jobs.byId id).map IngestionJobModel.claimCount).getD 0)
      ⟨init_owned, by simp [claims, init]⟩ ?_ h
    rintro ls s₁ l s₂ ⟨howned, hcount⟩ hstep
    refine ⟨step_owned howned hstep, ?_⟩
    rw [(step_row howned hstep id).claimCount, ← hcount]
    cases hl : l.claims id <;> simp [claims, hl]
  exact hboth.2

end QueueState

end Eka
