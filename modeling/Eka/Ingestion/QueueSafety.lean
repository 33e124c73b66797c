import Eka.Ingestion.QueueSystem

/-!
# Ownership, accounting and stranded jobs

What the invariant `Owned` says about every run of workers over the queue: the
ownership and attempt accounting of jobs, and exactly when a run leaves a job
`PROCESSING` in nobody's hands. A claim is never given back except by `complete` or
`fail`, so that happens when a worker process ends with an unsettled job, and one way
to end is an exception of `fail` inside the worker's own error handler.
-/

namespace Eka

open Py Relational Transition

/-! ## Ownership and attempt accounting -/

/-- What every run of the queue leaves behind. A job is in the hands of a worker until its
    `_process` returns; from the moment `fail` has answered `True` it is settled and only
    `mark_failed` is left to do. -/
structure QueueState.Accounting (labels : List QueueLabel) (s : QueueState) : Prop where
  /-- No job is in two pairs of hands. -/
  owner : ∀ v w, ∀ p ∈ (s.workers v).holding, ∀ q ∈ (s.workers w).holding,
    p.2.id = q.2.id → v = w ∧ p = q
  /-- The snapshot of a holder has the attempts of the row. -/
  snapshot : ∀ w, ∀ p ∈ (s.workers w).holding, p.1 ≠ .deadLettered →
    ∃ row ∈ s.jobs.rows, row.id = p.2.id ∧ row.attempts = p.2.attempts
  alive : ∀ row ∈ s.jobs.rows, row.status ≠ .deadLetter → row.attempts < row.maxAttempts
  dead : ∀ row ∈ s.jobs.rows, row.status = .deadLetter → row.attempts = row.maxAttempts
  locked : ∀ row ∈ s.jobs.rows, row.lockedBy.isSome = true ↔ row.status = .processing
  claimed : ∀ row ∈ s.jobs.rows, QueueState.claims row.id labels ≤ row.maxAttempts

theorem Stage.Fits.attempts {stage : Stage} {job : IngestionJob} {row : IngestionJobModel}
    (h : stage.Fits job row) (hstage : stage ≠ .deadLettered) : row.attempts = job.attempts := by
  cases stage with
  | handling => rw [← h.1]; rfl
  | handled => rw [← h.1]; rfl
  | raised => rw [← h.1]; rfl
  | deadLettered => exact absurd rfl hstage

theorem IngestionJobModel.Accounted.claimCount_le {row : IngestionJobModel}
    (h : row.Accounted) : row.claimCount ≤ row.maxAttempts := by
  unfold IngestionJobModel.claimCount
  by_cases hdead : row.status = .deadLetter
  · have := h.dead hdead
    simp only [hdead, reduceCtorEq, or_self, if_false]
    omega
  · have := h.alive hdead
    split <;> omega

namespace QueueState

open SqlAlchemyJobQueue

variable {s s' : QueueState} {label : QueueLabel} {labels : List QueueLabel}

/-- Two holders of one job are one holder. -/
theorem Owned.owner (h : Owned s) {v w : Nat} {p q : Stage × IngestionJob}
    (hp : p ∈ (s.workers v).holding) (hq : q ∈ (s.workers w).holding) (hid : p.2.id = q.2.id) :
    v = w ∧ p = q := by
  have hpid : p.2.id ∈ (s.workers v).ids := List.mem_map.mpr ⟨p, hp, rfl⟩
  have hqid : p.2.id ∈ (s.workers w).ids := List.mem_map.mpr ⟨q, hq, hid.symm⟩
  by_cases hvw : v = w
  · subst hvw
    exact ⟨rfl, List.inj_on_of_nodup_map (h.owns v).nodup hp hq hid⟩
  · exact absurd hqid (h.disjoint v w hvw hpid)

/-- Ownership and attempt accounting hold after every run. -/
theorem run_accounting (h : run step init labels = some s) : Accounting labels s := by
  have howned : Owned s := reachable_owned ⟨labels, h⟩
  have haccounted : ∀ row ∈ s.jobs.rows, row.Accounted := fun row hrow =>
    howned.accounted row.id row (byId_of_mem hrow)
  refine ⟨fun v w p hp q hq => howned.owner hp hq, ?_, fun row hrow => (haccounted row hrow).alive,
    fun row hrow => (haccounted row hrow).dead, fun row hrow => (haccounted row hrow).locked, ?_⟩
  · intro w p hp hstage
    obtain ⟨row, hrow, hfits⟩ := (howned.owns w).fits p hp
    obtain ⟨hmem, hid⟩ := byId_eq_some.mp hrow
    exact ⟨row, hmem, hid, hfits.attempts hstage⟩
  · intro row hrow
    rw [run_claims h row.id, byId_of_mem hrow]
    exact (haccounted row hrow).claimCount_le

/-- A job of one attempt that a worker claims, fails and dead-letters. -/
def lastAttempt : List QueueLabel :=
  [.enqueue ⟨1⟩ ⟨7⟩ ⟨2⟩ ⟨3⟩ 1 1 0,
    .work 0 (.dequeue "w".toList 5 [⟨1⟩] 0),
    .work 0 (.handle true),
    .work 0 (.fail "boom".toList 1 .returns)]

theorem run_accounting_lastAttempt :
    ∃ s, run step init lastAttempt = some s ∧ Accounting lastAttempt s :=
  ⟨_, rfl, run_accounting rfl⟩

end QueueState

/-! ## Stranded jobs -/

/-- The jobs that are still in the hands of a worker when an event ends its process: all of
    them at an `exit`, or when `fail` raises; after a `fail` that took effect, the rest of the
    batch. -/
def QueueWorker.abandons : QueueWorker → WorkerEvent → List IngestionJob
  | .busy _ job rest, .exit => job :: rest
  | .busy _ job rest, .fail _ _ .raises => job :: rest
  | .busy _ _ rest, .fail _ _ .raisesAfter => rest
  | _, _ => []

/-- The step takes a worker process down with a job whose row is `PROCESSING`. -/
def QueueState.Strands (s : QueueState) : QueueLabel → Prop
  | .enqueue .. => False
  | .work w event => ∃ job ∈ (s.workers w).abandons event, ∃ row,
      s.jobs.byId job.id = some row ∧ row.status = .processing

/-- Every job that is not settled is up for a claim or in the hands of a running worker. -/
def QueueState.NoneStranded (s : QueueState) : Prop :=
  ∀ row ∈ s.jobs.rows, row.status ≠ .completed → row.status ≠ .deadLetter →
    row.status = .pending ∨ ∃ w, row.id ∈ (s.workers w).ids

namespace QueueWorker

open SqlAlchemyJobQueue

variable {t t' : Jobs} {worker worker' : QueueWorker} {event : WorkerEvent}

/-- A job that is `PROCESSING` after a `complete` is another one and as it was. -/
theorem processing_of_complete {job : IngestionJob} {now : Instant} {id : UUID}
    {row : IngestionJobModel} (hrow : Jobs.byId (complete job now t) id = some row)
    (hstatus : row.status = .processing) : id ≠ job.id ∧ t.byId id = some row := by
  rw [complete_byId] at hrow
  by_cases hid : id = job.id
  · rw [if_pos hid] at hrow
    obtain ⟨old, -, rfl⟩ := Option.map_eq_some_iff.mp hrow
    cases hstatus
  · rw [if_neg hid] at hrow
    exact ⟨hid, hrow⟩

theorem processing_of_fail {job : IngestionJob} {error : Str} {now : Instant} {id : UUID}
    {row : IngestionJobModel} (hrow : Jobs.byId (fail job error now t).2 id = some row)
    (hstatus : row.status = .processing) : id ≠ job.id ∧ t.byId id = some row := by
  rw [fail_byId] at hrow
  by_cases hid : id = job.id
  · rw [if_pos hid] at hrow
    obtain ⟨old, -, rfl⟩ := Option.map_eq_some_iff.mp hrow
    rw [failed_status] at hstatus
    split at hstatus <;> cases hstatus
  · rw [if_neg hid] at hrow
    exact ⟨hid, hrow⟩

/-- A job that is not the current one is in the rest of the batch or not the worker's. -/
theorem mem_rest_or_notMem {stage : Stage} {job : IngestionJob} {rest : List IngestionJob}
    {id : UUID} (hne : id ≠ job.id) :
    id ∈ rest.map (·.id) ∨ id ∉ (busy stage job rest).ids := by
  rw [ids_busy, List.mem_cons, or_iff_right hne]
  exact Decidable.em _

/-- What a worker still holds after a step that settles its current job. -/
theorem mem_next_or_notMem {stage : Stage} {job : IngestionJob} {rest : List IngestionJob}
    {id : UUID} (hne : id ≠ job.id) : id ∈ (next rest).ids ∨ id ∉ (busy stage job rest).ids := by
  rw [ids_next]
  exact mem_rest_or_notMem hne

/-- What a worker still holds after a step that keeps it on its current job. -/
theorem mem_busy_or_notMem (stage stage' : Stage) (job : IngestionJob) (rest : List IngestionJob)
    (id : UUID) : id ∈ (busy stage' job rest).ids ∨ id ∉ (busy stage job rest).ids := by
  rw [ids_busy, ids_busy]
  exact Decidable.em _

/-- An exit abandons all that the worker holds. -/
theorem mem_abandons_exit_or_notMem (worker : QueueWorker) (id : UUID) :
    id ∉ worker.ids ∨ id ∈ (worker.abandons .exit).map (·.id) := by
  cases worker with
  | idle => exact .inl (by simp)
  | exited => exact .inl (by simp)
  | busy stage job rest =>
      rw [ids_busy]
      exact (Decidable.em _).symm

/-- After a step, a `PROCESSING` job is in the worker's hands, or was abandoned by the step,
    or is none of this worker's business. -/
theorem step_processing (h : worker.step t event = some (worker', t')) (howns : worker.Owns t)
    {id : UUID} {row : IngestionJobModel} (hrow : t'.byId id = some row)
    (hstatus : row.status = .processing) :
    id ∈ worker'.ids ∨ (t.byId id = some row ∧
      (id ∉ worker.ids ∨ id ∈ (worker.abandons event).map (·.id))) := by
  cases step_cases h with
  | dequeue workerId batchSize picked now jobs t' hdeq =>
      obtain ⟨-, hids, -, hrows⟩ := dequeue_eq_some hdeq
      rw [ids_next, hids]
      by_cases hmem : id ∈ picked
      · exact .inl hmem
      · rw [hrows, if_neg hmem] at hrow
        exact .inr ⟨hrow, .inl (by simp)⟩
  | handle job rest raises =>
      exact (mem_busy_or_notMem _ _ job rest id).imp_right fun hid => ⟨hrow, .inl hid⟩
  | completed job rest now =>
      obtain ⟨hne, hsame⟩ := processing_of_complete hrow hstatus
      exact (mem_next_or_notMem hne).imp_right fun hid => ⟨hsame, .inl hid⟩
  | notCompleted job rest now =>
      exact (mem_busy_or_notMem _ _ job rest id).imp_right fun hid => ⟨hrow, .inl hid⟩
  | completedLate job rest now =>
      obtain ⟨-, hsame⟩ := processing_of_complete hrow hstatus
      exact (mem_busy_or_notMem _ _ job rest id).imp_right fun hid => ⟨hsame, .inl hid⟩
  | failed job rest error now =>
      obtain ⟨hne, hsame⟩ := processing_of_fail hrow hstatus
      exact (mem_next_or_notMem hne).imp_right fun hid => ⟨hsame, .inl hid⟩
  | deadLettered job rest error now =>
      obtain ⟨-, hsame⟩ := processing_of_fail hrow hstatus
      exact (mem_busy_or_notMem _ _ job rest id).imp_right fun hid => ⟨hsame, .inl hid⟩
  | notFailed job rest error now =>
      exact .inr ⟨hrow, mem_abandons_exit_or_notMem (busy .raised job rest) id⟩
  | failedLate job rest error now =>
      obtain ⟨hne, hsame⟩ := processing_of_fail hrow hstatus
      exact .inr ⟨hsame, (mem_rest_or_notMem hne).symm⟩
  | markFailed job rest =>
      -- the row of the current job is DEAD_LETTER
      obtain ⟨⟨old, hold, -, hdead⟩, -, -⟩ := owns_busy.mp howns
      have hne : id ≠ job.id := by
        rintro rfl
        obtain rfl : row = old := Option.some.inj (hrow.symm.trans hold)
        rw [hstatus] at hdead
        cases hdead
      exact (mem_next_or_notMem hne).imp_right fun hid => ⟨hrow, .inl hid⟩
  | exit => exact .inr ⟨hrow, mem_abandons_exit_or_notMem worker id⟩

/-- A step that abandons a job ends the process and leaves the job's row as it is. -/
theorem step_abandons (h : worker.step t event = some (worker', t')) (howns : worker.Owns t)
    {job : IngestionJob} (hjob : job ∈ worker.abandons event) :
    worker' = .exited ∧ job.id ∈ worker.ids ∧ t'.byId job.id = t.byId job.id := by
  cases step_cases h with
  | notFailed current rest error now =>
      refine ⟨rfl, ?_, rfl⟩
      rw [ids_busy]
      exact List.mem_map_of_mem (f := (·.id)) hjob
  | failedLate current rest error now =>
      obtain ⟨-, hnot, -⟩ := owns_busy.mp howns
      have hid : job.id ∈ rest.map (·.id) := List.mem_map.mpr ⟨job, hjob, rfl⟩
      have hne : job.id ≠ current.id := fun he => hnot (he ▸ hid)
      refine ⟨rfl, ?_, fail_byId_of_ne current error now t job.id hne⟩
      rw [ids_busy]
      exact List.mem_cons_of_mem _ hid
  | exit =>
      refine ⟨rfl, ?_, rfl⟩
      cases worker with
      | idle => cases hjob
      | exited => cases hjob
      | busy stage current rest =>
          rw [ids_busy]
          exact List.mem_map_of_mem (f := (·.id)) hjob
  | _ => cases hjob

end QueueWorker

namespace QueueState

open SqlAlchemyJobQueue

variable {s s' : QueueState} {label : QueueLabel} {labels : List QueueLabel}

theorem noneStranded_iff : s.NoneStranded ↔
    ∀ id row, s.jobs.byId id = some row → row.status = .processing →
      ∃ w, id ∈ (s.workers w).ids := by
  constructor
  · intro h id row hrow hstatus
    obtain ⟨hmem, rfl⟩ := byId_eq_some.mp hrow
    rcases h row hmem (by simp [hstatus]) (by simp [hstatus]) with hpending | hheld
    · rw [hstatus] at hpending
      cases hpending
    · exact hheld
  · intro h row hmem hcompleted hdead
    cases hstatus : row.status with
    | pending => exact .inl rfl
    | processing => exact .inr (h row.id row (byId_of_mem hmem) hstatus)
    | completed => exact absurd hstatus hcompleted
    | deadLetter => exact absurd hstatus hdead

theorem step_noneStranded (howned : Owned s) (hnone : NoneStranded s)
    (hstrands : ¬ s.Strands label) (h : s.step label = some s') : NoneStranded s' := by
  refine noneStranded_iff.mpr ?_
  intro id row hrow hstatus
  have hnone := noneStranded_iff.mp hnone
  cases label with
  | enqueue jobId tenantId documentId collectionId version maxAttempts now =>
      -- a new row is PENDING, so the row was there
      have hold : s.jobs.byId id = some row := by
        have hstep := step_row howned h id
        rw [hrow] at hstep
        generalize hclaims : (QueueLabel.enqueue jobId tenantId documentId collectionId version
          maxAttempts now).claims id = claims at hstep
        generalize holdrow : s.jobs.byId id = old at hstep
        cases hstep with
        | same => rfl
        | enqueued => cases hstatus
        | claimed => cases hclaims
        | completed => cases hstatus
        | failed error now row' held =>
            rw [failed_status] at hstatus
            split at hstatus <;> cases hstatus
      obtain ⟨w, hw⟩ := hnone id row hold hstatus
      refine ⟨w, ?_⟩
      have hworkers : s'.workers = s.workers := by
        simp only [step] at h
        split at h
        · cases h
        · split at h <;> cases h <;> rfl
      rwa [hworkers]
  | work w event =>
      obtain ⟨⟨worker, t⟩, hstep, rfl⟩ := Option.map_eq_some_iff.mp h
      rcases QueueWorker.step_processing hstep (howned.owns w) hrow hstatus with
        hheld | ⟨hold, hrest⟩
      · exact ⟨w, by simpa using hheld⟩
      · obtain ⟨v, hv⟩ := hnone id row hold hstatus
        rcases hrest with hnot | habandoned
        · have hvw : v ≠ w := fun he => hnot (he ▸ hv)
          exact ⟨v, by simpa [Function.update_of_ne hvw] using hv⟩
        · obtain ⟨job, hjob, rfl⟩ := List.mem_map.mp habandoned
          exact absurd ⟨job, hjob, row, hold, hstatus⟩ hstrands

theorem step_strands (howned : Owned s) (hstrands : s.Strands label)
    (h : s.step label = some s') : ¬ NoneStranded s' := by
  cases label with
  | enqueue => exact hstrands.elim
  | work w event =>
      obtain ⟨⟨worker, t⟩, hstep, rfl⟩ := Option.map_eq_some_iff.mp h
      obtain ⟨job, hjob, row, hrow, hstatus⟩ := hstrands
      obtain ⟨rfl, hid, hsame⟩ := QueueWorker.step_abandons hstep (howned.owns w) hjob
      intro hnone
      obtain ⟨v, hv⟩ := noneStranded_iff.mp hnone job.id row (hsame.trans hrow) hstatus
      by_cases hvw : v = w
      · simp [hvw] at hv
      · simp only [Function.update_of_ne hvw] at hv
        exact howned.disjoint v w hvw hv hid

/-- In a run, no visited state has a stranded job exactly when no step of it takes a worker
    process down with a `PROCESSING` job. -/
theorem run_noneStranded_iff (hrun : run step init labels = some s) :
    (∀ xs ys s₁, labels = xs ++ ys → run step init xs = some s₁ → NoneStranded s₁) ↔
      Along step (fun s label => ¬ s.Strands label) init labels := by
  constructor
  · intro h
    refine (along_iff hrun).mpr ?_
    rintro xs l ys s₁ rfl hxs hstrands
    obtain ⟨s₂, hs₂, hys⟩ := run_append.mp hrun
    obtain rfl : s₁ = s₂ := Option.some.inj (hxs.symm.trans hs₂)
    obtain ⟨s₃, hs₃, -⟩ := run_cons.mp hys
    have hafter : run step init (xs ++ [l]) = some s₃ := run_concat.mpr ⟨s₁, hxs, hs₃⟩
    exact step_strands (reachable_owned ⟨xs, hxs⟩) hstrands hs₃
      (h (xs ++ [l]) ys s₃ (by simp) hafter)
  · rintro halong xs ys s₁ rfl hxs
    have hboth : Owned s₁ ∧ NoneStranded s₁ := by
      refine (along_append.mp halong).1.invariant hxs
        (I := fun s => Owned s ∧ NoneStranded s) ⟨init_owned, ?_⟩ ?_
      · intro row hrow
        cases hrow
      · rintro s₂ l s₃ ⟨howned, hnone⟩ hnot hstep
        exact ⟨step_owned howned hstep, step_noneStranded howned hnone hnot hstep⟩
    exact hboth.2

theorem run_noneStranded_lastAttempt : ∃ s, run step init lastAttempt = some s ∧
    ((∀ xs ys s₁, lastAttempt = xs ++ ys → run step init xs = some s₁ → NoneStranded s₁) ↔
      Along step (fun s label => ¬ s.Strands label) init lastAttempt) :=
  ⟨_, rfl, run_noneStranded_iff rfl⟩

/-- `handle` raises, and then so does the `fail` of the error handler: the worker is gone and
    the job is `PROCESSING` for ever. -/
def failRaises : List QueueLabel :=
  [.enqueue ⟨1⟩ ⟨7⟩ ⟨2⟩ ⟨3⟩ 1 5 0,
    .work 0 (.dequeue "w".toList 5 [⟨1⟩] 0),
    .work 0 (.handle true),
    .work 0 (.fail "boom".toList 1 .raises)]

theorem failRaises_strands :
    ¬ ∀ labels s, run step init labels = some s → NoneStranded s := by
  intro h
  have hnone := h failRaises _ rfl
  have hheld := noneStranded_iff.mp hnone ⟨1⟩ _ rfl rfl
  obtain ⟨w, hw⟩ := hheld
  by_cases hzero : w = 0
  · subst hzero
    simp at hw
  · simp [Function.update_of_ne hzero, init] at hw

end QueueState

end Eka
