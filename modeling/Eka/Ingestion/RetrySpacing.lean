import Mathlib.Order.MinMax
import Eka.Ingestion.QueueSystem

/-!
# When a failed job is tried again

`fail` computes the next `available_at` from the attempts of a snapshot that a worker
has held since its claim. A row counts the failures that were recorded of its job, and
the snapshot agrees with the row, so the delay is the one of this very failure; `claim`
waits for it, and the clock of the worker that claims next is past it from then on.
-/

namespace Eka

open Py Relational Transition

/-- The delays never decrease, across the ceiling too. -/
theorem computeBackoffSeconds_monotone : Monotone computeBackoffSeconds := by
  intro k k' h
  unfold computeBackoffSeconds
  by_cases hk : k < 1
  · rw [if_pos hk]
    exact Nat.zero_le _
  · rw [if_neg hk, if_neg (by omega)]
    apply min_le_min_right
    apply Nat.mul_le_mul_left
    apply Nat.pow_le_pow_right (by decide)
    omega

theorem computeBackoffSeconds_of_pos {k : Nat} (h : 1 ≤ k) :
    computeBackoffSeconds k = min (5 * 2 ^ (k - 1)) 3600 := if_neg (by omega)

/-! ## Clocks -/

/-- The time that a worker reads for an event. -/
def WorkerEvent.now? : WorkerEvent → Option Instant
  | .dequeue _ _ _ now => some now
  | .complete now _ => some now
  | .fail _ now _ => some now
  | _ => none

/-- The time that a step reads. -/
def QueueLabel.now? : QueueLabel → Option Instant
  | .enqueue _ _ _ _ _ _ now => some now
  | .work _ event => event.now?

def QueueLabel.isOf (w : Nat) : QueueLabel → Bool
  | .enqueue .. => false
  | .work v _ => v == w

/-- The times that a worker reads in a run. -/
def QueueState.reads (w : Nat) (labels : List QueueLabel) : List Instant :=
  (labels.filter (·.isOf w)).filterMap (·.now?)

/-- No worker sees the clock run backwards. -/
def QueueState.ClockForward (labels : List QueueLabel) : Prop :=
  ∀ w, (reads w labels).Pairwise (· ≤ ·)

/-- One clock that all steps read in order, and that never runs backwards. -/
theorem QueueState.clockForward_of_shared {labels : List QueueLabel}
    (h : (labels.filterMap (·.now?)).Pairwise (· ≤ ·)) : ClockForward labels := by
  intro w
  exact List.Pairwise.sublist (List.filter_sublist.filterMap _) h

theorem QueueState.reads_append (w : Nat) (xs ys : List QueueLabel) :
    reads w (xs ++ ys) = reads w xs ++ reads w ys := by
  simp [reads]

/-- What a worker has read it has read later, too. -/
theorem QueueState.reads_past {w : Nat} {labels : List QueueLabel} {due : Instant}
    (h : ∃ now ∈ reads w labels, due ≤ now) (more : List QueueLabel) :
    ∃ now ∈ reads w (labels ++ more), due ≤ now := by
  obtain ⟨now, hnow, hdue⟩ := h
  refine ⟨now, ?_, hdue⟩
  rw [reads_append]
  exact List.mem_append_left _ hnow

theorem QueueState.ClockForward.of_append {xs ys : List QueueLabel}
    (h : ClockForward (xs ++ ys)) : ClockForward xs ∧ ClockForward ys := by
  refine ⟨fun w => ?_, fun w => ?_⟩
  · have hforward := h w
    rw [reads_append] at hforward
    exact (List.pairwise_append.mp hforward).1
  · have hforward := h w
    rw [reads_append] at hforward
    exact (List.pairwise_append.mp hforward).2.1

theorem QueueState.reads_concat {event : WorkerEvent} {now : Instant} (h : event.now? = some now)
    (w : Nat) (labels : List QueueLabel) :
    reads w (labels ++ [.work w event]) = reads w labels ++ [now] := by
  rw [reads_append]
  simp [reads, QueueLabel.isOf, QueueLabel.now?, h]

/-! ## Failures -/

def QueueState.records (id : UUID) (s : QueueState) : QueueLabel → Bool
  | .enqueue .. => false
  | .work w event => (s.workers w).records id event

/-- How many failures of a job a run records. -/
def QueueState.failures (id : UUID) (labels : List QueueLabel) : Nat :=
  countAlong step (records id) init labels

/-- The step records at `now` a failure of the job that does not dead-letter it. -/
def QueueState.Fails (id : UUID) (now : Instant) (s : QueueState) (label : QueueLabel) : Prop :=
  ∃ w error outcome job rest, label = .work w (.fail error now outcome) ∧
    s.workers w = .busy .raised job rest ∧ job.id = id ∧ outcome.takesEffect = true ∧
    SqlAlchemyJobQueue.deadLettered job = false

namespace QueueWorker

open SqlAlchemyJobQueue

variable {t t' : Jobs} {worker worker' : QueueWorker} {event : WorkerEvent} {id : UUID}

/-- A row counts the failures that are recorded of its job. -/
theorem Touched.attempts {row' : Option IngestionJobModel}
    (h : Touched id t worker event worker' row') :
    (row'.map (·.attempts)).getD 0 =
      ((t.byId id).map (·.attempts)).getD 0 + (worker.records id event).toNat := by
  cases h with
  | untouched _ _ _ _ _ hquiet =>
      rw [hquiet]
      rfl
  | claimed workerId batchSize picked now _ row _ hrow =>
      rw [hrow]
      rfl
  | completed job rest now outcome _ row _ hrow =>
      rw [hrow]
      rfl
  | failed job rest error now outcome _ row hid htakes hrow hsnap =>
      have hattempts : row.attempts = job.attempts := congrArg IngestionJob.attempts hsnap
      simp [records, hid, htakes, hrow, hattempts]

end QueueWorker

namespace QueueState

open SqlAlchemyJobQueue

variable {s s' : QueueState} {label : QueueLabel} {labels : List QueueLabel} {id : UUID}

theorem enqueue_attempts {jobId tenantId documentId collectionId : UUID}
    {version maxAttempts : Nat} {now : Instant} {t t' : Jobs}
    (h : enqueue jobId tenantId documentId collectionId version maxAttempts now t = .ok t') :
    ((t'.byId id).map (·.attempts)).getD 0 = ((t.byId id).map (·.attempts)).getD 0 := by
  rcases enqueue_ok h with ⟨rfl, -⟩ | ⟨-, hins⟩
  · rfl
  · rw [byId_insert hins, newRow_id]
    by_cases hid : jobId = id
    · have hnew := byId_of_insert hins
      rw [newRow_id, hid] at hnew
      rw [if_pos hid, hnew]
      rfl
    · rw [if_neg hid]

/-- An `enqueue` changes nothing but the jobs, and no row that there is. -/
theorem enqueue_step {jobId tenantId documentId collectionId : UUID} {version maxAttempts : Nat}
    {now : Instant} (h : s.step (.enqueue jobId tenantId documentId collectionId version
      maxAttempts now) = some s') (id : UUID) :
    s'.workers = s.workers ∧
      ((s'.jobs.byId id).map (·.attempts)).getD 0 = ((s.jobs.byId id).map (·.attempts)).getD 0 ∧
      ∀ row, s.jobs.byId id = some row → s'.jobs.byId id = some row := by
  simp only [step] at h
  split at h
  · cases h
  · split at h
    · cases h
      exact ⟨rfl, rfl, fun _ hrow => hrow⟩
    · next t ht =>
        cases h
        exact ⟨rfl, enqueue_attempts ht, fun _ hrow => enqueue_frame ht hrow⟩

theorem step_attempts (howned : Owned s) (h : s.step label = some s') :
    ((s'.jobs.byId id).map (·.attempts)).getD 0 =
      ((s.jobs.byId id).map (·.attempts)).getD 0 + (s.records id label).toNat := by
  cases label with
  | enqueue => exact (enqueue_step h id).2.1
  | work w event =>
      obtain ⟨⟨worker, t⟩, hstep, rfl⟩ := Option.map_eq_some_iff.mp h
      exact (QueueWorker.step_touched hstep (howned.owns w) id).attempts

/-- The run lemma for the failures, in every interleaving. -/
theorem run_failures (h : run step init labels = some s) (id : UUID) :
    failures id labels = ((s.jobs.byId id).map (·.attempts)).getD 0 := by
  have hboth : run step init labels = some s ∧
      failures id labels = ((s.jobs.byId id).map (·.attempts)).getD 0 := by
    refine run_induction (J := fun labels s => run step init labels = some s ∧
      failures id labels = ((s.jobs.byId id).map (·.attempts)).getD 0)
      ⟨rfl, by simp [failures, countAlong, init]⟩ ?_ h
    rintro ls s₁ l s₂ ⟨hrun, hcount⟩ hstep
    refine ⟨run_concat.mpr ⟨s₁, hrun, hstep⟩, ?_⟩
    rw [step_attempts (reachable_owned ⟨ls, hrun⟩) hstep, ← hcount]
    exact countAlong_concat hrun
  exact hboth.2

/-! ## Spacing -/

/-- Nobody claims the job before it is due: its row says so while it is PENDING, and the clock
    of a worker that has it says so afterwards. -/
structure Spaced (id : UUID) (due : Instant) (labels : List QueueLabel) (s : QueueState) :
    Prop where
  row : ∃ row, s.jobs.byId id = some row ∧ (row.status = .pending → due ≤ row.availableAt)
  held : ∀ w, id ∈ (s.workers w).ids → ∃ now ∈ reads w labels, due ≤ now

/-- What a step that records a failure leaves behind. -/
theorem Fails.step {now : Instant} (howned : Owned s) (hfails : s.Fails id now label)
    (h : s.step label = some s') : ∃ row row', s.jobs.byId id = some row ∧
      s'.jobs.byId id = some row' ∧ row'.status = .pending ∧
      row'.availableAt = now + seconds (computeBackoffSeconds (row.attempts + 1)) ∧
      ∀ w, id ∉ (s'.workers w).ids := by
  obtain ⟨w, error, outcome, job, rest, rfl, hbusy, rfl, htakes, hlast⟩ := hfails
  obtain ⟨⟨worker, t⟩, hstep, rfl⟩ := Option.map_eq_some_iff.mp h
  have howns := howned.owns w
  rw [hbusy] at hstep howns
  have hrecords : QueueWorker.records job.id (.busy .raised job rest) (.fail error now outcome) =
      true := by
    simp [QueueWorker.records, htakes]
  have htouched := QueueWorker.step_touched hstep howns job.id
  generalize t.byId job.id = row' at htouched ⊢
  cases htouched with
  | untouched _ _ _ _ _ hquiet =>
      rw [hrecords] at hquiet
      cases hquiet
  | failed _ _ _ _ _ _ row _ _ hrow hsnap _ hheld =>
      have hattempts : row.attempts = job.attempts := congrArg IngestionJob.attempts hsnap
      have hpending : (SqlAlchemyJobQueue.failed job error now row).status = .pending := by
        simp [hlast]
      refine ⟨row, _, hrow, rfl, hpending, ?_, ?_⟩
      · rw [hattempts]
        exact failed_availableAt hpending
      · apply (Function.forall_update_iff s.workers fun _ worker => job.id ∉ worker.ids).mpr
        constructor
        · intro hid
          rw [hheld hid] at hlast
          cases hlast
        · intro v hv hid
          refine howned.disjoint v w hv hid ?_
          rw [hbusy, QueueWorker.ids_busy]
          exact List.mem_cons_self

/-- The row after a step of a worker, and the clock of the worker if it has the job then. -/
theorem Touched.spaced {due : Instant} {t : Jobs} {worker worker' : QueueWorker} {w : Nat}
    {event : WorkerEvent} {row' : Option IngestionJobModel}
    (h : QueueWorker.Touched id t worker event worker' row')
    (hrow : ∃ row, t.byId id = some row ∧ (row.status = .pending → due ≤ row.availableAt))
    (hheld : id ∈ worker.ids → ∃ now ∈ reads w labels, due ≤ now)
    (hforward : (reads w (labels ++ [.work w event])).Pairwise (· ≤ ·)) :
    (∃ row, row' = some row ∧ (row.status = .pending → due ≤ row.availableAt)) ∧
      (id ∈ worker'.ids → ∃ now ∈ reads w (labels ++ [.work w event]), due ≤ now) := by
  have hkept : id ∈ worker.ids → ∃ now ∈ reads w (labels ++ [.work w event]), due ≤ now :=
    fun hid => reads_past (hheld hid) _
  cases h with
  | untouched _ _ _ hstays => exact ⟨hrow, fun hid => hkept (hstays hid)⟩
  | claimed workerId batchSize picked now _ row₁ _ hrow₁ hstatus hdue =>
      obtain ⟨row, hrow, hpending⟩ := hrow
      obtain rfl : row = row₁ := Option.some.inj (hrow.symm.trans hrow₁)
      refine ⟨⟨_, rfl, fun hstatus => nomatch hstatus⟩, fun _ => ⟨now, ?_, ?_⟩⟩
      · rw [reads_concat rfl]
        exact List.mem_concat_self
      · exact (hpending hstatus).trans hdue
  | completed job rest now outcome _ row₁ _ _ _ hstays =>
      exact ⟨⟨_, rfl, fun hstatus => nomatch hstatus⟩, fun hid => hkept (hstays hid)⟩
  | failed job rest error now outcome _ row₁ hid =>
      have hmem : id ∈ (QueueWorker.busy .raised job rest).ids := by
        rw [QueueWorker.ids_busy, ← hid]
        exact List.mem_cons_self
      refine ⟨⟨_, rfl, ?_⟩, fun _ => hkept hmem⟩
      -- the worker has claimed the job when it was due, and its clock goes on
      obtain ⟨claimed, hclaimed, hdue⟩ := hheld hmem
      rw [reads_concat rfl] at hforward
      have hle : claimed ≤ now :=
        (List.pairwise_append.mp hforward).2.2 claimed hclaimed now List.mem_cons_self
      intro hpending
      rw [failed_availableAt hpending]
      exact hdue.trans (hle.trans (Nat.le_add_right now _))

theorem Spaced.step {due : Instant} (hspaced : Spaced id due labels s) (howned : Owned s)
    (hclock : ClockForward (labels ++ [label])) (h : s.step label = some s') :
    Spaced id due (labels ++ [label]) s' := by
  cases label with
  | enqueue =>
      obtain ⟨hworkers, -, hrows⟩ := enqueue_step h id
      obtain ⟨row, hrow, hpending⟩ := hspaced.row
      refine ⟨⟨row, hrows row hrow, hpending⟩, ?_⟩
      intro w hw
      rw [hworkers] at hw
      exact reads_past (hspaced.held w hw) _
  | work w event =>
      obtain ⟨⟨worker, t⟩, hstep, rfl⟩ := Option.map_eq_some_iff.mp h
      obtain ⟨hrow, hheld⟩ := Touched.spaced (QueueWorker.step_touched hstep (howned.owns w) id)
        hspaced.row (hspaced.held w) (hclock w)
      refine ⟨hrow, ?_⟩
      apply (Function.forall_update_iff s.workers fun v worker => id ∈ worker.ids →
        ∃ now ∈ reads v (labels ++ [QueueLabel.work w event]), due ≤ now).mpr
      exact ⟨hheld, fun v _ hv => reads_past (hspaced.held v hv) _⟩

/-- The run lemma for the spacing. -/
theorem run_spaced {due : Instant} (hspaced : Spaced id due [] s) (howned : Owned s)
    (hclock : ClockForward labels) (hrun : run step s labels = some s') :
    Spaced id due labels s' := by
  have hboth : Owned s' ∧ (ClockForward labels → Spaced id due labels s') := by
    refine run_induction (J := fun labels s' => Owned s' ∧
      (ClockForward labels → Spaced id due labels s')) ⟨howned, fun _ => hspaced⟩ ?_ hrun
    rintro ls s₁ l s₂ ⟨howned₁, hspaced₁⟩ hstep
    refine ⟨step_owned howned₁ hstep, ?_⟩
    intro hclock
    exact (hspaced₁ hclock.of_append.1).step howned₁ hclock hstep
  exact hboth.2 hclock

/-- A claim finds the job due. -/
theorem Spaced.claim {due : Instant} (hspaced : Spaced id due labels s) {w : Nat}
    {workerId : Str} {batchSize : Nat} {picked : List UUID} {now : Instant}
    (h : s.step (.work w (.dequeue workerId batchSize picked now)) = some s')
    (hpicked : id ∈ picked) : due ≤ now := by
  obtain ⟨⟨worker, t⟩, hstep, -⟩ := Option.map_eq_some_iff.mp h
  generalize s.workers w = before at hstep
  cases QueueWorker.step_cases hstep with
  | dequeue _ _ _ _ jobs t' hdeq =>
      obtain ⟨-, hids, hclaimed, -⟩ := dequeue_eq_some hdeq
      rw [← hids] at hpicked
      obtain ⟨job, hjob, rfl⟩ := List.mem_map.mp hpicked
      obtain ⟨row, hrow, -, hpending, hdue⟩ := hclaimed job hjob
      obtain ⟨row', hrow', hspacing⟩ := hspaced.row
      obtain rfl : row = row' := Option.some.inj (hrow.symm.trans hrow')
      exact (hspacing hpending).trans hdue

/-- The `k`-th failure that a run records of a job puts its row back for the `k`-th delay, no
    worker claims it before that is over, and no later failure puts it back for less. -/
theorem run_retrySpacing (hrun : run step init labels = some s) (hclock : ClockForward labels)
    (id : UUID) (xs ys : List QueueLabel) (l : QueueLabel) (s₁ : QueueState) (t : Instant)
    (k : Nat) (hlabels : labels = xs ++ l :: ys) (hbefore : run step init xs = some s₁)
    (hfails : s₁.Fails id t l) (hk : failures id xs + 1 = k) :
    (∃ s₂ row, s₁.step l = some s₂ ∧ s₂.jobs.byId id = some row ∧ row.status = .pending ∧
      row.availableAt = t + seconds (min (5 * 2 ^ (k - 1)) 3600)) ∧
    (∀ us w workerId batchSize picked now vs,
      ys = us ++ .work w (.dequeue workerId batchSize picked now) :: vs → id ∈ picked →
      t + seconds (min (5 * 2 ^ (k - 1)) 3600) ≤ now) ∧
    ∀ us m vs s₂ t', ys = us ++ m :: vs → run step init (xs ++ l :: us) = some s₂ →
      s₂.Fails id t' m → ∃ s₃ row, s₂.step m = some s₃ ∧ s₃.jobs.byId id = some row ∧
        t' + seconds (min (5 * 2 ^ (k - 1)) 3600) ≤ row.availableAt := by
  subst hlabels
  have howned : Owned s₁ := reachable_owned ⟨xs, hbefore⟩
  obtain ⟨s₁', hs₁', hys⟩ := run_append.mp hrun
  obtain rfl : s₁ = s₁' := Option.some.inj (hbefore.symm.trans hs₁')
  obtain ⟨s₂, hstep, hys⟩ := run_cons.mp hys
  obtain ⟨row, row', hrow, hrow', hstatus, havailable, hfree⟩ := hfails.step howned hstep
  have hattempts : row.attempts + 1 = k := by
    rw [← hk, run_failures hbefore id, hrow]
    rfl
  rw [hattempts, computeBackoffSeconds_of_pos (by omega)] at havailable
  refine ⟨⟨s₂, row', hstep, hrow', hstatus, havailable⟩, ?_, ?_⟩
  · rintro us w workerId batchSize picked now vs rfl hpicked
    have hspaced : Spaced id (t + seconds (min (5 * 2 ^ (k - 1)) 3600)) [] s₂ :=
      ⟨⟨row', hrow', fun _ => havailable.ge⟩, fun w hw => absurd hw (hfree w)⟩
    obtain ⟨s₃, hus, hvs⟩ := run_append.mp hys
    obtain ⟨s₄, hclaim, -⟩ := run_cons.mp hvs
    have hforward : ClockForward us := by
      have hsuffix := hclock.of_append.2
      rw [← List.singleton_append] at hsuffix
      exact hsuffix.of_append.2.of_append.1
    exact (run_spaced hspaced (step_owned howned hstep) hforward hus).claim hclaim hpicked
  · rintro us m vs s₃ t' rfl hlater hfails'
    rw [← List.cons_append, ← List.append_assoc] at hrun
    obtain ⟨s₃', hs₃', hvs⟩ := run_append.mp hrun
    obtain rfl : s₃ = s₃' := Option.some.inj (hlater.symm.trans hs₃')
    obtain ⟨s₄, hstep', -⟩ := run_cons.mp hvs
    obtain ⟨row₃, row₄, hrow₃, hrow₄, -, havailable', -⟩ :=
      hfails'.step (reachable_owned ⟨_, hlater⟩) hstep'
    refine ⟨s₄, row₄, hstep', hrow₄, ?_⟩
    have hcount : k ≤ row₃.attempts + 1 := by
      have hfailures := run_failures hlater id
      rw [hrow₃, failures, countAlong_append (l :: us) hbefore] at hfailures
      have hle := Nat.le_add_right (failures id xs) (countAlong step (records id) s₁ (l :: us))
      rw [← hk]
      exact Nat.succ_le_succ (hle.trans hfailures.le)
    rw [havailable', ← computeBackoffSeconds_of_pos (by omega)]
    exact Nat.add_le_add_left
      (Nat.mul_le_mul_right _ (computeBackoffSeconds_monotone hcount)) t'

/-- A job that fails in the hands of one worker, and then of another whose `complete` raises. -/
def failedTwice : List QueueLabel :=
  [.enqueue ⟨1⟩ ⟨7⟩ ⟨2⟩ ⟨3⟩ 1 5 0,
    .work 0 (.dequeue "w".toList 5 [⟨1⟩] 0),
    .work 0 (.handle true),
    .work 0 (.fail "boom".toList 1 .returns),
    .work 1 (.dequeue "v".toList 5 [⟨1⟩] 5000001),
    .work 1 (.handle false),
    .work 1 (.complete 5000002 .raisesAfter)]

/-- Its second failure, and the claim after that. -/
def failedTwiceClaimed : List QueueLabel :=
  failedTwice ++ [.work 1 (.fail "boom".toList 5000003 .returns),
    .work 0 (.dequeue "w".toList 5 [⟨1⟩] 15000003)]

theorem run_retrySpacing_failedTwice : ∃ s s₁ s₂ row,
    run step init failedTwiceClaimed = some s ∧ run step init failedTwice = some s₁ ∧
    s₁.step (.work 1 (.fail "boom".toList 5000003 .returns)) = some s₂ ∧
    s₂.jobs.byId ⟨1⟩ = some row ∧ row.availableAt = 5000003 + seconds 10 ∧
    5000003 + seconds 10 ≤ 15000003 := by
  obtain ⟨s, hrun⟩ : ∃ s, run step init failedTwiceClaimed = some s := ⟨_, rfl⟩
  have hclock : ClockForward failedTwiceClaimed := clockForward_of_shared (by decide)
  obtain ⟨⟨s₂, row, hstep, hrow, -, havailable⟩, hclaims, -⟩ := run_retrySpacing hrun hclock ⟨1⟩
    failedTwice [.work 0 (.dequeue "w".toList 5 [⟨1⟩] 15000003)]
    (.work 1 (.fail "boom".toList 5000003 .returns)) _ 5000003 2 rfl rfl
    ⟨1, "boom".toList, .returns, _, _, rfl, rfl, rfl, rfl, rfl⟩ rfl
  exact ⟨s, _, s₂, row, hrun, rfl, hstep, hrow, havailable,
    hclaims [] 0 "w".toList 5 [⟨1⟩] 15000003 [] rfl List.mem_cons_self⟩

end QueueState

end Eka
