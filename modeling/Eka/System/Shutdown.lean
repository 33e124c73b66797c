import Eka.Ingestion.QueueSafety
import Eka.System.Work

/-!
# Shutting down

The poll loop of `run` around the calls that the system has of a worker, with the event that
`request_stop` sets from a signal handler. The event is looked at between two batches and
nowhere else: a worker that is asked to stop settles the jobs it has claimed, and one that was
about to claim when the signal came claims one more batch.
-/

namespace Eka

open Py Relational Transition

/-- Where `run` stands (`worker.py:56-65`): before the test of its loop, before `dequeue`, on the
    jobs of a batch, in the wait for the next poll. It has returned, or an exception or a kill has
    ended the process. -/
inductive LoopPhase where
  | testing
  | dequeuing
  | draining
  | waiting
  | returned
  | ended
  deriving DecidableEq

/-- The system, with where each worker process stands in `run` and whether `request_stop` has set
    its event. -/
structure Processes where
  system : System
  loops : Nat → LoopPhase
  stopping : Nat → Bool

/-- The worker whose step it is. -/
def Label.worker : Label → Option Nat
  | .dequeue w _ _ _ _ => some w
  | .advance w _ _ _ => some w
  | .exit w => some w
  | _ => none

/-- `wake` ends the `wait_for`, by the event or by the timeout. -/
inductive ProcessLabel where
  | requestStop (w : Nat)
  | test (w : Nat)
  | wake (w : Nat)
  | work (label : Label)

def ProcessLabel.isOf (w : Nat) : ProcessLabel → Bool
  | .requestStop _ => false
  | .test v => v == w
  | .wake v => v == w
  | .work label => label.worker == some w

/-- The step is a `dequeue` of the worker. -/
def ProcessLabel.claims (w : Nat) : ProcessLabel → Bool
  | .work (.dequeue v _ _ _ _) => v == w
  | _ => false

namespace LoopPhase

/-- The process has neither returned nor ended. -/
def running : LoopPhase → Bool
  | .returned => false
  | .ended => false
  | _ => true

/-- Which of its calls a worker process may make next. -/
def allows (batchSize : Nat) (phase : LoopPhase) : Label → Bool
  | .dequeue _ _ size _ _ => phase == .dequeuing && size == batchSize
  | .advance _ _ _ _ => phase == .draining
  | .exit _ => phase.running
  | _ => false

/-- Where a call of the worker leads, with the worker as it is then: `_drain_once` goes on with
    its batch, or has returned the length of it (`worker.py:59-64`). -/
def after : Label → Worker → LoopPhase
  | _, .exited => .ended
  | _, .busy _ _ _ => .draining
  | .dequeue _ _ _ _ _, .idle => .waiting
  | _, .idle => .testing

end LoopPhase

namespace Processes

def init : Processes := ⟨System.init, fun _ => .testing, fun _ => false⟩

def step (config : Config) (batchSize : Nat) (s : Processes) : ProcessLabel → Option Processes
  | .requestStop w => some { s with stopping := Function.update s.stopping w true }
  | .test w =>
      if s.loops w = .testing then
        some { s with loops := Function.update s.loops w
                        (if s.stopping w then .returned else .dequeuing) }
      else none
  | .wake w =>
      if s.loops w = .waiting then
        some { s with loops := Function.update s.loops w .testing }
      else none
  | .work label =>
      match label.worker with
      | none => (System.step config s.system label).map fun system => { s with system := system }
      | some w =>
          if (s.loops w).allows batchSize label then
            (System.step config s.system label).map fun system => { s with
              system := system
              loops := Function.update s.loops w (LoopPhase.after label (system.workers w)) }
          else none

end Processes

/-! ## What is left to do -/

/-- The reads and commits that a worker has still to make for its batch, at most. -/
def Worker.remaining : Worker → Nat
  | .busy phase _ rest => 10 - phase.position + 10 * rest.length
  | _ => 0

/-- The steps that a process has still to take before it returns, once it has been told to stop. -/
def LoopPhase.remaining (batchSize : Nat) (worker : Worker) : LoopPhase → Nat
  | .testing => 1
  | .waiting => 2
  | .dequeuing => 10 * batchSize + 3
  | .draining => worker.remaining + 1
  | .returned => 0
  | .ended => 0

/-- What a worker has in hand in each place of its loop. -/
def LoopPhase.Fits (batchSize : Nat) (worker : Worker) : LoopPhase → Prop
  | .draining => ∃ phase job rest, worker = .busy phase job rest ∧ rest.length < batchSize
  | .ended => worker = .exited
  | _ => worker = .idle

theorem Phase.position_lt (phase : Phase) : phase.position < 10 := by
  cases phase with
  | handling phase => exact phase.position_lt.trans (by decide)
  | _ => simp [Phase.position]

theorem Worker.remaining_next (jobs : List IngestionJob) :
    (Worker.next jobs).remaining = 10 * jobs.length := by
  cases jobs with
  | nil => rfl
  | cons job rest =>
      show 10 - 0 + 10 * rest.length = 10 * (rest.length + 1)
      omega

/-- A call of a worker brings it closer to the end of its batch. -/
theorem Phase.Leads.remaining {config : Config} {job : IngestionJob} {rest : List IngestionJob}
    {now : Instant} {newUuid : Nat → UUID} {s s' : Store} {phase : Phase} {worker : Worker}
    (h : phase.Leads config job rest now newUuid s s' worker) :
    worker.remaining + 1 ≤ (Worker.busy phase job rest).remaining := by
  have hlt := phase.position_lt
  show _ ≤ 10 - phase.position + 10 * rest.length
  rcases h.moves with rfl | rfl | ⟨phase', rfl, hposition⟩
  · rw [Worker.remaining_next]
    omega
  · show 0 + 1 ≤ _
    omega
  · have hlt' := phase'.position_lt
    show 10 - phase'.position + 10 * rest.length + 1 ≤ _
    omega

/-- A claim takes at most a batch. -/
theorem SqlAlchemyJobQueue.length_dequeue {workerId : Str} {batchSize : Nat} {picked : List UUID}
    {now : Instant} {t t' : Jobs} {jobs : List IngestionJob}
    (h : dequeue workerId batchSize picked now t = some (jobs, t')) : jobs.length ≤ batchSize := by
  obtain ⟨-, hjobs, -⟩ := dequeue_eq_some h
  have hlength := congrArg List.length hjobs
  rw [List.length_map] at hlength
  unfold dequeue at h
  simp only at h
  split at h
  · next hsel => exact hlength.trans_le hsel.2.2.1
  · cases h

/-- A step is nobody's or one worker's. -/
theorem System.step_workers {config : Config} {s s' : System} {label : Label}
    (hstep : step config s label = some s') {v : Nat} (hv : label.worker ≠ some v) :
    s'.workers v = s.workers v := by
  cases step_cases hstep with
  | request => rfl
  | proceed => rfl
  | dequeue w => exact Function.update_of_ne (fun heq => hv (congrArg some heq.symm)) ..
  | advance w => exact Function.update_of_ne (fun heq => hv (congrArg some heq.symm)) ..
  | exit w => exact Function.update_of_ne (fun heq => hv (congrArg some heq.symm)) ..

namespace LoopPhase

variable {config : Config} {batchSize : Nat} {s s' : System} {label : Label} {w : Nat}

theorem after_ne_dequeuing (label : Label) (worker : Worker) :
    after label worker ≠ .dequeuing := by
  unfold after
  split <;> decide

/-- Where `_drain_once` is after a call, with what the worker has in hand. -/
theorem fits_after {worker : Worker} (label : Label)
    (hbusy : ∀ phase job rest, worker = .busy phase job rest → rest.length < batchSize) :
    (after label worker).Fits batchSize worker := by
  cases worker with
  | idle => cases label <;> rfl
  | exited => cases label <;> rfl
  | busy phase job rest => exact ⟨phase, job, rest, rfl, hbusy phase job rest rfl⟩

/-- The step lemma for a process: its own call leaves the loop where the worker is, and nearer to
    the end. -/
theorem Fits.step {phase : LoopPhase} (hfits : phase.Fits batchSize (s.workers w))
    (hworker : label.worker = some w) (hallows : phase.allows batchSize label = true)
    (hstep : System.step config s label = some s') :
    (after label (s'.workers w)).Fits batchSize (s'.workers w) ∧
      (after label (s'.workers w)).remaining batchSize (s'.workers w) + 1 ≤
        phase.remaining batchSize (s.workers w) := by
  cases System.step_cases hstep with
  | request => cases hworker
  | proceed => cases hworker
  | dequeue v workerId size picked now jobs t idle claimed =>
      obtain rfl : v = w := Option.some.inj hworker
      obtain ⟨hphase, hsize⟩ := Bool.and_eq_true_iff.mp hallows
      obtain rfl := eq_of_beq hphase
      obtain rfl := eq_of_beq hsize
      have hlength := SqlAlchemyJobQueue.length_dequeue claimed
      simp only [Function.update_self]
      cases jobs with
      | nil => exact ⟨rfl, by show 2 + 1 ≤ 10 * size + 3; omega⟩
      | cons job rest =>
          refine ⟨⟨_, job, rest, rfl, hlength⟩, ?_⟩
          show (Worker.next (job :: rest)).remaining + 1 + 1 ≤ 10 * size + 3
          rw [Worker.remaining_next]
          omega
  | advance v now newUuid outcome current job rest worker store busy leads writes =>
      obtain rfl : v = w := Option.some.inj hworker
      obtain rfl := eq_of_beq hallows
      obtain ⟨_, _, _, hbusy, hrest⟩ := hfits
      obtain ⟨rfl, rfl, rfl⟩ : _ ∧ _ ∧ _ := Worker.busy.inj (busy.symm.trans hbusy)
      have hremaining := leads.remaining
      simp only [Function.update_self, busy]
      constructor
      · refine fits_after _ fun phase' job' rest' heq => ?_
        rcases leads.moves with rfl | rfl | ⟨phase'', rfl, -⟩
        · cases rest with
          | nil => cases heq
          | cons next rest =>
              cases heq
              exact (Nat.lt_succ_self _).trans hrest
        · cases heq
        · cases heq
          exact hrest
      · cases worker with
        | idle => exact Nat.succ_le_succ (le_trans (Nat.le_add_left 1 _) hremaining)
        | exited => exact Nat.succ_le_succ (Nat.zero_le _)
        | busy => exact Nat.succ_le_succ hremaining
  | exit v =>
      obtain rfl : v = w := Option.some.inj hworker
      simp only [Function.update_self]
      refine ⟨rfl, ?_⟩
      cases phase with
      | returned => cases hallows
      | ended => cases hallows
      | _ => exact Nat.succ_le_succ (Nat.zero_le _)

end LoopPhase

/-! ## What one step does -/

namespace Processes

variable {config : Config} {batchSize : Nat} {s s' : Processes} {label : ProcessLabel} {w : Nat}

/-- The ways a step can go. -/
inductive Stepped (config : Config) (batchSize : Nat) (s : Processes) :
    ProcessLabel → Processes → Prop
  | requestStop (w : Nat) :
      Stepped config batchSize s (.requestStop w)
        { s with stopping := Function.update s.stopping w true }
  | test (w : Nat) (testing : s.loops w = .testing) :
      Stepped config batchSize s (.test w) { s with
        loops := Function.update s.loops w (if s.stopping w then .returned else .dequeuing) }
  | wake (w : Nat) (waiting : s.loops w = .waiting) :
      Stepped config batchSize s (.wake w) { s with loops := Function.update s.loops w .testing }
  | called (label : Label) (system : System) (nobody : label.worker = none)
      (stepped : System.step config s.system label = some system) :
      Stepped config batchSize s (.work label) { s with system := system }
  | worked (label : Label) (w : Nat) (system : System) (mine : label.worker = some w)
      (allowed : (s.loops w).allows batchSize label = true)
      (stepped : System.step config s.system label = some system) :
      Stepped config batchSize s (.work label) { s with
        system := system
        loops := Function.update s.loops w (LoopPhase.after label (system.workers w)) }

theorem step_cases (h : step config batchSize s label = some s') :
    Stepped config batchSize s label s' := by
  cases label with
  | requestStop w =>
      cases h
      exact .requestStop w
  | test w =>
      obtain ⟨htesting, h⟩ := Option.ite_none_right_eq_some.mp h
      cases h
      exact .test w htesting
  | wake w =>
      obtain ⟨hwaiting, h⟩ := Option.ite_none_right_eq_some.mp h
      cases h
      exact .wake w hwaiting
  | work label =>
      simp only [step] at h
      cases hworker : label.worker with
      | none =>
          rw [hworker] at h
          obtain ⟨system, hstep, rfl⟩ := Option.map_eq_some_iff.mp h
          exact .called label system hworker hstep
      | some w =>
          rw [hworker] at h
          obtain ⟨hallows, h⟩ := Option.ite_none_right_eq_some.mp h
          obtain ⟨system, hstep, rfl⟩ := Option.map_eq_some_iff.mp h
          exact .worked label w system hworker hallows hstep

/-- The processes take the steps of the system, and others that it does not see. -/
theorem step_simulates (config : Config) (batchSize : Nat) :
    Simulates (step config batchSize) (System.step config) system := by
  intro s label s' hstep
  cases step_cases hstep with
  | requestStop => exact .inl rfl
  | test => exact .inl rfl
  | wake => exact .inl rfl
  | called label system nobody stepped => exact .inr ⟨label, stepped⟩
  | worked label w system mine allowed stepped => exact .inr ⟨label, stepped⟩

theorem reachable_system (h : Reachable (step config batchSize) init s) :
    Reachable (System.step config) System.init s.system :=
  h.simulate (step_simulates config batchSize)

/-- Every loop is where its worker is. -/
def Placed (batchSize : Nat) (s : Processes) : Prop :=
  ∀ w, (s.loops w).Fits batchSize (s.system.workers w)

/-- The steps that a process has still to take once it has been told to stop. -/
def remaining (batchSize : Nat) (w : Nat) (s : Processes) : Nat :=
  (s.loops w).remaining batchSize (s.system.workers w)

/-- The loop of a worker after a step that is not its own. -/
theorem step_others (hstep : step config batchSize s label = some s')
    (hlabel : label.isOf w = false) :
    s'.loops w = s.loops w ∧ s'.system.workers w = s.system.workers w := by
  cases step_cases hstep with
  | requestStop => exact ⟨rfl, rfl⟩
  | test v => exact ⟨Function.update_of_ne (ne_of_beq_false hlabel).symm .., rfl⟩
  | wake v => exact ⟨Function.update_of_ne (ne_of_beq_false hlabel).symm .., rfl⟩
  | called label system nobody stepped =>
      exact ⟨rfl, System.step_workers stepped (by rw [nobody]; exact nofun)⟩
  | worked label v system mine allowed stepped =>
      have hne : label.worker ≠ some w := ne_of_beq_false hlabel
      have hv : w ≠ v := fun heq => hne (heq ▸ mine)
      exact ⟨Function.update_of_ne hv .., System.step_workers stepped hne⟩

theorem run_others {labels : List ProcessLabel}
    (hlabels : ∀ label ∈ labels, label.isOf w = false)
    (hrun : run (step config batchSize) s labels = some s') : s'.loops w = s.loops w := by
  induction labels generalizing s with
  | nil =>
      cases hrun
      rfl
  | cons label labels ih =>
      obtain ⟨s₁, hstep, hrest⟩ := run_cons.mp hrun
      rw [ih (fun l hl => hlabels l (List.mem_cons_of_mem _ hl)) hrest]
      exact (step_others hstep (hlabels label List.mem_cons_self)).1

/-- The loop of a worker after a step of its own. -/
theorem step_own (hplaced : s.Placed batchSize) (hstep : step config batchSize s label = some s')
    (hlabel : label.isOf w = true) :
    (s'.loops w).Fits batchSize (s'.system.workers w) ∧
      (s.stopping w = true → s'.loops w ≠ .dequeuing ∧
        s'.remaining batchSize w + 1 ≤ s.remaining batchSize w) := by
  have hfits := hplaced w
  unfold remaining
  cases step_cases hstep with
  | requestStop => cases hlabel
  | test v testing =>
      obtain rfl := eq_of_beq hlabel
      rw [testing] at hfits ⊢
      simp only [Function.update_self]
      cases hstopping : s.stopping v with
      | true => exact ⟨hfits, fun _ => ⟨nofun, Nat.le_refl 1⟩⟩
      | false => exact ⟨hfits, nofun⟩
  | wake v waiting =>
      obtain rfl := eq_of_beq hlabel
      rw [waiting] at hfits ⊢
      simp only [Function.update_self]
      exact ⟨hfits, fun _ => ⟨nofun, Nat.le_refl 2⟩⟩
  | called label system nobody stepped =>
      have hworker : label.worker = some w := eq_of_beq hlabel
      rw [nobody] at hworker
      cases hworker
  | worked label v system mine allowed stepped =>
      have hworker : label.worker = some w := eq_of_beq hlabel
      obtain rfl := Option.some.inj (mine.symm.trans hworker)
      obtain ⟨hafter, hless⟩ := hfits.step mine allowed stepped
      simp only [Function.update_self]
      exact ⟨hafter, fun _ => ⟨LoopPhase.after_ne_dequeuing label _, hless⟩⟩

theorem step_placed (hplaced : s.Placed batchSize)
    (hstep : step config batchSize s label = some s') : s'.Placed batchSize := by
  intro w
  cases hlabel : label.isOf w with
  | true => exact (step_own hplaced hstep hlabel).1
  | false =>
      obtain ⟨hloops, hworkers⟩ := step_others hstep hlabel
      rw [hloops, hworkers]
      exact hplaced w

theorem reachable_placed (h : Reachable (step config batchSize) init s) : s.Placed batchSize :=
  h.invariant (fun _ => rfl) fun _ _ _ hplaced hstep => step_placed hplaced hstep

/-! ## After the signal -/

theorem step_stopping (hstep : step config batchSize s label = some s')
    (h : s.stopping w = true) : s'.stopping w = true := by
  cases step_cases hstep with
  | requestStop v =>
      by_cases hv : w = v
      · rw [hv]
        exact Function.update_self ..
      · exact (Function.update_of_ne hv ..).trans h
  | _ => exact h

/-- A process that has been told to stop takes only so many steps. -/
theorem run_remaining {labels : List ProcessLabel} (hplaced : s.Placed batchSize)
    (hstopping : s.stopping w = true) (hrun : run (step config batchSize) s labels = some s') :
    labels.countP (·.isOf w) + s'.remaining batchSize w ≤ s.remaining batchSize w := by
  refine countP_add_le (I := fun s => s.Placed batchSize ∧ s.stopping w = true)
    (fun s l s' hI hstep => ?_) hrun ⟨hplaced, hstopping⟩
  refine ⟨⟨step_placed hI.1 hstep, step_stopping hstep hI.2⟩, ?_⟩
  cases hlabel : l.isOf w with
  | true => exact ((step_own hI.1 hstep hlabel).2 hI.2).2
  | false =>
      obtain ⟨hloops, hworkers⟩ := step_others hstep hlabel
      unfold remaining
      rw [hloops, hworkers]
      exact Nat.le_refl _

theorem isOf_of_claims {label : ProcessLabel} (h : label.claims w = true) :
    label.isOf w = true := by
  cases label with
  | work label =>
      cases label with
      | dequeue v =>
          obtain rfl := eq_of_beq h
          exact beq_self_eq_true _
      | _ => cases h
  | _ => cases h

theorem dequeuing_of_claims (hstep : step config batchSize s label = some s')
    (h : label.claims w = true) : s.loops w = .dequeuing := by
  have hlabel := isOf_of_claims h
  cases step_cases hstep with
  | called label system nobody stepped =>
      have hworker : label.worker = some w := eq_of_beq hlabel
      rw [nobody] at hworker
      cases hworker
  | worked label v system mine allowed stepped =>
      have hworker : label.worker = some w := eq_of_beq hlabel
      obtain rfl := Option.some.inj (mine.symm.trans hworker)
      cases label with
      | dequeue => exact eq_of_beq (Bool.and_eq_true_iff.mp allowed).1
      | _ => cases h
  | _ => cases h

/-- It claims one batch more if it was about to claim, and none otherwise. -/
theorem run_claims {labels : List ProcessLabel} (hplaced : s.Placed batchSize)
    (hstopping : s.stopping w = true) (hrun : run (step config batchSize) s labels = some s') :
    labels.countP (·.claims w) ≤ if s.loops w = .dequeuing then 1 else 0 := by
  refine le_trans (Nat.le_add_right _ (if s'.loops w = .dequeuing then 1 else 0))
    (countP_add_le (I := fun s => s.Placed batchSize ∧ s.stopping w = true)
      (μ := fun s => if s.loops w = .dequeuing then 1 else 0) (fun s l s' hI hstep => ?_) hrun
      ⟨hplaced, hstopping⟩)
  refine ⟨⟨step_placed hI.1 hstep, step_stopping hstep hI.2⟩, ?_⟩
  cases hlabel : l.isOf w with
  | true =>
      rw [if_neg ((step_own hI.1 hstep hlabel).2 hI.2).1]
      cases hclaims : l.claims w with
      | true =>
          rw [if_pos (dequeuing_of_claims hstep hclaims)]
          exact Nat.le_refl 1
      | false => exact Nat.zero_le _
  | false =>
      have hclaims : l.claims w = false :=
        Bool.eq_false_iff.mpr fun h => Bool.eq_false_iff.mp hlabel (isOf_of_claims h)
      rw [hclaims, (step_others hstep hlabel).1]
      exact Nat.le_refl _

/-- A process that runs is never stuck. -/
theorem step_enabled (config : Config) (hplaced : s.Placed batchSize)
    (hrunning : (s.loops w).running = true) : ∃ label s', label.isOf w = true ∧
      label ≠ .work (.exit w) ∧ step config batchSize s label = some s' := by
  have hfits := hplaced w
  have htest : (.test w : ProcessLabel) ≠ .work (.exit w) := by simp
  have hwake : (.wake w : ProcessLabel) ≠ .work (.exit w) := by simp
  cases hloop : s.loops w with
  | testing => exact ⟨.test w, _, beq_self_eq_true _, htest, if_pos hloop⟩
  | waiting => exact ⟨.wake w, _, beq_self_eq_true _, hwake, if_pos hloop⟩
  | dequeuing =>
      rw [hloop] at hfits
      have hidle : s.system.workers w = .idle := hfits
      refine ⟨.work (.dequeue w [] batchSize [] 0), ?_⟩
      simp only [step, Label.worker, hloop, LoopPhase.allows, BEq.rfl, Bool.and_self, if_true,
        System.step, hidle]
      exact ⟨_, beq_self_eq_true _, by simp, rfl⟩
  | draining =>
      rw [hloop] at hfits
      obtain ⟨phase, job, rest, hbusy, -⟩ := hfits
      refine ⟨.work (.advance w 0 (fun _ => ⟨0⟩) .returns), ?_⟩
      simp only [step, Label.worker, hloop, LoopPhase.allows, BEq.rfl, if_true, System.step, hbusy]
      exact ⟨_, beq_self_eq_true _, by simp, rfl⟩
  | returned =>
      rw [hloop] at hrunning
      cases hrunning
  | ended =>
      rw [hloop] at hrunning
      cases hrunning

/-! ## The locks -/

/-- Only a process that ends with jobs in hand leaves them locked. -/
theorem step_noneStranded (hreachable : Reachable (step config batchSize) init s)
    (hnone : s.system.queue.NoneStranded) (hstep : step config batchSize s label = some s')
    (hended : ∀ w, s'.loops w ≠ .ended) : s'.system.queue.NoneStranded := by
  have howned := System.reachable_owned (reachable_system hreachable)
  have hplaced := reachable_placed (hreachable.tail hstep)
  rcases step_simulates config batchSize s label s' hstep with hsame | ⟨call, hcall⟩
  · rw [hsame]
    exact hnone
  · rcases System.step_simulates config _ _ _ hcall with hsame | ⟨event, hevent⟩
    · rw [hsame]
      exact hnone
    · refine QueueState.step_noneStranded howned hnone (fun hstrands => ?_) hevent
      cases event with
      | enqueue => exact hstrands
      | work w event =>
          obtain ⟨⟨worker, t⟩, hwork, heq⟩ := Option.map_eq_some_iff.mp hevent
          obtain ⟨job, hjob, -⟩ := hstrands
          have hexited := (QueueWorker.step_abandons hwork (howned.owns w) hjob).1
          have hworker : (s'.system.workers w).view = worker := by
            show s'.system.queue.workers w = worker
            rw [← heq]
            exact Function.update_self ..
          have hfits := hplaced w
          refine hended w ?_
          cases hloop : s'.loops w with
          | ended => rfl
          | draining =>
              rw [hloop] at hfits
              obtain ⟨phase, job, rest, hbusy, -⟩ := hfits
              rw [hbusy, hexited] at hworker
              cases hworker
          | _ =>
              rw [hloop] at hfits
              have hidle : s'.system.workers w = .idle := hfits
              rw [hidle, hexited] at hworker
              cases hworker

theorem ended_stays (hstep : step config batchSize s label = some s')
    (h : s.loops w = .ended) : s'.loops w = .ended := by
  cases hlabel : label.isOf w with
  | false => rw [(step_others hstep hlabel).1, h]
  | true =>
      cases step_cases hstep with
      | requestStop => exact h
      | test v testing =>
          obtain rfl := eq_of_beq hlabel
          rw [h] at testing
          cases testing
      | wake v waiting =>
          obtain rfl := eq_of_beq hlabel
          rw [h] at waiting
          cases waiting
      | called => exact h
      | worked label v system mine allowed stepped =>
          have hworker : label.worker = some w := eq_of_beq hlabel
          obtain rfl := Option.some.inj (mine.symm.trans hworker)
          rw [h] at allowed
          cases label <;> cases allowed

theorem reachable_noneStranded (h : Reachable (step config batchSize) init s)
    (hended : ∀ w, s.loops w ≠ .ended) : s.system.queue.NoneStranded := by
  refine h.invariant' (I := fun s => (∀ w, s.loops w ≠ .ended) → s.system.queue.NoneStranded)
    (fun _ row hrow => by cases hrow) (fun s l s' hreachable ih hstep hnot => ?_) hended
  exact step_noneStranded hreachable
    (ih fun w hw => hnot w (ended_stays hstep hw)) hstep hnot

theorem remaining_le (hplaced : s.Placed batchSize) (w : Nat) :
    s.remaining batchSize w ≤ 10 * batchSize + 3 := by
  have hfits := hplaced w
  unfold remaining
  cases hloop : s.loops w with
  | draining =>
      rw [hloop] at hfits
      obtain ⟨phase, job, rest, hbusy, hrest⟩ := hfits
      rw [hbusy]
      show 10 - phase.position + 10 * rest.length + 1 ≤ _
      omega
  | testing =>
      show 1 ≤ _
      omega
  | waiting =>
      show 2 ≤ _
      omega
  | dequeuing => exact Nat.le_refl _
  | returned => exact Nat.zero_le _
  | ended => exact Nat.zero_le _

/-- As long as no process has ended without returning, every PROCESSING job is in the hands of a
    process that is on its batch, so none is left once they have all returned. And a process
    that is told to stop claims no batch any more unless it was about to, takes at most ten steps
    for each job of a batch and three more, and always finds one to take until it is over. -/
theorem run_graceful {labels : List ProcessLabel}
    (hrun : run (step config batchSize) init labels = some s) :
    ((∀ w, s.loops w ≠ .ended) → ∀ row ∈ s.system.store.jobs.rows, row.status = .processing →
      ∃ w, s.loops w = .draining ∧ row.id ∈ (s.system.workers w).view.ids) ∧
    ∀ w, s.stopping w = true → ∀ more s', run (step config batchSize) s more = some s' →
      more.countP (·.claims w) ≤ (if s.loops w = .dequeuing then 1 else 0) ∧
      more.countP (·.isOf w) ≤ 10 * batchSize + 3 ∧
      ((s'.loops w).running = true → ∃ label s'', label.isOf w = true ∧
        label ≠ .work (.exit w) ∧ step config batchSize s' label = some s'') := by
  have hreachable : Reachable (step config batchSize) init s := ⟨labels, hrun⟩
  have hplaced := reachable_placed hreachable
  constructor
  · intro hended row hrow hstatus
    have hbyId := SqlAlchemyJobQueue.byId_of_mem hrow
    obtain ⟨w, hw⟩ := QueueState.noneStranded_iff.mp (reachable_noneStranded hreachable hended)
      row.id row hbyId hstatus
    refine ⟨w, ?_, hw⟩
    have hfits := hplaced w
    have hids : row.id ∈ (s.system.workers w).view.ids := hw
    cases hloop : s.loops w with
    | draining => rfl
    | ended => exact absurd hloop (hended w)
    | _ =>
        rw [hloop] at hfits
        have hidle : s.system.workers w = .idle := hfits
        rw [hidle] at hids
        cases hids
  · intro w hstopping more s' hmore
    have hremaining := run_remaining hplaced hstopping hmore
    have hle := remaining_le hplaced w
    exact ⟨run_claims hplaced hstopping hmore, by omega,
      step_enabled config (reachable_placed (hreachable.trans_run hmore))⟩

/-! ### A signal in the middle of a batch -/

/-- Worker 0 has claimed job 20 and made three calls for it when the signal comes. -/
def stopHello : List ProcessLabel :=
  uploadHello.map .work ++
    [.test 0, .work (.dequeue 0 "w".toList 5 [⟨20⟩] 3)] ++
    List.replicate 3 (.work (.advance 0 4 (fun i => ⟨30 + BitVec.ofNat 128 i⟩) .returns)) ++
    [.requestStop 0]

/-- It finishes the job and returns. -/
def stopHelloRest : List ProcessLabel :=
  List.replicate 4 (.work (.advance 0 4 (fun i => ⟨30 + BitVec.ofNat 128 i⟩) .returns)) ++
    [.test 0]

theorem stopHello_loops :
    (run (step helloConfig 5) init (stopHello ++ stopHelloRest)).map (·.loops 0) =
      some .returned := by
  decide +kernel

theorem stopHello_stopping :
    (run (step helloConfig 5) init stopHello).map (·.stopping 0) = some true := by
  decide +kernel

theorem run_graceful_stopHello : ∃ s s', run (step helloConfig 5) init stopHello = some s ∧
    run (step helloConfig 5) s stopHelloRest = some s' ∧ s'.loops 0 = .returned ∧
    stopHelloRest.countP (·.claims 0) ≤ 1 ∧ stopHelloRest.countP (·.isOf 0) ≤ 53 ∧
    ∀ row ∈ s'.system.store.jobs.rows, row.status ≠ .processing := by
  obtain ⟨s', hall, hreturned⟩ := Option.map_eq_some_iff.mp stopHello_loops
  have hloops : ∀ w, s'.loops w = if w = 0 then .returned else .testing := by
    intro w
    split
    · next hw => rw [hw, hreturned]
    · next hw =>
        refine run_others (s := init) ?_ hall
        have hzero : ¬ 0 = w := fun heq => hw heq.symm
        simp [stopHello, stopHelloRest, uploadHello, ProcessLabel.isOf, Label.worker, hzero]
  obtain ⟨s, hrun, hrest⟩ := run_append.mp hall
  have hstopping := stopHello_stopping
  rw [hrun] at hstopping
  obtain ⟨hclaims, hsteps, -⟩ :=
    (run_graceful hrun).2 0 (Option.some.inj hstopping) stopHelloRest s' hrest
  refine ⟨s, s', hrun, hrest, hloops 0, hclaims.trans (by split <;> decide), hsteps, ?_⟩
  intro row hrow hstatus
  obtain ⟨w, hw, -⟩ := (run_graceful hall).1
    (fun w => by rw [hloops w]; split <;> exact nofun) row hrow hstatus
  rw [hloops w] at hw
  split at hw <;> cases hw

end Processes

end Eka
