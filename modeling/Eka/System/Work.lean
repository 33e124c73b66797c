import Mathlib.Algebra.BigOperators.Group.Finset.Piecewise
import Mathlib.Algebra.Order.BigOperators.Group.List
import Mathlib.Algebra.Order.Ring.Nat
import Eka.System.Indexed

/-!
# The work on a job

A failed job goes back into the queue, the poll loop of `run` never ends, and nothing keeps
workers from claiming the same job again and again. What is bounded is the work, in reads and
commits, where a commit takes the statements that it commits along: a claim is good for at most
eight, the last one for ten, and `fail` counts the claims. So all workers together, whatever
raises and however they interleave, make only so many of them for the jobs there are.
-/

namespace Eka

open Py Relational Transition

/-! ## What a claim is good for -/

/-- The reads and commits of `handle` before this one. -/
def HandlerPhase.position : HandlerPhase → Nat
  | .start => 0
  | .ingesting _ _ => 1
  | .marked => 2
  | .fetched _ => 3
  | .stored => 4
  | .indexing _ _ => 5

/-- At most so many reads and commits of `_process` come before this one. -/
def Phase.position : Phase → Nat
  | .handling phase => phase.position
  | .handled => 6
  | .raised _ => 7
  | .deadLettered => 8
  | .failing _ _ => 9

/-- The reads and commits that may have been made for a job when a worker stands here with it:
    eight for each earlier attempt. -/
def Phase.spent (phase : Phase) (job : IngestionJob) : Nat := 8 * job.attempts + phase.position

/-- Those that may have been made for the job of a row. -/
def IngestionJobModel.spent (row : IngestionJobModel) : Nat :=
  8 * row.attempts +
    match row.status with
    | .pending => 0
    | .processing => 8
    | .completed => 8
    | .deadLetter => 2

/-- The jobs in the hands of a worker, each with where the worker stands with it. -/
def Worker.holding : Worker → List (Phase × IngestionJob)
  | .busy phase job rest => (phase, job) :: rest.map fun j => (.handling .start, j)
  | _ => []

theorem Worker.holding_next (jobs : List IngestionJob) :
    (Worker.next jobs).holding = jobs.map fun j => (.handling .start, j) := by
  cases jobs <;> rfl

theorem Worker.mem_holding_update {workers : Nat → Worker} {w v : Nat} {worker : Worker}
    {p : Phase × IngestionJob} (h : p ∈ (Function.update workers w worker v).holding) :
    (v = w ∧ p ∈ worker.holding) ∨ (v ≠ w ∧ p ∈ (workers v).holding) := by
  by_cases hv : v = w
  · rw [hv, Function.update_self] at h
    exact .inl ⟨hv, h⟩
  · rw [Function.update_of_ne hv] at h
    exact .inr ⟨hv, h⟩

theorem HandlerPhase.position_lt (phase : HandlerPhase) : phase.position < 6 := by
  cases phase <;> simp [HandlerPhase.position]

theorem HandlerPhase.Leads.position {config : Config} {job : IngestionJob} {now : Instant}
    {newUuid : Nat → UUID} {s s' : Store} {phase phase' : HandlerPhase}
    (h : phase.Leads config job now newUuid s s' (some phase')) :
    phase'.position = phase.position + 1 := by
  cases phase with
  | start =>
      obtain ⟨-, _, _, hnext, -⟩ := h
      cases hnext
      rfl
  | ingesting => cases h.1; rfl
  | marked =>
      obtain ⟨-, _, hnext, -⟩ := h
      cases hnext
      rfl
  | fetched => cases h.1; rfl
  | stored =>
      obtain ⟨-, _, _, hnext, -⟩ := h
      cases hnext
      rfl
  | indexing => cases h.1

/-- After a step the worker is through with the job, or gone, or further on. -/
theorem Phase.Leads.moves {config : Config} {job : IngestionJob} {rest : List IngestionJob}
    {now : Instant} {newUuid : Nat → UUID} {s s' : Store} {phase : Phase} {worker : Worker}
    (h : phase.Leads config job rest now newUuid s s' worker) :
    worker = .next rest ∨ worker = .exited ∨
      ∃ phase', worker = .busy phase' job rest ∧ phase.position + 1 ≤ phase'.position := by
  cases phase with
  | handling phase =>
      have hlt := phase.position_lt
      rcases h with ⟨next, hleads, rfl⟩ | ⟨exc, rfl⟩
      · cases next with
        | none => exact .inr (.inr ⟨.handled, rfl, hlt⟩)
        | some phase' => exact .inr (.inr ⟨.handling phase', rfl, hleads.position.ge⟩)
      · exact .inr (.inr ⟨.raised exc, rfl, hlt.trans (Nat.lt_succ_self 6)⟩)
  | handled =>
      rcases h with ⟨rfl, -⟩ | ⟨exc, rfl⟩
      · exact .inl rfl
      · exact .inr (.inr ⟨.raised exc, rfl, Nat.le_refl _⟩)
  | raised exc =>
      rcases h with ⟨rfl, -⟩ | rfl
      · split
        · exact .inr (.inr ⟨.deadLettered, rfl, Nat.le_refl _⟩)
        · exact .inl rfl
      · exact .inr (.inl rfl)
  | deadLettered =>
      rcases h with ⟨loaded, document, rfl, -⟩ | rfl
      · exact .inr (.inr ⟨.failing loaded document, rfl, Nat.le_refl _⟩)
      · exact .inl rfl
  | failing loaded document => exact .inl h

/-! ## What a row allows -/

/-- While a worker stands with a job, the row allows one step more. -/
theorem Stage.Fits.spent_lt {phase : Phase} {job : IngestionJob} {row : IngestionJobModel}
    (h : phase.stage.Fits job row) : phase.spent job < row.spent := by
  unfold Phase.spent IngestionJobModel.spent
  cases phase with
  | handling phase =>
      obtain ⟨rfl, hstatus⟩ := h
      have hlt := phase.position_lt
      have hattempts : row.toJob.attempts = row.attempts := rfl
      simp only [hstatus, hattempts, Phase.position]
      omega
  | handled =>
      obtain ⟨rfl, hstatus⟩ := h
      have hattempts : row.toJob.attempts = row.attempts := rfl
      simp only [hstatus, hattempts, Phase.position]
      omega
  | raised exc =>
      obtain ⟨rfl, hstatus⟩ := h
      have hattempts : row.toJob.attempts = row.attempts := rfl
      rcases hstatus with hstatus | hstatus <;>
        simp only [hstatus, hattempts, Phase.position] <;> omega
  | deadLettered =>
      obtain ⟨hjob, hstatus⟩ := h
      have hattempts : row.attempts = job.attempts + 1 := congrArg IngestionJob.attempts hjob
      simp only [hstatus, hattempts, Phase.position]
      omega
  | failing loaded document =>
      obtain ⟨hjob, hstatus⟩ := h
      have hattempts : row.attempts = job.attempts + 1 := congrArg IngestionJob.attempts hjob
      simp only [hstatus, hattempts, Phase.position]
      omega

/-- No change of a row takes anything back. -/
theorem RowStep.spent {claims : Bool} {old new : Option IngestionJobModel}
    (h : RowStep claims old new) :
    (old.map IngestionJobModel.spent).getD 0 ≤ (new.map IngestionJobModel.spent).getD 0 := by
  cases h with
  | same => exact Nat.le_refl _
  | enqueued => exact Nat.zero_le _
  | claimed workerId now row pending =>
      simp [SqlAlchemyJobQueue.claim, IngestionJobModel.spent, pending]
  | completed now row processing =>
      simp [SqlAlchemyJobQueue.completed, IngestionJobModel.spent, processing]
  | failed error now row held =>
      have hattempts : row.toJob.attempts = row.attempts := rfl
      by_cases hdead : SqlAlchemyJobQueue.deadLettered row.toJob = true <;>
        rcases held with held | held <;>
        simp [IngestionJobModel.spent, hdead, held, hattempts] <;> omega

/-- No row is ever deleted. -/
theorem RowStep.exists_row {claims : Bool} {row : IngestionJobModel}
    {new : Option IngestionJobModel} (h : RowStep claims (some row) new) :
    ∃ row', new = some row' := by
  cases h <;> exact ⟨_, rfl⟩

theorem IngestionJobModel.Accounted.spent_le {row : IngestionJobModel} (h : row.Accounted) :
    row.spent ≤ 8 * row.maxAttempts + 2 := by
  have halive := h.alive
  have hdead := h.dead
  unfold IngestionJobModel.spent
  cases hstatus : row.status <;> simp only [hstatus] at halive hdead ⊢
  all_goals simp_all
  all_goals omega

/-! ## Every step keeps within it -/

def Label.isAdvance : Label → Bool
  | .advance .. => true
  | _ => false

namespace System

variable {config : Config} {s s' : System} {label : Label} {id : UUID}

/-- The step is a read or a commit of a worker for the job. -/
def works (id : UUID) (s : System) : Label → Bool
  | .advance w _ _ _ =>
      match s.workers w with
      | .busy _ job _ => job.id == id
      | _ => false
  | _ => false

/-- How many reads and commits the workers make for a job in a run. -/
def worked (config : Config) (id : UUID) (labels : List Label) : Nat :=
  countAlong (step config) (works id) init labels

/-- The reads and commits that the row of a job allows. -/
def allowed (s : System) (id : UUID) : Nat :=
  ((s.store.jobs.byId id).map IngestionJobModel.spent).getD 0

/-- After `n` steps for a job, its row and whoever has it have accounted for them. -/
structure Spends (s : System) (id : UUID) (n : Nat) : Prop where
  row : n ≤ s.allowed id
  held : ∀ w, ∀ p ∈ (s.workers w).holding, p.2.id = id → n ≤ p.1.spent p.2

theorem step_allowed (howned : s.queue.Owned) (hstep : step config s label = some s')
    (id : UUID) : s.allowed id ≤ s'.allowed id := by
  rcases step_simulates config s label s' hstep with hsame | ⟨event, hevent⟩
  · have hjobs : s'.store.jobs = s.store.jobs := congrArg QueueState.jobs hsame
    unfold allowed
    rw [hjobs]
  · exact (QueueState.step_row howned hevent id).spent

theorem allowed_of_byId {row : IngestionJobModel} (h : s.store.jobs.byId id = some row) :
    s.allowed id = row.spent := by
  unfold allowed
  rw [h]
  rfl

/-- A worker that is about to make a call for a job finds it allowed. -/
theorem spent_lt_allowed (howned : s.queue.Owned) {w : Nat} {phase : Phase} {job : IngestionJob}
    {rest : List IngestionJob} (hbusy : s.workers w = .busy phase job rest) :
    phase.spent job < s.allowed job.id := by
  obtain ⟨row, hrow, hfits⟩ := held_row howned hbusy
  rw [allowed_of_byId hrow]
  exact hfits.spent_lt

theorem mem_ids_of_mem_holding {worker : Worker} {p : Phase × IngestionJob}
    (h : p ∈ worker.holding) : p.2.id ∈ worker.view.ids := by
  cases worker with
  | busy phase job rest =>
      rcases List.mem_cons.mp h with rfl | hmem
      · exact List.mem_cons_self
      · obtain ⟨j, hj, rfl⟩ := List.mem_map.mp hmem
        rw [show Worker.view (.busy phase job rest) = .busy phase.stage job rest from rfl,
          QueueWorker.ids_busy]
        exact List.mem_cons_of_mem _ (List.mem_map_of_mem hj)
  | idle => cases h
  | exited => cases h

/-- A call for one job counts for nobody else's. -/
theorem Spends.advance (howned : s.queue.Owned) {n : Nat} (h : s.Spends id n) {w : Nat}
    {now : Instant} {newUuid : Nat → UUID} {phase : Phase} {job : IngestionJob}
    {rest : List IngestionJob} {worker : Worker} {store : Store}
    (hbusy : s.workers w = .busy phase job rest)
    (hleads : phase.Leads config job rest now newUuid s.store store worker)
    (hallowed : s.allowed id ≤
      (⟨store, Function.update s.workers w worker, s.calls⟩ : System).allowed id) :
    Spends ⟨store, Function.update s.workers w worker, s.calls⟩ id
      (n + (job.id == id).toNat) := by
  have hnodup : job.id ∉ rest.map (·.id) := by
    have hids := (howned.owns w).nodup
    rw [show s.queue.workers w = .busy phase.stage job rest by
      show (s.workers w).view = _
      rw [hbusy]; rfl, QueueWorker.ids_busy] at hids
    exact (List.nodup_cons.mp hids).1
  have hhere := h.held w
  rw [hbusy] at hhere
  constructor
  · by_cases hid : job.id = id
    · subst hid
      have hn : n ≤ phase.spent job := hhere (phase, job) List.mem_cons_self rfl
      have hlt := spent_lt_allowed howned hbusy
      simp only [BEq.rfl, Bool.toNat_true]
      omega
    · rw [beq_eq_false_iff_ne.mpr hid]
      exact h.row.trans hallowed
  · intro v p hp hpid
    rcases Worker.mem_holding_update hp with ⟨rfl, hmine⟩ | ⟨hv, hother⟩
    · have hrest : ∀ j ∈ rest, j.id = id →
          n + (job.id == id).toNat ≤ Phase.spent (.handling .start) j := by
        intro j hj hjid
        have hne : job.id ≠ id := fun heq =>
          hnodup (heq.trans hjid.symm ▸ List.mem_map_of_mem hj)
        rw [beq_eq_false_iff_ne.mpr hne]
        exact hhere (.handling .start, j)
          (List.mem_cons_of_mem _ (List.mem_map.mpr ⟨j, hj, rfl⟩)) hjid
      rcases hleads.moves with rfl | rfl | ⟨phase', rfl, hposition⟩
      · rw [Worker.holding_next] at hmine
        obtain ⟨j, hj, rfl⟩ := List.mem_map.mp hmine
        exact hrest j hj hpid
      · cases hmine
      · rcases List.mem_cons.mp hmine with rfl | hmem
        · have hn : n ≤ phase.spent job := hhere (phase, job) List.mem_cons_self hpid
          have htoNat : (job.id == id).toNat ≤ 1 := Bool.toNat_le _
          show n + (job.id == id).toNat ≤ phase'.spent job
          unfold Phase.spent at hn ⊢
          omega
        · obtain ⟨j, hj, rfl⟩ := List.mem_map.mp hmem
          exact hrest j hj hpid
    · have hne : job.id ≠ id := by
        intro heq
        refine howned.disjoint v w hv (mem_ids_of_mem_holding hother) ?_
        show p.2.id ∈ (s.workers w).view.ids
        rw [hbusy, hpid, ← heq]
        exact List.mem_cons_self
      rw [beq_eq_false_iff_ne.mpr hne]
      exact h.held v p hother hpid

/-- The step lemma: each call is one that the row of its job allows. -/
theorem step_spends (howned : s.queue.Owned) {n : Nat} (h : s.Spends id n)
    (hstep : step config s label = some s') : s'.Spends id (n + (works id s label).toNat) := by
  have hallowed := step_allowed howned hstep id
  cases step_cases hstep with
  | request => exact ⟨h.row, h.held⟩
  | proceed => exact ⟨h.row.trans hallowed, h.held⟩
  | dequeue w workerId batchSize picked now jobs t idle claimed =>
      refine ⟨h.row.trans hallowed, fun v p hp hpid => ?_⟩
      rcases Worker.mem_holding_update hp with ⟨rfl, hclaimed⟩ | ⟨-, hother⟩
      · -- a job that is claimed was PENDING, and has spent its earlier attempts only
        rw [Worker.holding_next] at hclaimed
        obtain ⟨job, hjob, rfl⟩ := List.mem_map.mp hclaimed
        obtain ⟨-, -, hpending, -⟩ := SqlAlchemyJobQueue.dequeue_eq_some claimed
        obtain ⟨row, hrow, rfl, hstatus, -⟩ := hpending job hjob
        have hn := h.row
        rw [← hpid, allowed_of_byId hrow] at hn
        unfold IngestionJobModel.spent at hn
        rw [hstatus] at hn
        exact hn
      · exact h.held v p hother hpid
  | advance w now newUuid outcome phase job rest worker store busy leads writes =>
      have hworks : works id s (.advance w now newUuid outcome) = (job.id == id) := by
        simp only [works, busy]
      rw [hworks]
      exact h.advance howned busy leads hallowed
  | exit w =>
      refine ⟨h.row.trans hallowed, fun v p hp hpid => ?_⟩
      rcases Worker.mem_holding_update hp with ⟨-, hgone⟩ | ⟨-, hother⟩
      · cases hgone
      · exact h.held v p hother hpid

/-- The run lemma for the work on a job. -/
theorem run_spends {labels : List Label} (hrun : run (step config) init labels = some s)
    (id : UUID) : s.Spends id (worked config id labels) := by
  refine run_induction (J := fun ls s => run (step config) init ls = some s ∧
      s.Spends id (worked config id ls)) ⟨rfl, ⟨Nat.le_refl _, fun w p hp => by cases hp⟩⟩ ?_ hrun
    |>.2
  rintro ls s₁ l s₂ ⟨hls, hspends⟩ hstep
  refine ⟨run_concat.mpr ⟨s₁, hls, hstep⟩, ?_⟩
  unfold worked
  rw [countAlong_concat hls]
  exact step_spends (reachable_owned ⟨ls, hls⟩) hspends hstep

/-! ## All the work -/

/-- Whose job a call of a worker is for. -/
theorem isAdvance_eq_sum (howned : s.queue.Owned) (hstep : step config s label = some s')
    {ids : Finset UUID} (hids : ∀ id row, s.store.jobs.byId id = some row → id ∈ ids) :
    label.isAdvance.toNat = ∑ id ∈ ids, (works id s label).toNat := by
  cases step_cases hstep with
  | advance w now newUuid outcome phase job rest worker store busy leads writes =>
      obtain ⟨row, hrow, -⟩ := held_row howned busy
      have hworks : ∀ id, (works id s (.advance w now newUuid outcome)).toNat =
          if job.id = id then 1 else 0 := by
        intro id
        simp only [works, busy]
        by_cases hid : job.id = id <;> simp [hid]
      simp only [hworks, Finset.sum_ite_eq, if_pos (hids job.id row hrow)]
      rfl
  | _ => exact (Finset.sum_eq_zero fun _ _ => rfl).symm

/-- Every call of a worker is for a job whose row is there at the end. -/
theorem run_advances {labels : List Label} (hrun : run (step config) init labels = some s)
    {ids : Finset UUID} (hids : ∀ id row, s.store.jobs.byId id = some row → id ∈ ids) :
    labels.countP Label.isAdvance = ∑ id ∈ ids, worked config id labels := by
  refine run_induction (J := fun ls s => run (step config) init ls = some s ∧
      ((∀ id row, s.store.jobs.byId id = some row → id ∈ ids) →
        ls.countP Label.isAdvance = ∑ id ∈ ids, worked config id ls))
    ⟨rfl, fun _ => (Finset.sum_eq_zero fun _ _ => rfl).symm⟩ ?_ hrun |>.2 hids
  rintro ls s₁ l s₂ ⟨hls, ih⟩ hstep
  refine ⟨run_concat.mpr ⟨s₁, hls, hstep⟩, fun hlast => ?_⟩
  have howned := reachable_owned ⟨ls, hls⟩
  have hbefore : ∀ id row, s₁.store.jobs.byId id = some row → id ∈ ids := by
    intro id row hrow
    rcases step_simulates config s₁ l s₂ hstep with hsame | ⟨event, hevent⟩
    · have hjobs : s₂.store.jobs = s₁.store.jobs := congrArg QueueState.jobs hsame
      exact hlast id row (by rw [hjobs]; exact hrow)
    · have hrowStep := QueueState.step_row howned hevent id
      rw [show s₁.queue.jobs.byId id = some row from hrow] at hrowStep
      obtain ⟨row', hrow'⟩ := hrowStep.exists_row
      exact hlast id row' hrow'
  rw [List.countP_append, ih hbefore, List.countP_singleton]
  unfold worked
  simp only [countAlong_concat hls, Finset.sum_add_distrib]
  rw [← isAdvance_eq_sum howned hstep hbefore]
  cases l.isAdvance <;> rfl

/-- In every run, whatever raises, exits and interleaves, the workers make at most eight reads and
    commits for each of the attempts a job may have and two more when it is dead-lettered, and so
    together at most that many for the jobs there are. -/
theorem run_workBounded {labels : List Label} (hrun : run (step config) init labels = some s) :
    (∀ row ∈ s.store.jobs.rows, worked config row.id labels ≤ 8 * row.maxAttempts + 2) ∧
    labels.countP Label.isAdvance ≤
      (s.store.jobs.rows.map fun row => 8 * row.maxAttempts + 2).sum := by
  have howned := reachable_owned ⟨labels, hrun⟩
  have hjob : ∀ row ∈ s.store.jobs.rows,
      worked config row.id labels ≤ 8 * row.maxAttempts + 2 := by
    intro row hrow
    have hbyId := SqlAlchemyJobQueue.byId_of_mem hrow
    have hspends := (run_spends hrun row.id).row
    rw [allowed_of_byId hbyId] at hspends
    exact hspends.trans (howned.accounted row.id row hbyId).spent_le
  refine ⟨hjob, ?_⟩
  have hids : ∀ id row, s.store.jobs.byId id = some row →
      id ∈ (s.store.jobs.rows.map (·.id)).toFinset := by
    intro id row hrow
    obtain ⟨hmem, rfl⟩ := SqlAlchemyJobQueue.byId_eq_some.mp hrow
    exact List.mem_toFinset.mpr (List.mem_map_of_mem hmem)
  have hnodup : (s.store.jobs.rows.map (·.id)).Nodup :=
    List.pairwise_map.mpr (s.store.jobs.distinct.imp fun hclash heq => hclash (.inl heq))
  rw [run_advances hrun hids, List.sum_toFinset _ hnodup, List.map_map]
  exact List.sum_le_sum hjob

/-! ### The last attempt at a job -/

/-- The configuration of `helloConfig` with one attempt. -/
def onceConfig : Config := { helloConfig with maxAttempts := 1, maxAttemptsPos := Nat.one_pos }

/-- The commit of `mark_indexed` raises, the job is dead-lettered and the document FAILED. -/
def failHello : List Label :=
  uploadHello ++ .dequeue 0 "w".toList 5 [⟨20⟩] 3 ::
    (List.replicate 5 (.advance 0 4 (fun i => ⟨30 + BitVec.ofNat 128 i⟩) .returns) ++
      .advance 0 4 (fun _ => ⟨0⟩) .raises ::
        List.replicate 3 (.advance 0 5 (fun _ => ⟨0⟩) .returns))

theorem failHello_rows : (run (step onceConfig) init failHello).map (fun s =>
    (s.store.jobs.rows.map fun row => (row.id, row.maxAttempts),
      s.store.documents.rows.map (·.status))) = some ([(⟨20⟩, 1)], [.failed]) := by
  decide +kernel

theorem run_workBounded_failHello : ∃ s, run (step onceConfig) init failHello = some s ∧
    s.store.documents.rows.map (·.status) = [.failed] ∧
    failHello.countP Label.isAdvance = 9 ∧
    failHello.countP Label.isAdvance ≤ 10 := by
  obtain ⟨s, hrun, hrows⟩ := Option.map_eq_some_iff.mp failHello_rows
  obtain ⟨hjobs, hdocuments⟩ := Prod.mk.injEq .. ▸ hrows
  have hsum : (s.store.jobs.rows.map fun row => 8 * row.maxAttempts + 2) = [10] := by
    have hmax := congrArg (List.map fun p : UUID × Nat => 8 * p.2 + 2) hjobs
    rwa [List.map_map] at hmax
  have hbounded := (run_workBounded hrun).2
  rw [hsum] at hbounded
  exact ⟨s, hrun, hdocuments, rfl, hbounded⟩

end System

end Eka
