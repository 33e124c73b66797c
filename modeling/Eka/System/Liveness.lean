import Eka.Lib.Trace
import Eka.System.Settled
import Eka.System.Shutdown

/-!
# Every job comes to an end

What the workers do in a run that never ends. A job that is up for a claim waits behind the jobs
that have been due for longer, and behind nobody else: whatever comes into the queue later, a new
job or one that has failed, is due later. So a claim comes, again and again while the job fails,
until it has no attempt left.
-/

namespace Eka

open Py Relational Transition

/-! ## The row of a job -/

/-- What changes of a row never touch or take back. -/
structure IngestionJobModel.Keeps (row row' : IngestionJobModel) : Prop where
  id : row'.id = row.id
  subject : row'.subject = row.subject
  maxAttempts : row'.maxAttempts = row.maxAttempts
  spent : row.spent ≤ row'.spent

theorem IngestionJobModel.Keeps.trans {a b c : IngestionJobModel} (h : a.Keeps b)
    (h' : b.Keeps c) : a.Keeps c :=
  ⟨h'.id.trans h.id, h'.subject.trans h.subject, h'.maxAttempts.trans h.maxAttempts,
    h.spent.trans h'.spent⟩

/-- A row that is PENDING is left alone or claimed. -/
theorem RowStep.keeps {claims : Bool} {row : IngestionJobModel} {new : Option IngestionJobModel}
    (h : RowStep claims (some row) new) : ∃ row', new = some row' ∧ row.Keeps row' ∧
      (row.status = .pending →
        row' = row ∨ row'.status = .processing ∧ row.spent < row'.spent) := by
  have hspent := h.spent
  cases h with
  | same => exact ⟨row, rfl, ⟨rfl, rfl, rfl, Nat.le_refl _⟩, fun _ => .inl rfl⟩
  | claimed workerId now row pending =>
      refine ⟨_, rfl, ⟨rfl, rfl, rfl, hspent⟩, fun _ => .inr ⟨rfl, ?_⟩⟩
      unfold SqlAlchemyJobQueue.claim IngestionJobModel.spent
      simp only [pending]
      omega
  | completed now row processing =>
      refine ⟨_, rfl, ⟨rfl, rfl, rfl, hspent⟩, fun hpending => ?_⟩
      rw [hpending] at processing
      cases processing
  | failed error now row held =>
      refine ⟨_, rfl, ⟨SqlAlchemyJobQueue.failed_id .., ?_,
        SqlAlchemyJobQueue.failed_maxAttempts .., hspent⟩, fun hpending => ?_⟩
      · unfold SqlAlchemyJobQueue.failed
        split <;> rfl
      · rw [hpending] at held
        rcases held with held | held <;> cases held

/-- A row that is PROCESSING without a claim was so before. -/
theorem RowStep.processing {old : Option IngestionJobModel} {row : IngestionJobModel}
    (h : RowStep false old (some row)) (hstatus : row.status = .processing) : old = some row := by
  generalize hnew : some row = new at h
  cases h with
  | same => rfl
  | enqueued =>
      cases hnew
      cases hstatus
  | completed =>
      cases hnew
      cases hstatus
  | failed =>
      cases hnew
      rw [SqlAlchemyJobQueue.failed_status] at hstatus
      split at hstatus <;> cases hstatus

/-- Nobody has the job of the row, and nobody can claim it any more. -/
structure QueueState.AtRest (s : QueueState) (row : IngestionJobModel) : Prop where
  found : s.jobs.byId row.id = some row
  unclaimable : row.status ≠ .pending
  free : ∀ w, row.id ∉ (s.workers w).ids

namespace QueueState

variable {s s' : QueueState} {label : QueueLabel} {row : IngestionJobModel}

/-- It stays as it is. -/
theorem AtRest.step (h : s.AtRest row) (hstep : s.step label = some s') : s'.AtRest row := by
  cases label with
  | enqueue jobId tenantId documentId collectionId version maxAttempts now =>
      simp only [QueueState.step] at hstep
      split at hstep
      · cases hstep
      · split at hstep
        · cases hstep
          exact h
        · next t ht =>
            cases hstep
            exact ⟨enqueue_frame ht h.found, h.unclaimable, h.free⟩
  | work w event =>
      obtain ⟨⟨worker, t⟩, hworker, rfl⟩ := Option.map_eq_some_iff.mp hstep
      obtain ⟨hrow, hfree⟩ := QueueWorker.step_frame hworker (fun old hold => by
        rw [h.found] at hold
        cases hold
        exact h.unclaimable) (h.free w)
      refine ⟨hrow.trans h.found, h.unclaimable, fun v => ?_⟩
      by_cases hv : v = w
      · subst hv
        simpa only [Function.update_self] using hfree
      · simpa only [Function.update_of_ne hv] using h.free v

/-- A job that is PROCESSING after a step is in somebody's hands, or in nobody's as before, or its
    worker has ended with it. -/
theorem step_processing (howned : s.Owned) (hstep : s.step label = some s') {id : UUID}
    (hrow : s'.jobs.byId id = some row) (hstatus : row.status = .processing) :
    (∃ w, id ∈ (s'.workers w).ids) ∨ s.jobs.byId id = some row ∧
      ((∀ w, id ∉ (s.workers w).ids) ∨ ∃ w, id ∈ (s.workers w).ids ∧ s'.workers w = .exited) := by
  cases label with
  | enqueue jobId tenantId documentId collectionId version maxAttempts now =>
      have hworkers : s'.workers = s.workers := by
        simp only [step] at hstep
        split at hstep
        · cases hstep
        · split at hstep <;> cases hstep <;> rfl
      have hsame : RowStep false (s.jobs.byId id) (s'.jobs.byId id) := step_row howned hstep id
      rw [hrow] at hsame
      rw [hworkers]
      by_cases hheld : ∃ w, id ∈ (s.workers w).ids
      · exact .inl hheld
      · exact .inr ⟨hsame.processing hstatus, .inl (not_exists.mp hheld)⟩
  | work w event =>
      obtain ⟨⟨worker, t⟩, hworker, rfl⟩ := Option.map_eq_some_iff.mp hstep
      rcases QueueWorker.step_processing hworker (howned.owns w) hrow hstatus with
        hheld | ⟨hold, hnot | habandoned⟩
      · exact .inl ⟨w, by simpa only [Function.update_self] using hheld⟩
      · by_cases hothers : ∃ v, id ∈ (s.workers v).ids
        · obtain ⟨v, hv⟩ := hothers
          have hvw : v ≠ w := fun heq => hnot (heq ▸ hv)
          exact .inl ⟨v, by simpa only [Function.update_of_ne hvw] using hv⟩
        · exact .inr ⟨hold, .inl (not_exists.mp hothers)⟩
      · obtain ⟨job, hjob, rfl⟩ := List.mem_map.mp habandoned
        obtain ⟨hexited, hid, -⟩ := QueueWorker.step_abandons hworker (howned.owns w) hjob
        exact .inr ⟨hold, .inr ⟨w, hid, (Function.update_self ..).trans hexited⟩⟩

end QueueState

/-! ## Whose hands a job is in -/

namespace System

variable {config : Config} {s s' : System} {label : Label} {w : Nat} {id : UUID}
  {row : IngestionJobModel}

/-- The worker has the job in hand. -/
def Has (s : System) (w : Nat) (id : UUID) : Prop := id ∈ (s.workers w).view.ids

theorem step_keeps (howned : s.queue.Owned) (hstep : step config s label = some s')
    (hrow : s.store.jobs.byId id = some row) : ∃ row', s'.store.jobs.byId id = some row' ∧
      row.Keeps row' ∧ (row.status = .pending →
        row' = row ∨ row'.status = .processing ∧ row.spent < row'.spent) := by
  rcases step_simulates config s label s' hstep with hsame | ⟨event, hevent⟩
  · have hjobs : s'.store.jobs = s.store.jobs := congrArg QueueState.jobs hsame
    exact ⟨row, by rw [hjobs, hrow], ⟨rfl, rfl, rfl, Nat.le_refl _⟩, fun _ => .inl rfl⟩
  · have hstep := QueueState.step_row howned hevent id
    rw [show s.queue.jobs.byId id = some row from hrow] at hstep
    exact hstep.keeps

theorem step_atRest (h : s.queue.AtRest row) (hstep : step config s label = some s') :
    s'.queue.AtRest row := by
  rcases step_simulates config s label s' hstep with hsame | ⟨event, hevent⟩
  · rw [hsame]
    exact h
  · exact h.step hevent

/-- A worker that has ended in the eyes of the queue has ended. -/
theorem exited_of_view {worker : Worker} (h : worker.view = .exited) : worker = .exited := by
  cases worker with
  | exited => rfl
  | idle => cases h
  | busy => cases h

theorem step_processing (howned : s.queue.Owned) (hstep : step config s label = some s')
    (hrow : s'.store.jobs.byId id = some row) (hstatus : row.status = .processing) :
    (∃ w, s'.Has w id) ∨ s.store.jobs.byId id = some row ∧
      ((∀ w, ¬ s.Has w id) ∨ ∃ w, s.Has w id ∧ s'.workers w = .exited) := by
  rcases step_simulates config s label s' hstep with hsame | ⟨event, hevent⟩
  · have hjobs : s'.store.jobs = s.store.jobs := congrArg QueueState.jobs hsame
    have hviews : ∀ v, (s'.workers v).view = (s.workers v).view :=
      congrFun (congrArg QueueState.workers hsame)
    by_cases hheld : ∃ v, s.Has v id
    · obtain ⟨v, hv⟩ := hheld
      refine .inl ⟨v, ?_⟩
      unfold Has
      rw [hviews]
      exact hv
    · exact .inr ⟨hjobs ▸ hrow, .inl (not_exists.mp hheld)⟩
  · rcases QueueState.step_processing howned hevent hrow hstatus with
      hheld | ⟨hold, hfree | ⟨v, hv, hexited⟩⟩
    · exact .inl hheld
    · exact .inr ⟨hold, .inl hfree⟩
    · exact .inr ⟨hold, .inr ⟨v, hv, exited_of_view hexited⟩⟩

theorem Has.busy (h : s.Has w id) : ∃ phase job rest, s.workers w = .busy phase job rest := by
  unfold Has at h
  cases hworker : s.workers w with
  | busy phase job rest => exact ⟨phase, job, rest, rfl⟩
  | idle =>
      rw [hworker] at h
      cases h
  | exited =>
      rw [hworker] at h
      cases h

/-- With each step of its own, a worker comes nearer to the end of its batch. -/
theorem Has.step_remaining (h : s.Has w id) (hstep : step config s label = some s')
    (hlabel : label.worker = some w) : (s'.workers w).remaining < (s.workers w).remaining := by
  obtain ⟨phase, job, rest, hbusy⟩ := h.busy
  cases step_cases hstep with
  | request => cases hlabel
  | proceed => cases hlabel
  | dequeue v workerId batchSize picked now jobs t idle claimed =>
      obtain rfl := Option.some.inj hlabel
      rw [hbusy] at idle
      cases idle
  | advance v now newUuid outcome phase job rest worker store busy leads writes =>
      obtain rfl := Option.some.inj hlabel
      simp only [Function.update_self, busy]
      exact leads.remaining
  | exit v =>
      obtain rfl := Option.some.inj hlabel
      have hposition := phase.position_lt
      simp only [Function.update_self, hbusy, Worker.remaining]
      omega

/-- What a worker lets go of is in nobody else's hands. -/
theorem Has.step_free (howned : s.queue.Owned) (h : s.Has w id)
    (hstep : step config s label = some s') (hnot : ¬ s'.Has w id) (v : Nat) : ¬ s'.Has v id := by
  have hlabel : label.worker = some w := by
    by_contra hne
    refine hnot ?_
    unfold Has
    rw [step_workers hstep hne]
    exact h
  by_cases hv : v = w
  · rw [hv]
    exact hnot
  · intro hhas
    unfold Has at hhas
    rw [step_workers hstep fun heq => hv (Option.some.inj (heq.symm.trans hlabel))] at hhas
    exact howned.disjoint v w hv hhas h

end System

/-! ## Up for a claim -/

/-- The time that a step reads. -/
def Label.now : Label → Option Instant
  | .request _ _ _ now => some now
  | .proceed _ _ now _ => some now
  | .dequeue _ _ _ _ now => some now
  | .advance _ now _ _ => some now
  | .exit _ => none

/-- The rows that the `SELECT` of a claim returns when it finds none locked (`queue.py:72-79`): a
    claimable row is left out only for a full batch of rows that have been due for as long. -/
def SqlAlchemyJobQueue.Unskipped (batchSize : Nat) (picked : List UUID) (now : Instant)
    (t : Jobs) : Prop :=
  ∀ row ∈ t.rows, claimable now row = true → row.id ∉ picked →
    picked.length = batchSize ∧
      ∀ id ∈ picked, ∀ first, t.byId id = some first → first.availableAt ≤ row.availableAt

/-- The only call of the API that writes to the queue is an `enqueue`, with its own time. -/
theorem Call.advance_jobs {config : Config} {id : UUID} {now : Instant} {outcome : Outcome}
    {s s' : Store} {call next : Call} (h : call.advance config id now outcome s = some (next, s')) :
    s'.jobs = s.jobs ∨ ∃ tenantId documentId document,
      UploadDocumentContentHandler.enqueue config id tenantId documentId document now s.jobs =
        .ok s'.jobs := by
  cases call with
  | enqueuing tenantId documentId document =>
      cases h
      rcases await_transact_snd outcome (Store.onJobs (UploadDocumentContentHandler.enqueue config
        id tenantId documentId document now)) s with hsame | ⟨hwrites, -⟩
      · rw [hsame]
        exact .inl rfl
      · obtain ⟨t, ht, hstore⟩ := Fallible.map_ok.mp hwrites
        rw [← hstore]
        exact .inr ⟨tenantId, documentId, document, ht⟩
  | idle => cases h
  | _ =>
      rcases (advance_spec h).2 with rfl | ⟨hwrites, -⟩
      · exact .inl rfl
      · cases hwrites.written
        all_goals exact .inl rfl

namespace System

variable {config : Config} {s s' : System} {label : Label} {w : Nat} {id : UUID}
  {row : IngestionJobModel} {due : Instant}

/-- The jobs that can be claimed at a time. -/
def waiting (due : Instant) (s : System) : Finset UUID :=
  ((s.store.jobs.rows.filter (SqlAlchemyJobQueue.claimable due)).map (·.id)).toFinset

theorem mem_waiting : id ∈ s.waiting due ↔ ∃ row, s.store.jobs.byId id = some row ∧
    row.status = .pending ∧ row.availableAt ≤ due := by
  unfold waiting
  rw [List.mem_toFinset, List.mem_map]
  constructor
  · rintro ⟨row, hrow, rfl⟩
    obtain ⟨hmem, hclaimable⟩ := List.mem_filter.mp hrow
    obtain ⟨hpending, hdue⟩ := Bool.and_eq_true_iff.mp hclaimable
    exact ⟨row, SqlAlchemyJobQueue.byId_of_mem hmem, eq_of_beq hpending, of_decide_eq_true hdue⟩
  · rintro ⟨row, hrow, hpending, hdue⟩
    obtain ⟨hmem, rfl⟩ := SqlAlchemyJobQueue.byId_eq_some.mp hrow
    exact ⟨row, List.mem_filter.mpr ⟨hmem, by simp [SqlAlchemyJobQueue.claimable, hpending, hdue]⟩,
      rfl⟩

/-- Whoever joins the queue after a time is not up for a claim at that time. -/
theorem step_waiting (hstep : step config s label = some s')
    (hlate : ∀ now, label.now = some now → due < now) : s'.waiting due ⊆ s.waiting due := by
  intro id hid
  obtain ⟨row, hrow, hpending, hdue⟩ := mem_waiting.mp hid
  refine mem_waiting.mpr ⟨row, ?_, hpending, hdue⟩
  cases label with
  | request => cases step_cases hstep; exact hrow
  | exit => cases step_cases hstep; exact hrow
  | proceed c jobId now outcome =>
      have hnow := hlate now rfl
      obtain ⟨⟨call, store⟩, hcall, rfl⟩ := Option.map_eq_some_iff.mp hstep
      rcases Call.advance_jobs hcall with hjobs | ⟨tenantId, documentId, document, henqueue⟩
      · rw [← hjobs]
        exact hrow
      · rcases SqlAlchemyJobQueue.enqueue_ok henqueue with ⟨hsame, -⟩ | ⟨-, hinsert⟩
        · rw [← hsame]
          exact hrow
        · rw [SqlAlchemyJobQueue.byId_insert hinsert] at hrow
          split at hrow
          · cases hrow
            exact absurd hnow (Nat.not_lt.mpr hdue)
          · exact hrow
  | dequeue w workerId batchSize picked now =>
      cases step_cases hstep with
      | dequeue _ _ _ _ _ jobs t idle claimed =>
          obtain ⟨-, -, -, hrows⟩ := SqlAlchemyJobQueue.dequeue_eq_some claimed
          have hafter : t.byId id = some row := hrow
          rw [hrows] at hafter
          split at hafter
          · obtain ⟨old, -, rfl⟩ := Option.map_eq_some_iff.mp hafter
            cases hpending
          · exact hafter
  | advance w now newUuid outcome =>
      have hnow := hlate now rfl
      cases step_cases hstep with
      | advance _ _ _ _ phase job rest worker store busy leads writes =>
          rcases writes with rfl | ⟨hwrites, -⟩
          · exact hrow
          · cases hwrites.written with
            | saved => exact hrow
            | chunked => exact hrow
            | completed =>
                have hafter : Jobs.byId (SqlAlchemyJobQueue.complete job now s.store.jobs) id =
                  some row := hrow
                rw [SqlAlchemyJobQueue.complete_byId] at hafter
                split at hafter
                · obtain ⟨old, -, rfl⟩ := Option.map_eq_some_iff.mp hafter
                  cases hpending
                · exact hafter
            | failed exc =>
                have hafter : Jobs.byId (SqlAlchemyJobQueue.fail job (config.repr exc) now
                  s.store.jobs).2 id = some row := hrow
                rw [SqlAlchemyJobQueue.fail_byId] at hafter
                split at hafter
                · -- a job that has failed is not due before now
                  obtain ⟨old, -, rfl⟩ := Option.map_eq_some_iff.mp hafter
                  rw [SqlAlchemyJobQueue.failed_availableAt hpending] at hdue
                  exact absurd (Nat.le_trans (Nat.le_add_right now _) hdue) (Nat.not_le.mpr hnow)
                · exact hafter

/-- The step is a poll that finds no row locked. -/
def Polls (s : System) (label : Label) : Prop :=
  ∃ w workerId batchSize picked now, label = .dequeue w workerId batchSize picked now ∧
    1 ≤ batchSize ∧ SqlAlchemyJobQueue.Unskipped batchSize picked now s.store.jobs

/-- It claims the job or one that was ahead of it. -/
theorem Polls.step (h : s.Polls label) (hstep : step config s label = some s')
    (hlate : ∀ now, label.now = some now → due < now)
    (hrow : s.store.jobs.byId id = some row) (hpending : row.status = .pending)
    (hdue : row.availableAt ≤ due) :
    (∃ w, s'.Has w id) ∨ ∃ ahead ∈ s.waiting due, ahead ∉ s'.waiting due := by
  obtain ⟨w, workerId, batchSize, picked, now, rfl, hbatch, hunskipped⟩ := h
  have hnow := hlate now rfl
  cases step_cases hstep with
  | dequeue _ _ _ _ _ jobs t idle claimed =>
      obtain ⟨-, hids, hclaimed, hrows⟩ := SqlAlchemyJobQueue.dequeue_eq_some claimed
      by_cases hpicked : id ∈ picked
      · refine .inl ⟨w, ?_⟩
        unfold Has
        simp only [Function.update_self]
        rw [Worker.view_next, QueueWorker.ids_next, hids]
        exact hpicked
      · right
        obtain ⟨hmem, rfl⟩ := SqlAlchemyJobQueue.byId_eq_some.mp hrow
        have hclaimable : SqlAlchemyJobQueue.claimable now row = true := by
          simp [SqlAlchemyJobQueue.claimable, hpending, hdue.trans hnow.le]
        obtain ⟨hfull, hahead⟩ := hunskipped row hmem hclaimable hpicked
        obtain ⟨ahead, hfirst⟩ := List.exists_mem_of_length_pos (hbatch.trans_eq hfull.symm)
        obtain ⟨job, hjob, rfl⟩ := List.mem_map.mp (hids ▸ hfirst)
        obtain ⟨first, hfound, -, hstatus, -⟩ := hclaimed job hjob
        refine ⟨job.id, mem_waiting.mpr ⟨first, hfound, hstatus,
          (hahead job.id hfirst first hfound).trans hdue⟩, fun hstill => ?_⟩
        obtain ⟨after, hafter, hwaits, -⟩ := mem_waiting.mp hstill
        have hclaim : t.byId job.id = some after := hafter
        rw [hrows, if_pos hfirst, hfound] at hclaim
        cases hclaim
        cases hwaits

/-- The job of the row has been claimed since. -/
structure ClaimedSince (row : IngestionJobModel) (id : UUID) (s : System) : Prop where
  held : ∃ w, s.Has w id
  spent : ∃ row', s.store.jobs.byId id = some row' ∧ row.Keeps row' ∧ row.spent < row'.spent

/-- A job that is PENDING stays as it is until it is claimed. -/
theorem step_pending (howned : s.queue.Owned) (hstep : step config s label = some s')
    (hrow : s.store.jobs.byId id = some row) (hpending : row.status = .pending) :
    s'.ClaimedSince row id ∨ s'.store.jobs.byId id = some row := by
  obtain ⟨row', hrow', hkeeps, hclaimed⟩ := step_keeps howned hstep hrow
  rcases hclaimed hpending with rfl | ⟨hprocessing, hspent⟩
  · exact .inr hrow'
  · refine .inl ⟨?_, row', hrow', hkeeps, hspent⟩
    rcases step_processing howned hstep hrow' hprocessing with hheld | ⟨hold, -⟩
    · exact hheld
    · obtain rfl := Option.some.inj (hrow.symm.trans hold)
      rw [hpending] at hprocessing
      cases hprocessing

/-! ## Fair runs -/

/-- What a run is asked for. A worker on its batch goes on, or ends; again and again a poll finds
    no row locked; and every time passes. -/
structure Fair (t : Trace (step config) init) : Prop where
  works : ∀ n w phase job rest, (t.state n).workers w = .busy phase job rest →
    ∃ m, n ≤ m ∧ (t.label m).worker = some w
  polls : ∀ n, ∃ m, n ≤ m ∧ (t.state m).Polls (t.label m)
  time : ∀ due, ∃ n, ∀ m, n ≤ m → ∀ now, (t.label m).now = some now → due < now

variable {t : Trace (step config) init} {n m : Nat}

theorem trace_owned (t : Trace (step config) init) (n : Nat) : (t.state n).queue.Owned :=
  reachable_owned (t.reachable n)

/-- The row of a job, later in a run. -/
theorem trace_keeps (hrow : (t.state n).store.jobs.byId id = some row) (hnm : n ≤ m) :
    ∃ row', (t.state m).store.jobs.byId id = some row' ∧ row.Keeps row' := by
  induction m, hnm using Nat.le_induction with
  | base => exact ⟨row, hrow, rfl, rfl, rfl, Nat.le_refl _⟩
  | succ m hnm ih =>
      obtain ⟨row₁, hrow₁, hkeeps₁⟩ := ih
      obtain ⟨row₂, hrow₂, hkeeps₂, -⟩ := step_keeps (trace_owned t m) (t.next m) hrow₁
      exact ⟨row₂, hrow₂, hkeeps₁.trans hkeeps₂⟩

theorem trace_atRest (h : (t.state n).queue.AtRest row) (hnm : n ≤ m) :
    (t.state m).queue.AtRest row := by
  induction m, hnm using Nat.le_induction with
  | base => exact h
  | succ m hnm ih => exact step_atRest ih (t.next m)

/-- A job that is PROCESSING in nobody's hands was lost with a worker. -/
theorem trace_lost {n : Nat} (hrow : (t.state n).store.jobs.byId id = some row)
    (hstatus : row.status = .processing) (hfree : ∀ w, ¬ (t.state n).Has w id) :
    ∃ i w, i < n ∧ (t.state i).Has w id ∧ (t.state (i + 1)).workers w = .exited := by
  induction n with
  | zero =>
      rw [t.start] at hrow
      cases hrow
  | succ n ih =>
      rcases step_processing (trace_owned t n) (t.next n) hrow hstatus with
        ⟨w, hw⟩ | ⟨hold, hnobody | ⟨w, hw, hexited⟩⟩
      · exact absurd hw (hfree w)
      · obtain ⟨i, w, hi, hlost⟩ := ih hold hnobody
        exact ⟨i, w, Nat.lt_succ_of_lt hi, hlost⟩
      · exact ⟨n, w, Nat.lt_succ_self n, hw, hexited⟩

namespace Fair

/-- Whoever has a job lets go of it. -/
theorem released (hfair : Fair t) (h : (t.state n).Has w id) :
    ∃ m, n ≤ m ∧ ∀ v, ¬ (t.state m).Has v id := by
  refine @eventually_of_measure (fun n => (t.state n).Has w id)
    (fun n => ∀ v, ¬ (t.state n).Has v id) n (fun n => (t.label n).worker = some w)
    (fun n => ((t.state n).workers w).remaining) ?_ ?_ ?_ h
  · intro n hn
    by_cases hhas : (t.state (n + 1)).Has w id
    · refine .inr ⟨hhas, ?_⟩
      by_cases hlabel : (t.label n).worker = some w
      · exact (hn.step_remaining (t.next n) hlabel).le
      · show ((t.state (n + 1)).workers w).remaining ≤ ((t.state n).workers w).remaining
        rw [step_workers (t.next n) hlabel]
    · exact .inl (hn.step_free (trace_owned t n) (t.next n) hhas)
  · intro n hn hlabel
    exact .inr (hn.step_remaining (t.next n) hlabel)
  · intro n hn
    obtain ⟨phase, job, rest, hbusy⟩ := hn.busy
    exact hfair.works n w phase job rest hbusy

/-- Whatever is PENDING is claimed. -/
theorem claimed (hfair : Fair t) (hrow : (t.state n).store.jobs.byId id = some row)
    (hpending : row.status = .pending) : ∃ m, n ≤ m ∧ (t.state m).ClaimedSince row id := by
  have hstays : ∀ n, (t.state n).store.jobs.byId id = some row →
      (t.state (n + 1)).ClaimedSince row id ∨ (t.state (n + 1)).store.jobs.byId id = some row :=
    fun n hn => step_pending (trace_owned t n) (t.next n) hn hpending
  obtain ⟨start, hlate⟩ := hfair.time row.availableAt
  rcases @stays_until (fun n => (t.state n).store.jobs.byId id = some row)
    (fun n => (t.state n).ClaimedSince row id) n (max n start) hstays hrow (le_max_left n start)
    with hclaimed | hrow
  · exact hclaimed
  · -- from here on, nobody who joins the queue gets ahead of the job
    have hlater : ∃ m, max n start ≤ m ∧ (t.state m).ClaimedSince row id := by
      refine @eventually_of_measure
        (fun n => start ≤ n ∧ (t.state n).store.jobs.byId id = some row) _ (max n start)
        (fun n => (t.state n).Polls (t.label n))
        (fun n => ((t.state n).waiting row.availableAt).card) ?_ ?_
        (fun n _ => hfair.polls n) ⟨le_max_right n start, hrow⟩
      · rintro n ⟨hn, hrow⟩
        refine (hstays n hrow).imp_right fun hrow' => ⟨⟨Nat.le_succ_of_le hn, hrow'⟩, ?_⟩
        exact Finset.card_le_card (step_waiting (t.next n) (hlate n hn))
      · rintro n ⟨hn, hrow⟩ hpolls
        have hsubset := step_waiting (t.next n) (hlate n hn)
        rcases hpolls.step (t.next n) (hlate n hn) hrow hpending (Nat.le_refl _) with
          ⟨w, hhas⟩ | ⟨ahead, hbefore, hafter⟩
        · refine (hstays n hrow).imp_right fun hrow' => absurd hpending ?_
          exact (trace_owned t (n + 1)).not_pending hhas hrow'
        · exact .inr (Finset.card_lt_card
            ((Finset.ssubset_iff_of_subset hsubset).mpr ⟨ahead, hbefore, hafter⟩))
    obtain ⟨m, hm, hclaimed⟩ := hlater
    exact ⟨m, (le_max_left n start).trans hm, hclaimed⟩

/-- A job that nobody has is at rest, unless it is up for a claim. -/
theorem atRest_or_pending (hrow : (t.state n).store.jobs.byId id = some row)
    (hfree : ∀ w, ¬ (t.state n).Has w id) :
    (t.state n).queue.AtRest row ∨ row.status = .pending := by
  obtain rfl : row.id = id := (SqlAlchemyJobQueue.byId_eq_some.mp hrow).2
  by_cases hpending : row.status = .pending
  · exact .inr hpending
  · exact .inl ⟨hrow, hpending, hfree⟩

/-- With each claim the job has less work left, so it is not claimed for ever. -/
theorem pending_rests (hfair : Fair t) (budget : Nat) : ∀ {n : Nat} {row : IngestionJobModel},
    (t.state n).store.jobs.byId id = some row → row.status = .pending →
      8 * row.maxAttempts + 2 ≤ row.spent + budget →
        ∃ m last, n ≤ m ∧ row.Keeps last ∧ (t.state m).queue.AtRest last := by
  induction budget with
  | zero =>
      intro n row hrow hpending hbudget
      obtain ⟨m, -, -, row₁, hrow₁, hkeeps, hspent⟩ := hfair.claimed hrow hpending
      have hle := ((trace_owned t m).accounted id row₁ hrow₁).spent_le
      have hmax := hkeeps.maxAttempts
      omega
  | succ budget ih =>
      intro n row hrow hpending hbudget
      obtain ⟨m, hm, ⟨w, hw⟩, row₁, hrow₁, hkeeps₁, hspent⟩ := hfair.claimed hrow hpending
      obtain ⟨k, hk, hfree⟩ := hfair.released hw
      obtain ⟨row₂, hrow₂, hkeeps₂⟩ := trace_keeps hrow₁ hk
      have hkeeps := hkeeps₁.trans hkeeps₂
      rcases atRest_or_pending hrow₂ hfree with hrest | hagain
      · exact ⟨k, row₂, hm.trans hk, hkeeps, hrest⟩
      · have hmax := hkeeps.maxAttempts
        have hmore := hkeeps₂.spent
        obtain ⟨j, last, hj, hkeepsLast, hrest⟩ := ih hrow₂ hagain (by omega)
        exact ⟨j, last, (hm.trans hk).trans hj, hkeeps.trans hkeepsLast, hrest⟩

theorem rests (hfair : Fair t) (hrow : (t.state n).store.jobs.byId id = some row) :
    ∃ m last, n ≤ m ∧ row.Keeps last ∧ (t.state m).queue.AtRest last := by
  have hfreed : ∃ m, n ≤ m ∧ ∀ v, ¬ (t.state m).Has v id := by
    by_cases hheld : ∃ w, (t.state n).Has w id
    · obtain ⟨w, hw⟩ := hheld
      exact hfair.released hw
    · exact ⟨n, Nat.le_refl n, not_exists.mp hheld⟩
  obtain ⟨m, hm, hfree⟩ := hfreed
  obtain ⟨row₁, hrow₁, hkeeps₁⟩ := trace_keeps hrow hm
  rcases atRest_or_pending hrow₁ hfree with hrest | hpending
  · exact ⟨m, row₁, hm, hkeeps₁, hrest⟩
  · obtain ⟨k, last, hk, hkeeps, hrest⟩ := hfair.pending_rests (8 * row₁.maxAttempts + 2) hrow₁
      hpending (Nat.le_add_left _ _)
    exact ⟨k, last, hm.trans hk, hkeeps₁.trans hkeeps, hrest⟩

end Fair

/-- In every fair run, whatever raises, exits, arrives and interleaves, every job comes to an end
    that nothing changes any more: it is COMPLETED, and its document INDEXED or DELETED; or
    DEAD_LETTER, all its attempts having failed; or PROCESSING, its worker having ended with it. -/
theorem fair_settles (t : Trace (step config) init) (hfair : Fair t) {n : Nat}
    {row : IngestionJobModel} (hrow : row ∈ (t.state n).store.jobs.rows) :
    ∃ m last, n ≤ m ∧ last.subject = row.subject ∧
      (∀ k, m ≤ k → (t.state k).store.jobs.byId row.id = some last) ∧
      ((last.status = .completed ∧
          ∀ k, m ≤ k → (t.state k).store.documents.Finished row.documentId) ∨
        (last.status = .deadLetter ∧ last.attempts = last.maxAttempts) ∨
        (last.status = .processing ∧ ∃ i w, i < m ∧ (t.state i).Has w row.id ∧
          (t.state (i + 1)).workers w = .exited)) := by
  obtain ⟨m, last, hm, hkeeps, hrest⟩ := hfair.rests (SqlAlchemyJobQueue.byId_of_mem hrow)
  have hforever : ∀ k, m ≤ k → (t.state k).store.jobs.byId row.id = some last := by
    intro k hk
    rw [← hkeeps.id]
    exact (trace_atRest hrest hk).found
  have hdocument : last.documentId = row.documentId := congrArg Prod.fst hkeeps.subject
  refine ⟨m, last, hm, hkeeps.subject, hforever, ?_⟩
  cases hstatus : last.status with
  | pending => exact absurd hstatus hrest.unclaimable
  | processing =>
      refine .inr (.inr ⟨rfl, trace_lost (hforever m (Nat.le_refl m)) hstatus ?_⟩)
      rw [← hkeeps.id]
      exact hrest.free
  | completed =>
      refine .inl ⟨rfl, fun k hk => ?_⟩
      rw [← hdocument]
      exact (reachable_settled (t.reachable k)).completed row.id last (hforever k hk) hstatus
  | deadLetter =>
      refine .inr (.inl ⟨rfl, ?_⟩)
      exact ((trace_owned t m).accounted row.id last (hforever m (Nat.le_refl m))).dead hstatus

/-! ### Polling an empty queue -/

/-- A poll that claims nothing changes nothing. -/
theorem step_idle (hidle : s.workers w = .idle) (now : Instant) :
    step config s (.dequeue w [] 1 [] now) = some s := by
  have hjobs : s.store.jobs.update (fun r => List.contains [] r.id)
      (SqlAlchemyJobQueue.claim [] now) (SqlAlchemyJobQueue.claim_keepsKeys [] now) =
        s.store.jobs := by
    refine Table.ext ?_
    rw [Table.rows_update]
    exact List.map_id'' (fun _ => rfl) _
  have hdequeue : SqlAlchemyJobQueue.dequeue [] 1 [] now s.store.jobs =
      some ([], s.store.jobs) := by
    exact congrArg (fun t => some ([], t)) hjobs
  have hworkers : Function.update s.workers w (Worker.next []) = s.workers := by
    rw [show Worker.next [] = s.workers w from hidle.symm, Function.update_eq_self]
  simp only [step, hidle, hdequeue, Option.map_some, hworkers]

def helloLabels : List Label := uploadHello ++ indexHello

/-- The system after it. -/
def helloIndexed : System := (run (step helloConfig) init helloLabels).get (by decide +kernel)

theorem run_helloLabels : run (step helloConfig) init helloLabels = some helloIndexed :=
  (Option.some_get _).symm

theorem helloIndexed_idle : helloIndexed.workers 0 = .idle := by decide +kernel

theorem helloIndexed_completed :
    ∀ row ∈ helloIndexed.store.jobs.rows, row.status = .completed := by
  have hstatuses : helloIndexed.store.jobs.rows.map (·.status) = [.completed] := by
    decide +kernel
  intro row hrow
  have hmem : row.status ∈ helloIndexed.store.jobs.rows.map (·.status) :=
    List.mem_map_of_mem hrow
  rw [hstatuses] at hmem
  exact List.mem_singleton.mp hmem

/-- `hello` is indexed, and worker 0 polls for ever. -/
def helloTrace : Trace (step helloConfig) init :=
  .idling run_helloLabels (fun n => .dequeue 0 [] 1 [] n) (step_idle helloIndexed_idle)

theorem helloTrace_state (hn : 13 ≤ n) : helloTrace.state n = helloIndexed :=
  Trace.idling_state hn

theorem helloTrace_label (hn : 13 ≤ n) : helloTrace.label n = .dequeue 0 [] 1 [] n :=
  Trace.idling_label hn

theorem helloTrace_run (n : Nat) :
    run (step helloConfig) init (helloLabels.take n) = some (helloTrace.state n) :=
  Trace.idling_run n

theorem helloTrace_cases (n : Nat) :
    helloTrace.label n ∈ helloLabels ∨ helloTrace.label n = .dequeue 0 [] 1 [] n :=
  Trace.idling_label_cases (Nat.zero_le n)

theorem helloTrace_others (hw : w ≠ 0) (n : Nat) : (helloTrace.state n).workers w = .idle := by
  induction n with
  | zero => rfl
  | succ n ih =>
      rw [step_workers (helloTrace.next n), ih]
      have hzero : ¬ 0 = w := fun heq => hw heq.symm
      rcases helloTrace_cases n with hmem | hloop
      · have hnone : ∀ label ∈ helloLabels, label.worker ≠ some w := by
          simp [helloLabels, uploadHello, indexHello, Label.worker, hzero]
        exact hnone _ hmem
      · rw [hloop]
        exact fun heq => hzero (Option.some.inj heq)

theorem helloTrace_fair : Fair helloTrace where
  works n w phase job rest hbusy := by
    by_cases hw : w = 0
    · refine ⟨max n 13, le_max_left n 13, ?_⟩
      rw [helloTrace_label (le_max_right n 13), hw]
      rfl
    · rw [helloTrace_others hw n] at hbusy
      cases hbusy
  polls n := by
    refine ⟨max n 13, le_max_left n 13, 0, [], 1, [], _, helloTrace_label (le_max_right n 13),
      Nat.le_refl 1, ?_⟩
    intro row hrow hclaimable
    rw [helloTrace_state (le_max_right n 13)] at hrow
    rw [SqlAlchemyJobQueue.claimable, helloIndexed_completed row hrow] at hclaimable
    cases hclaimable
  time due := by
    refine ⟨max (due + 1) 13, fun m hm now hnow => ?_⟩
    rw [helloTrace_label ((le_max_right _ 13).trans hm)] at hnow
    cases hnow
    exact (le_max_left (due + 1) 13).trans hm

/-- After the upload, job 20 is PENDING. -/
theorem helloTrace_uploaded : helloTrace.state 5 = { init with store := helloUploaded 5 } := by
  have hrun : run (step helloConfig) init uploadHello = some (helloTrace.state 5) :=
    helloTrace_run 5
  rw [run_uploadHello rfl] at hrun
  exact (Option.some.inj hrun).symm

theorem fair_settles_hello : ∃ (t : Trace (step helloConfig) init) (n m : Nat)
    (row last : IngestionJobModel), Fair t ∧ row ∈ (t.state n).store.jobs.rows ∧
      row.id = ⟨20⟩ ∧ row.status = .pending ∧ n ≤ m ∧
      (∀ k, m ≤ k → (t.state k).store.jobs.byId row.id = some last) ∧
      last.status = .completed ∧
      ∀ k, m ≤ k → (t.state k).store.documents.Finished row.documentId := by
  have hrow : SqlAlchemyJobQueue.newRow ⟨20⟩ ⟨1⟩ ⟨10⟩ ⟨2⟩ 1 5 2 ∈
      (helloTrace.state 5).store.jobs.rows := by
    rw [helloTrace_uploaded]
    exact List.mem_cons_self
  obtain ⟨m, last, hm, -, hforever, hends⟩ := fair_settles helloTrace helloTrace_fair hrow
  have hlast : last ∈ helloIndexed.store.jobs.rows := by
    have hlate := hforever (max m 13) (le_max_left m 13)
    rw [helloTrace_state (le_max_right m 13)] at hlate
    exact (SqlAlchemyJobQueue.byId_eq_some.mp hlate).1
  have hstatus := helloIndexed_completed last hlast
  refine ⟨helloTrace, 5, m, _, last, helloTrace_fair, hrow, rfl, rfl, hm, hforever, hstatus, ?_⟩
  rcases hends with ⟨-, hfinished⟩ | ⟨hdead, -⟩ | ⟨hprocessing, -⟩
  · exact hfinished
  · rw [hstatus] at hdead
    cases hdead
  · rw [hstatus] at hprocessing
    cases hprocessing

end System

end Eka
