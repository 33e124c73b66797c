import Eka.System.Recovery
import Eka.System.Upload

/-!
# What a dead-lettered job leaves behind

The attempts at one job, one after the other, each claimed from the queue that the last
one left. `mark_failed` moves an INGESTING document to FAILED and raises for any other,
and `_process` swallows that. So the status that the attempts together left decides what
a dead-lettered job does to its document.
-/

namespace Eka

open Py Relational Transition
open RecursiveCharacterChunker (split)

/-- What one attempt meets: who claims the job and when, and the calls of `_process`. -/
structure AttemptEnv extends ProcessEnv where
  workerId : Str
  claimedAt : Instant

/-- The snapshot of a job at another attempt. -/
def IngestionJob.again (job : IngestionJob) (attempts maxAttempts : Nat) : IngestionJob :=
  { job with attempts := attempts, maxAttempts := maxAttempts }

theorem IngestionJobModel.toJob_again {row old : IngestionJobModel} (hid : row.id = old.id)
    (hsubject : row.subject = old.subject) :
    row.toJob = old.toJob.again row.attempts row.maxAttempts := by
  obtain ⟨hd, ht, hc, hv⟩ : _ ∧ _ ∧ _ ∧ _ := by
    simpa only [IngestionJobModel.subject, Prod.mk.injEq] using hsubject
  simp only [IngestionJobModel.toJob, IngestionJob.again, hid, hd, ht, hc, hv]

namespace IngestionWorker

/-- One attempt at the job with this id: its claim and `_process` (`worker.py:67-90`). -/
def attempt (config : Config) (id : UUID) (env : AttemptEnv) (s : Store) :
    Option (Except Error Verdict × Store) :=
  (SqlAlchemyJobQueue.dequeue env.workerId 1 [id] env.claimedAt s.jobs).bind fun (jobs, t) =>
    jobs.head?.map fun job => process config env.toProcessEnv job { s with jobs := t }

/-- An attempt that did not dead-letter the job, as a step: another one may follow. -/
def attemptStep (config : Config) (id : UUID) (s : Store) (env : AttemptEnv) : Option Store :=
  match attempt config id env s with
  | some (.ok .deadLettered, _) => none
  | some (_, s') => some s'
  | none => none

variable {config : Config} {env : ProcessEnv} {job : IngestionJob} {s s' : Store} {id : UUID}

/-- The job of an attempt is its row as it was claimed. -/
theorem attempt_eq_some {env : AttemptEnv} {result : Except Error Verdict × Store}
    (h : attempt config id env s = some result) : ∃ row t, s.jobs.byId id = some row ∧
      SqlAlchemyJobQueue.dequeue env.workerId 1 [id] env.claimedAt s.jobs =
        some ([row.toJob], t) ∧
      result = process config env.toProcessEnv row.toJob { s with jobs := t } := by
  obtain ⟨⟨jobs, t⟩, hclaim, h⟩ := Option.bind_eq_some_iff.mp h
  obtain ⟨job, hhead, rfl⟩ := Option.map_eq_some_iff.mp h
  obtain ⟨-, hids, hsnapshots, -⟩ := SqlAlchemyJobQueue.dequeue_eq_some hclaim
  obtain ⟨job', hjobs, hid⟩ : ∃ job', jobs = [job'] ∧ job'.id = id := by
    simpa only [List.map_eq_singleton_iff] using hids
  rw [hjobs] at hhead hsnapshots hclaim
  obtain rfl : job' = job := Option.some.inj hhead
  obtain ⟨row, hrow, rfl, -⟩ := hsnapshots job' List.mem_cons_self
  rw [hid] at hrow
  exact ⟨row, t, hrow, hclaim, rfl⟩

/-- What `_process` may add to `handle`, which left this database: rows of jobs change, and a
    dead-lettered job goes on to `mark_failed`. -/
def Settles (env : ProcessEnv) (job : IngestionJob) (s : Store)
    (result : Except Error Verdict × Store) : Prop :=
  ∃ t, s.jobs.SameSubjects t ∧
    (result.1 ≠ .ok .deadLettered ∧ result.2 = { s with jobs := t } ∨
      result = (.ok .deadLettered, (DocumentLifecycleService.transition .markFailed job.tenantId
        job.documentId env.settledAt env.failedRead env.failedCommit { s with jobs := t }).2))

theorem handleFailure_settles (env : ProcessEnv) (job : IngestionJob) (exc : Error) {t : Jobs}
    (hsame : s.jobs.SameSubjects t) :
    Settles env job s (handleFailure config env job exc { s with jobs := t }) := by
  have hsame' := hsame.trans (SqlAlchemyJobQueue.sameSubjects_fail job (config.repr exc)
    env.settledAt t)
  have hfail : await env.fail (.transact (Store.onJobs fun t =>
      .ok (SqlAlchemyJobQueue.fail job (config.repr exc) env.settledAt t).2))
      { s with jobs := t } = _ := await_transact_of_ok rfl
  unfold handleFailure
  cases hout : env.fail with
  | returns =>
      rw [hout] at hfail
      rw [Saga.bind_of_ok hfail]
      by_cases hdead : SqlAlchemyJobQueue.deadLettered job = true
      · rw [if_pos hdead]
        exact ⟨_, hsame', .inr rfl⟩
      · rw [if_neg hdead]
        exact ⟨_, hsame', .inl ⟨by rintro ⟨⟩, rfl⟩⟩
  | raises =>
      rw [hout] at hfail
      rw [Saga.bind_of_error hfail]
      exact ⟨t, hsame, .inl ⟨by rintro ⟨⟩, rfl⟩⟩
  | raisesAfter =>
      rw [hout] at hfail
      rw [Saga.bind_of_error hfail]
      exact ⟨_, hsame', .inl ⟨by rintro ⟨⟩, rfl⟩⟩

theorem process_settles (env : ProcessEnv) (job : IngestionJob) (s : Store) :
    Settles env job (IngestDocumentHandler.handle config env.toHandleEnv job s).2
      (process config env job s) := by
  rcases hhandle : IngestDocumentHandler.handle config env.toHandleEnv job s with ⟨exc | _, s₁⟩
  · rw [process_of_error (Saga.bind_of_error hhandle)]
    exact handleFailure_settles env job exc (.refl s₁.jobs)
  · have hcomplete : await env.complete (.transact (Store.onJobs fun t =>
        .ok (SqlAlchemyJobQueue.complete job env.settledAt t))) s₁ = _ := await_transact_of_ok rfl
    have htry : handleAndComplete config env job s = _ :=
      (Saga.bind_of_ok hhandle).trans hcomplete
    have hsame := SqlAlchemyJobQueue.sameSubjects_complete job env.settledAt s₁.jobs
    cases hout : env.complete with
    | returns =>
        rw [hout] at htry
        rw [process_of_ok htry]
        exact ⟨_, hsame, .inl ⟨by rintro ⟨⟩, rfl⟩⟩
    | raises =>
        rw [hout] at htry
        rw [process_of_error htry]
        exact handleFailure_settles env job .infrastructure (.refl s₁.jobs)
    | raisesAfter =>
        rw [hout] at htry
        rw [process_of_error htry]
        exact handleFailure_settles env job .infrastructure hsame

end IngestionWorker

/-! ## The status that the attempts leave -/

/-- What `handle` does to a status: whether it marks the document, and then whether it indexes
    it. -/
inductive Handled (marks completes : Prop) : DocumentStatus → DocumentStatus → Prop
  | indexed {status} (allowed : DocumentStatus.ingesting ∈ allowedTransitions status)
      (marked : marks) (completed : completes) : Handled marks completes status .indexed
  | ingesting {status} (allowed : DocumentStatus.ingesting ∈ allowedTransitions status)
      (marked : marks) (stopped : ¬ completes) : Handled marks completes status .ingesting
  | same {status} (unmarked : ¬ (DocumentStatus.ingesting ∈ allowedTransitions status ∧ marks)) :
      Handled marks completes status status

namespace Attempted

variable {config : Config} {job : IngestionJob} {s s₁ s₂ : Store} {status status' : DocumentStatus}

theorem trans (h : Attempted config job s s₁ status) (h' : Attempted config job s₁ s₂ status') :
    Attempted config job s s₂ status' :=
  ⟨h'.contents.trans h.contents, h'.jobs.trans h.jobs, h'.linked, h'.describes, h'.status,
    fun chunk hother => (h'.others chunk hother).trans (h.others chunk hother)⟩

/-- The rows of the jobs may change. -/
theorem setJobs (h : Attempted config job s s₁ status) {t : Jobs}
    (hsame : s₁.jobs.SameSubjects t) :
    Attempted config job { s with jobs := t } { s₁ with jobs := t } status :=
  ⟨h.contents, rfl, h.linked.updateJobs hsame, h.describes, h.status, h.others⟩

theorem again_iff {attempts maxAttempts : Nat} :
    Attempted config (job.again attempts maxAttempts) s s₁ status ↔
      Attempted config job s s₁ status :=
  ⟨fun h => ⟨h.contents, h.jobs, h.linked, h.describes, h.status, h.others⟩,
    fun h => ⟨h.contents, h.jobs, h.linked, h.describes, h.status, h.others⟩⟩

theorem completes_iff (h : Attempted config job s s₁ status) {env : HandleEnv} :
    env.Completes config job s₁ ↔ env.Completes config job s := by
  unfold HandleEnv.Completes HandleEnv.IndexesOver
  simp only [h.contents, h.fresh_iff]

end Attempted

/-- `handle`, from any database that an attempt at its document may find. -/
theorem IngestDocumentHandler.handle_leaves {config : Config} {job : IngestionJob} {s s₁ : Store}
    {status : DocumentStatus} (env : HandleEnv) (h : Attempted config job s s₁ status) :
    ∃ status', Handled env.Marks (env.Completes config job s) status status' ∧
      Attempted config job s (handle config env job s₁).2 status' := by
  obtain ⟨row, hrow, -, rfl⟩ := h.row
  by_cases hmarked : DocumentStatus.ingesting ∈ allowedTransitions row.status ∧ env.Marks
  · rcases handle_marked env h.linked h.describes hrow hmarked.1 hmarked.2 with
      ⟨hcompletes, _, s₂, -, heq, hindexed, -⟩ | ⟨hstops, e, s₂, heq, hingesting⟩
    · rw [heq]
      exact ⟨_, .indexed hmarked.1 hmarked.2 (h.completes_iff.mp hcompletes), h.trans hindexed⟩
    · rw [heq]
      exact ⟨_, .ingesting hmarked.1 hmarked.2 (mt h.completes_iff.mpr hstops),
        h.trans hingesting⟩
  · obtain ⟨e, heq⟩ := handle_unmarked env h.linked h.describes hrow hmarked
    rw [heq]
    exact ⟨_, .same hmarked, h⟩

/-- What some attempts at a document with status `start` have made of it. -/
structure StatusAfter (config : Config) (job : IngestionJob) (s : Store) (start : DocumentStatus)
    (envs : List AttemptEnv) (status : DocumentStatus) : Prop where
  ingesting : status = .ingesting ↔ start = .ingesting ∨
    start ≠ .deleted ∧ ∃ env ∈ envs, env.Marks ∧ ¬ env.Completes config job s
  failed : status = .failed ↔ start = .failed ∧ ∀ env ∈ envs, ¬ env.Marks
  deleted : status = .deleted ↔ start = .deleted

namespace StatusAfter

variable {config : Config} {job : IngestionJob} {s : Store} {start status status' : DocumentStatus}
  {envs : List AttemptEnv}

theorem nil (config : Config) (job : IngestionJob) (s : Store) (start : DocumentStatus) :
    StatusAfter config job s start [] start := by
  constructor <;> simp

theorem concat (h : StatusAfter config job s start envs status) {env : AttemptEnv}
    (hhandled : Handled env.Marks (env.Completes config job s) status status') :
    StatusAfter config job s start (envs ++ [env]) status' := by
  cases hhandled with
  | indexed allowed marked completed =>
      obtain ⟨hingesting, hdeleted⟩ := ingesting_mem_allowedTransitions.mp allowed
      constructor
      · simpa [completed] using mt h.ingesting.mpr hingesting
      · simp [marked]
      · simpa using mt h.deleted.mpr hdeleted
  | ingesting allowed marked stopped =>
      obtain ⟨-, hdeleted⟩ := ingesting_mem_allowedTransitions.mp allowed
      have hstart : start ≠ .deleted := mt h.deleted.mpr hdeleted
      constructor
      · simp [marked, stopped, hstart]
      · simp [marked]
      · simpa using hstart
  | same unmarked =>
      have hmarked : env.Marks → status = .ingesting ∨ status = .deleted := by
        intro hmarks
        by_contra hother
        rw [not_or] at hother
        exact unmarked ⟨ingesting_mem_allowedTransitions.mpr hother, hmarks⟩
      constructor
      · rw [h.ingesting]
        constructor
        · rintro (hstart | ⟨hlive, env', hmem, hstops⟩)
          · exact .inl hstart
          · exact .inr ⟨hlive, env', List.mem_append_left _ hmem, hstops⟩
        · rintro (hstart | ⟨hlive, env', hmem, hmarks, hstops⟩)
          · exact .inl hstart
          · rcases List.mem_append.mp hmem with hmem | hmem
            · exact .inr ⟨hlive, env', hmem, hmarks, hstops⟩
            · rw [List.mem_singleton.mp hmem] at hmarks
              rcases hmarked hmarks with hingesting | hdeleted
              · exact h.ingesting.mp hingesting
              · exact absurd (h.deleted.mp hdeleted) hlive
      · constructor
        · intro hfailed
          refine ⟨(h.failed.mp hfailed).1, ?_⟩
          intro env' hmem hmarks
          rcases List.mem_append.mp hmem with hmem | hmem
          · exact (h.failed.mp hfailed).2 env' hmem hmarks
          · rw [List.mem_singleton.mp hmem] at hmarks
            rw [hfailed] at hmarked
            rcases hmarked hmarks with hstatus | hstatus <;> cases hstatus
        · rintro ⟨hstart, hunmarked⟩
          exact h.failed.mpr ⟨hstart, fun env' hmem =>
            hunmarked env' (List.mem_append_left _ hmem)⟩
      · exact h.deleted

end StatusAfter

/-- What attempts at a job leave: its row is about the same, and the rest is what `handle` does. -/
structure Tracked (config : Config) (job : IngestionJob) (s : Store) (start : DocumentStatus)
    (envs : List AttemptEnv) (s₁ : Store) : Prop where
  jobs : s.jobs.SameSubjects s₁.jobs
  attempted : ∃ status, StatusAfter config job s start envs status ∧
    Attempted config job { s with jobs := s₁.jobs } s₁ status

namespace IngestionWorker

variable {config : Config} {id : UUID} {s s₁ s₂ : Store} {jobRow : IngestionJobModel}
  {start : DocumentStatus} {envs : List AttemptEnv} {env : AttemptEnv}

/-- One more attempt: another may follow, or it went on to `mark_failed`. -/
theorem attempt_tracked (h : Tracked config jobRow.toJob s start envs s₁)
    (hjob : s.jobs.byId id = some jobRow) {result : Except Error Verdict}
    (hattempt : attempt config id env s₁ = some (result, s₂)) :
    ∃ s₃, Tracked config jobRow.toJob s start (envs ++ [env]) s₃ ∧
      (result ≠ .ok .deadLettered ∧ s₂ = s₃ ∨ result = .ok .deadLettered ∧
        s₂ = (DocumentLifecycleService.transition .markFailed jobRow.tenantId jobRow.documentId
          env.settledAt env.failedRead env.failedCommit s₃).2) := by
  obtain ⟨status, hafter, hattempted⟩ := h.attempted
  obtain ⟨row, t, hrow, hclaim, hprocess⟩ := attempt_eq_some hattempt
  obtain ⟨old, hold, hsubject⟩ := h.jobs.old hrow
  obtain rfl : jobRow = old := Option.some.inj (hjob.symm.trans hold)
  have hid : row.id = jobRow.id := (SqlAlchemyJobQueue.byId_eq_some.mp hrow).2.trans
    (SqlAlchemyJobQueue.byId_eq_some.mp hjob).2.symm
  rw [IngestionJobModel.toJob_again hid hsubject] at hprocess
  have hclaimed := SqlAlchemyJobQueue.sameSubjects_dequeue hclaim
  obtain ⟨status', hhandled, hleft⟩ := IngestDocumentHandler.handle_leaves env.toHandleEnv
    (Attempted.again_iff.mpr (hattempted.setJobs hclaimed))
  have hsettles : Settles _ _ _ (process config _ _ _) := process_settles env.toProcessEnv
    (jobRow.toJob.again row.attempts row.maxAttempts) { s₁ with jobs := t }
  rw [← hprocess] at hsettles
  generalize (IngestDocumentHandler.handle config env.toHandleEnv
    (jobRow.toJob.again row.attempts row.maxAttempts) { s₁ with jobs := t }).2 = s₃
    at hleft hsettles
  obtain ⟨t', hsettled, hresult⟩ := hsettles
  have hjobs : s.jobs.SameSubjects t' := by
    rw [hleft.jobs] at hsettled
    exact (h.jobs.trans hclaimed).trans hsettled
  refine ⟨{ s₃ with jobs := t' }, ⟨hjobs, status', hafter.concat hhandled,
    Attempted.again_iff.mp (hleft.setJobs hsettled)⟩, ?_⟩
  rcases hresult with ⟨hverdict, hstore⟩ | hdead
  · exact .inl ⟨hverdict, hstore⟩
  · exact .inr ⟨congrArg Prod.fst hdead, congrArg Prod.snd hdead⟩

/-- What the attempts before the last one leave. -/
theorem run_tracked (hlinked : s.Linked config) (hjob : s.jobs.byId id = some jobRow)
    {row : DocumentModel} (hrow : s.documents.byId jobRow.documentId = some row)
    (hrun : run (attemptStep config id) s envs = some s₁) :
    Tracked config jobRow.toJob s row.status envs s₁ := by
  refine run_induction (J := fun envs s₁ => Tracked config jobRow.toJob s row.status envs s₁)
    ⟨.refl s.jobs, row.status, .nil .., .refl hlinked (hlinked.jobs id jobRow hjob) hrow⟩ ?_ hrun
  intro envs s₁ env s₂ htracked hstep
  unfold attemptStep at hstep
  split at hstep
  · cases hstep
  · next result s₃ hnot hattempt =>
      obtain rfl : s₃ = s₂ := Option.some.inj hstep
      obtain ⟨s₄, hnext, ⟨-, rfl⟩ | ⟨rfl, -⟩⟩ := attempt_tracked htracked hjob hattempt
      · exact hnext
      · exact (hnot rfl).elim
  · cases hstep

end IngestionWorker

/-- What `mark_failed` makes of a status when its calls return. -/
theorem Attempted.markFailed {config : Config} {job : IngestionJob} {s s₁ : Store}
    {status : DocumentStatus} (h : Attempted config job s s₁ status) (now : Instant) :
    ∃ row, Documents.byId (DocumentLifecycleService.transition .markFailed job.tenantId
      job.documentId now .returns .returns s₁).2.documents job.documentId = some row ∧
      row.status = if status = .ingesting then .failed else status := by
  by_cases hingesting : status = .ingesting
  · have hallowed : LifecycleAction.markFailed.target ∈ allowedTransitions status :=
      failed_mem_allowedTransitions.mpr hingesting
    obtain ⟨-, s₂, heq, hfailed, -⟩ := (IngestDocumentHandler.transition_attempted h hallowed now
      .returns .returns).resolve_right fun hnot => hnot.1 ⟨rfl, rfl⟩
    rw [heq, if_pos hingesting]
    exact hfailed.status
  · obtain ⟨row, hrow, htenant, hstatus⟩ := h.row
    have hallowed : LifecycleAction.markFailed.target ∉ allowedTransitions row.status := by
      rw [hstatus]
      exact mt failed_mem_allowedTransitions.mp hingesting
    obtain ⟨e, heq⟩ := DocumentLifecycleService.transition_of_not_mem hrow htenant hallowed now
      .returns .returns
    rw [heq, if_neg hingesting]
    exact ⟨row, hrow, hstatus⟩

namespace IngestionWorker

/-- A dead-lettered job whose `mark_failed` meets no fault leaves its document FAILED or DELETED
    exactly when the document was DELETED or INGESTING before the first attempt, or one of the
    attempts marked it INGESTING and did not index it, or it was FAILED and none marked it. -/
theorem deadLettered_failed_iff {config : Config} {id : UUID} {s s₁ s' : Store}
    (hlinked : s.Linked config) {jobRow : IngestionJobModel} (hjob : s.jobs.byId id = some jobRow)
    {row : DocumentModel} (hrow : s.documents.byId jobRow.documentId = some row)
    {envs : List AttemptEnv} (hrun : run (attemptStep config id) s envs = some s₁)
    {last : AttemptEnv} (hlast : attempt config id last s₁ = some (.ok .deadLettered, s'))
    (hread : last.failedRead = .returns) (hcommit : last.failedCommit = .returns) :
    (∃ row', s'.documents.byId jobRow.documentId = some row' ∧
      (row'.status = .failed ∨ row'.status = .deleted)) ↔
    row.status = .deleted ∨ row.status = .ingesting ∨
      (∃ env ∈ envs ++ [last], env.Marks ∧ ¬ env.Completes config jobRow.toJob s) ∨
      (row.status = .failed ∧ ∀ env ∈ envs ++ [last], ¬ env.Marks) := by
  have htracked := run_tracked hlinked hjob hrow hrun
  obtain ⟨s₂, hafter, ⟨hnot, -⟩ | ⟨-, rfl⟩⟩ := attempt_tracked htracked hjob hlast
  · exact absurd rfl hnot
  obtain ⟨status, hstatus, hattempted⟩ := hafter.attempted
  obtain ⟨row', hrow', hstatus'⟩ := hattempted.markFailed last.settledAt
  rw [hread, hcommit]
  have hend : (∃ row', Documents.byId (DocumentLifecycleService.transition .markFailed
      jobRow.tenantId jobRow.documentId last.settledAt .returns .returns s₂).2.documents
      jobRow.documentId = some row' ∧ (row'.status = .failed ∨ row'.status = .deleted)) ↔
      status = .ingesting ∨ status = .failed ∨ status = .deleted := by
    constructor
    · rintro ⟨row'', hrow'', hend⟩
      obtain rfl : row'' = row' := Option.some.inj (hrow''.symm.trans hrow')
      by_cases hingesting : status = .ingesting
      · exact .inl hingesting
      · rw [hstatus', if_neg hingesting] at hend
        exact .inr hend
    · intro hend
      refine ⟨row', hrow', ?_⟩
      by_cases hingesting : status = .ingesting
      · rw [hstatus', if_pos hingesting]
        exact .inl rfl
      · rw [hstatus', if_neg hingesting]
        exact hend.resolve_left hingesting
  rw [hend, hstatus.ingesting, hstatus.failed, hstatus.deleted]
  constructor
  · rintro ((hingesting | ⟨-, hstops⟩) | hfailed | hdeleted)
    · exact .inr (.inl hingesting)
    · exact .inr (.inr (.inl hstops))
    · exact .inr (.inr (.inr hfailed))
    · exact .inl hdeleted
  · rintro (hdeleted | hingesting | hstops | hfailed)
    · exact .inr (.inr hdeleted)
    · exact .inl (.inl hingesting)
    · by_cases hdeleted : row.status = .deleted
      · exact .inr (.inr hdeleted)
      · exact .inl (.inr ⟨hdeleted, hstops⟩)
    · exact .inr (.inl hfailed)

/-- In the system, an attempt is a claim of an idle worker and its calls until the job is
    settled. -/
theorem attempt_run {config : Config} {id : UUID} {env : AttemptEnv} {s : System} {w : Nat}
    (hidle : s.workers w = .idle) {result : Except Error Verdict} {s' : Store}
    (hattempt : attempt config id env s.store = some (result, s')) :
    ∃ labels, run (System.step config) s labels =
      some (s.afterWorker w (System.afterProcess [] result) s') := by
  obtain ⟨row, t, -, hclaim, hprocess⟩ := attempt_eq_some hattempt
  have hdequeue : System.step config s (.dequeue w env.workerId 1 [id] env.claimedAt) =
      some (s.afterWorker w (.busy (.handling .start) row.toJob [])
        { s.store with jobs := t }) := by
    exact System.dequeue_step hidle hclaim
  obtain ⟨labels, -, hrun⟩ : System.Advances config w _ _ := System.process_advances
    env.toProcessEnv (System.afterWorker_workers s w (.busy (.handling .start) row.toJob []) _)
  rw [System.afterWorker_store, System.afterWorker_afterWorker, ← hprocess] at hrun
  exact ⟨_, run_cons.mpr ⟨_, hdequeue, hrun⟩⟩

end IngestionWorker

/-! ### A dead letter whose document is not FAILED -/

/-- The first read of `handle` raises, and nothing else. -/
def readFault : AttemptEnv where
  faults := fun call => if call = .ingestingRead then .raises else .returns
  clock := fun _ => 4
  newUuid := fun i => ⟨30 + BitVec.ofNat 128 i⟩
  complete := .returns
  fail := .returns
  failedRead := .returns
  failedCommit := .returns
  settledAt := 5
  workerId := "w".toList
  claimedAt := 1000000000

namespace System

open IngestionWorker (attempt attemptStep)

theorem readFault_statuses :
    (run (attemptStep helloConfig ⟨20⟩) (helloUploaded 5) (List.replicate 4 readFault)).bind
      (fun s => (attempt helloConfig ⟨20⟩ readFault s).map fun result =>
        (result.1, (result.2.documents.byId ⟨10⟩).map (·.status))) =
    some (.ok .deadLettered, some .registered) := by
  decide +kernel

/-- Five attempts at the uploaded document, none of which could read it: a dead letter. -/
theorem readFault_deadLettered : ∃ s s₁ s' jobRow row row',
    run (step helloConfig) init uploadHello = some s ∧
    s.store.jobs.byId ⟨20⟩ = some jobRow ∧
    s.store.documents.byId jobRow.documentId = some row ∧ row.status = .registered ∧
    run (attemptStep helloConfig ⟨20⟩) s.store (List.replicate 4 readFault) = some s₁ ∧
    attempt helloConfig ⟨20⟩ readFault s₁ = some (.ok .deadLettered, s') ∧
    s'.documents.byId jobRow.documentId = some row' ∧ row'.status = .registered := by
  obtain ⟨s₁, hattempts, h⟩ := Option.bind_eq_some_iff.mp readFault_statuses
  obtain ⟨⟨result, s'⟩, hlast, h⟩ := Option.map_eq_some_iff.mp h
  obtain ⟨rfl, hrow⟩ := Prod.mk.inj h
  obtain ⟨row', hrow', hstatus⟩ := Option.map_eq_some_iff.mp hrow
  exact ⟨_, s₁, s', _, .ofDomain helloDocument, row', run_uploadHello rfl, rfl, rfl, rfl,
    hattempts, hlast, hrow', hstatus⟩

end System

theorem IngestionWorker.deadLettered_failed_readFault : ∃ (s : Store) (jobRow : IngestionJobModel)
    (row : DocumentModel) (s' : Store), s.documents.byId jobRow.documentId = some row ∧
    ((∃ row', s'.documents.byId jobRow.documentId = some row' ∧
      (row'.status = .failed ∨ row'.status = .deleted)) ↔
    row.status = .deleted ∨ row.status = .ingesting ∨
      (∃ env ∈ List.replicate 4 readFault ++ [readFault], env.Marks ∧
        ¬ env.Completes helloConfig jobRow.toJob s) ∨
      (row.status = .failed ∧ ∀ env ∈ List.replicate 4 readFault ++ [readFault], ¬ env.Marks)) := by
  obtain ⟨s, s₁, s', jobRow, row, -, hrun, hjob, hrow, -, hattempts, hlast, -⟩ :=
    System.readFault_deadLettered
  exact ⟨s.store, jobRow, row, s', hrow, deadLettered_failed_iff
    (System.reachable_linked ⟨_, hrun⟩).store hjob hrow hattempts hlast rfl rfl⟩

/-- The job is dead-lettered and `mark_failed` meets no fault, but the document is REGISTERED and
    stays so. -/
theorem IngestionWorker.readFault_leavesRegistered : ∃ (s : System) (s₁ s' : Store)
    (jobRow : IngestionJobModel) (row' : DocumentModel),
    run (System.step helloConfig) System.init uploadHello = some s ∧
    s.store.jobs.byId ⟨20⟩ = some jobRow ∧
    run (attemptStep helloConfig ⟨20⟩) s.store (List.replicate 4 readFault) = some s₁ ∧
    attempt helloConfig ⟨20⟩ readFault s₁ = some (.ok .deadLettered, s') ∧
    readFault.failedRead = .returns ∧ readFault.failedCommit = .returns ∧
    s'.documents.byId jobRow.documentId = some row' ∧
    ¬ (row'.status = .failed ∨ row'.status = .deleted) := by
  obtain ⟨s, s₁, s', jobRow, -, row', hrun, hjob, -, -, hattempts, hlast, hrow', hstatus'⟩ :=
    System.readFault_deadLettered
  refine ⟨s, s₁, s', jobRow, row', hrun, hjob, hattempts, hlast, rfl, rfl, hrow', ?_⟩
  rw [hstatus']
  decide

end Eka
