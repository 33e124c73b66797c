import Eka.System.Attempt

/-!
# Whether a failed attempt can be retried

`fail` puts the job back, but nothing puts the document back: an attempt that raises
between its two lifecycle transactions leaves it INGESTING, and `mark_ingesting` of the
next attempt does not accept that. So a failed attempt can be retried when it left the
status alone, or when all that was lost was the answer of the last commit.
-/

namespace Eka

open Py Relational Transition
open RecursiveCharacterChunker (split)

/-- Nothing faults. -/
def HandleEnv.Faultless (env : HandleEnv) : Prop := ∀ call, env.faults call = .returns

namespace HandleEnv.Faultless

variable {config : Config} {env : HandleEnv} {job : IngestionJob} {s : Store}

theorem marks (h : env.Faultless) : env.Marks := ⟨h _, by rw [h]; rfl⟩

/-- Without faults, an attempt completes when the chunks fit their column. -/
theorem completes_iff (h : env.Faultless) {text : Text}
    (htext : SqlAlchemyContentStore.get job.tenantId job.documentId s.contents = some text)
    (hfresh : env.Fresh job.documentId (split config.chunking text.value).length s.chunks) :
    env.Completes config job s ↔ config.Storable text.value := by
  rw [HandleEnv.completes_iff fun text' htext' => by
    obtain rfl : text = text' := Option.some.inj (htext.symm.trans htext')
    exact hfresh]
  rw [htext]
  constructor
  · rintro ⟨-, -, text', hsome, hindexes⟩
    cases hsome
    exact hindexes.1
  · intro hstorable
    refine ⟨h _, h _, text, rfl, hstorable, ?_, h _, ?_⟩
    · simp [IngestDocumentHandler.chunkOutcome, h _]
    · rw [h]
      rfl

end HandleEnv.Faultless

/-- After an attempt at `job` raised `exc` and left this database: `fail` puts the job back to
    PENDING, it can be claimed again, and whoever claims it and meets no fault returns from
    `handle` and leaves the document INDEXED with exactly the chunks of its content. -/
structure Store.Recovers (config : Config) (job : IngestionJob) (exc : Error) (text : Text)
    (s : Store) : Prop where
  pending : ∀ now,
    (SqlAlchemyJobQueue.fail job (config.repr exc) now s.jobs).1 = false ∧
      ∃ row, Jobs.byId (SqlAlchemyJobQueue.fail job (config.repr exc) now s.jobs).2 job.id =
        some row ∧ row.status = .pending
  claimable : ∀ now workerId, ∃ later job' t, job'.id = job.id ∧
    SqlAlchemyJobQueue.dequeue workerId 1 [job.id] later
      (SqlAlchemyJobQueue.fail job (config.repr exc) now s.jobs).2 = some ([job'], t)
  retried : ∀ now workerId batchSize picked later jobs t,
    SqlAlchemyJobQueue.dequeue workerId batchSize picked later
      (SqlAlchemyJobQueue.fail job (config.repr exc) now s.jobs).2 = some (jobs, t) →
    ∀ job' ∈ jobs, job'.id = job.id → ∀ env : HandleEnv, env.Faultless →
      env.Fresh job.documentId (split config.chunking text.value).length s.chunks →
      ∃ s', IngestDocumentHandler.handle config env job' { s with jobs := t } = (.ok ⟨⟩, s') ∧
        (∃ row, s'.documents.byId job.documentId = some row ∧ row.status = .indexed) ∧
        (s'.chunks.ofDocument job.documentId).map ChunkModel.piece =
          split config.chunking text.value

namespace SqlAlchemyJobQueue

variable {t t' : Jobs} {job : IngestionJob} {row : IngestionJobModel} {error : Str}
  {now later : Instant} {workerId : Str} {batchSize : Nat} {picked : List UUID}
  {jobs : List IngestionJob}

/-- The snapshot of a failed job that is claimed again. -/
theorem dequeue_failed (hrow : t.byId job.id = some row) (hjob : row.toJob = job)
    (hclaim : dequeue workerId batchSize picked later (fail job error now t).2 = some (jobs, t'))
    {job' : IngestionJob} (hmem : job' ∈ jobs) (hid : job'.id = job.id) :
    job' = { job with attempts := job.attempts + 1 } := by
  obtain ⟨-, -, hsnapshots, -⟩ := dequeue_eq_some hclaim
  obtain ⟨row', hrow', hsnapshot, -⟩ := hsnapshots job' hmem
  rw [fail_byId, if_pos hid, hid, hrow] at hrow'
  cases hrow'
  rw [failed_toJob, hjob] at hsnapshot
  exact hsnapshot.symm

/-- A job with attempts left is pending again after `fail`. -/
theorem fail_pending (error : Str) (now : Instant) (hrow : t.byId job.id = some row)
    (hjob : row.toJob = job) (hleft : deadLettered job = false) :
    ∃ row', Jobs.byId (fail job error now t).2 job.id = some row' ∧ row'.status = .pending ∧
      row'.toJob = { job with attempts := job.attempts + 1 } := by
  refine ⟨failed job error now row, ?_, ?_, ?_⟩
  · rw [fail_byId, if_pos rfl, hrow]
    rfl
  · rw [failed_status, hleft]
    rfl
  · rw [failed_toJob, hjob]

/-- Such a job can be claimed again once its delay is over. -/
theorem exists_reclaim (error : Str) (now : Instant) (workerId : Str)
    (hrow : t.byId job.id = some row) (hjob : row.toJob = job)
    (hleft : deadLettered job = false) :
    ∃ later job' t', job'.id = job.id ∧
      dequeue workerId 1 [job.id] later (fail job error now t).2 = some ([job'], t') := by
  obtain ⟨row', hrow', hpending, htoJob⟩ := fail_pending error now hrow hjob hleft
  obtain ⟨t', hclaim⟩ := exists_dequeue workerId hrow' hpending
  exact ⟨_, _, t', by rw [htoJob], hclaim⟩

end SqlAlchemyJobQueue

namespace Attempted

variable {config : Config} {job : IngestionJob} {s s₁ : Store} {status : DocumentStatus}

/-- Where the next attempt at a failed job starts. -/
theorem claimed (h : Attempted config job s s₁ status) {t : Jobs}
    (hjobs : s₁.jobs.SameSubjects t) (attempts : Nat) :
    Attempted config { job with attempts := attempts } { s₁ with jobs := t }
      { s₁ with jobs := t } status :=
  ⟨rfl, rfl, h.linked.updateJobs hjobs, h.describes, h.status, fun _ _ => Iff.rfl⟩

/-- What a retry without faults comes to. -/
theorem retry (h : Attempted config job s s₁ status) {text : Text}
    (htext : SqlAlchemyContentStore.get job.tenantId job.documentId s.contents = some text)
    {env : HandleEnv} (hfaultless : env.Faultless)
    (hfresh : env.Fresh job.documentId (split config.chunking text.value).length s₁.chunks) :
    (∃ s₂, IngestDocumentHandler.handle config env job s₁ = (.ok ⟨⟩, s₂) ∧
      (∃ row, s₂.documents.byId job.documentId = some row ∧ row.status = .indexed) ∧
      (s₂.chunks.ofDocument job.documentId).map ChunkModel.piece =
        split config.chunking text.value) ↔
    DocumentStatus.ingesting ∈ allowedTransitions status ∧ config.Storable text.value := by
  obtain ⟨row, hrow, -, rfl⟩ := h.row
  have htext₁ : SqlAlchemyContentStore.get job.tenantId job.documentId s₁.contents = some text := by
    rw [h.contents, htext]
  have hcompletes := hfaultless.completes_iff htext₁ hfresh
  have hmarked := fun hallowed =>
    IngestDocumentHandler.handle_marked env h.linked h.describes hrow hallowed hfaultless.marks
  constructor
  · rintro ⟨s₂, heq, -⟩
    by_cases hallowed : DocumentStatus.ingesting ∈ allowedTransitions row.status
    · rcases hmarked hallowed with ⟨hfin, -⟩ | ⟨-, e, s₃, heq', -⟩
      · exact ⟨hallowed, hcompletes.mp hfin⟩
      · rw [heq] at heq'
        cases heq'
    · obtain ⟨e, heq'⟩ := IngestDocumentHandler.handle_unmarked env h.linked h.describes hrow
        fun hcond => hallowed hcond.1
      rw [heq] at heq'
      cases heq'
  · rintro ⟨hallowed, hstorable⟩
    rcases hmarked hallowed with ⟨-, text', s₂, htext', heq, hindexed, hpieces⟩ | ⟨hnot, -⟩
    · rw [htext₁] at htext'
      cases htext'
      rw [IngestDocumentHandler.answer, if_pos (hfaultless _)] at heq
      exact ⟨s₂, heq, hindexed.status, hpieces⟩
    · exact absurd (hcompletes.mpr hstorable) hnot

/-- What the retry of a failed attempt comes to: every later claim starts the same attempt over
    the database that the failed one left. -/
theorem reclaimed (h : Attempted config job s s₁ status) {text : Text}
    (htext : SqlAlchemyContentStore.get job.tenantId job.documentId s.contents = some text)
    {jobRow : IngestionJobModel} (hjobRow : s₁.jobs.byId job.id = some jobRow)
    (hsnapshot : jobRow.toJob = job) {error workerId : Str} {now later : Instant}
    {batchSize : Nat} {picked : List UUID} {jobs : List IngestionJob} {t : Jobs}
    (hclaim : SqlAlchemyJobQueue.dequeue workerId batchSize picked later
      (SqlAlchemyJobQueue.fail job error now s₁.jobs).2 = some (jobs, t))
    {job' : IngestionJob} (hmem : job' ∈ jobs) (hid : job'.id = job.id) {env : HandleEnv}
    (hfaultless : env.Faultless)
    (hfresh : env.Fresh job.documentId (split config.chunking text.value).length s₁.chunks) :
    (∃ s', IngestDocumentHandler.handle config env job' { s₁ with jobs := t } = (.ok ⟨⟩, s') ∧
      (∃ row, s'.documents.byId job.documentId = some row ∧ row.status = .indexed) ∧
      (s'.chunks.ofDocument job.documentId).map ChunkModel.piece =
        split config.chunking text.value) ↔
    DocumentStatus.ingesting ∈ allowedTransitions status ∧ config.Storable text.value := by
  obtain rfl := SqlAlchemyJobQueue.dequeue_failed hjobRow hsnapshot hclaim hmem hid
  have hclaimed := h.claimed ((SqlAlchemyJobQueue.sameSubjects_fail job _ now s₁.jobs).trans
    (SqlAlchemyJobQueue.sameSubjects_dequeue hclaim)) (job.attempts + 1)
  have htext' : SqlAlchemyContentStore.get job.tenantId job.documentId s₁.contents =
      some text := by
    rw [h.contents, htext]
  exact hclaimed.retry htext' hfaultless hfresh

/-- A failed attempt can be retried exactly when it left a status that `mark_ingesting` accepts
    and the chunks fit their column. -/
theorem recovers_iff (h : Attempted config job s s₁ status) {exc : Error} {text : Text}
    {jobRow : IngestionJobModel} (hjobRow : s.jobs.byId job.id = some jobRow)
    (hsnapshot : jobRow.toJob = job) (hattempts : job.attempts + 1 < job.maxAttempts)
    (htext : SqlAlchemyContentStore.get job.tenantId job.documentId s.contents = some text)
    {env : HandleEnv}
    (hfresh : env.Fresh job.documentId (split config.chunking text.value).length s.chunks) :
    s₁.Recovers config job exc text ↔
      DocumentStatus.ingesting ∈ allowedTransitions status ∧ config.Storable text.value := by
  have hrow₁ : s₁.jobs.byId job.id = some jobRow := by rw [h.jobs, hjobRow]
  have hleft : SqlAlchemyJobQueue.deadLettered job = false := by
    simp only [SqlAlchemyJobQueue.deadLettered, ge_iff_le, decide_eq_false_iff_not]
    omega
  have hclaimable := fun now workerId =>
    SqlAlchemyJobQueue.exists_reclaim (config.repr exc) now workerId hrow₁ hsnapshot hleft
  constructor
  · intro hrecovers
    obtain ⟨later, job', t, hid, hclaim⟩ := hclaimable 0 []
    have hfresh' : HandleEnv.Fresh ⟨fun _ => .returns, env.clock, env.newUuid⟩ job.documentId
        (split config.chunking text.value).length s₁.chunks :=
      ⟨(h.fresh_iff.mpr hfresh).distinct, (h.fresh_iff.mpr hfresh).unused⟩
    have hretried := hrecovers.retried 0 [] 1 _ later _ t hclaim job' List.mem_cons_self hid _
      (fun _ => rfl) hfresh'
    exact (h.reclaimed htext hrow₁ hsnapshot hclaim List.mem_cons_self hid (fun _ => rfl)
      hfresh').mp hretried
  · intro hcond
    refine ⟨?_, hclaimable, ?_⟩
    · intro now
      obtain ⟨row, hrow, hpending, -⟩ :=
        SqlAlchemyJobQueue.fail_pending (config.repr exc) now hrow₁ hsnapshot hleft
      exact ⟨hleft, row, hrow, hpending⟩
    · intro now workerId batchSize picked later jobs t hclaim job' hmem hid env hfaultless hfresh'
      exact (h.reclaimed htext hrow₁ hsnapshot hclaim hmem hid hfaultless hfresh').mpr hcond

end Attempted

namespace IngestDocumentHandler

variable {config : Config} {job : IngestionJob} {s s' : Store} {row : DocumentModel}

/-- The status that an attempt which raised leaves, and when the next one accepts it. -/
theorem handle_raised {env : HandleEnv} {exc : Error} {text : Text} (hlinked : s.Linked config)
    (hjob : s.documents.Describes job.documentId job.tenantId job.collectionId job.documentVersion)
    (hrow : s.documents.byId job.documentId = some row) (hlive : row.status ≠ .deleted)
    (htext : SqlAlchemyContentStore.get job.tenantId job.documentId s.contents = some text)
    (hfresh : env.Fresh job.documentId (split config.chunking text.value).length s.chunks)
    (hraises : handle config env job s = (.error exc, s')) :
    ∃ status, Attempted config job s s' status ∧
      (DocumentStatus.ingesting ∈ allowedTransitions status ↔
        row.status ≠ .ingesting ∧ (¬ env.Marks ∨ env.Finishes config (some text))) := by
  have hallowed : DocumentStatus.ingesting ∈ allowedTransitions row.status ↔
      row.status ≠ .ingesting := by
    rw [ingesting_mem_allowedTransitions, and_iff_left hlive]
  have hcompletes : env.Completes config job s ↔ env.Finishes config (some text) := by
    rw [HandleEnv.completes_iff, htext]
    intro text' htext'
    rw [htext] at htext'
    cases htext'
    exact hfresh
  by_cases hmarked : DocumentStatus.ingesting ∈ allowedTransitions row.status ∧ env.Marks
  · rcases handle_marked env hlinked hjob hrow hmarked.1 hmarked.2 with
      ⟨hcond, _, s₁, -, heq, hindexed, -⟩ | ⟨hnot, e, s₁, heq, hingesting⟩
    · rw [hraises] at heq
      obtain rfl : s' = s₁ := congrArg Prod.snd heq
      exact ⟨.indexed, hindexed, fun _ => ⟨hallowed.mp hmarked.1, .inr (hcompletes.mp hcond)⟩,
        fun _ => by decide⟩
    · rw [hraises] at heq
      cases heq
      refine ⟨.ingesting, hingesting, fun h => absurd h (by decide), ?_⟩
      rintro ⟨-, hunmarked | hfinishes⟩
      · exact absurd hmarked.2 hunmarked
      · exact absurd (hcompletes.mpr hfinishes) hnot
  · obtain ⟨e, heq⟩ := handle_unmarked env hlinked hjob hrow hmarked
    rw [hraises] at heq
    cases heq
    refine ⟨row.status, .refl hlinked hjob hrow, fun h => ⟨hallowed.mp h, .inl ?_⟩, fun h =>
      hallowed.mpr h.1⟩
    intro hmarks
    exact hmarked ⟨h, hmarks⟩

end IngestDocumentHandler

namespace System

variable {config : Config} {s : System}

/-- A failed attempt at a live document with stored content, of a job with attempts left, can be
    retried exactly when its chunks fit their column, the document was not INGESTING already, and
    the attempt raised before `mark_ingesting` took effect or after `mark_indexed` had. -/
theorem handle_recovers_iff (h : Reachable (step config) init s) {w : Nat} {job : IngestionJob}
    {rest : List IngestionJob} (hbusy : s.workers w = .busy (.handling .start) job rest)
    {row : DocumentModel} (hrow : s.store.documents.byId job.documentId = some row)
    (hlive : row.status ≠ .deleted) {text : Text}
    (htext : SqlAlchemyContentStore.get job.tenantId job.documentId s.store.contents = some text)
    (hattempts : job.attempts + 1 < job.maxAttempts) {env : HandleEnv}
    (hfresh : env.Fresh job.documentId (split config.chunking text.value).length s.store.chunks)
    {exc : Error} {store : Store}
    (hraises : IngestDocumentHandler.handle config env job s.store = (.error exc, store)) :
    store.Recovers config job exc text ↔
      config.Storable text.value ∧ row.status ≠ .ingesting ∧
        (¬ env.Marks ∨ env.Finishes config (some text)) := by
  have howned := reachable_owned h
  have hlinked := (reachable_linked h).store
  obtain ⟨jobRow, hjobRow, hfits⟩ := held_row howned hbusy
  obtain ⟨status, hattempted, hstatus⟩ := IngestDocumentHandler.handle_raised hlinked
    (held_described howned hlinked hbusy) hrow hlive htext hfresh hraises
  rw [hattempted.recovers_iff hjobRow hfits.1 hattempts htext hfresh, hstatus]
  constructor
  · rintro ⟨hcond, hstorable⟩
    exact ⟨hstorable, hcond⟩
  · rintro ⟨hstorable, hcond⟩
    exact ⟨hcond, hstorable⟩

/-! ### An attempt that cannot be retried -/

/-- Worker 0 has claimed the first attempt at document 10. -/
def claimHello : List Label := uploadHello ++ [.dequeue 0 "w".toList 5 [⟨20⟩] 3]

def helloJob : IngestionJob := ⟨⟨20⟩, ⟨1⟩, ⟨10⟩, ⟨2⟩, 1, 0, 5⟩

/-- The content read raises, and nothing else. -/
def contentFault : HandleEnv where
  faults := fun call => if call = .contentGet then .raises else .returns
  clock := fun _ => 4
  newUuid := fun i => ⟨30 + BitVec.ofNat 128 i⟩

theorem run_claimHello : run (step helloConfig) init claimHello =
    some (afterWorker init 0 (.busy (.handling .start) helloJob [])
      { helloUploaded 5 with
        jobs := (helloUploaded 5).jobs.update (fun row => [⟨20⟩].contains row.id)
          (SqlAlchemyJobQueue.claim "w".toList 3)
          (SqlAlchemyJobQueue.claim_keepsKeys "w".toList 3) }) := by
  have hdequeue : step helloConfig { init with store := helloUploaded 5 }
      (.dequeue 0 "w".toList 5 [⟨20⟩] 3) = some _ := dequeue_step (s := _) rfl rfl
  exact run_append.mpr ⟨_, run_uploadHello rfl, run_cons.mpr ⟨_, hdequeue, rfl⟩⟩

/-- The attempt raises in a state in which a retry might be expected to work. -/
theorem contentFault_raises : ∃ s row text store, run (step helloConfig) init claimHello = some s ∧
    s.workers 0 = .busy (.handling .start) helloJob [] ∧
    s.store.documents.byId helloJob.documentId = some row ∧ row.status = .registered ∧
    SqlAlchemyContentStore.get helloJob.tenantId helloJob.documentId s.store.contents =
      some text ∧
    contentFault.Fresh helloJob.documentId (split helloConfig.chunking text.value).length
      s.store.chunks ∧
    IngestDocumentHandler.handle helloConfig contentFault helloJob s.store =
      (.error .infrastructure, store) := by
  refine ⟨_, .ofDomain helloDocument, ⟨"hello".toList, by decide⟩, _, run_claimHello,
    afterWorker_workers .., rfl, rfl, rfl, ?_, Prod.ext ?_ rfl⟩
  · have hlength : (split helloConfig.chunking "hello".toList).length = 1 := rfl
    simp only [hlength]
    constructor
    · intro i j hi hj _
      omega
    · intro i _ chunk hchunk
      cases hchunk
  · rfl

theorem handle_recovers_contentFault : ∃ (s : System) (row : DocumentModel) (text : Text)
    (store : Store), run (step helloConfig) init claimHello = some s ∧
    s.store.documents.byId helloJob.documentId = some row ∧
    (store.Recovers helloConfig helloJob .infrastructure text ↔
      helloConfig.Storable text.value ∧ row.status ≠ .ingesting ∧
        (¬ contentFault.Marks ∨ contentFault.Finishes helloConfig (some text))) := by
  obtain ⟨s, row, text, store, hrun, hbusy, hrow, hstatus, htext, hfresh, hraises⟩ :=
    contentFault_raises
  exact ⟨s, row, text, store, hrun, hrow, handle_recovers_iff ⟨_, hrun⟩ hbusy hrow
    (by rw [hstatus]; decide) htext (by decide) hfresh hraises⟩

/-- The first attempt at a REGISTERED document raises when it reads the content; the job is put
    back and claimed again, and the retry cannot succeed. -/
theorem contentFault_notRecovered : ∃ (s : System) (row : DocumentModel) (text : Text)
    (store : Store), run (step helloConfig) init claimHello = some s ∧
    s.workers 0 = .busy (.handling .start) helloJob [] ∧
    s.store.documents.byId helloJob.documentId = some row ∧ row.status = .registered ∧
    SqlAlchemyContentStore.get helloJob.tenantId helloJob.documentId s.store.contents =
      some text ∧
    helloJob.attempts + 1 < helloJob.maxAttempts ∧
    IngestDocumentHandler.handle helloConfig contentFault helloJob s.store =
      (.error .infrastructure, store) ∧
    ¬ store.Recovers helloConfig helloJob .infrastructure text := by
  obtain ⟨s, row, text, store, hrun, hbusy, hrow, hstatus, htext, hfresh, hraises⟩ :=
    contentFault_raises
  refine ⟨s, row, text, store, hrun, hbusy, hrow, hstatus, htext, by decide, hraises, ?_⟩
  intro hrecovers
  have howned := reachable_owned ⟨_, hrun⟩
  have hlinked := (reachable_linked ⟨_, hrun⟩).store
  obtain ⟨jobRow, hjobRow, hfits⟩ := held_row howned hbusy
  obtain ⟨status, hattempted, hnext⟩ := IngestDocumentHandler.handle_raised hlinked
    (held_described howned hlinked hbusy) hrow (by rw [hstatus]; decide) htext hfresh hraises
  have hallowed := (hattempted.recovers_iff hjobRow hfits.1 (by decide) htext hfresh).mp hrecovers
  rcases (hnext.mp hallowed.1).2 with hunmarked | ⟨-, hget, -⟩
  · exact hunmarked ⟨rfl, rfl⟩
  · cases hget

end System

end Eka
