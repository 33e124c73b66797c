import Mathlib.Algebra.Ring.Nat
import Eka.Shared.Base
import Eka.Lib.Table

/-!
# The job queue

`ingestion/application/jobs.py` and `ingestion/infrastructure/queue.py`: the rows
of `ingestion_jobs` and the four statements on them. `complete` and `fail` update
by the primary key alone and `fail` counts from the snapshot that `dequeue` handed
out. Each function is described by what it does to the row with a given id.
-/

namespace Eka

open Py Relational

/-- `JobStatus` (`jobs.py:17-21`). -/
inductive JobStatus where
  | pending
  | processing
  | completed
  | deadLetter
  deriving DecidableEq, Repr

/-- `compute_backoff_seconds` (`jobs.py:24-33`). -/
def computeBackoffSeconds (attempts : Nat) : Nat :=
  if attempts < 1 then 0 else min (5 * 2 ^ (attempts - 1)) 3600

/-- `IngestionJob` (`jobs.py:36-44`): the snapshot of a row that `dequeue` returns. -/
structure IngestionJob where
  id : UUID
  tenantId : UUID
  documentId : UUID
  collectionId : UUID
  documentVersion : Nat
  attempts : Nat
  maxAttempts : Nat
  deriving DecidableEq, Repr

/-- `IngestionJobModel` (`ingestion/infrastructure/models.py:70-93`). -/
structure IngestionJobModel where
  id : UUID
  tenantId : UUID
  documentId : UUID
  collectionId : UUID
  documentVersion : Nat
  status : JobStatus
  attempts : Nat
  maxAttempts : Nat
  availableAt : Instant
  lockedAt : Option Instant
  lockedBy : Option Str
  lastError : Option Str
  createdAt : Instant
  updatedAt : Instant
  deriving DecidableEq, Repr

/-- The primary key and `uq_jobs_document_version` (`models.py:72-75`). -/
def IngestionJobModel.Clash (a b : IngestionJobModel) : Prop :=
  a.id = b.id ∨ (a.documentId = b.documentId ∧ a.documentVersion = b.documentVersion)

instance : DecidableRel IngestionJobModel.Clash := fun _ _ => inferInstanceAs (Decidable (_ ∨ _))

abbrev Jobs := Table IngestionJobModel IngestionJobModel.Clash

/-- The `IngestionJob` built from a row (`queue.py:90-99`). -/
def IngestionJobModel.toJob (row : IngestionJobModel) : IngestionJob where
  id := row.id
  tenantId := row.tenantId
  documentId := row.documentId
  collectionId := row.collectionId
  documentVersion := row.documentVersion
  attempts := row.attempts
  maxAttempts := row.maxAttempts

/-- The row with this id. -/
def Jobs.byId (t : Jobs) (id : UUID) : Option IngestionJobModel :=
  t.lookup IngestionJobModel.id id

/-- What a job is about. -/
def IngestionJobModel.subject (row : IngestionJobModel) : UUID × UUID × UUID × Nat :=
  (row.documentId, row.tenantId, row.collectionId, row.documentVersion)

/-- The jobs of `t'` are those of `t`, and about the same. -/
def Jobs.SameSubjects (t t' : Jobs) : Prop :=
  ∀ id, (t'.byId id).map IngestionJobModel.subject = (t.byId id).map IngestionJobModel.subject

namespace SqlAlchemyJobQueue

/-- The values of the `INSERT` of `enqueue` (`queue.py:43-55`). -/
def newRow (id tenantId documentId collectionId : UUID) (documentVersion maxAttempts : Nat)
    (now : Instant) : IngestionJobModel where
  id := id
  tenantId := tenantId
  documentId := documentId
  collectionId := collectionId
  documentVersion := documentVersion
  status := .pending
  attempts := 0
  maxAttempts := maxAttempts
  availableAt := now
  lockedAt := none
  lockedBy := none
  lastError := none
  createdAt := now
  updatedAt := now

/-- `enqueue` (`queue.py:32-65`): `ON CONFLICT (document_id, document_version) DO NOTHING`. -/
def enqueue (id tenantId documentId collectionId : UUID) (documentVersion maxAttempts : Nat)
    (now : Instant) (t : Jobs) : Except Error Jobs :=
  if t.rows.any fun r => r.documentId == documentId && r.documentVersion == documentVersion then
    .ok t
  else
    match t.insert (newRow id tenantId documentId collectionId documentVersion maxAttempts now) with
    | none => .error .integrityError
    | some t' => .ok t'

/-- The `WHERE` of the claim (`queue.py:73-76`). -/
def claimable (now : Instant) (row : IngestionJobModel) : Bool :=
  row.status == .pending && row.availableAt ≤ now

/-- The assignments of the claim (`queue.py:85-88`). -/
def claim (workerId : Str) (now : Instant) (row : IngestionJobModel) : IngestionJobModel :=
  { row with
    status := .processing
    lockedAt := some now
    lockedBy := some workerId
    updatedAt := now }

theorem claim_keepsKeys (workerId : Str) (now : Instant) :
    KeepsKeys IngestionJobModel.Clash (claim workerId now) :=
  ⟨fun _ _ => Iff.rfl, fun _ _ => Iff.rfl⟩

/-- `dequeue` (`queue.py:67-101`) as one atomic claim. `SKIP LOCKED` may pass over any rows
    and rows with one `available_at` come in any order, so the ids that the `SELECT` returns
    are an input: `picked` is refused unless it is a selection the `SELECT` can make. -/
def dequeue (workerId : Str) (batchSize : Nat) (picked : List UUID) (now : Instant) (t : Jobs) :
    Option (List IngestionJob × Jobs) :=
  let rows := picked.filterMap t.byId
  if picked.Nodup ∧ rows.length = picked.length ∧ picked.length ≤ batchSize ∧
      (∀ r ∈ rows, claimable now r = true) ∧
      rows.Pairwise (fun a b => a.availableAt ≤ b.availableAt) then
    some (rows.map IngestionJobModel.toJob,
      t.update (fun r => picked.contains r.id) (claim workerId now) (claim_keepsKeys workerId now))
  else none

/-- The assignments of `complete` (`queue.py:108-113`). -/
def completed (now : Instant) (row : IngestionJobModel) : IngestionJobModel :=
  { row with status := .completed, lockedAt := none, lockedBy := none, updatedAt := now }

theorem completed_keepsKeys (now : Instant) :
    KeepsKeys IngestionJobModel.Clash (completed now) :=
  ⟨fun _ _ => Iff.rfl, fun _ _ => Iff.rfl⟩

/-- `complete` (`queue.py:103-115`). -/
def complete (job : IngestionJob) (now : Instant) (t : Jobs) : Jobs :=
  t.update (fun r => r.id == job.id) (completed now) (completed_keepsKeys now)

/-- `attempts >= job.max_attempts` (`queue.py:118-119`). -/
def deadLettered (job : IngestionJob) : Bool := job.attempts + 1 ≥ job.maxAttempts

/-- The assignments of `fail` (`queue.py:121-140`). -/
def failed (job : IngestionJob) (error : Str) (now : Instant) (row : IngestionJobModel) :
    IngestionJobModel :=
  let attempts := job.attempts + 1
  if deadLettered job then
    { row with
      status := .deadLetter
      attempts := attempts
      lastError := some (error.take 2000)
      lockedAt := none
      lockedBy := none
      updatedAt := now }
  else
    { row with
      status := .pending
      attempts := attempts
      availableAt := now + seconds (computeBackoffSeconds attempts)
      lastError := some (error.take 2000)
      lockedAt := none
      lockedBy := none
      updatedAt := now }

theorem failed_keepsKeys (job : IngestionJob) (error : Str) (now : Instant) :
    KeepsKeys IngestionJobModel.Clash (failed job error now) := by
  constructor <;> intro a b <;> unfold failed <;> split <;> exact Iff.rfl

/-- `fail` (`queue.py:117-147`), with its answer. -/
def fail (job : IngestionJob) (error : Str) (now : Instant) (t : Jobs) : Bool × Jobs :=
  (deadLettered job,
    t.update (fun r => r.id == job.id) (failed job error now) (failed_keepsKeys job error now))

/-! ## The row with a given id -/

theorem byId_eq_some {t : Jobs} {id : UUID} {row : IngestionJobModel} :
    t.byId id = some row ↔ row ∈ t.rows ∧ row.id = id :=
  Table.lookup_eq_some fun _ _ h => .inl h

theorem byId_of_mem {t : Jobs} {row : IngestionJobModel} (h : row ∈ t.rows) :
    t.byId row.id = some row :=
  byId_eq_some.mpr ⟨h, rfl⟩

@[simp] theorem byId_empty (id : UUID) : Jobs.byId Table.empty id = none := rfl

/-- Two rows for one version of one document are one row. -/
theorem eq_of_documentVersion (t : Jobs) {a b : IngestionJobModel} (ha : a ∈ t.rows)
    (hb : b ∈ t.rows) (hd : a.documentId = b.documentId)
    (hv : a.documentVersion = b.documentVersion) : a = b :=
  t.eq_of_clash ha hb (.inr ⟨hd, hv⟩) (.inr ⟨hd.symm, hv.symm⟩)

@[simp] theorem newRow_id (id tenantId documentId collectionId : UUID)
    (documentVersion maxAttempts : Nat) (now : Instant) :
    (newRow id tenantId documentId collectionId documentVersion maxAttempts now).id = id := rfl

@[simp] theorem claim_id (workerId : Str) (now : Instant) (row : IngestionJobModel) :
    (claim workerId now row).id = row.id := rfl

@[simp] theorem completed_id (now : Instant) (row : IngestionJobModel) :
    (completed now row).id = row.id := rfl

@[simp] theorem failed_id (job : IngestionJob) (error : Str) (now : Instant)
    (row : IngestionJobModel) : (failed job error now row).id = row.id := by
  unfold failed
  split <;> rfl

@[simp] theorem failed_toJob (job : IngestionJob) (error : Str) (now : Instant)
    (row : IngestionJobModel) :
    (failed job error now row).toJob = { row.toJob with attempts := job.attempts + 1 } := by
  unfold failed
  split <;> rfl

@[simp] theorem failed_status (job : IngestionJob) (error : Str) (now : Instant)
    (row : IngestionJobModel) : (failed job error now row).status =
      if deadLettered job then .deadLetter else .pending := by
  unfold failed
  split <;> rfl

/-- A job that goes back to PENDING waits for the delay of its new count of attempts. -/
theorem failed_availableAt {job : IngestionJob} {error : Str} {now : Instant}
    {row : IngestionJobModel} (h : (failed job error now row).status = .pending) :
    (failed job error now row).availableAt =
      now + seconds (computeBackoffSeconds (job.attempts + 1)) := by
  rw [failed_status] at h
  split at h
  · cases h
  · next hlast => simp [failed, hlast]

@[simp] theorem failed_attempts (job : IngestionJob) (error : Str) (now : Instant)
    (row : IngestionJobModel) : (failed job error now row).attempts = job.attempts + 1 := by
  unfold failed
  split <;> rfl

@[simp] theorem failed_maxAttempts (job : IngestionJob) (error : Str) (now : Instant)
    (row : IngestionJobModel) : (failed job error now row).maxAttempts = row.maxAttempts := by
  unfold failed
  split <;> rfl

@[simp] theorem failed_lockedBy (job : IngestionJob) (error : Str) (now : Instant)
    (row : IngestionJobModel) : (failed job error now row).lockedBy = none := by
  unfold failed
  split <;> rfl

/-- An update of the rows that `p` selects by their id leaves or patches the row. -/
theorem byId_update (t : Jobs) (q : UUID → Bool) {f : IngestionJobModel → IngestionJobModel}
    (keep : KeepsKeys IngestionJobModel.Clash f) (hf : ∀ r, (f r).id = r.id) (id : UUID) :
    Jobs.byId (t.update (fun r => q r.id) f keep) id =
      if q id then (t.byId id).map f else t.byId id :=
  Table.lookup_update_key _ keep hf

theorem complete_byId (job : IngestionJob) (now : Instant) (t : Jobs) (id : UUID) :
    Jobs.byId (complete job now t) id =
      if id = job.id then (t.byId id).map (completed now) else t.byId id := by
  have h := byId_update t (· == job.id) (completed_keepsKeys now) (completed_id now) id
  simp only [beq_iff_eq] at h
  exact h

theorem fail_byId (job : IngestionJob) (error : Str) (now : Instant) (t : Jobs) (id : UUID) :
    Jobs.byId (fail job error now t).2 id =
      if id = job.id then (t.byId id).map (failed job error now) else t.byId id := by
  have h := byId_update t (· == job.id) (failed_keepsKeys job error now)
    (failed_id job error now) id
  simp only [beq_iff_eq] at h
  exact h

/-- What a claim returns and leaves behind. -/
theorem dequeue_eq_some {workerId : Str} {batchSize : Nat} {picked : List UUID} {now : Instant}
    {t t' : Jobs} {jobs : List IngestionJob}
    (h : dequeue workerId batchSize picked now t = some (jobs, t')) :
    picked.Nodup ∧ jobs.map (·.id) = picked ∧
      (∀ job ∈ jobs, ∃ row, t.byId job.id = some row ∧ row.toJob = job ∧
        row.status = .pending ∧ row.availableAt ≤ now) ∧
      ∀ id, t'.byId id =
        if id ∈ picked then (t.byId id).map (claim workerId now) else t.byId id := by
  unfold dequeue at h
  simp only at h
  split at h
  · next hsel =>
      obtain ⟨hnodup, hlen, -, hclaim, -⟩ := hsel
      simp only [Option.some.injEq, Prod.mk.injEq] at h
      obtain ⟨rfl, rfl⟩ := h
      refine ⟨hnodup, ?_, ?_, ?_⟩
      · -- every picked id has a row, so the rows are those of the ids, in order
        clear hnodup hclaim
        induction picked with
        | nil => rfl
        | cons id ids ih =>
            cases hrow : t.byId id with
            | none =>
                have := List.length_filterMap_le t.byId ids
                simp only [List.filterMap_cons, hrow, List.length_cons] at hlen
                omega
            | some row =>
                simp only [List.filterMap_cons, hrow, List.length_cons, Nat.add_right_cancel_iff]
                  at hlen
                simp only [List.filterMap_cons, hrow, List.map_cons, ih hlen]
                rw [show row.toJob.id = id from (byId_eq_some.mp hrow).2]
      · intro job hjob
        obtain ⟨row, hrow, rfl⟩ := List.mem_map.mp hjob
        obtain ⟨id, -, hid⟩ := List.mem_filterMap.mp hrow
        have hc := hclaim row hrow
        simp only [claimable, Bool.and_eq_true, beq_iff_eq, decide_eq_true_eq] at hc
        exact ⟨row, byId_of_mem (byId_eq_some.mp hid).1, rfl, hc.1, hc.2⟩
      · intro id
        have h := byId_update t picked.contains (claim_keepsKeys workerId now)
          (claim_id workerId now) id
        simpa using h
  · cases h

/-- A pending job can be claimed as soon as it is available. -/
theorem exists_dequeue (workerId : Str) {t : Jobs} {id : UUID} {row : IngestionJobModel}
    (hrow : t.byId id = some row) (hpending : row.status = .pending) :
    ∃ t', dequeue workerId 1 [id] row.availableAt t = some ([row.toJob], t') := by
  unfold dequeue
  simp only [List.filterMap_cons, hrow, List.filterMap_nil]
  rw [if_pos]
  · exact ⟨_, rfl⟩
  · simp [claimable, hpending]

/-- `enqueue` either finds the version enqueued already and changes nothing, or adds one
    pending row under a new id. -/
theorem enqueue_ok {id tenantId documentId collectionId : UUID} {version maxAttempts : Nat}
    {now : Instant} {t t' : Jobs}
    (h : enqueue id tenantId documentId collectionId version maxAttempts now t = .ok t') :
    (t' = t ∧ ∃ row ∈ t.rows, row.documentId = documentId ∧ row.documentVersion = version) ∨
      ((∀ row ∈ t.rows, row.documentId = documentId → row.documentVersion ≠ version) ∧
        t.insert (newRow id tenantId documentId collectionId version maxAttempts now) =
          some t') := by
  unfold enqueue at h
  split at h
  · next hany =>
      cases h
      simp only [List.any_eq_true, Bool.and_eq_true, beq_iff_eq] at hany
      exact .inl ⟨rfl, hany⟩
  · next hany =>
      right
      constructor
      · intro row hrow hd hv
        exact hany (List.any_eq_true.mpr ⟨row, hrow, by simp [hd, hv]⟩)
      · cases hins : t.insert (newRow id tenantId documentId collectionId version maxAttempts now)
          with
        | none => simp [hins] at h
        | some t₁ => simpa [hins] using h

theorem byId_insert {t t' : Jobs} {row : IngestionJobModel} (h : t.insert row = some t')
    (id : UUID) : t'.byId id = if row.id = id then some row else t.byId id :=
  Table.lookup_insert (fun _ _ h => .inl h) h

/-- A new row goes under an id that no row had. -/
theorem byId_of_insert {t t' : Jobs} {row : IngestionJobModel} (h : t.insert row = some t') :
    t.byId row.id = none := by
  refine Table.lookup_eq_none.mpr ?_
  intro a ha hid
  exact Table.not_clash_of_insert h a ha (.inl hid)

end SqlAlchemyJobQueue

/-! ## What a job is about stays -/

namespace Jobs.SameSubjects

variable {t t₁ t₂ : Jobs}

theorem refl (t : Jobs) : t.SameSubjects t := fun _ => rfl

theorem trans (h : t.SameSubjects t₁) (h' : t₁.SameSubjects t₂) : t.SameSubjects t₂ :=
  fun id => (h' id).trans (h id)

/-- Every row was there before. -/
theorem old (h : t.SameSubjects t₁) {id : UUID} {row : IngestionJobModel}
    (hrow : t₁.byId id = some row) : ∃ old, t.byId id = some old ∧ row.subject = old.subject := by
  have hsubject := h id
  rw [hrow] at hsubject
  obtain ⟨old, hold, heq⟩ := Option.map_eq_some_iff.mp hsubject.symm
  exact ⟨old, hold, heq.symm⟩

end Jobs.SameSubjects

namespace SqlAlchemyJobQueue

theorem sameSubjects_of_byId {t t' : Jobs} {q : UUID → Prop} [DecidablePred q]
    {f : IngestionJobModel → IngestionJobModel}
    (h : ∀ id, t'.byId id = if q id then (t.byId id).map f else t.byId id)
    (hf : ∀ row, (f row).subject = row.subject) : t.SameSubjects t' := by
  intro id
  rw [h]
  split
  · rw [Option.map_map]
    exact congrArg (Option.map · (t.byId id)) (funext hf)
  · rfl

theorem sameSubjects_complete (job : IngestionJob) (now : Instant) (t : Jobs) :
    t.SameSubjects (complete job now t) :=
  sameSubjects_of_byId (complete_byId job now t) fun _ => rfl

theorem sameSubjects_fail (job : IngestionJob) (error : Str) (now : Instant) (t : Jobs) :
    t.SameSubjects (fail job error now t).2 := by
  refine sameSubjects_of_byId (fail_byId job error now t) ?_
  intro row
  unfold failed
  split <;> rfl

theorem sameSubjects_dequeue {workerId : Str} {batchSize : Nat} {picked : List UUID}
    {now : Instant} {t t' : Jobs} {jobs : List IngestionJob}
    (h : dequeue workerId batchSize picked now t = some (jobs, t')) : t.SameSubjects t' := by
  obtain ⟨-, -, -, hrows⟩ := dequeue_eq_some h
  exact sameSubjects_of_byId hrows fun _ => rfl

end SqlAlchemyJobQueue

end Eka
