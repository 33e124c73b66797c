import Eka.Documents.Repository

/-!
# Document commands and lifecycle

`documents/application/commands.py` and `documents/application/lifecycle.py`. Every
handler is one unit of work: a read of the row, a change of the aggregate in
memory, and a commit. The read part and the commit are functions of their own, so
that a concurrent run can put other transactions between them; `handle` is the two
in a row.
-/

namespace Eka

open Py Relational

/-- `DocumentDTO` (`documents/application/dto.py:15-43`). -/
structure DocumentDTO where
  id : UUID
  tenantId : UUID
  collectionId : UUID
  title : Str
  sourceType : Str
  sourceUri : Str
  contentHash : Str
  status : Str
  version : Nat
  createdAt : Instant
  updatedAt : Instant
  deriving DecidableEq, Repr

/-- `from_aggregate` (`dto.py:28-43`). -/
def DocumentDTO.fromAggregate (doc : Document) : DocumentDTO where
  id := doc.id
  tenantId := doc.tenantId
  collectionId := doc.collectionId
  title := doc.title.value
  sourceType := doc.sourceType.value
  sourceUri := doc.sourceUri
  contentHash := doc.contentHash.value
  status := doc.status.value
  version := doc.version
  createdAt := doc.createdAt
  updatedAt := doc.updatedAt

/-! ## Registration -/

/-- `RegisterDocumentCommand` (`commands.py:24-31`). -/
structure RegisterDocumentCommand where
  tenantId : UUID
  collectionId : UUID
  title : Str
  sourceType : Str
  sourceUri : Str
  contentHash : Str
  deriving DecidableEq, Repr

namespace RegisterDocumentHandler

/-- The new aggregate (`commands.py:46-53`): the title is checked before the source type. -/
def build (command : RegisterDocumentCommand) (contentHash : ContentHash) (id : UUID)
    (now : Instant) : Except Error Document := do
  let title ← Title.make command.title
  let sourceType ← SourceType.ofValue command.sourceType
  return .register id now command.tenantId command.collectionId title sourceType
    command.sourceUri contentHash

/-- `handle` up to `documents.add` (`commands.py:37-53`): the existing document, or the new
    aggregate that is about to be added. -/
def lookup (command : RegisterDocumentCommand) (id : UUID) (now : Instant) (t : Documents) :
    Except Error (DocumentDTO ⊕ Document) := do
  let contentHash ← ContentHash.make command.contentHash
  match Documents.findByContentHash command.tenantId contentHash t with
  | some existing => return .inl (.fromAggregate existing)
  | none => return .inr (← build command contentHash id now)

/-- `handle` (`commands.py:37-56`). -/
def handle (command : RegisterDocumentCommand) (id : UUID) (now : Instant) (t : Documents) :
    Except Error DocumentDTO × Documents :=
  match lookup command id now t with
  | .error e => (.error e, t)
  | .ok (.inl existing) => (.ok existing, t)
  | .ok (.inr document) =>
      match Documents.addCommit document t with
      | .error e => (.error e, t)
      | .ok t' => (.ok (.fromAggregate document), t')

end RegisterDocumentHandler

/-! ## Deletion -/

/-- `DeleteDocumentCommand` (`commands.py:59-62`). -/
structure DeleteDocumentCommand where
  tenantId : UUID
  documentId : UUID
  deriving DecidableEq, Repr

namespace DeleteDocumentHandler

/-- `handle` up to the commit (`commands.py:70-75`): the loaded row and the aggregate to
    save. -/
def read (command : DeleteDocumentCommand) (now : Instant) (t : Documents) :
    Except Error (DocumentModel × Document) :=
  match Documents.select command.tenantId command.documentId t with
  | none => .error (.notFoundError "document not found".toList)
  | some row => (row.toDomain.delete now).map fun document => (row, document)

/-- `handle` (`commands.py:69-76`). -/
def handle (command : DeleteDocumentCommand) (now : Instant) (t : Documents) :
    Except Error Unit × Documents :=
  match read command now t with
  | .error e => (.error e, t)
  | .ok (loaded, document) =>
      match Documents.saveCommit loaded document t with
      | .error e => (.error e, t)
      | .ok t' => (.ok (), t')

end DeleteDocumentHandler

/-! ## Lifecycle -/

/-- The actions that `_transition` is called with (`lifecycle.py:30-37`). -/
inductive LifecycleAction where
  | markIngesting
  | markIndexed
  | markFailed
  deriving DecidableEq, Repr

/-- The status an action moves to. -/
def LifecycleAction.target : LifecycleAction → DocumentStatus
  | .markIngesting => .ingesting
  | .markIndexed => .indexed
  | .markFailed => .failed

/-- `getattr(document, action)()`. -/
def LifecycleAction.apply : LifecycleAction → Instant → Document → Except Error Document
  | .markIngesting => Document.markIngesting
  | .markIndexed => Document.markIndexed
  | .markFailed => Document.markFailed

namespace DocumentLifecycleService

/-- `_transition` up to the commit (`lifecycle.py:22-27`). -/
def read (action : LifecycleAction) (tenantId documentId : UUID) (now : Instant)
    (t : Documents) : Except Error (DocumentModel × Document) :=
  match Documents.select tenantId documentId t with
  | none => .error (.notFoundError "document not found".toList)
  | some row => (action.apply now row.toDomain).map fun document => (row, document)

end DocumentLifecycleService

/-! ## What the transactions read and write -/

theorem LifecycleAction.apply_eq (action : LifecycleAction) :
    action.apply = Document.transition action.target := by
  cases action <;> rfl

/-- What a lifecycle transaction holds after its read: a live row, and the aggregate moved
    along an allowed transition. -/
theorem DocumentLifecycleService.read_ok {action : LifecycleAction} {tenantId documentId : UUID}
    {now : Instant} {t : Documents} {loaded : DocumentModel} {doc : Document}
    (h : read action tenantId documentId now t = .ok (loaded, doc)) :
    loaded ∈ t.rows ∧ loaded.id = documentId ∧ loaded.tenantId = tenantId ∧
      loaded.status ≠ .deleted ∧ action.target ∈ allowedTransitions loaded.status ∧
      doc = { loaded.toDomain with status := action.target, updatedAt := now } := by
  unfold read at h
  cases hsel : Documents.select tenantId documentId t with
  | none => simp [hsel] at h
  | some row =>
      obtain ⟨hrow, hid, ht, hlive⟩ := Documents.select_eq_some.mp hsel
      rw [hsel, LifecycleAction.apply_eq] at h
      cases happly : row.toDomain.transition action.target now with
      | error e => simp [happly, Except.map] at h
      | ok doc' =>
          simp only [happly, Except.map, Except.ok.injEq, Prod.mk.injEq] at h
          obtain ⟨rfl, rfl⟩ := h
          obtain ⟨hmem, hdoc⟩ := Document.transition_ok happly
          exact ⟨hrow, hid, ht, hlive, hmem, hdoc⟩

theorem DocumentLifecycleService.read_of_mem {action : LifecycleAction} {now : Instant}
    {t : Documents} {row : DocumentModel} (hrow : row ∈ t.rows)
    (hmem : action.target ∈ allowedTransitions row.status) :
    read action row.tenantId row.id now t =
      .ok (row, { row.toDomain with status := action.target, updatedAt := now }) := by
  have hlive : row.status ≠ .deleted := by
    intro hs
    rw [hs] at hmem
    cases hmem
  have hsel : Documents.select row.tenantId row.id t = some row :=
    Documents.select_eq_some.mpr ⟨hrow, rfl, rfl, hlive⟩
  unfold read
  rw [hsel, LifecycleAction.apply_eq]
  simp only [@Document.transition_of_mem _ _ row.toDomain hmem, Except.map]

/-- An action that the state machine does not allow raises, and so does one on a deleted
    document, which the read does not find. -/
theorem DocumentLifecycleService.read_of_not_mem {action : LifecycleAction} {now : Instant}
    {t : Documents} {row : DocumentModel} (hrow : row ∈ t.rows)
    (hmem : action.target ∉ allowedTransitions row.status) :
    ∃ e, read action row.tenantId row.id now t = .error e := by
  cases hread : read action row.tenantId row.id now t with
  | error e => exact ⟨e, rfl⟩
  | ok r =>
      obtain ⟨loaded, doc⟩ := r
      obtain ⟨hl, hid, -, -, hm, -⟩ := read_ok hread
      rw [Documents.eq_of_id t hl hrow hid] at hm
      exact absurd hm hmem

/-- What a delete transaction holds after its read. -/
theorem DeleteDocumentHandler.read_ok {command : DeleteDocumentCommand} {now : Instant}
    {t : Documents} {loaded : DocumentModel} {doc : Document}
    (h : read command now t = .ok (loaded, doc)) :
    loaded ∈ t.rows ∧ loaded.id = command.documentId ∧ loaded.tenantId = command.tenantId ∧
      loaded.status ≠ .deleted ∧
      doc = { loaded.toDomain with
        status := .deleted
        updatedAt := now
        events := [.documentDeleted loaded.id loaded.tenantId] } := by
  unfold read at h
  cases hsel : Documents.select command.tenantId command.documentId t with
  | none => simp [hsel] at h
  | some row =>
      obtain ⟨hrow, hid, ht, hlive⟩ := Documents.select_eq_some.mp hsel
      have hdel := @Document.delete_live now row.toDomain hlive
      simp only [hsel, hdel, Except.map, Except.ok.injEq, Prod.mk.injEq] at h
      obtain ⟨rfl, rfl⟩ := h
      exact ⟨hrow, hid, ht, hlive, rfl⟩

theorem DocumentLifecycleService.read_saves {action : LifecycleAction}
    {tenantId documentId : UUID} {now : Instant} {t : Documents} {loaded : DocumentModel}
    {doc : Document} (h : read action tenantId documentId now t = .ok (loaded, doc)) :
    t.byId documentId = some loaded ∧ loaded.id = documentId ∧ loaded.tenantId = tenantId ∧
      Documents.Saves loaded doc action.target := by
  obtain ⟨hmem, hid, ht, -, hallowed, hdoc⟩ := read_ok h
  exact ⟨Documents.byId_eq_some.mpr ⟨hmem, hid⟩, hid, ht, hallowed, now, [], hdoc⟩

theorem DeleteDocumentHandler.read_saves {command : DeleteDocumentCommand} {now : Instant}
    {t : Documents} {loaded : DocumentModel} {doc : Document}
    (h : read command now t = .ok (loaded, doc)) :
    t.byId command.documentId = some loaded ∧ loaded.id = command.documentId ∧
      loaded.tenantId = command.tenantId ∧ Documents.Saves loaded doc .deleted := by
  obtain ⟨hmem, hid, ht, hlive, hdoc⟩ := read_ok h
  have hallowed : DocumentStatus.deleted ∈ allowedTransitions loaded.status := by
    cases hs : loaded.status with
    | deleted => exact absurd hs hlive
    | registered => decide
    | ingesting => decide
    | indexed => decide
    | failed => decide
  exact ⟨Documents.byId_eq_some.mpr ⟨hmem, hid⟩, hid, ht, hallowed, now, _, hdoc⟩

end Eka
