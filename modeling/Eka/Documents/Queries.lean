import Eka.Documents.Commands
import Eka.Lib.Select
import Eka.Shared.Pagination

/-!
# Document queries

`documents/application/queries.py` and the `list` of `documents/infrastructure/repository.py`.
Every query leaves out the documents of other tenants and the deleted ones.
-/

namespace Eka

open Py Relational

/-- The columns named in `_SORTABLE` (`repository.py:19`). -/
inductive SortColumn where
  | createdAt
  | updatedAt
  | title
  | status
  deriving DecidableEq, Repr

/-- A field of a request, when it is in `_SORTABLE`. -/
def SortColumn.ofField (field : Str) : Option SortColumn :=
  if field = "created_at".toList then some .createdAt
  else if field = "updated_at".toList then some .updatedAt
  else if field = "title".toList then some .title
  else if field = "status".toList then some .status
  else none

/-- `a <= b` on a column; texts compare under the collation of the database. -/
def SortColumn.le (collate : Str → Str → Bool) (column : SortColumn) (a b : DocumentModel) :
    Bool :=
  match column with
  | .createdAt => a.createdAt ≤ b.createdAt
  | .updatedAt => a.updatedAt ≤ b.updatedAt
  | .title => collate a.title.value b.title.value
  | .status => collate a.status.value b.status.value

namespace Documents

/-- The conditions of `list` (`repository.py:94-99`). -/
def listed (tenantId : UUID) (collectionId : Option UUID) (row : DocumentModel) : Bool :=
  row.tenantId == tenantId && row.status != .deleted &&
    match collectionId with
    | none => true
    | some collectionId => row.collectionId == collectionId

/-- The column and the direction of `list` (`repository.py:107-112`). -/
def order (collate : Str → Str → Bool) (sort : Option PageSort) (a b : DocumentModel) : Bool :=
  let (column, direction) :=
    match sort with
    | none => (SortColumn.createdAt, SortDirection.desc)
    | some sort =>
        match SortColumn.ofField sort.field with
        | none => (SortColumn.createdAt, SortDirection.desc)
        | some column => (column, sort.direction)
  match direction with
  | .asc => column.le collate a b
  | .desc => column.le collate b a

/-- `list` (`repository.py:87-127`). -/
def list (collate : Str → Str → Bool) (ties : Arrangement DocumentModel) (tenantId : UUID)
    (request : PageRequest) (collectionId : Option UUID) (t : Documents) : Page Document where
  items := (page request.limit request.offset
    (Relational.select ties (listed tenantId collectionId) (order collate request.sort) t.rows)).map
      DocumentModel.toDomain
  total := (t.rows.filter (listed tenantId collectionId)).length
  limit := request.limit
  offset := request.offset

/-- Only live documents of the tenant are listed. -/
theorem mem_list {collate : Str → Str → Bool} {ties : Arrangement DocumentModel} {tenantId : UUID}
    {request : PageRequest} {collectionId : Option UUID} {t : Documents} {document : Document}
    (h : document ∈ (list collate ties tenantId request collectionId t).items) :
    ∃ row ∈ t.rows, row.toDomain = document ∧ row.tenantId = tenantId ∧ row.status ≠ .deleted := by
  obtain ⟨row, hrow, rfl⟩ := List.mem_map.mp h
  obtain ⟨hmem, hlisted⟩ := mem_select.mp (mem_of_mem_page hrow)
  simp only [listed, Bool.and_eq_true, beq_iff_eq, bne_iff_ne] at hlisted
  exact ⟨row, hmem, rfl, hlisted.1.1, hlisted.1.2⟩

end Documents

/-! ## Handlers -/

/-- `GetDocumentHandler.handle` (`queries.py:29-33`). -/
def GetDocumentHandler.handle (tenantId documentId : UUID) (t : Documents) :
    Except Error DocumentDTO :=
  match Documents.get tenantId documentId t with
  | none => .error (.notFoundError "document not found".toList)
  | some document => .ok (.fromAggregate document)

/-- `ListDocumentsHandler.handle` (`queries.py:47-56`). -/
def ListDocumentsHandler.handle (collate : Str → Str → Bool) (ties : Arrangement DocumentModel)
    (tenantId : UUID) (request : PageRequest) (collectionId : Option UUID) (t : Documents) :
    Page DocumentDTO :=
  let page := Documents.list collate ties tenantId request collectionId t
  ⟨page.items.map .fromAggregate, page.total, page.limit, page.offset⟩

end Eka
