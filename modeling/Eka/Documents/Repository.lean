import Eka.Documents.Document
import Eka.Lib.Table

/-!
# The documents table

`documents/infrastructure/models.py` and `documents/infrastructure/repository.py`.
A row is written by `_apply` from an aggregate and read back by `_to_domain`, so
its text columns are kept as the value objects they hold. A transaction is the
`SELECT` that loads the row into the session and the flush at the commit, which
writes back the columns whose value changed in the session and nothing else.
-/

namespace Eka

open Py Relational

/-- `DocumentModel` (`models.py:19-37`). -/
structure DocumentModel where
  id : UUID
  tenantId : UUID
  collectionId : UUID
  title : Title
  sourceType : SourceType
  sourceUri : Str
  contentHash : ContentHash
  status : DocumentStatus
  version : Nat
  createdAt : Instant
  updatedAt : Instant
  deriving DecidableEq, Repr

/-- The primary key and `uq_documents_tenant_hash` (`models.py:21-22`); the latter does not
    look at the status. -/
def DocumentModel.Clash (a b : DocumentModel) : Prop :=
  a.id = b.id ∨ (a.tenantId = b.tenantId ∧ a.contentHash = b.contentHash)

instance : DecidableRel DocumentModel.Clash := fun _ _ => inferInstanceAs (Decidable (_ ∨ _))

abbrev Documents := Table DocumentModel DocumentModel.Clash

/-- `_to_domain` (`repository.py:22-35`). -/
def DocumentModel.toDomain (model : DocumentModel) : Document where
  id := model.id
  tenantId := model.tenantId
  collectionId := model.collectionId
  title := model.title
  sourceType := model.sourceType
  sourceUri := model.sourceUri
  contentHash := model.contentHash
  status := model.status
  version := model.version
  createdAt := model.createdAt
  updatedAt := model.updatedAt
  events := []

/-- `DocumentModel(id=document.id)` after `_apply` (`repository.py:38-48`). -/
def DocumentModel.ofDomain (doc : Document) : DocumentModel where
  id := doc.id
  tenantId := doc.tenantId
  collectionId := doc.collectionId
  title := doc.title
  sourceType := doc.sourceType
  sourceUri := doc.sourceUri
  contentHash := doc.contentHash
  status := doc.status
  version := doc.version
  createdAt := doc.createdAt
  updatedAt := doc.updatedAt

/-- What a `varchar(n)` column stores for `s`: no NUL, and a longer text is refused unless
    the excess is spaces only, which are cut. -/
def varchar (n : Nat) (s : Str) : Option Str :=
  if '\x00' ∈ s then none
  else if s.length ≤ n then some s
  else if (s.drop n).all (· == ' ') then some (s.take n) else none

/-- The row as the columns of `documents` store it (`models.py:27-37`); a title or hash that
    does not go in unchanged is refused, since neither ends in a space. -/
def DocumentModel.fitColumns (row : DocumentModel) : Option DocumentModel :=
  if varchar 512 row.title.value = some row.title.value ∧
      varchar 64 row.contentHash.value = some row.contentHash.value then
    (varchar 2048 row.sourceUri).map fun uri => { row with sourceUri := uri }
  else none

theorem varchar_eq_self {n : Nat} {s : Str} (hnul : '\x00' ∉ s) (hlen : s.length ≤ n) :
    varchar n s = some s := by
  unfold varchar
  rw [if_neg hnul, if_pos hlen]

theorem not_mem_of_varchar {n : Nat} {s : Str} (h : varchar n s = some s) : '\x00' ∉ s := by
  intro hmem
  unfold varchar at h
  rw [if_pos hmem] at h
  cases h

/-- The hash goes into its column unless it ends in the newline that the pattern lets by. -/
theorem ContentHash.varchar_iff (hash : ContentHash) :
    varchar 64 hash.value = some hash.value ↔ hash.value.length = 64 := by
  obtain ⟨value, wellFormed⟩ := hash
  simp only [sha256Re, Bool.and_eq_true, beq_iff_eq, Bool.or_eq_true] at wellFormed ⊢
  obtain ⟨⟨htake, hhex⟩, hdrop⟩ := wellFormed
  have happend := List.take_append_drop 64 value
  have hlength : 64 + (value.drop 64).length = value.length := by
    rw [← congrArg List.length happend, List.length_append, htake]
  rcases hdrop with hdrop | hdrop
  · rw [hdrop, List.length_nil] at hlength
    rw [hdrop, List.append_nil] at happend
    refine iff_of_true (varchar_eq_self ?_ hlength.symm.le) hlength.symm
    intro hnul
    rw [happend] at hhex
    exact absurd (List.all_eq_true.mp hhex _ hnul) (by decide)
  · rw [hdrop, List.length_singleton] at hlength
    refine iff_of_false ?_ (by omega)
    unfold varchar
    rw [if_neg (show ¬ value.length ≤ 64 by omega), hdrop]
    split <;> simp

/-- A new document goes into its columns exactly when its texts do. -/
theorem DocumentModel.fitColumns_ofDomain (doc : Document) :
    (DocumentModel.ofDomain doc).fitColumns.isSome ↔ '\x00' ∉ doc.title.value ∧
      doc.contentHash.value.length = 64 ∧ (varchar 2048 doc.sourceUri).isSome := by
  have htitle : varchar 512 doc.title.value = some doc.title.value ↔
      '\x00' ∉ doc.title.value :=
    ⟨not_mem_of_varchar, fun hnul => varchar_eq_self hnul doc.title.short⟩
  unfold fitColumns
  show (if varchar 512 doc.title.value = some doc.title.value ∧
      varchar 64 doc.contentHash.value = some doc.contentHash.value then
        (varchar 2048 doc.sourceUri).map fun uri => { ofDomain doc with sourceUri := uri }
      else none).isSome = true ↔ _
  simp only [htitle, doc.contentHash.varchar_iff]
  by_cases hnul : '\x00' ∈ doc.title.value
  · simp [hnul]
  · by_cases hlength : doc.contentHash.value.length = 64
    · simp [hnul, hlength]
    · simp [hlength]

/-- One column of the flush: written only when the session changed its value. -/
def flushColumn {α : Type} [DecidableEq α] (loaded new stored : α) : α :=
  if new = loaded then stored else new

@[simp] theorem flushColumn_self {α : Type} [DecidableEq α] (loaded stored : α) :
    flushColumn loaded loaded stored = stored := if_pos rfl

/-- The `UPDATE` of the flush on the stored row, for a session that loaded `loaded` and holds
    `new` at the commit. -/
def DocumentModel.flush (loaded new row : DocumentModel) : DocumentModel where
  id := row.id
  tenantId := flushColumn loaded.tenantId new.tenantId row.tenantId
  collectionId := flushColumn loaded.collectionId new.collectionId row.collectionId
  title := flushColumn loaded.title new.title row.title
  sourceType := flushColumn loaded.sourceType new.sourceType row.sourceType
  sourceUri := flushColumn loaded.sourceUri new.sourceUri row.sourceUri
  contentHash := flushColumn loaded.contentHash new.contentHash row.contentHash
  status := flushColumn loaded.status new.status row.status
  version := flushColumn loaded.version new.version row.version
  createdAt := flushColumn loaded.createdAt new.createdAt row.createdAt
  updatedAt := flushColumn loaded.updatedAt new.updatedAt row.updatedAt

namespace Documents

/-- The `SELECT` of `get` (`repository.py:69-74`). -/
def select (tenantId documentId : UUID) (t : Documents) : Option DocumentModel :=
  t.find? fun r => r.id == documentId && r.tenantId == tenantId && r.status != .deleted

/-- `get` (`repository.py:68-75`). -/
def get (tenantId documentId : UUID) (t : Documents) : Option Document :=
  (select tenantId documentId t).map DocumentModel.toDomain

/-- `find_by_content_hash` (`repository.py:77-86`). -/
def findByContentHash (tenantId : UUID) (contentHash : ContentHash) (t : Documents) :
    Option Document :=
  (t.find? fun r => r.tenantId == tenantId && r.contentHash == contentHash &&
    r.status != .deleted).map DocumentModel.toDomain

/-- `add` and the commit of its session (`repository.py:55-58`). -/
def addCommit (doc : Document) (t : Documents) : Except Error Documents :=
  match (DocumentModel.ofDomain doc).fitColumns with
  | none => .error .dataError
  | some row =>
      match t.insert row with
      | none => .error .integrityError
      | some t' => .ok t'

/-- `save` and the commit of the session that had loaded `loaded` (`repository.py:60-66`):
    the identity map holds the row weakly, so `session.get` may well read it again. A save differs
    from either row in the columns that any save writes, the status and the time of the update, so
    the flush comes to the same. The `UPDATE` finds its row by the primary key alone. -/
def saveCommit (loaded : DocumentModel) (doc : Document) (t : Documents) :
    Except Error Documents :=
  match t.update? (fun r => r.id == doc.id) (DocumentModel.flush loaded (.ofDomain doc)) with
  | none => .error .integrityError
  | some t' => .ok t'

/-! ## Lookups -/

theorem select_eq_some {tenantId documentId : UUID} {t : Documents} {row : DocumentModel} :
    select tenantId documentId t = some row ↔
      row ∈ t.rows ∧ row.id = documentId ∧ row.tenantId = tenantId ∧ row.status ≠ .deleted := by
  unfold select
  rw [Table.find?_eq_some_iff]
  · simp [and_assoc]
  · intro a b ha hb
    simp only [Bool.and_eq_true, beq_iff_eq] at ha hb
    exact .inl (ha.1.1.trans hb.1.1.symm)

theorem select_eq_none {tenantId documentId : UUID} {t : Documents} :
    select tenantId documentId t = none ↔
      ∀ row ∈ t.rows, row.id = documentId → row.tenantId = tenantId → row.status = .deleted := by
  unfold select
  rw [Table.find?_eq_none_iff]
  refine forall₂_congr fun row _ => ?_
  by_cases hid : row.id = documentId <;> by_cases ht : row.tenantId = tenantId <;> simp [hid, ht]

theorem findByContentHash_eq_some {tenantId : UUID} {contentHash : ContentHash} {t : Documents}
    {doc : Document} :
    findByContentHash tenantId contentHash t = some doc ↔
      ∃ row ∈ t.rows, row.tenantId = tenantId ∧ row.contentHash = contentHash ∧
        row.status ≠ .deleted ∧ row.toDomain = doc := by
  unfold findByContentHash
  have unique : ∀ a b : DocumentModel,
      (a.tenantId == tenantId && a.contentHash == contentHash && a.status != .deleted) = true →
      (b.tenantId == tenantId && b.contentHash == contentHash && b.status != .deleted) = true →
      DocumentModel.Clash a b := by
    intro a b ha hb
    simp only [Bool.and_eq_true, beq_iff_eq] at ha hb
    exact .inr ⟨ha.1.1.trans hb.1.1.symm, ha.1.2.trans hb.1.2.symm⟩
  rw [Option.map_eq_some_iff]
  simp only [Table.find?_eq_some_iff unique]
  constructor
  · rintro ⟨row, ⟨hrow, hp⟩, rfl⟩
    simp only [Bool.and_eq_true, beq_iff_eq, bne_iff_ne] at hp
    exact ⟨row, hrow, hp.1.1, hp.1.2, hp.2, rfl⟩
  · rintro ⟨row, hrow, ht, hh, hs, rfl⟩
    exact ⟨row, ⟨hrow, by simp [ht, hh, hs]⟩, rfl⟩

theorem findByContentHash_eq_none {tenantId : UUID} {contentHash : ContentHash} {t : Documents} :
    findByContentHash tenantId contentHash t = none ↔
      ∀ row ∈ t.rows, row.tenantId = tenantId → row.contentHash = contentHash →
        row.status = .deleted := by
  unfold findByContentHash
  rw [Option.map_eq_none_iff, Table.find?_eq_none_iff]
  refine forall₂_congr fun row _ => ?_
  by_cases ht : row.tenantId = tenantId <;> by_cases hh : row.contentHash = contentHash <;>
    simp [ht, hh]

/-- Two stored rows with one id are one row. -/
theorem eq_of_id (t : Documents) {a b : DocumentModel} (ha : a ∈ t.rows) (hb : b ∈ t.rows)
    (h : a.id = b.id) : a = b :=
  t.eq_of_clash ha hb (.inl h) (.inl h.symm)

/-- Two stored rows of one tenant with one content hash are one row, deleted or not. -/
theorem eq_of_contentHash (t : Documents) {a b : DocumentModel} (ha : a ∈ t.rows)
    (hb : b ∈ t.rows) (ht : a.tenantId = b.tenantId) (hh : a.contentHash = b.contentHash) :
    a = b :=
  t.eq_of_clash ha hb (.inr ⟨ht, hh⟩) (.inr ⟨ht.symm, hh.symm⟩)

/-! ## Commits -/

theorem fitColumns_some {row row' : DocumentModel} (h : row.fitColumns = some row') :
    ∃ uri, varchar 2048 row.sourceUri = some uri ∧ row' = { row with sourceUri := uri } := by
  unfold DocumentModel.fitColumns at h
  split at h
  · obtain ⟨uri, huri, rfl⟩ := Option.map_eq_some_iff.mp h
    exact ⟨uri, huri, rfl⟩
  · cases h

theorem addCommit_ok {doc : Document} {t t' : Documents} (h : addCommit doc t = .ok t') :
    ∃ uri, varchar 2048 doc.sourceUri = some uri ∧
      t.insert { DocumentModel.ofDomain doc with sourceUri := uri } = some t' := by
  unfold addCommit at h
  cases hfit : (DocumentModel.ofDomain doc).fitColumns with
  | none => simp [hfit] at h
  | some row =>
      obtain ⟨uri, huri, rfl⟩ := fitColumns_some hfit
      rw [hfit] at h
      cases hins : t.insert { DocumentModel.ofDomain doc with sourceUri := uri } with
      | none => simp [hins] at h
      | some t₁ =>
          simp only [hins, Except.ok.injEq] at h
          subst h
          exact ⟨uri, huri, hins⟩

/-- A session that loaded a row and is about to save it moved to `target` along an allowed
    transition, and otherwise unchanged: the transactions of the lifecycle service and of the
    delete command. -/
structure Saves (loaded : DocumentModel) (doc : Document) (target : DocumentStatus) : Prop where
  allowed : target ∈ allowedTransitions loaded.status
  moved : ∃ now events, doc =
    { loaded.toDomain with status := target, updatedAt := now, events := events }

/-- The row after the flush of a session that moved the document to `status` at `now`. -/
def moveTo (loaded : DocumentModel) (status : DocumentStatus) (now : Instant)
    (row : DocumentModel) : DocumentModel :=
  { row with
    status := flushColumn loaded.status status row.status
    updatedAt := flushColumn loaded.updatedAt now row.updatedAt }

theorem flush_statusChange (loaded row : DocumentModel) (status : DocumentStatus) (now : Instant)
    (events : List DomainEvent) :
    DocumentModel.flush loaded (.ofDomain
      { loaded.toDomain with status := status, updatedAt := now, events := events }) row =
      moveTo loaded status now row := by
  simp [DocumentModel.flush, moveTo, DocumentModel.ofDomain, DocumentModel.toDomain]

theorem moveTo_keepsKeys (loaded : DocumentModel) (status : DocumentStatus) (now : Instant) :
    KeepsKeys DocumentModel.Clash (moveTo loaded status now) :=
  ⟨fun _ _ => Iff.rfl, fun _ _ => Iff.rfl⟩

/-- The spec of the commit of a status change: one `UPDATE` by primary key, which always
    succeeds, whatever has become of the row since it was read. -/
theorem saveCommit_statusChange (loaded : DocumentModel) (status : DocumentStatus)
    (now : Instant) (events : List DomainEvent) (t : Documents) :
    saveCommit loaded
      { loaded.toDomain with status := status, updatedAt := now, events := events } t =
      .ok (t.update (fun r => r.id == loaded.id) (moveTo loaded status now)
        (moveTo_keepsKeys loaded status now)) := by
  unfold saveCommit
  have hflush : DocumentModel.flush loaded (.ofDomain
      { loaded.toDomain with status := status, updatedAt := now, events := events }) =
      moveTo loaded status now :=
    funext fun row => flush_statusChange loaded row status now events
  rw [hflush, Table.update?_eq_update (moveTo_keepsKeys loaded status now)]
  rfl

/-! ## The row of a document -/

/-- The row with this id, deleted or not. -/
def byId (t : Documents) (id : UUID) : Option DocumentModel := t.lookup DocumentModel.id id

theorem byId_eq_some {t : Documents} {id : UUID} {row : DocumentModel} :
    t.byId id = some row ↔ row ∈ t.rows ∧ row.id = id :=
  Table.lookup_eq_some fun _ _ h => .inl h

theorem byId_of_mem {t : Documents} {row : DocumentModel} (h : row ∈ t.rows) :
    t.byId row.id = some row :=
  byId_eq_some.mpr ⟨h, rfl⟩

@[simp] theorem byId_empty (id : UUID) : byId Table.empty id = none := rfl

theorem select_eq_some_byId {tenantId documentId : UUID} {t : Documents} {row : DocumentModel} :
    select tenantId documentId t = some row ↔
      t.byId documentId = some row ∧ row.tenantId = tenantId ∧ row.status ≠ .deleted := by
  rw [select_eq_some, byId_eq_some]
  simp [and_assoc]

theorem byId_insert {t t' : Documents} {row : DocumentModel} (h : t.insert row = some t')
    (id : UUID) : byId t' id = if row.id = id then some row else t.byId id :=
  Table.lookup_insert (fun _ _ h => .inl h) h

theorem byId_of_insert {t t' : Documents} {row : DocumentModel} (h : t.insert row = some t') :
    t.byId row.id = none :=
  Table.lookup_eq_none.mpr fun a ha hid => Table.not_clash_of_insert h a ha (.inl hid)

theorem moveTo_status {loaded : DocumentModel} {status : DocumentStatus}
    (h : status ≠ loaded.status) (now : Instant) (row : DocumentModel) :
    (moveTo loaded status now row).status = status := if_neg h

/-- The spec of the commit of a status change, row by row. -/
theorem Saves.saveCommit {loaded : DocumentModel} {doc : Document} {target : DocumentStatus}
    (h : Saves loaded doc target) (t : Documents) :
    ∃ now t', Documents.saveCommit loaded doc t = .ok t' ∧ ∀ id, byId t' id =
      if id = loaded.id then (t.byId id).map (moveTo loaded target now) else t.byId id := by
  obtain ⟨now, events, rfl⟩ := h.moved
  refine ⟨now, _, saveCommit_statusChange loaded target now events t, ?_⟩
  intro id
  have hlook := Table.lookup_update_key (t := t) (k := id) (q := (· == loaded.id))
    DocumentModel.id (moveTo_keepsKeys loaded target now) fun _ => rfl
  simp only [beq_iff_eq] at hlook
  exact hlook

theorem Saves.ne {loaded : DocumentModel} {doc : Document} {target : DocumentStatus}
    (h : Saves loaded doc target) : target ≠ loaded.status := by
  rintro rfl
  exact not_mem_allowedTransitions_self _ h.allowed

end Documents

end Eka
