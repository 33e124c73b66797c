import Mathlib.Data.Rat.Init
import Eka.Ingestion.Chunking
import Eka.Ingestion.Queue
import Eka.Lib.Fallible

/-!
# Contents and chunks

`ingestion/domain/chunk.py`, `ingestion/domain/embedding.py`,
`ingestion/infrastructure/models.py` and `ingestion/infrastructure/repository.py`.
The contents table has one row per document; the chunks of a document are replaced
as a set. The column types refuse what Postgres refuses: a NUL in a text, a vector
of another dimension than `EMBEDDING_DIM`.
-/

namespace Eka

open Py Relational

/-- `Embedding` (`domain/embedding.py:18-28`). -/
structure Embedding where
  values : List ℚ
  nonempty : values ≠ []
  deriving DecidableEq

def Embedding.dimension (e : Embedding) : Nat := e.values.length

/-- `EmbeddingModel` (`domain/embedding.py:39-44`), on one text. -/
structure EmbeddingModel where
  dimension : Nat
  embedOne : Str → Embedding
  sized : ∀ text, (embedOne text).dimension = dimension

/-- `embed` (`infrastructure/embedding.py:32-33`). -/
def EmbeddingModel.embed (model : EmbeddingModel) (texts : List Str) : List Embedding :=
  texts.map model.embedOne

/-- `ChunkText` (`chunk.py:20-26`). -/
structure ChunkText where
  value : Str
  notBlank : strip value ≠ []
  deriving DecidableEq

def ChunkText.make (value : Str) : Except Error ChunkText :=
  if h : strip value = [] then .error (.validationError "chunk text must not be empty".toList)
  else .ok ⟨value, h⟩

/-- `Chunk` (`chunk.py:29-50`). Its ordinal is a natural number, so the check on it refuses
    nothing. -/
structure Chunk where
  id : UUID
  tenantId : UUID
  documentId : UUID
  collectionId : UUID
  documentVersion : Nat
  ordinal : Nat
  text : ChunkText
  embedding : Embedding
  deriving DecidableEq

/-- `Chunk.create` (`chunk.py:52-73`). -/
def Chunk.create (id tenantId documentId collectionId : UUID) (documentVersion ordinal : Nat)
    (text : Str) (embedding : Embedding) : Except Error Chunk :=
  (ChunkText.make text).map fun text =>
    ⟨id, tenantId, documentId, collectionId, documentVersion, ordinal, text, embedding⟩

/-! ## Tables -/

/-- What a `text` column stores. -/
structure Text where
  value : Str
  noNul : '\x00' ∉ value
  deriving DecidableEq

def Text.store (value : Str) : Except Error Text :=
  if h : '\x00' ∈ value then .error .dataError else .ok ⟨value, h⟩

/-- `EMBEDDING_DIM` (`models.py:30`). -/
def embeddingDim : Nat := 384

/-- What the `vector(384)` column stores. -/
structure StoredVector where
  embedding : Embedding
  sized : embedding.dimension = embeddingDim
  deriving DecidableEq

def StoredVector.store (embedding : Embedding) : Except Error StoredVector :=
  if h : embedding.dimension = embeddingDim then .ok ⟨embedding, h⟩ else .error .dataError

/-- `DocumentContentModel` (`models.py:33-40`). -/
structure DocumentContentModel where
  documentId : UUID
  tenantId : UUID
  text : Text
  createdAt : Instant
  updatedAt : Instant
  deriving DecidableEq

/-- The primary key. -/
def DocumentContentModel.Clash (a b : DocumentContentModel) : Prop := a.documentId = b.documentId

instance : DecidableRel DocumentContentModel.Clash := fun _ _ =>
  inferInstanceAs (Decidable (_ = _))

abbrev Contents := Table DocumentContentModel DocumentContentModel.Clash

/-- `ChunkModel` (`models.py:43-68`); `text_tsv` is computed from `text`. -/
structure ChunkModel where
  id : UUID
  tenantId : UUID
  documentId : UUID
  collectionId : UUID
  documentVersion : Nat
  ordinal : Nat
  text : Text
  embedding : StoredVector
  createdAt : Instant
  deriving DecidableEq

/-- The primary key and `uq_chunks_document_ordinal` (`models.py:45-46`). -/
def ChunkModel.Clash (a b : ChunkModel) : Prop :=
  a.id = b.id ∨ (a.documentId = b.documentId ∧ a.ordinal = b.ordinal)

instance : DecidableRel ChunkModel.Clash := fun _ _ => inferInstanceAs (Decidable (_ ∨ _))

abbrev Chunks := Table ChunkModel ChunkModel.Clash

/-- `_to_domain` (`repository.py:17-28`). -/
def ChunkModel.toDomain (model : ChunkModel) : Except Error Chunk :=
  (ChunkText.make model.text.value).map fun text =>
    ⟨model.id, model.tenantId, model.documentId, model.collectionId, model.documentVersion,
      model.ordinal, text, model.embedding.embedding⟩

/-- The row that is added for a chunk (`repository.py:40-50`), as its columns store it. -/
def ChunkModel.ofChunk (chunk : Chunk) (now : Instant) : Except Error ChunkModel := do
  let text ← Text.store chunk.text.value
  let embedding ← StoredVector.store chunk.embedding
  return ⟨chunk.id, chunk.tenantId, chunk.documentId, chunk.collectionId, chunk.documentVersion,
    chunk.ordinal, text, embedding, now⟩

namespace SqlAlchemyChunkRepository

/-- The `WHERE` of `delete_for_document` and `list_for_document` (`repository.py:57-61`). -/
def ofDocument (tenantId documentId : UUID) (row : ChunkModel) : Bool :=
  row.tenantId == tenantId && row.documentId == documentId

/-- `replace_for_document` and the commit of its session (`repository.py:36-53`): the old rows
    go when the statement runs, the new ones come with the flush, and both show at the
    commit. -/
def replaceForDocument (tenantId documentId : UUID) (chunks : List Chunk) (now : Instant)
    (t : Chunks) : Except Error Chunks := do
  let rows ← chunks.mapM fun chunk => ChunkModel.ofChunk chunk now
  match (t.deleteWhere (ofDocument tenantId documentId)).insertAll rows with
  | none => .error .integrityError
  | some t' => .ok t'

end SqlAlchemyChunkRepository

namespace SqlAlchemyContentStore

/-- The `DO UPDATE` of `put` (`repository.py:93-96`); the tenant of the row stays. -/
def overwrite (text : Text) (now : Instant) (row : DocumentContentModel) : DocumentContentModel :=
  { row with text := text, updatedAt := now }

theorem overwrite_keepsKeys (text : Text) (now : Instant) :
    KeepsKeys DocumentContentModel.Clash (overwrite text now) :=
  ⟨fun _ _ => Iff.rfl, fun _ _ => Iff.rfl⟩

/-- `put` and the commit of its session (`repository.py:82-97`): the conflict target is the
    document alone. -/
def put (tenantId documentId : UUID) (text : Str) (now : Instant) (t : Contents) :
    Except Error Contents := do
  let text ← Text.store text
  match t.insert ⟨documentId, tenantId, text, now, now⟩ with
  | some t' => return t'
  | none =>
      return (t.update (fun r => r.documentId == documentId) (overwrite text now)
        (overwrite_keepsKeys text now))

/-- `get` (`repository.py:99-109`). -/
def get (tenantId documentId : UUID) (t : Contents) : Option Text :=
  (t.find? fun r => r.documentId == documentId && r.tenantId == tenantId).map (·.text)

end SqlAlchemyContentStore

/-! ## Contents, by document -/

/-- The content row of a document. -/
def Contents.ofDocument (t : Contents) (documentId : UUID) : Option DocumentContentModel :=
  t.lookup DocumentContentModel.documentId documentId

theorem Text.store_ok {value : Str} {text : Text} :
    Text.store value = .ok text ↔ text.value = value := by
  unfold Text.store
  obtain ⟨v, hv⟩ := text
  split
  · next hnul =>
      constructor
      · intro h; cases h
      · rintro rfl; exact absurd hnul hv
  · constructor
    · intro h; cases h; rfl
    · rintro rfl; rfl

namespace SqlAlchemyContentStore

theorem ofDocument_eq_some {t : Contents} {documentId : UUID} {row : DocumentContentModel} :
    t.ofDocument documentId = some row ↔ row ∈ t.rows ∧ row.documentId = documentId :=
  Table.lookup_eq_some fun _ _ h => h

theorem get_eq_some {t : Contents} {tenantId documentId : UUID} {text : Text} :
    get tenantId documentId t = some text ↔
      ∃ row, t.ofDocument documentId = some row ∧ row.tenantId = tenantId ∧ row.text = text := by
  have unique : ∀ a b : DocumentContentModel,
      (a.documentId == documentId && a.tenantId == tenantId) = true →
      (b.documentId == documentId && b.tenantId == tenantId) = true →
      DocumentContentModel.Clash a b := by
    intro a b ha hb
    simp only [Bool.and_eq_true, beq_iff_eq] at ha hb
    exact ha.1.trans hb.1.symm
  unfold get
  rw [Option.map_eq_some_iff]
  simp only [Table.find?_eq_some_iff unique, ofDocument_eq_some, Bool.and_eq_true, beq_iff_eq]
  constructor
  · rintro ⟨row, ⟨hrow, hid, ht⟩, rfl⟩
    exact ⟨row, ⟨hrow, hid⟩, ht, rfl⟩
  · rintro ⟨row, ⟨hrow, hid⟩, ht, rfl⟩
    exact ⟨row, ⟨hrow, hid, ht⟩, rfl⟩

/-- The row of the document after a `put`: the new text, under the tenant that first stored
    one. -/
def upserted (tenantId documentId : UUID) (text : Text) (now : Instant) (t : Contents) :
    DocumentContentModel :=
  ((t.ofDocument documentId).map (overwrite text now)).getD ⟨documentId, tenantId, text, now, now⟩

theorem ofDocument_insert {t t' : Contents} {row : DocumentContentModel}
    (h : t.insert row = some t') (id : UUID) :
    Contents.ofDocument t' id = if row.documentId = id then some row else t.ofDocument id :=
  Table.lookup_insert (fun _ _ h => h) h

theorem ofDocument_update (t : Contents) (q : UUID → Bool) (text : Text) (now : Instant)
    (id : UUID) :
    Contents.ofDocument (t.update (fun r => q r.documentId) (overwrite text now)
        (overwrite_keepsKeys text now)) id =
      if q id then (t.ofDocument id).map (overwrite text now) else t.ofDocument id :=
  Table.lookup_update_key _ (overwrite_keepsKeys text now) fun _ => rfl

theorem put_ok {tenantId documentId : UUID} {text : Str} {now : Instant} {t t' : Contents}
    (h : put tenantId documentId text now t = .ok t') :
    ∃ stored, stored.value = text ∧ ∀ id, Contents.ofDocument t' id =
      if id = documentId then some (upserted tenantId documentId stored now t)
      else t.ofDocument id := by
  obtain ⟨stored, hstored, h⟩ := Fallible.bind_ok.mp h
  refine ⟨stored, Text.store_ok.mp hstored, ?_⟩
  intro id
  cases hins : t.insert ⟨documentId, tenantId, stored, now, now⟩ with
  | some t₁ =>
      simp only [hins, pure, Except.pure, Except.ok.injEq] at h
      subst h
      have hnone : t.ofDocument documentId = none :=
        Table.lookup_eq_none.mpr fun a ha => Table.not_clash_of_insert hins a ha
      rw [ofDocument_insert hins, upserted, hnone]
      by_cases hid : id = documentId
      · rw [if_pos hid.symm, if_pos hid]
        rfl
      · rw [if_neg (Ne.symm hid), if_neg hid]
  | none =>
      simp only [hins, pure, Except.pure, Except.ok.injEq] at h
      subst h
      obtain ⟨old, hmem, hclash⟩ := Table.insert_eq_none.mp hins
      have hold : t.ofDocument documentId = some old := ofDocument_eq_some.mpr ⟨hmem, hclash⟩
      rw [ofDocument_update t (· == documentId), upserted, hold]
      by_cases hid : id = documentId
      · rw [if_pos hid, if_pos (by simpa using hid), hid, hold]
        rfl
      · rw [if_neg hid, if_neg (by simpa using hid)]

/-- A text without NUL is always stored. -/
theorem exists_put {tenantId documentId : UUID} {text : Str} (hnul : '\x00' ∉ text) (now : Instant)
    (t : Contents) : ∃ t', put tenantId documentId text now t = .ok t' := by
  unfold put
  rw [Text.store_ok.mpr (show (⟨text, hnul⟩ : Text).value = text from rfl)]
  cases hins : t.insert ⟨documentId, tenantId, ⟨text, hnul⟩, now, now⟩ with
  | some t₁ => exact ⟨t₁, by simp only [bind, Except.bind, hins]; rfl⟩
  | none => exact ⟨_, by simp only [bind, Except.bind, hins]; rfl⟩

end SqlAlchemyContentStore

/-! ## Chunk rows -/

/-- The chunk rows of a document. -/
def Chunks.ofDocument (t : Chunks) (documentId : UUID) : List ChunkModel :=
  t.rows.filter fun r => r.documentId == documentId

/-- The piece that a chunk row stores. -/
def ChunkModel.piece (row : ChunkModel) : TextPiece := ⟨row.ordinal, row.text.value⟩

theorem StoredVector.store_ok {embedding : Embedding} {stored : StoredVector}
    (h : StoredVector.store embedding = .ok stored) : stored.embedding = embedding := by
  unfold StoredVector.store at h
  split at h
  · cases h; rfl
  · cases h

/-- What the row of a chunk takes over from it. -/
theorem ChunkModel.ofChunk_ok {chunk : Chunk} {now : Instant} {row : ChunkModel}
    (h : ChunkModel.ofChunk chunk now = .ok row) :
    row.id = chunk.id ∧ row.tenantId = chunk.tenantId ∧ row.documentId = chunk.documentId ∧
      row.collectionId = chunk.collectionId ∧ row.documentVersion = chunk.documentVersion ∧
      row.ordinal = chunk.ordinal ∧ row.text.value = chunk.text.value ∧
      row.embedding.embedding = chunk.embedding := by
  obtain ⟨text, htext, h⟩ := Fallible.bind_ok.mp h
  obtain ⟨embedding, hembedding, h⟩ := Fallible.bind_ok.mp h
  cases h
  exact ⟨rfl, rfl, rfl, rfl, rfl, rfl, Text.store_ok.mp htext,
    StoredVector.store_ok hembedding⟩

theorem ChunkModel.exists_ofChunk {chunk : Chunk} (now : Instant)
    (hnul : '\x00' ∉ chunk.text.value) (hdim : chunk.embedding.dimension = embeddingDim) :
    ∃ row, ChunkModel.ofChunk chunk now = .ok row := by
  unfold ChunkModel.ofChunk
  rw [Text.store_ok.mpr (show (⟨chunk.text.value, hnul⟩ : Text).value = _ from rfl)]
  unfold StoredVector.store
  rw [dif_pos hdim]
  exact ⟨_, rfl⟩

theorem Chunk.create_ok {id tenantId documentId collectionId : UUID} {version ordinal : Nat}
    {text : Str} {embedding : Embedding} {chunk : Chunk}
    (h : Chunk.create id tenantId documentId collectionId version ordinal text embedding =
      .ok chunk) :
    chunk.id = id ∧ chunk.tenantId = tenantId ∧ chunk.documentId = documentId ∧
      chunk.collectionId = collectionId ∧ chunk.documentVersion = version ∧
      chunk.ordinal = ordinal ∧ chunk.text.value = text ∧ chunk.embedding = embedding := by
  obtain ⟨value, hvalue, rfl⟩ := Fallible.map_ok.mp h
  unfold ChunkText.make at hvalue
  split at hvalue
  · cases hvalue
  · cases hvalue
    exact ⟨rfl, rfl, rfl, rfl, rfl, rfl, rfl, rfl⟩

theorem Chunk.exists_create {text : Str} (h : ¬ Blank text) (id tenantId documentId
    collectionId : UUID) (version ordinal : Nat) (embedding : Embedding) :
    ∃ chunk, Chunk.create id tenantId documentId collectionId version ordinal text embedding =
      .ok chunk := by
  unfold Chunk.create ChunkText.make
  rw [dif_neg (strip_ne_nil_iff.mpr h)]
  exact ⟨_, rfl⟩

namespace SqlAlchemyChunkRepository

/-- The spec of a replacement: the tenant's rows of the document are the given chunks, the
    other rows are untouched. -/
theorem replaceForDocument_ok {tenantId documentId : UUID} {chunks : List Chunk} {now : Instant}
    {t t' : Chunks} (h : replaceForDocument tenantId documentId chunks now t = .ok t') :
    ∃ rows, chunks.mapM (fun chunk => ChunkModel.ofChunk chunk now) = .ok rows ∧
      t'.rows = (t.rows.filter fun r => !ofDocument tenantId documentId r) ++ rows := by
  obtain ⟨rows, hrows, h⟩ := Fallible.bind_ok.mp h
  refine ⟨rows, hrows, ?_⟩
  cases hins : (t.deleteWhere (ofDocument tenantId documentId)).insertAll rows with
  | none => simp [hins] at h
  | some t₁ =>
      simp only [hins, Except.ok.injEq] at h
      subst h
      rw [Table.insertAll_rows hins, Table.rows_deleteWhere]

end SqlAlchemyChunkRepository

end Eka
