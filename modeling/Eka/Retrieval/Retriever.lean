import Eka.Ingestion.Repository
import Eka.Lib.Select
import Eka.Retrieval.Fusion

/-!
# The hybrid retriever

`retrieval/domain/search.py` and `retrieval/infrastructure/pgvector_retriever.py`. Both
arms select chunk rows by tenant and collection, with exact filters and order; nothing
in them looks at the documents.
-/

namespace Eka

open Py Relational

/-- `MAX_TOP_K` (`search.py:17`). -/
def maxTopK : Nat := 50

/-- `SearchQuery` (`search.py:20-30`), with what its `__post_init__` checks. -/
structure SearchQuery where
  text : Str
  topK : Nat
  collectionId : Option UUID
  notBlank : strip text ≠ []
  topKPos : 1 ≤ topK
  topKMax : topK ≤ maxTopK

def SearchQuery.make (text : Str) (topK : Int) (collectionId : Option UUID) :
    Except Error SearchQuery :=
  if h : strip text = [] then .error (.validationError "query text must not be empty".toList)
  else if h' : 1 ≤ topK ∧ topK ≤ maxTopK then
    .ok ⟨text, topK.toNat, collectionId, h, by omega, by omega⟩
  else .error (.validationError "top_k must be between 1 and 50".toList)

/-- `ScoredChunk` (`search.py:33-38`). -/
structure ScoredChunk where
  chunkId : UUID
  documentId : UUID
  text : Str
  score : ℚ
  deriving DecidableEq

/-- What the arms take from the server: the order of `embedding <=> q`, the match of
    `text_tsv @@ plainto_tsquery('english', q)`, the order of `ts_rank` under it, and the order
    of rows that compare equal. -/
structure SearchServer where
  nearer : Embedding → StoredVector → StoredVector → Bool
  tsMatches : Str → Text → Bool
  tsRanks : Str → Text → Text → Bool
  vectorTies : Arrangement ChunkModel
  keywordTies : Arrangement ChunkModel

namespace PgVectorHybridRetriever

/-- The conditions that both arms share (`pgvector_retriever.py:23-24`). -/
def inScope (tenantId : UUID) (collectionId : Option UUID) (row : ChunkModel) : Bool :=
  row.tenantId == tenantId &&
    match collectionId with
    | none => true
    | some collectionId => row.collectionId == collectionId

/-- `_VECTOR_SQL` (`pgvector_retriever.py:19-28`); the distance to a vector of another dimension
    is an error. -/
def vectorRows (server : SearchServer) (tenantId : UUID) (query : SearchQuery)
    (embedding : Embedding) (poolSize : Nat) (t : Chunks) : Except Error (List ChunkModel) :=
  if embedding.dimension ≠ embeddingDim ∧ t.rows.any (inScope tenantId query.collectionId) then
    .error .dataError
  else
    .ok (page poolSize 0 (Relational.select server.vectorTies (inScope tenantId query.collectionId)
      (fun a b => server.nearer embedding a.embedding b.embedding) t.rows))

/-- `_KEYWORD_SQL` (`pgvector_retriever.py:30-40`); a text with a NUL cannot be sent. -/
def keywordRows (server : SearchServer) (tenantId : UUID) (query : SearchQuery) (poolSize : Nat)
    (t : Chunks) : Except Error (List ChunkModel) :=
  if '\x00' ∈ query.text then .error .dataError
  else
    .ok (page poolSize 0 (Relational.select server.keywordTies
      (fun row => inScope tenantId query.collectionId row && server.tsMatches query.text row.text)
      (fun a b => server.tsRanks query.text a.text b.text) t.rows))

/-- The `catalog` (`pgvector_retriever.py:77-79`). -/
def catalog (rows : List ChunkModel) : Dict UUID (UUID × Str) :=
  Dict.empty.setAll (rows.map fun row => (row.id, row.documentId, row.text.value))

/-- `catalog[chunk_id]` (`pgvector_retriever.py:86-92`). -/
def scored (catalog : Dict UUID (UUID × Str)) (item : UUID × ℚ) : Except Error ScoredChunk :=
  match catalog.get? item.1 with
  | none => .error .keyError
  | some (documentId, text) => .ok ⟨item.1, documentId, text, item.2⟩

/-- `sorted(fused.items(), key=lambda kv: kv[1], reverse=True)`. -/
def ordered (fused : Dict UUID ℚ) : List (UUID × ℚ) :=
  fused.items.mergeSort fun a b => decide (b.2 ≤ a.2)

/-- `retrieve` (`pgvector_retriever.py:51-93`). -/
def retrieve (server : SearchServer) (tenantId : UUID) (query : SearchQuery)
    (embedding : Embedding) (poolSize : Nat) (t : Chunks) : Except Error (List ScoredChunk) := do
  let vector ← vectorRows server tenantId query embedding poolSize t
  let keyword ← keywordRows server tenantId query poolSize t
  let fused ← reciprocalRankFusion [vector.map (·.id), keyword.map (·.id)] defaultRrfK
  ((ordered fused).take poolSize).mapM (scored (catalog (vector ++ keyword)))

variable {server : SearchServer} {tenantId : UUID} {query : SearchQuery} {embedding : Embedding}
  {poolSize : Nat} {t : Chunks}

/-! ## What is retrieved -/

/-- The rows of the arms are the tenant's, and of the collection that was asked for. -/
theorem vectorRows_inScope {rows : List ChunkModel}
    (h : vectorRows server tenantId query embedding poolSize t = .ok rows) {row : ChunkModel}
    (hrow : row ∈ rows) : row ∈ t.rows ∧ inScope tenantId query.collectionId row = true := by
  unfold vectorRows at h
  split at h
  · cases h
  · cases h
    exact mem_select.mp (mem_of_mem_page hrow)

theorem keywordRows_inScope {rows : List ChunkModel}
    (h : keywordRows server tenantId query poolSize t = .ok rows) {row : ChunkModel}
    (hrow : row ∈ rows) : row ∈ t.rows ∧ inScope tenantId query.collectionId row = true := by
  unfold keywordRows at h
  split at h
  · cases h
  · cases h
    obtain ⟨hmem, hp⟩ := mem_select.mp (mem_of_mem_page hrow)
    exact ⟨hmem, (Bool.and_eq_true_iff.mp hp).1⟩

theorem catalog_eq_some {rows : List ChunkModel} {id documentId : UUID} {text : Str}
    (h : (catalog rows).get? id = some (documentId, text)) :
    ∃ row ∈ rows, row.id = id ∧ row.documentId = documentId ∧ row.text.value = text := by
  rcases Dict.get?_setAll h with hmem | hnone
  · obtain ⟨row, hrow, heq⟩ := List.mem_map.mp hmem
    cases heq
    exact ⟨row, hrow, rfl, rfl, rfl⟩
  · cases hnone

/-- A result is a chunk row of the tenant, with the document and the text of that row. -/
theorem retrieve_ok {results : List ScoredChunk}
    (h : retrieve server tenantId query embedding poolSize t = .ok results) {result : ScoredChunk}
    (hresult : result ∈ results) :
    ∃ row ∈ t.rows, inScope tenantId query.collectionId row = true ∧ row.id = result.chunkId ∧
      row.documentId = result.documentId ∧ row.text.value = result.text := by
  obtain ⟨vector, hvector, h⟩ := Fallible.bind_ok.mp h
  obtain ⟨keyword, hkeyword, h⟩ := Fallible.bind_ok.mp h
  obtain ⟨fused, -, h⟩ := Fallible.bind_ok.mp h
  obtain ⟨item, -, hscored⟩ := Fallible.mem_of_mapM_ok h hresult
  unfold scored at hscored
  split at hscored
  · cases hscored
  · next documentId text hget =>
      cases hscored
      obtain ⟨row, hrow, hid, hdoc, htext⟩ := catalog_eq_some hget
      have hscope : row ∈ t.rows ∧ inScope tenantId query.collectionId row = true := by
        rcases List.mem_append.mp hrow with hrow | hrow
        · exact vectorRows_inScope hvector hrow
        · exact keywordRows_inScope hkeyword hrow
      exact ⟨row, hscope.1, hscope.2, hid, hdoc, htext⟩

/-! ## When everything is retrieved -/

theorem catalog_of_mem {rows : List ChunkModel} (hrows : ∀ row ∈ rows, row ∈ t.rows)
    {row : ChunkModel} (hrow : row ∈ rows) :
    (catalog rows).get? row.id = some (row.documentId, row.text.value) := by
  refine Dict.get?_setAll_of_mem (List.mem_map_of_mem hrow) ?_
  intro w hw
  obtain ⟨row', hrow', heq⟩ := List.mem_map.mp hw
  obtain ⟨hid, rfl⟩ := Prod.mk.injEq .. ▸ heq
  have hsame : row' = row := t.eq_of_clash (hrows row' hrow') (hrows row hrow) (.inl hid)
    (.inl hid.symm)
  rw [hsame]

theorem mem_ordered {fused : Dict UUID ℚ} {item : UUID × ℚ} :
    item ∈ ordered fused ↔ item ∈ fused.items :=
  (List.mergeSort_perm _ _).mem_iff

theorem length_ordered (fused : Dict UUID ℚ) : (ordered fused).length = fused.keys.length := by
  rw [ordered, List.length_mergeSort, Dict.keys, List.length_map]

theorem nodup_ids (t : Chunks) (p : ChunkModel → Bool) :
    ((t.rows.filter p).map (·.id)).Nodup := by
  refine List.pairwise_map.mpr ((t.distinct.filter p).imp ?_)
  intro a b hclash hid
  exact hclash (.inl hid)

/-- The vector arm leaves out rows only where the pool has no room for them. -/
theorem vectorRows_eq {rows : List ChunkModel}
    (h : vectorRows server tenantId query embedding poolSize t = .ok rows) :
    rows = page poolSize 0 (Relational.select server.vectorTies
      (inScope tenantId query.collectionId)
      (fun a b => server.nearer embedding a.embedding b.embedding) t.rows) := by
  unfold vectorRows at h
  split at h
  · cases h
  · exact (Except.ok.inj h).symm

theorem length_vectorRows {rows : List ChunkModel}
    (h : vectorRows server tenantId query embedding poolSize t = .ok rows) :
    rows.length = min poolSize (t.rows.filter (inScope tenantId query.collectionId)).length := by
  rw [vectorRows_eq h, page, List.drop_zero, List.length_take, length_select]

theorem nodup_vectorRows {rows : List ChunkModel}
    (h : vectorRows server tenantId query embedding poolSize t = .ok rows) :
    (rows.map (·.id)).Nodup := by
  rw [vectorRows_eq h, page, List.drop_zero, List.map_take]
  refine List.Nodup.sublist (List.take_sublist _ _) ?_
  exact ((select_perm _ _ _ _).map ChunkModel.id).nodup_iff.mpr (nodup_ids t _)

section Pool

variable {vector keyword : List ChunkModel} {fused : Dict UUID ℚ}

/-- The fused ids are those of the rows of the arms. -/
theorem mem_keys_fused
    (hfused : reciprocalRankFusion [vector.map (·.id), keyword.map (·.id)] defaultRrfK = .ok fused)
    {id : UUID} : id ∈ fused.keys ↔ ∃ row ∈ vector ++ keyword, row.id = id := by
  rw [mem_keys_fusion hfused]
  simp [or_and_right, exists_or]

variable (hvector : vectorRows server tenantId query embedding poolSize t = .ok vector)
  (hkeyword : keywordRows server tenantId query poolSize t = .ok keyword)
  (hfused : reciprocalRankFusion [vector.map (·.id), keyword.map (·.id)] defaultRrfK = .ok fused)

include hvector hkeyword

theorem arms_inScope {row : ChunkModel} (hrow : row ∈ vector ++ keyword) :
    row ∈ t.rows ∧ inScope tenantId query.collectionId row = true := by
  rcases List.mem_append.mp hrow with hrow | hrow
  · exact vectorRows_inScope hvector hrow
  · exact keywordRows_inScope hkeyword hrow

include hfused

theorem length_ordered_le :
    (ordered fused).length ≤ (t.rows.filter (inScope tenantId query.collectionId)).length := by
  have hscope : fused.keys ⊆ (t.rows.filter (inScope tenantId query.collectionId)).map (·.id) := by
    intro id hid
    obtain ⟨row, hrow, rfl⟩ := (mem_keys_fused hfused).mp hid
    exact List.mem_map_of_mem (List.mem_filter.mpr (arms_inScope hvector hkeyword hrow))
  have hle := (List.subperm_of_subset fused.nodup_keys hscope).length_le
  rwa [List.length_map, ← length_ordered] at hle

/-- The pool is full, or has an id of every row in scope. -/
theorem length_pool : ((ordered fused).take poolSize).length =
    min poolSize (t.rows.filter (inScope tenantId query.collectionId)).length := by
  have hvectorIds : vector.map (·.id) ⊆ fused.keys := by
    intro id hid
    obtain ⟨row, hrow, rfl⟩ := List.mem_map.mp hid
    exact (mem_keys_fused hfused).mpr ⟨row, List.mem_append_left _ hrow, rfl⟩
  have hge := (List.subperm_of_subset (nodup_vectorRows hvector) hvectorIds).length_le
  have hle := length_ordered_le hvector hkeyword hfused
  rw [List.length_map, length_vectorRows hvector, ← length_ordered] at hge
  rw [List.length_take]
  omega

/-- No lookup in the catalog misses. -/
theorem exists_scored : ∃ results, ((ordered fused).take poolSize).mapM
    (scored (catalog (vector ++ keyword))) = .ok results := by
  refine Fallible.exists_mapM_ok ?_
  intro item hitem
  have hitem := mem_ordered.mp (List.mem_of_mem_take hitem)
  obtain ⟨row, hrow, hid⟩ := (mem_keys_fused hfused).mp (List.mem_map_of_mem hitem)
  unfold scored
  rw [← hid, catalog_of_mem (fun row hrow => (arms_inScope hvector hkeyword hrow).1) hrow]
  exact ⟨_, rfl⟩

end Pool

theorem exists_fused (vector keyword : List ChunkModel) : ∃ fused,
    reciprocalRankFusion [vector.map (·.id), keyword.map (·.id)] defaultRrfK = .ok fused :=
  ⟨_, if_neg (by decide)⟩

theorem retrieve_of_arms {vector keyword : List ChunkModel} {fused : Dict UUID ℚ}
    {results : List ScoredChunk}
    (hvector : vectorRows server tenantId query embedding poolSize t = .ok vector)
    (hkeyword : keywordRows server tenantId query poolSize t = .ok keyword)
    (hfused : reciprocalRankFusion [vector.map (·.id), keyword.map (·.id)] defaultRrfK = .ok fused)
    (hresults : ((ordered fused).take poolSize).mapM
      (scored (catalog (vector ++ keyword))) = .ok results) :
    retrieve server tenantId query embedding poolSize t = .ok results :=
  Fallible.bind_ok.mpr ⟨vector, hvector, Fallible.bind_ok.mpr ⟨keyword, hkeyword,
    Fallible.bind_ok.mpr ⟨fused, hfused, hresults⟩⟩⟩

/-- An uncached retrieval with a query that the server accepts returns. -/
theorem exists_retrieve (server : SearchServer) (tenantId : UUID) {query : SearchQuery}
    {embedding : Embedding} (poolSize : Nat) (t : Chunks)
    (hdimension : embedding.dimension = embeddingDim) (hnul : '\x00' ∉ query.text) :
    ∃ results, retrieve server tenantId query embedding poolSize t = .ok results ∧
      ((t.rows.filter (inScope tenantId query.collectionId)).length ≤ poolSize →
        ∀ row ∈ t.rows, inScope tenantId query.collectionId row = true →
          ∃ result ∈ results, result.chunkId = row.id ∧ result.documentId = row.documentId) := by
  obtain ⟨vector, hvector⟩ : ∃ rows, vectorRows server tenantId query embedding poolSize t =
      .ok rows := ⟨_, if_neg fun h => h.1 hdimension⟩
  obtain ⟨keyword, hkeyword⟩ : ∃ rows, keywordRows server tenantId query poolSize t = .ok rows :=
    ⟨_, if_neg hnul⟩
  obtain ⟨fused, hfused⟩ := exists_fused vector keyword
  obtain ⟨results, hresults⟩ := exists_scored hvector hkeyword hfused
  refine ⟨results, ?_, ?_⟩
  · exact retrieve_of_arms hvector hkeyword hfused hresults
  · intro hpool row hrow hscope
    -- the vector arm has room for every row, and the pool for every fused id
    have hall : row ∈ vector := by
      rw [vectorRows_eq hvector, page_of_length_le]
      · exact mem_select.mpr ⟨hrow, hscope⟩
      · rw [length_select]
        exact hpool
    have hlength := (length_ordered_le hvector hkeyword hfused).trans hpool
    have hmem := List.mem_append_left keyword hall
    obtain ⟨score, hscore⟩ := Dict.mem_keys.mp ((mem_keys_fused hfused).mpr ⟨row, hmem, rfl⟩)
    have hitem : (row.id, score) ∈ (ordered fused).take poolSize := by
      rw [List.take_of_length_le hlength]
      exact mem_ordered.mpr (Dict.get?_eq_some.mp hscore)
    obtain ⟨result, hresult, hf⟩ := Fallible.exists_of_mapM_ok hresults hitem
    unfold scored at hf
    rw [catalog_of_mem (fun row hrow => (arms_inScope hvector hkeyword hrow).1) hmem] at hf
    cases hf
    exact ⟨_, hresult, rfl, rfl⟩

end PgVectorHybridRetriever

end Eka
