import Eka.Retrieval.Contract

/-!
# A search between two statements

The two arms of `retrieve` are two statements, and each sees what is committed when it runs. So a
search may join rows of two states of the index; the catalog is filled from the rows of both, and
no lookup in it misses.
-/

namespace Eka

open Py Relational

namespace PgVectorHybridRetriever

/-- `retrieve` after its two statements (`pgvector_retriever.py:76-93`). -/
def fuse (poolSize : Nat) (vector keyword : List ChunkModel) : Except Error (List ScoredChunk) := do
  let fused ← reciprocalRankFusion [vector.map (·.id), keyword.map (·.id)] defaultRrfK
  ((ordered fused).take poolSize).mapM (scored (catalog (vector ++ keyword)))

variable {server : SearchServer} {tenantId : UUID} {query query' : SearchQuery}
  {embedding : Embedding} {poolSize : Nat} {t : Chunks}

/-- What comes out of the fusion is a row of one of the arms. -/
theorem fuse_ok {vector keyword : List ChunkModel} {candidates : List ScoredChunk}
    (h : fuse poolSize vector keyword = .ok candidates) {c : ScoredChunk} (hc : c ∈ candidates) :
    ∃ row ∈ vector ++ keyword, row.id = c.chunkId ∧ row.documentId = c.documentId ∧
      row.text.value = c.text := by
  obtain ⟨fused, -, h⟩ := Fallible.bind_ok.mp h
  obtain ⟨item, -, hscored⟩ := Fallible.mem_of_mapM_ok h hc
  unfold scored at hscored
  split at hscored
  · cases hscored
  · next hget =>
      cases hscored
      exact catalog_eq_some hget

/-- Every row of an arm is in the catalog. -/
theorem exists_catalog {rows : List ChunkModel} {row : ChunkModel} (hrow : row ∈ rows) :
    ∃ entry, (catalog rows).get? row.id = some entry := by
  refine Dict.mem_keys.mp (Dict.mem_keys_setAll.mpr (.inr ?_))
  exact ⟨_, List.mem_map_of_mem hrow, rfl⟩

/-- Whatever rows the two statements have returned, no lookup in the catalog misses. -/
theorem exists_fuse (poolSize : Nat) (vector keyword : List ChunkModel) :
    ∃ candidates, fuse poolSize vector keyword = .ok candidates := by
  obtain ⟨fused, hfused⟩ := exists_fused vector keyword
  have hscored : ∃ candidates, ((ordered fused).take poolSize).mapM
      (scored (catalog (vector ++ keyword))) = .ok candidates := by
    refine Fallible.exists_mapM_ok ?_
    intro item hitem
    have hkey : item.1 ∈ fused.keys :=
      List.mem_map_of_mem (mem_ordered.mp (List.mem_of_mem_take hitem))
    obtain ⟨row, hrow, hid⟩ := (mem_keys_fused hfused).mp hkey
    obtain ⟨entry, hentry⟩ := exists_catalog hrow
    unfold scored
    rw [← hid, hentry]
    exact ⟨_, rfl⟩
  obtain ⟨candidates, hcandidates⟩ := hscored
  exact ⟨candidates, Fallible.bind_ok.mpr ⟨fused, hfused, hcandidates⟩⟩

theorem vectorRows_congr (hcollection : query.collectionId = query'.collectionId) :
    vectorRows server tenantId query embedding poolSize t =
      vectorRows server tenantId query' embedding poolSize t := by
  unfold vectorRows
  rw [hcollection]

theorem keywordRows_congr (hcollection : query.collectionId = query'.collectionId)
    (hnul : '\x00' ∈ query.text ↔ '\x00' ∈ query'.text)
    (hmatches : server.tsMatches query.text = server.tsMatches query'.text)
    (hranks : server.tsRanks query.text = server.tsRanks query'.text) :
    keywordRows server tenantId query poolSize t =
      keywordRows server tenantId query' poolSize t := by
  unfold keywordRows
  rw [hcollection, hmatches, hranks, if_congr hnul rfl rfl]

end PgVectorHybridRetriever

open PgVectorHybridRetriever

namespace SearchHandler

/-- Embedding, retrieving and reranking (`search.py:63-67`), where the index is `t` for the first
    statement and `t'` for the second one. -/
def liveAcross (handler : SearchHandler) (tenantId : UUID) (query : SearchQuery)
    (t t' : Chunks) : Except Error (List ScoredChunk) := do
  let vector ← vectorRows handler.server tenantId query (handler.embedder.embedOne query.text)
    handler.poolSize t
  let keyword ← keywordRows handler.server tenantId query handler.poolSize t'
  let candidates ← fuse handler.poolSize vector keyword
  return LexicalReranker.rerank handler.lower query.text candidates query.topK

variable {handler : SearchHandler} {tenantId tenantId' : UUID} {query query' : SearchQuery}
  {t t' : Chunks}

/-- On one state of the index it is the live search. -/
theorem liveAcross_self (handler : SearchHandler) (tenantId : UUID) (query : SearchQuery)
    (t : Chunks) : handler.liveAcross tenantId query t t = handler.live tenantId query t := by
  unfold liveAcross live retrieve
  cases vectorRows handler.server tenantId query (handler.embedder.embedOne query.text)
      handler.poolSize t with
  | error e => rfl
  | ok vector =>
      cases keywordRows handler.server tenantId query handler.poolSize t with
      | error e => rfl
      | ok keyword =>
          change (fuse handler.poolSize vector keyword >>= _) =
            (fuse handler.poolSize vector keyword).map _
          cases fuse handler.poolSize vector keyword <;> rfl

/-- A result is a row that one of the statements has seen, of the tenant and the collection. -/
theorem liveAcross_ok {results : List ScoredChunk}
    (h : handler.liveAcross tenantId query t t' = .ok results) {result : ScoredChunk}
    (hresult : result ∈ results) :
    ∃ row, (row ∈ t.rows ∨ row ∈ t'.rows) ∧ inScope tenantId query.collectionId row = true ∧
      row.id = result.chunkId ∧ row.documentId = result.documentId ∧
      row.text.value = result.text := by
  obtain ⟨vector, hvector, h⟩ := Fallible.bind_ok.mp h
  obtain ⟨keyword, hkeyword, h⟩ := Fallible.bind_ok.mp h
  obtain ⟨candidates, hcandidates, h⟩ := Fallible.bind_ok.mp h
  cases h
  obtain ⟨c, hc, rfl⟩ := LexicalReranker.mem_of_mem_rerank hresult
  obtain ⟨row, hrow, hid, hdocument, htext⟩ := fuse_ok hcandidates hc
  rcases List.mem_append.mp hrow with hrow | hrow
  · obtain ⟨hmem, hscope⟩ := vectorRows_inScope hvector hrow
    exact ⟨row, .inl hmem, hscope, hid, hdocument, htext⟩
  · obtain ⟨hmem, hscope⟩ := keywordRows_inScope hkeyword hrow
    exact ⟨row, .inr hmem, hscope, hid, hdocument, htext⟩

/-- Requests with one key have one answer, on whatever states of the index. -/
theorem liveAcross_congr {primitives : HashingEmbeddingModel.Primitives ℚ} {dimension : Int}
    (hmake : HashingEmbeddingModel.make { primitives with lower := handler.lower }
      dimension = .ok handler.embedder)
    (hnul : ∀ s, '\x00' ∈ handler.lower s ↔ '\x00' ∈ s)
    (hserver : handler.server.Insensitive handler.lower)
    (hsha : Function.Injective handler.sha256)
    (h : handler.key tenantId query = handler.key tenantId' query') (t t' : Chunks) :
    handler.liveAcross tenantId query t t' = handler.liveAcross tenantId' query' t t' := by
  obtain ⟨rfl, hcollection, htopK, htext⟩ := (buildCacheKey_inj hsha).mp h
  unfold liveAcross
  rw [HashingEmbeddingModel.embedOne_normalized hmake htext, vectorRows_congr hcollection,
    keywordRows_congr hcollection (nul_mem_normalized hnul htext) (hserver.tsMatches _ _ htext)
      (hserver.tsRanks _ _ htext), htopK]
  simp only [LexicalReranker.rerank_normalized htext]

end SearchHandler

end Eka
