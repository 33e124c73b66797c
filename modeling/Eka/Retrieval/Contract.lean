import Eka.Retrieval.Reranking
import Eka.Retrieval.Transparency

/-!
# What a search returns

A search that is not answered from the cache: the two arms, their fusion, the cut to the pool,
the reranking and the cut to `top_k`, over an index whose chunk ids are unique.
-/

namespace Eka

open Py Relational

namespace PgVectorHybridRetriever

variable {server : SearchServer} {tenantId : UUID} {query : SearchQuery} {embedding : Embedding}
  {poolSize : Nat} {t : Chunks}

/-! ## The candidates -/

theorem scored_ok {catalog : Dict UUID (UUID × Str)} {item : UUID × ℚ} {candidate : ScoredChunk}
    (h : scored catalog item = .ok candidate) : (candidate.chunkId, candidate.score) = item := by
  unfold scored at h
  split at h
  · cases h
  · cases h
    rfl

section Candidates

variable {catalog : Dict UUID (UUID × Str)} {fused : Dict UUID ℚ}
  {candidates : List ScoredChunk}
  (h : ((ordered fused).take poolSize).mapM (scored catalog) = .ok candidates)

include h

/-- The candidates are the best of the fused items, with their fused scores. -/
theorem candidates_eq :
    candidates.map (fun c => (c.chunkId, c.score)) = (ordered fused).take poolSize := by
  have hmap := Fallible.map_of_mapM_ok h (g := fun c => (c.chunkId, c.score)) (k := id)
    fun item c hc => scored_ok hc
  rwa [List.map_id] at hmap

theorem length_candidates : candidates.length = ((ordered fused).take poolSize).length := by
  rw [← candidates_eq h, List.length_map]

theorem nodup_candidates : (candidates.map (·.chunkId)).Nodup := by
  have hids : candidates.map (·.chunkId) = ((ordered fused).take poolSize).map Prod.fst := by
    rw [← candidates_eq h, List.map_map]
    rfl
  have hperm := (List.mergeSort_perm fused.items fun a b => decide (b.2 ≤ a.2)).map Prod.fst
  rw [hids, List.map_take]
  exact List.Nodup.sublist (List.take_sublist _ _) (hperm.nodup_iff.mpr fused.nodup)

theorem get?_candidate {c : ScoredChunk} (hc : c ∈ candidates) :
    fused.get? c.chunkId = some c.score := by
  have hitem : (c.chunkId, c.score) ∈ (ordered fused).take poolSize := by
    rw [← candidates_eq h]
    exact List.mem_map.mpr ⟨c, hc, rfl⟩
  exact Dict.get?_eq_some.mpr (mem_ordered.mp (List.mem_of_mem_take hitem))

/-- What the pool has no room for is no better than what it holds. -/
theorem le_of_cut {id : UUID} {score : ℚ} (hid : fused.get? id = some score)
    (hcut : id ∉ candidates.map (·.chunkId)) {c : ScoredChunk} (hc : c ∈ candidates) :
    score ≤ c.score := by
  have hitem : (c.chunkId, c.score) ∈ (ordered fused).take poolSize := by
    rw [← candidates_eq h]
    exact List.mem_map.mpr ⟨c, hc, rfl⟩
  have hnot : (id, score) ∉ (ordered fused).take poolSize := by
    intro hmem
    rw [← candidates_eq h] at hmem
    obtain ⟨c', hc', heq⟩ := List.mem_map.mp hmem
    exact hcut (List.mem_map.mpr ⟨c', hc', congrArg Prod.fst heq⟩)
  exact @le_of_notMem_take _ _ _ Prod.snd _ _ _ _ hitem (Dict.get?_eq_some.mp hid) hnot

end Candidates

/-! ## Failures -/

theorem vectorRows_error {e : Error}
    (h : vectorRows server tenantId query embedding poolSize t = .error e) :
    e = .dataError ∧ embedding.dimension ≠ embeddingDim := by
  unfold vectorRows at h
  split at h
  · next hrefused => exact ⟨(Except.error.inj h).symm, hrefused.1⟩
  · cases h

theorem keywordRows_error {e : Error} (h : keywordRows server tenantId query poolSize t = .error e) :
    e = .dataError ∧ '\x00' ∈ query.text := by
  unfold keywordRows at h
  split at h
  · next hnul => exact ⟨(Except.error.inj h).symm, hnul⟩
  · cases h

/-- A retrieval raises what the server raises, and nothing else. -/
theorem retrieve_error {e : Error}
    (h : retrieve server tenantId query embedding poolSize t = .error e) :
    e = .dataError ∧ (embedding.dimension ≠ embeddingDim ∨ '\x00' ∈ query.text) := by
  rcases Fallible.bind_error h with h | ⟨vector, hvector, h⟩
  · obtain ⟨he, hdimension⟩ := vectorRows_error h
    exact ⟨he, .inl hdimension⟩
  · rcases Fallible.bind_error h with h | ⟨keyword, hkeyword, h⟩
    · obtain ⟨he, hnul⟩ := keywordRows_error h
      exact ⟨he, .inr hnul⟩
    · obtain ⟨fused, hfused⟩ := exists_fused vector keyword
      obtain ⟨candidates, hcandidates⟩ := exists_scored hvector hkeyword hfused
      rw [hfused] at h
      cases hcandidates.symm.trans h

end PgVectorHybridRetriever

open PgVectorHybridRetriever LexicalReranker

/-- What a search owes: `fused` are the fused scores, `candidates` what is reranked. -/
structure SearchContract (handler : SearchHandler) (tenantId : UUID) (query : SearchQuery)
    (t : Chunks) (fused : Dict UUID ℚ) (candidates results : List ScoredChunk) : Prop where
  count : results.length = min query.topK
    (min handler.poolSize (t.rows.filter (inScope tenantId query.collectionId)).length)
  distinct : (results.map (·.chunkId)).Nodup
  ofRows : ∀ result ∈ results, ∃ row ∈ t.rows, inScope tenantId query.collectionId row = true ∧
    row.id = result.chunkId ∧ row.documentId = result.documentId ∧ row.text.value = result.text
  final : ∀ result ∈ results, ∃ c ∈ candidates,
    result = ranked handler.lower query.text candidates c
  unit : ∀ result ∈ results, 0 ≤ result.score ∧ result.score ≤ 1
  descending : results.Pairwise fun a b => b.score ≤ a.score
  topKCut : ∀ c ∈ candidates, c.chunkId ∉ results.map (·.chunkId) → ∀ result ∈ results,
    finalAmong handler.lower query.text candidates c ≤ result.score
  pooled : ∀ c ∈ candidates, fused.get? c.chunkId = some c.score
  poolCut : ∀ id score, fused.get? id = some score → id ∉ candidates.map (·.chunkId) →
    ∀ c ∈ candidates, score ≤ c.score

namespace SearchHandler

variable {handler : SearchHandler} {env : SearchEnv} {tenantId : UUID} {query : SearchQuery}
  {t : Chunks} {cache : SearchCache}

theorem handle_miss
    (hmiss : RedisSearchCache.get (handler.key tenantId query) env.now env.get cache = none) :
    (handler.handle env tenantId query t cache).1 =
      (retrieve handler.server tenantId query (handler.embedder.embedOne query.text)
        handler.poolSize t).map
        fun candidates => rerank handler.lower query.text candidates query.topK := by
  unfold handle
  rw [hmiss]
  simp only
  split
  · next hretrieve => rw [hretrieve]; rfl
  · next hretrieve => rw [hretrieve]; rfl

theorem contract_of_retrieve {vector keyword : List ChunkModel} {fused : Dict UUID ℚ}
    {candidates : List ScoredChunk}
    (hvector : vectorRows handler.server tenantId query (handler.embedder.embedOne query.text)
      handler.poolSize t = .ok vector)
    (hkeyword : keywordRows handler.server tenantId query handler.poolSize t = .ok keyword)
    (hfused : reciprocalRankFusion [vector.map (·.id), keyword.map (·.id)] defaultRrfK = .ok fused)
    (hcandidates : ((ordered fused).take handler.poolSize).mapM
      (scored (catalog (vector ++ keyword))) = .ok candidates)
    (hretrieve : retrieve handler.server tenantId query (handler.embedder.embedOne query.text)
      handler.poolSize t = .ok candidates) :
    SearchContract handler tenantId query t fused candidates
      (rerank handler.lower query.text candidates query.topK) where
  count := by
    rw [length_rerank, length_candidates hcandidates, length_pool hvector hkeyword hfused]
  distinct := nodup_rerank (nodup_candidates hcandidates) query.topK
  ofRows := by
    intro result hresult
    obtain ⟨c, hc, rfl⟩ := mem_of_mem_rerank hresult
    have hrow := retrieve_ok hretrieve hc
    exact hrow
  final result hresult := mem_of_mem_rerank hresult
  unit := by
    intro result hresult
    obtain ⟨c, hc, rfl⟩ := mem_of_mem_rerank hresult
    exact finalAmong_mem_unit handler.lower query.text hc
  descending := rerank_pairwise handler.lower query.text candidates query.topK
  topKCut c hc hcut result hresult := finalAmong_le_of_cut hc hcut hresult
  pooled c hc := get?_candidate hcandidates hc
  poolCut id score hid hcut c hc := le_of_cut hcandidates hid hcut hc

end SearchHandler

/-- A search that is not answered from the cache keeps its contract whenever the server answers
    the two arms, and it raises nothing but what the server raises. -/
theorem search_contract (handler : SearchHandler) (env : SearchEnv) (tenantId : UUID)
    (query : SearchQuery) (t : Chunks) (cache : SearchCache)
    (hmiss : RedisSearchCache.get (handler.key tenantId query) env.now env.get cache = none) :
    (∀ vector keyword,
      vectorRows handler.server tenantId query (handler.embedder.embedOne query.text)
          handler.poolSize t = .ok vector →
        keywordRows handler.server tenantId query handler.poolSize t = .ok keyword →
          ∃ fused candidates results,
            reciprocalRankFusion [vector.map (·.id), keyword.map (·.id)] defaultRrfK = .ok fused ∧
            retrieve handler.server tenantId query (handler.embedder.embedOne query.text)
              handler.poolSize t = .ok candidates ∧
            (handler.handle env tenantId query t cache).1 = .ok results ∧
            SearchContract handler tenantId query t fused candidates results) ∧
    ∀ e, (handler.handle env tenantId query t cache).1 = .error e →
      e = .dataError ∧
        (handler.embedder.dimension ≠ embeddingDim ∨ '\x00' ∈ query.text) := by
  rw [SearchHandler.handle_miss hmiss]
  refine ⟨?_, ?_⟩
  · intro vector keyword hvector hkeyword
    obtain ⟨fused, hfused⟩ := exists_fused vector keyword
    obtain ⟨candidates, hcandidates⟩ := exists_scored hvector hkeyword hfused
    have hretrieve := retrieve_of_arms hvector hkeyword hfused hcandidates
    refine ⟨fused, candidates, _, hfused, hretrieve, ?_, SearchHandler.contract_of_retrieve hvector
      hkeyword hfused hcandidates hretrieve⟩
    exact Fallible.map_ok.mpr ⟨candidates, hretrieve, rfl⟩
  · intro e he
    obtain ⟨he, hserver⟩ := retrieve_error (Fallible.map_error.mp he)
    rw [handler.embedder.sized query.text] at hserver
    exact ⟨he, hserver⟩

/-! ### Tea -/

/-- A chunk of the only document of a tenant. -/
def drinkRow (tenantId : UUID) (ordinal : Nat) (text : Text) : ChunkModel :=
  ⟨⟨ordinal⟩, tenantId, tenantId, ⟨2⟩, 1, ordinal, text,
    ⟨helloEmbedder.embedOne text.value, helloEmbedder.sized _⟩, 1⟩

/-- Four rows of tenant 1 and one of tenant 2. -/
def drinks : Chunks :=
  ⟨[drinkRow ⟨1⟩ 10 ⟨"green tea".toList, by decide⟩, drinkRow ⟨1⟩ 11 ⟨"coffee".toList, by decide⟩,
    drinkRow ⟨2⟩ 12 ⟨"tea for two".toList, by decide⟩,
    drinkRow ⟨1⟩ 13 ⟨"black tea".toList, by decide⟩,
    drinkRow ⟨1⟩ 14 ⟨"water".toList, by decide⟩], by decide⟩

/-- Two results, out of three candidates, out of four rows. -/
theorem search_contract_tea : ∃ results,
    (SearchHandler.handle { helloHandler with poolSize := 3 } ⟨1, .returns, .returns⟩ ⟨1⟩
      ⟨"tea".toList, 2, none, by decide, by decide, by decide⟩ drinks .empty).1 = .ok results ∧
    results.length = 2 ∧ ∀ result ∈ results, ∃ row ∈ drinks.rows, row.tenantId = ⟨1⟩ ∧
      row.id = result.chunkId ∧ row.text.value = result.text := by
  obtain ⟨hanswered, -⟩ := search_contract { helloHandler with poolSize := 3 }
    ⟨1, .returns, .returns⟩ ⟨1⟩ ⟨"tea".toList, 2, none, by decide, by decide, by decide⟩ drinks
    .empty rfl
  have hdimension : (helloHandler.embedder.embedOne "tea".toList).dimension = embeddingDim :=
    helloHandler.embedder.sized _
  obtain ⟨_, _, results, -, -, hresults, hcontract⟩ :=
    hanswered _ _ (if_neg fun h => h.1 hdimension) (if_neg (by decide))
  refine ⟨results, hresults, hcontract.count, fun result hresult => ?_⟩
  obtain ⟨row, hrow, hscope, hid, -, htext⟩ := hcontract.ofRows result hresult
  exact ⟨row, hrow, beq_iff_eq.mp (Bool.and_eq_true_iff.mp hscope).1, hid, htext⟩

end Eka
