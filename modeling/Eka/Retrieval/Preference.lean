import Eka.Retrieval.Contract
import Eka.Retrieval.Dominance

/-!
# What a search prefers

Each stage of a search orders by something else: the arms by distance and by text rank, the
fusion by the ranks, the reranker by the fused scores and the texts. A chunk that each of them
prefers to another one is returned ahead of it, and is not cut off where the other one is kept.
-/

namespace Eka

open Py Relational

namespace PgVectorHybridRetriever

/-- What is ahead of a fused item in every ranking of it has a higher score, and the pool keeps
    it with the item. -/
theorem ordered_prefers {rankings : List (List UUID)} {fused : Dict UUID ℚ} {poolSize : Nat}
    (hnodup : ∀ ranking ∈ rankings, ranking.Nodup)
    (hfused : reciprocalRankFusion rankings defaultRrfK = .ok fused) {x y : UUID}
    (hahead : ∀ ranking ∈ rankings, y ∈ ranking → [x, y].Sublist ranking) {scoreY : ℚ}
    (hy : (y, scoreY) ∈ (ordered fused).take poolSize) :
    ∃ scoreX, scoreY < scoreX ∧ (x, scoreX) ∈ (ordered fused).take poolSize := by
  have hgetY := Dict.get?_eq_some.mpr (mem_ordered.mp (List.mem_of_mem_take hy))
  rw [get?_fusion hnodup hfused] at hgetY
  split at hgetY
  · next hranked =>
      have hlt := totalScore_lt (by decide : 1 ≤ defaultRrfK) hnodup hranked hahead
      rw [Option.some.inj hgetY] at hlt
      obtain ⟨ranking, hranking, hmem⟩ := hranked
      have hgetX := get?_fusion hnodup hfused x
      rw [if_pos ⟨ranking, hranking,
        (hahead ranking hranking hmem).subset List.mem_cons_self⟩] at hgetX
      have hpair := @pair_sublist_take_of_lt _ _ _ Prod.snd _ _ _ _
        (mem_ordered.mpr (Dict.get?_eq_some.mp hgetX)) hy hlt
      exact ⟨_, hlt, hpair.subset List.mem_cons_self⟩
  · cases hgetY

end PgVectorHybridRetriever

namespace LexicalReranker

variable {lower : Str → Str} {queryText : Str} {candidates : List ScoredChunk}

/-- With a higher retrieval score and a text no less relevant, the final score is higher. -/
theorem finalAmong_lt_of_score {c d : ScoredChunk} (hc : c ∈ candidates) (hd : d ∈ candidates)
    (hscore : d.score < c.score)
    (hrelevance : relevance lower queryText d ≤ relevance lower queryText c) :
    finalAmong lower queryText candidates d < finalAmong lower queryText candidates c := by
  have hnormalized : MinMax.normalized (candidates.map (·.score)) d.score <
      MinMax.normalized (candidates.map (·.score)) c.score :=
    MinMax.normalized_lt (List.mem_map_of_mem hc) (List.mem_map_of_mem hd) hscore
  rw [finalAmong_eq, finalAmong_eq]
  linarith

theorem relevance_le {c d : ScoredChunk}
    (hcoverage : coverage lower queryText d.text ≤ coverage lower queryText c.text)
    (hphrase : normalize lower queryText <:+: lower d.text →
      normalize lower queryText <:+: lower c.text) :
    relevance lower queryText d ≤ relevance lower queryText c := by
  have hbonus : (if normalize lower queryText <:+: lower d.text then 1 else 0 : ℚ) ≤
      if normalize lower queryText <:+: lower c.text then 1 else 0 := by
    split
    · next hd => rw [if_pos (hphrase hd)]
    · split
      · exact zero_le_one
      · exact le_refl 0
  rw [relevance_eq, relevance_eq]
  linarith

open PgVectorHybridRetriever in
/-- What is ahead in every ranking and no less relevant is returned ahead. -/
theorem rerank_prefers {rankings : List (List UUID)} {fused : Dict UUID ℚ} {poolSize topK : Nat}
    (hnodup : ∀ ranking ∈ rankings, ranking.Nodup)
    (hfused : reciprocalRankFusion rankings defaultRrfK = .ok fused)
    (hcandidates : candidates.map (fun c => (c.chunkId, c.score)) =
      (ordered fused).take poolSize)
    {x y : UUID} (hahead : ∀ ranking ∈ rankings, y ∈ ranking → [x, y].Sublist ranking)
    (hrelevance : ∀ c ∈ candidates, ∀ d ∈ candidates, c.chunkId = x → d.chunkId = y →
      relevance lower queryText d ≤ relevance lower queryText c)
    (hy : y ∈ (rerank lower queryText candidates topK).map (·.chunkId)) :
    [x, y].Sublist ((rerank lower queryText candidates topK).map (·.chunkId)) := by
  obtain ⟨result, hresult, rfl⟩ := List.mem_map.mp hy
  obtain ⟨d, hd, rfl⟩ := mem_of_mem_rerank hresult
  have hitem : (d.chunkId, d.score) ∈ (ordered fused).take poolSize := by
    rw [← hcandidates]
    exact List.mem_map.mpr ⟨d, hd, rfl⟩
  obtain ⟨score, hscore, hitem'⟩ := ordered_prefers hnodup hfused hahead hitem
  rw [← hcandidates] at hitem'
  obtain ⟨c, hc, heq⟩ := List.mem_map.mp hitem'
  obtain ⟨rfl, rfl⟩ := Prod.mk.injEq .. ▸ heq
  have hfinal := finalAmong_lt_of_score hc hd hscore (hrelevance c hc d hd rfl rfl)
  rw [rerank_eq] at hresult ⊢
  have hpair := @pair_sublist_take_of_lt _ _ _ ScoredChunk.score _ _ _ _
    (mem_sortedDesc.mpr (List.mem_map_of_mem hc)) hresult hfinal
  exact hpair.map (·.chunkId)

end LexicalReranker

/-! ## A search in the database -/

/-- The server orders by distance and by text rank, and each is a number. -/
structure SearchServer.Ordered (server : SearchServer) : Prop where
  nearerTrans : ∀ q a b c, server.nearer q a b = true → server.nearer q b c = true →
    server.nearer q a c = true
  nearerTotal : ∀ q a b, (server.nearer q a b || server.nearer q b a) = true
  ranksTrans : ∀ q a b c, server.tsRanks q a b = true → server.tsRanks q b c = true →
    server.tsRanks q a c = true
  ranksTotal : ∀ q a b, (server.tsRanks q a b || server.tsRanks q b a) = true

/-- Row `x` answers a query better than row `y`: it is strictly nearer, it has the better text
    rank if `y` matches at all, and its text has no fewer of the query's tokens, and the query
    itself if that of `y` does. -/
structure SearchHandler.Prefers (handler : SearchHandler) (query : SearchQuery)
    (x y : ChunkModel) : Prop where
  nearer : handler.server.nearer (handler.embedder.embedOne query.text) y.embedding x.embedding =
    false
  keyword : handler.server.tsMatches query.text y.text = true →
    handler.server.tsMatches query.text x.text = true ∧
      handler.server.tsRanks query.text y.text x.text = false
  coverage : LexicalReranker.coverage handler.lower query.text y.text.value ≤
    LexicalReranker.coverage handler.lower query.text x.text.value
  phrase : normalize handler.lower query.text <:+: handler.lower y.text.value →
    normalize handler.lower query.text <:+: handler.lower x.text.value

namespace PgVectorHybridRetriever

variable {server : SearchServer} {tenantId : UUID} {query : SearchQuery} {embedding : Embedding}
  {poolSize : Nat} {t : Chunks} {rows : List ChunkModel} {x y : ChunkModel}

theorem keywordRows_eq (h : keywordRows server tenantId query poolSize t = .ok rows) :
    rows = page poolSize 0 (Relational.select server.keywordTies
      (fun row => inScope tenantId query.collectionId row && server.tsMatches query.text row.text)
      (fun a b => server.tsRanks query.text a.text b.text) t.rows) := by
  unfold keywordRows at h
  split at h
  · cases h
  · exact (Except.ok.inj h).symm

theorem nodup_keywordRows (h : keywordRows server tenantId query poolSize t = .ok rows) :
    (rows.map (·.id)).Nodup := by
  rw [keywordRows_eq h, page, List.drop_zero, List.map_take]
  refine List.Nodup.sublist (List.take_sublist _ _) ?_
  exact ((select_perm _ _ _ _).map ChunkModel.id).nodup_iff.mpr (nodup_ids t _)

/-- An arm returns rows of the table in an order of its own, and not all of them: what comes
    first in the order is returned ahead. -/
theorem pair_sublist_page {ties : Arrangement ChunkModel} {p : ChunkModel → Bool}
    {le : ChunkModel → ChunkModel → Bool}
    (trans : ∀ a b c, le a b = true → le b c = true → le a c = true)
    (total : ∀ a b, (le a b || le b a) = true) (hx : x ∈ t.rows) (hpx : p x = true)
    (hy : y ∈ page poolSize 0 (Relational.select ties p le t.rows)) (hlt : le y x = false) :
    [x, y].Sublist (page poolSize 0 (Relational.select ties p le t.rows)) := by
  obtain ⟨hmem, hpy⟩ := mem_select.mp (mem_of_mem_page hy)
  have hnodup : (Relational.select ties p le t.rows).Nodup :=
    ((select_perm ties p le t.rows).map ChunkModel.id |>.nodup_iff.mpr (nodup_ids t p)).of_map
  exact Ahead.take hnodup (pair_sublist_select trans total hx hpx hmem hpy hlt) hy

/-- A row that an id of the arm belongs to is one of its rows. -/
theorem mem_of_mem_ids (hrows : ∀ row ∈ rows, row ∈ t.rows) (hx : x ∈ t.rows)
    (hid : x.id ∈ rows.map (·.id)) : x ∈ rows := by
  obtain ⟨row, hrow, heq⟩ := List.mem_map.mp hid
  obtain rfl : row = x := t.eq_of_clash (hrows row hrow) hx (.inl heq) (.inl heq.symm)
  exact hrow

/-- A candidate with the id of a row has its text. -/
theorem text_of_candidate {candidates : List ScoredChunk}
    (h : retrieve server tenantId query embedding poolSize t = .ok candidates) (hx : x ∈ t.rows)
    {c : ScoredChunk} (hc : c ∈ candidates) (hid : c.chunkId = x.id) : c.text = x.text.value := by
  obtain ⟨row, hrow, -, hrowId, -, htext⟩ := retrieve_ok h hc
  have heq := hrowId.trans hid
  obtain rfl : row = x := t.eq_of_clash hrow hx (.inl heq) (.inl heq.symm)
  exact htext.symm

end PgVectorHybridRetriever

open PgVectorHybridRetriever LexicalReranker

namespace SearchHandler

variable {handler : SearchHandler} {tenantId : UUID} {query : SearchQuery} {t : Chunks}
  {vector keyword : List ChunkModel} {x y : ChunkModel}

/-- Both arms that have the worse row have the better one ahead of it. -/
theorem Prefers.ahead (h : handler.Prefers query x y) (hserver : handler.server.Ordered)
    (hvector : vectorRows handler.server tenantId query (handler.embedder.embedOne query.text)
      handler.poolSize t = .ok vector)
    (hkeyword : keywordRows handler.server tenantId query handler.poolSize t = .ok keyword)
    (hx : x ∈ t.rows) (hscope : inScope tenantId query.collectionId x = true) (hy : y ∈ t.rows) :
    ∀ ranking ∈ [vector.map (·.id), keyword.map (·.id)], y.id ∈ ranking →
      [x.id, y.id].Sublist ranking := by
  intro ranking hranking hmem
  simp only [List.mem_cons, List.not_mem_nil, or_false] at hranking
  rcases hranking with rfl | rfl
  · have hy := mem_of_mem_ids (fun row hrow => (vectorRows_inScope hvector hrow).1) hy hmem
    refine @List.Sublist.map _ _ (·.id) [x, y] _ ?_
    rw [vectorRows_eq hvector] at hy ⊢
    exact pair_sublist_page (fun a b c => hserver.nearerTrans _ _ _ _)
      (fun a b => hserver.nearerTotal _ _ _) hx hscope hy h.nearer
  · have hy := mem_of_mem_ids (fun row hrow => (keywordRows_inScope hkeyword hrow).1) hy hmem
    refine @List.Sublist.map _ _ (·.id) [x, y] _ ?_
    rw [keywordRows_eq hkeyword] at hy ⊢
    obtain ⟨-, hmatch⟩ := mem_select.mp (mem_of_mem_page hy)
    obtain ⟨hmatch', hranks⟩ := h.keyword (Bool.and_eq_true_iff.mp hmatch).2
    exact pair_sublist_page (fun a b c => hserver.ranksTrans _ _ _ _)
      (fun a b => hserver.ranksTotal _ _ _) hx (Bool.and_eq_true_iff.mpr ⟨hscope, hmatch'⟩) hy
      hranks

/-- A search that is not answered from the cache returns a row that answers the query better
    ahead of one that answers it worse: neither the limits of the arms nor the pool nor `top_k`
    cuts off the better one and keeps the other. -/
theorem handle_prefers (hserver : handler.server.Ordered) {env : SearchEnv} {cache : SearchCache}
    (hmiss : RedisSearchCache.get (handler.key tenantId query) env.now env.get cache = none)
    {results : List ScoredChunk} (h : (handler.handle env tenantId query t cache).1 = .ok results)
    (hx : x ∈ t.rows) (hscope : inScope tenantId query.collectionId x = true)
    (hprefers : handler.Prefers query x y) (hy : y ∈ t.rows)
    (hreturned : y.id ∈ results.map (·.chunkId)) :
    [x.id, y.id].Sublist (results.map (·.chunkId)) := by
  rw [handle_miss hmiss] at h
  obtain ⟨candidates, hretrieve, rfl⟩ := Fallible.map_ok.mp h
  obtain ⟨vector, hvector, hrest⟩ := Fallible.bind_ok.mp hretrieve
  obtain ⟨keyword, hkeyword, hrest⟩ := Fallible.bind_ok.mp hrest
  obtain ⟨fused, hfused, hcandidates⟩ := Fallible.bind_ok.mp hrest
  have hnodup : ∀ ranking ∈ [vector.map (·.id), keyword.map (·.id)], ranking.Nodup := by
    intro ranking hranking
    simp only [List.mem_cons, List.not_mem_nil, or_false] at hranking
    rcases hranking with rfl | rfl
    · exact nodup_vectorRows hvector
    · exact nodup_keywordRows hkeyword
  refine rerank_prefers hnodup hfused (candidates_eq hcandidates)
    (hprefers.ahead hserver hvector hkeyword hx hscope hy) ?_ hreturned
  intro c hc d hd hcid hdid
  refine relevance_le ?_ ?_
  · rw [text_of_candidate hretrieve hx hc hcid, text_of_candidate hretrieve hy hd hdid]
    exact hprefers.coverage
  · rw [text_of_candidate hretrieve hx hc hcid, text_of_candidate hretrieve hy hd hdid]
    exact hprefers.phrase

/-! ## A search with room -/

/-- A search with room for every chunk in scope finds every one of them. -/
theorem handle_finds (handler : SearchHandler) (env : SearchEnv) {cache : SearchCache}
    (hmiss : RedisSearchCache.get (handler.key tenantId query) env.now env.get cache = none)
    (hdimension : handler.embedder.dimension = embeddingDim) (hnul : '\x00' ∉ query.text)
    (hpool : (t.rows.filter (inScope tenantId query.collectionId)).length ≤ handler.poolSize)
    (htopK : (t.rows.filter (inScope tenantId query.collectionId)).length ≤ query.topK) :
    ∃ results, (handler.handle env tenantId query t cache).1 = .ok results ∧
      ∀ row ∈ t.rows, inScope tenantId query.collectionId row = true →
        ∃ result ∈ results, result.chunkId = row.id ∧ result.documentId = row.documentId ∧
          result.text = row.text.value := by
  have hsized := (handler.embedder.sized query.text).trans hdimension
  obtain ⟨vector, hvector⟩ : ∃ rows, vectorRows handler.server tenantId query
      (handler.embedder.embedOne query.text) handler.poolSize t = .ok rows :=
    ⟨_, if_neg fun h => h.1 hsized⟩
  obtain ⟨keyword, hkeyword⟩ : ∃ rows, keywordRows handler.server tenantId query
      handler.poolSize t = .ok rows := ⟨_, if_neg hnul⟩
  obtain ⟨fused, hfused⟩ := exists_fused vector keyword
  obtain ⟨candidates, hcandidates⟩ := exists_scored hvector hkeyword hfused
  have hretrieve := retrieve_of_arms hvector hkeyword hfused hcandidates
  have hcontract :=
    contract_of_retrieve hvector hkeyword hfused hcandidates hretrieve
  refine ⟨_, by rw [handle_miss hmiss, hretrieve]; rfl, ?_⟩
  intro row hrow hscope
  -- as many results as rows in scope, with ids of such rows and no id twice
  have hids : row.id ∈ (rerank handler.lower query.text candidates
      query.topK).map (·.chunkId) := by
    have hsubset : (rerank handler.lower query.text candidates
        query.topK).map (·.chunkId) ⊆
          (t.rows.filter (inScope tenantId query.collectionId)).map (·.id) := by
      intro id hid
      obtain ⟨result, hresult, rfl⟩ := List.mem_map.mp hid
      obtain ⟨found, hfound, hfoundScope, hsame, -⟩ := hcontract.ofRows result hresult
      exact List.mem_map.mpr ⟨found, List.mem_filter.mpr ⟨hfound, hfoundScope⟩, hsame⟩
    have hperm := (hcontract.distinct.subperm hsubset).perm_of_length_le (by
      rw [List.length_map, List.length_map, hcontract.count]
      omega)
    exact hperm.mem_iff.mpr (List.mem_map_of_mem (List.mem_filter.mpr ⟨hrow, hscope⟩))
  obtain ⟨result, hresult, hid⟩ := List.mem_map.mp hids
  obtain ⟨found, hfound, -, hsame, hdocument, htext⟩ := hcontract.ofRows result hresult
  obtain rfl : found = row :=
    t.eq_of_clash hfound hrow (.inl (hsame.trans hid)) (.inl (hsame.trans hid).symm)
  exact ⟨result, hresult, hid, hdocument.symm, htext.symm⟩

/-! ### Tea -/

/-- A vector says how long its text is. -/
def teaEmbedder : EmbeddingModel where
  dimension := embeddingDim
  embedOne text := ⟨List.replicate embeddingDim (text.length : ℚ),
    List.ne_nil_of_length_pos (by rw [List.length_replicate]; exact Nat.succ_pos 383)⟩
  sized _ := List.length_replicate

/-- Near are texts of about the same length, and a text matches that has the query in it. -/
noncomputable def teaServer : SearchServer where
  nearer q a b := decide (|q.values.headD 0 - a.embedding.values.headD 0| ≤
    |q.values.headD 0 - b.embedding.values.headD 0|)
  tsMatches text row := text <:+: row.value
  tsRanks _ _ _ := true
  vectorTies := .some _
  keywordTies := .some _

theorem teaServer_ordered : teaServer.Ordered where
  nearerTrans _ _ _ _ h h' := decide_eq_true ((of_decide_eq_true h).trans (of_decide_eq_true h'))
  nearerTotal _ _ _ := by
    simp only [teaServer, Bool.or_eq_true, decide_eq_true_eq]
    exact le_total _ _
  ranksTrans _ _ _ _ _ _ := rfl
  ranksTotal _ _ _ := rfl

noncomputable def teaHandler : SearchHandler :=
  ⟨teaEmbedder, teaServer, id, id, 25, 90⟩

def teaRow (ordinal : Nat) (text : Text) : ChunkModel :=
  ⟨⟨ordinal⟩, ⟨1⟩, ⟨5⟩, ⟨2⟩, 1, ordinal, text,
    ⟨teaEmbedder.embedOne text.value, teaEmbedder.sized _⟩, 1⟩

def teaText : Text := ⟨"tea".toList, by decide⟩

def leavesText : Text := ⟨"green leaves".toList, by decide⟩

def teaIndex : Chunks :=
  ⟨[teaRow 6 leavesText, teaRow 7 teaText], List.pairwise_pair.mpr (by
    rintro (hid | ⟨-, hordinal⟩)
    · cases hid
    · cases hordinal)⟩

def teaQuery : SearchQuery := ⟨"tea".toList, 3, none, by decide, by decide, by decide⟩

theorem teaRow_preferred :
    teaHandler.Prefers teaQuery (teaRow 7 teaText) (teaRow 6 leavesText) where
  nearer := by decide +kernel
  keyword h := by
    have hnot : teaHandler.server.tsMatches teaQuery.text (teaRow 6 leavesText).text = false := by
      decide +kernel
    rw [hnot] at h
    cases h
  coverage := by decide +kernel
  phrase h := by
    have hnot : ¬ normalize id teaQuery.text <:+: (teaRow 6 leavesText).text.value := by
      decide +kernel
    exact absurd h hnot

theorem handle_prefers_tea : ∃ results,
    (teaHandler.handle ⟨1, .returns, .returns⟩ ⟨1⟩ teaQuery teaIndex .empty).1 = .ok results ∧
      [⟨7⟩, ⟨6⟩].Sublist (results.map (·.chunkId)) := by
  have hmiss : RedisSearchCache.get (teaHandler.key ⟨1⟩ teaQuery) 1 .returns .empty = none := rfl
  obtain ⟨results, hresults, hfound⟩ := teaHandler.handle_finds ⟨1, .returns, .returns⟩
    (t := teaIndex) hmiss rfl (by decide) (by decide) (by decide)
  obtain ⟨result, hresult, hid, -⟩ := hfound (teaRow 6 leavesText) List.mem_cons_self rfl
  refine ⟨results, hresults, ?_⟩
  exact handle_prefers teaServer_ordered hmiss hresults
    (List.mem_cons_of_mem _ List.mem_cons_self) rfl teaRow_preferred List.mem_cons_self
    (List.mem_map.mpr ⟨result, hresult, hid⟩)

end SearchHandler

end Eka
