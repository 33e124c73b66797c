import Mathlib.Data.Rat.Sqrt
import Eka.Evaluation.Harness
import Eka.Retrieval.Preference

/-!
# The searcher of the quality gate

`evaluation/infrastructure/in_memory_searcher.py`: the corpus of a dataset is ranked by cosine
similarity and by shared tokens, and from there on a search goes as in the service: rank fusion,
then the reranker. The similarities are the numbers that the interpreter computes, whatever way it
rounds; the scores of the fusion and of the reranker are exact. `uuid.uuid5` is left to the
interpreter, too.
-/

namespace Eka

open Py Fallible PgVectorHybridRetriever LexicalReranker

/-- `CorpusDoc` (`dataset.py:8-11`). -/
structure CorpusDoc where
  id : Str
  text : Str

/-- The operations on `float`s that a similarity is computed with. -/
structure FloatOps where
  mul : ℚ → ℚ → ℚ
  div : ℚ → ℚ → ℚ
  sum : List ℚ → ℚ
  sqrt : ℚ → ℚ

namespace Embedding

/-- The value of `cosine_similarity` (`embedding.py:30-34`). -/
def cosine (float : FloatOps) (a b : Embedding) : ℚ :=
  let dot := float.sum (List.zipWith float.mul a.values b.values)
  let norm := float.mul (float.sqrt (float.sum (a.values.map fun v => float.mul v v)))
    (float.sqrt (float.sum (b.values.map fun v => float.mul v v)))
  if norm ≠ 0 then float.div dot norm else 0

/-- `cosine_similarity` (`embedding.py:27-34`). -/
def cosineSimilarity (float : FloatOps) (a b : Embedding) : Except Error ℚ :=
  if a.dimension ≠ b.dimension then
    .error (.validationError "cannot compare embeddings of different dimensions".toList)
  else .ok (a.cosine float b)

end Embedding

/-- `InMemorySearcher` (`in_memory_searcher.py:31-40`), with the reranker that `run_eval.py`
    gives it. -/
structure InMemorySearcher where
  embedder : EmbeddingModel
  lower : Str → Str
  float : FloatOps
  docUuid : Str → UUID
  corpus : List CorpusDoc

namespace InMemorySearcher

/-- The documents with their similarities to the query (`in_memory_searcher.py:50-57`). -/
def sims (searcher : InMemorySearcher) (query : SearchQuery) :
    Except Error (List (CorpusDoc × ℚ)) :=
  let docEmbeddings := searcher.embedder.embed (searcher.corpus.map (·.text))
  (searcher.corpus.zip docEmbeddings).mapM fun (doc, embedding) =>
    ((searcher.embedder.embedOne query.text).cosineSimilarity searcher.float embedding).map
      fun similarity => (doc, similarity)

/-- `len(_tokens(doc.text) & query_tokens)`. -/
def overlap (searcher : InMemorySearcher) (query : SearchQuery) (doc : CorpusDoc) : Nat :=
  ((tokens searcher.lower doc.text).filter (tokens searcher.lower query.text).contains).length

/-- `vector_ids` (`in_memory_searcher.py:53-58`). -/
def vectorIds (searcher : InMemorySearcher) (sims : List (CorpusDoc × ℚ)) : List UUID :=
  (sortedDesc Prod.snd sims).map fun (doc, _) => searcher.docUuid doc.id

/-- `keyword_ids` (`in_memory_searcher.py:60-69`). -/
def keywordIds (searcher : InMemorySearcher) (query : SearchQuery) : List UUID :=
  let overlaps := searcher.corpus.map fun doc => (doc, searcher.overlap query doc)
  ((sortedDesc Prod.snd overlaps).filter fun (_, overlap) => 0 < overlap).map
    fun (doc, _) => searcher.docUuid doc.id

/-- `by_id` (`in_memory_searcher.py:72`). -/
def byId (searcher : InMemorySearcher) : Dict UUID CorpusDoc :=
  Dict.empty.setAll (searcher.corpus.map fun doc => (searcher.docUuid doc.id, doc))

/-- A candidate (`in_memory_searcher.py:75-80`). -/
def candidate (searcher : InMemorySearcher) (item : UUID × ℚ) : Except Error ScoredChunk :=
  match searcher.byId.get? item.1 with
  | none => .error .keyError
  | some doc => .ok ⟨item.1, item.1, doc.text, item.2⟩

/-- `handle` (`in_memory_searcher.py:49-84`); the tenant and the collection are not looked at. -/
def handle (searcher : InMemorySearcher) (_tenantId : UUID) (query : SearchQuery) :
    Except Error (List ScoredChunk) := do
  let sims ← searcher.sims query
  let fused ← reciprocalRankFusion [searcher.vectorIds sims, searcher.keywordIds query]
    defaultRrfK
  let candidates ← (ordered fused).mapM searcher.candidate
  return rerank searcher.lower query.text candidates query.topK

/-! ## The rankings -/

variable {searcher : InMemorySearcher} {query : SearchQuery} {x y : CorpusDoc}

/-- The computed similarity of a document to the query. -/
def similarity (searcher : InMemorySearcher) (query : SearchQuery) (doc : CorpusDoc) : ℚ :=
  (searcher.embedder.embedOne query.text).cosine searcher.float
    (searcher.embedder.embedOne doc.text)

/-- No two vectors of the embedder are refused. -/
theorem sims_eq (searcher : InMemorySearcher) (query : SearchQuery) :
    searcher.sims query =
      .ok (searcher.corpus.map fun doc => (doc, searcher.similarity query doc)) := by
  unfold sims EmbeddingModel.embed
  generalize searcher.corpus = corpus
  refine mapM_ok.mpr ?_
  induction corpus with
  | nil => exact .nil
  | cons doc corpus ih =>
      refine .cons ?_ ih
      have hsized := (searcher.embedder.sized query.text).trans
        (searcher.embedder.sized doc.text).symm
      simp only [Embedding.cosineSimilarity, ne_eq, hsized, not_true_eq_false, ↓reduceIte]
      rfl

/-- Sorting pairs by what was computed for the documents is sorting the documents by it. -/
theorem sortedDesc_pairs {κ : Type} [LinearOrder κ] (key : CorpusDoc → κ)
    (corpus : List CorpusDoc) :
    sortedDesc Prod.snd (corpus.map fun doc => (doc, key doc)) =
      (sortedDesc key corpus).map fun doc => (doc, key doc) :=
  sortedDesc_map (fun _ => rfl) corpus

theorem vectorIds_eq (searcher : InMemorySearcher) (query : SearchQuery) :
    searcher.vectorIds (searcher.corpus.map fun doc => (doc, searcher.similarity query doc)) =
      (sortedDesc (searcher.similarity query) searcher.corpus).map
        fun doc => searcher.docUuid doc.id := by
  unfold vectorIds
  rw [sortedDesc_pairs, List.map_map]
  rfl

theorem keywordIds_eq (searcher : InMemorySearcher) (query : SearchQuery) :
    searcher.keywordIds query =
      ((sortedDesc (searcher.overlap query) searcher.corpus).filter
        fun doc => 0 < searcher.overlap query doc).map fun doc => searcher.docUuid doc.id := by
  unfold keywordIds
  simp only
  rw [sortedDesc_pairs, List.filter_map, List.map_map]
  rfl

/-! ## Being preferred -/

/-- Document `x` answers a query better than document `y`: it is more similar, it shares more
    tokens if `y` shares any, and it has the query itself if `y` has. Of two that are alike in one
    of the first two, the earlier one is preferred. -/
structure Prefers (searcher : InMemorySearcher) (query : SearchQuery) (x y : CorpusDoc) : Prop where
  similarity : searcher.similarity query y < searcher.similarity query x ∨
    searcher.similarity query y = searcher.similarity query x ∧ [x, y].Sublist searcher.corpus
  overlap : 0 < searcher.overlap query y → searcher.overlap query y < searcher.overlap query x ∨
    searcher.overlap query y = searcher.overlap query x ∧ [x, y].Sublist searcher.corpus
  phrase : normalize searcher.lower query.text <:+: searcher.lower y.text →
    normalize searcher.lower query.text <:+: searcher.lower x.text

/-- What two lists have in common is as much of the one as of the other. -/
theorem length_filter_comm {α : Type} [BEq α] [LawfulBEq α] {xs ys : List α} (hxs : xs.Nodup)
    (hys : ys.Nodup) : (xs.filter (· ∈ ys)).length = (ys.filter xs.contains).length := by
  refine List.Perm.length_eq ?_
  refine (List.perm_ext_iff_of_nodup (hxs.filter _) (hys.filter _)).mpr ?_
  intro a
  simp only [List.mem_filter, decide_eq_true_eq, List.contains_iff_mem]
  exact and_comm

/-- The coverage of the reranker is the overlap, as a share of the query's tokens. -/
theorem coverage_eq (searcher : InMemorySearcher) (query : SearchQuery) (doc : CorpusDoc) :
    coverage searcher.lower query.text doc.text =
      searcher.overlap query doc / (tokens searcher.lower query.text).length := by
  have hnodup : ∀ text, (tokens searcher.lower text).Nodup := fun _ => List.nodup_dedup _
  exact congrArg (fun n : Nat => (n : ℚ) / (tokens searcher.lower query.text).length)
    (length_filter_comm (hnodup query.text) (hnodup doc.text))

theorem Prefers.overlap_le (h : searcher.Prefers query x y) :
    searcher.overlap query y ≤ searcher.overlap query x := by
  rcases Nat.eq_zero_or_pos (searcher.overlap query y) with hzero | hpos
  · exact hzero ▸ Nat.zero_le _
  · rcases h.overlap hpos with hlt | ⟨heq, -⟩
    · exact hlt.le
    · exact heq.le

theorem Prefers.coverage_le (h : searcher.Prefers query x y) :
    coverage searcher.lower query.text y.text ≤ coverage searcher.lower query.text x.text := by
  rw [coverage_eq, coverage_eq]
  exact div_le_div_of_nonneg_right (by exact_mod_cast h.overlap_le) (Nat.cast_nonneg _)

/-! ## A search -/

section Distinct

variable (hdistinct : (searcher.corpus.map fun doc => searcher.docUuid doc.id).Nodup)

include hdistinct

/-- Documents of the corpus are known by their ids. -/
theorem eq_of_docUuid (hx : x ∈ searcher.corpus) (hy : y ∈ searcher.corpus)
    (hid : searcher.docUuid x.id = searcher.docUuid y.id) : x = y :=
  List.inj_on_of_nodup_map hdistinct hx hy hid

theorem nodup_vectorIds : ((sortedDesc (searcher.similarity query) searcher.corpus).map
    fun doc => searcher.docUuid doc.id).Nodup :=
  ((sortedDesc_perm _ _).map _).nodup_iff.mpr hdistinct

theorem nodup_keywordIds : (searcher.keywordIds query).Nodup := by
  rw [keywordIds_eq]
  refine (List.filter_sublist.map _).nodup ?_
  exact ((sortedDesc_perm _ _).map _).nodup_iff.mpr hdistinct

theorem byId_of_mem (hx : x ∈ searcher.corpus) :
    searcher.byId.get? (searcher.docUuid x.id) = some x := by
  refine Dict.get?_setAll_of_mem (List.mem_map_of_mem hx) ?_
  intro y hy
  obtain ⟨doc, hdoc, heq⟩ := List.mem_map.mp hy
  obtain ⟨hid, rfl⟩ := Prod.mk.injEq .. ▸ heq
  exact eq_of_docUuid hdistinct hdoc hx hid

/-- Both rankings that have the worse document have the better one ahead of it. -/
theorem Prefers.ahead (h : searcher.Prefers query x y) (hx : x ∈ searcher.corpus)
    (hy : y ∈ searcher.corpus) :
    ∀ ranking ∈ [(sortedDesc (searcher.similarity query) searcher.corpus).map
        fun doc => searcher.docUuid doc.id, searcher.keywordIds query],
      searcher.docUuid y.id ∈ ranking →
        [searcher.docUuid x.id, searcher.docUuid y.id].Sublist ranking := by
  intro ranking hranking hmem
  simp only [List.mem_cons, List.not_mem_nil, or_false] at hranking
  rcases hranking with rfl | rfl
  · exact (pair_sublist_sortedDesc hx hy h.similarity).map fun doc => searcher.docUuid doc.id
  · rw [keywordIds_eq] at hmem ⊢
    obtain ⟨doc, hdoc, hid⟩ := List.mem_map.mp hmem
    obtain ⟨hmem, hpositive⟩ := List.mem_filter.mp hdoc
    obtain rfl := eq_of_docUuid hdistinct (mem_sortedDesc.mp hmem) hy hid
    have hpos : 0 < searcher.overlap query doc := of_decide_eq_true hpositive
    have hpair := (pair_sublist_sortedDesc hx hy (h.overlap hpos)).filter
      fun doc => 0 < searcher.overlap query doc
    have hboth : [x, doc].filter (fun doc => 0 < searcher.overlap query doc) = [x, doc] := by
      simp [hpos, hpos.trans_le h.overlap_le]
    rw [hboth] at hpair
    exact hpair.map fun doc => searcher.docUuid doc.id

section Fused

variable {fused : Dict UUID ℚ}
  (hfused : reciprocalRankFusion [(sortedDesc (searcher.similarity query) searcher.corpus).map
    fun doc => searcher.docUuid doc.id, searcher.keywordIds query] defaultRrfK = .ok fused)

include hfused

omit hdistinct in
/-- The first ranking has all documents, so they are what is fused. -/
theorem mem_keys_fused {id : UUID} :
    id ∈ fused.keys ↔ id ∈ searcher.corpus.map fun doc => searcher.docUuid doc.id := by
  rw [mem_keys_fusion hfused, keywordIds_eq]
  simp only [List.mem_cons, List.not_mem_nil, or_false, exists_eq_or_imp, exists_eq_left,
    List.mem_map, List.mem_filter, mem_sortedDesc]
  constructor
  · rintro (⟨doc, hdoc, hid⟩ | ⟨doc, ⟨hdoc, -⟩, hid⟩)
    · exact ⟨doc, hdoc, hid⟩
    · exact ⟨doc, hdoc, hid⟩
  · rintro ⟨doc, hdoc, hid⟩
    exact .inl ⟨doc, hdoc, hid⟩

theorem length_ordered_fused : (ordered fused).length = searcher.corpus.length := by
  have hperm := (List.perm_ext_iff_of_nodup fused.nodup_keys hdistinct).mpr
    fun _ => mem_keys_fused hfused
  rw [length_ordered, hperm.length_eq, List.length_map]

theorem candidate_of_mem {item : UUID × ℚ} (hitem : item ∈ ordered fused) :
    ∃ doc ∈ searcher.corpus, searcher.docUuid doc.id = item.1 ∧
      searcher.candidate item = .ok ⟨item.1, item.1, doc.text, item.2⟩ := by
  obtain ⟨doc, hdoc, hid⟩ := List.mem_map.mp
    ((mem_keys_fused hfused).mp (List.mem_map_of_mem (mem_ordered.mp hitem)))
  refine ⟨doc, hdoc, hid, ?_⟩
  unfold candidate
  rw [← hid, byId_of_mem hdistinct hdoc]

/-- The candidates are the documents, with their fused scores. -/
theorem exists_candidates : ∃ candidates, (ordered fused).mapM searcher.candidate =
      .ok candidates ∧
    candidates.map (fun c => (c.chunkId, c.score)) = (ordered fused).take (ordered fused).length ∧
    ∀ c ∈ candidates, ∃ doc ∈ searcher.corpus, c.chunkId = searcher.docUuid doc.id ∧
      c.documentId = searcher.docUuid doc.id ∧ c.text = doc.text := by
  obtain ⟨candidates, hcandidates⟩ := exists_mapM_ok (f := searcher.candidate) fun item hitem =>
    let ⟨_, _, _, h⟩ := candidate_of_mem hdistinct hfused hitem
    ⟨_, h⟩
  refine ⟨candidates, hcandidates, ?_, ?_⟩
  · have hmap := map_of_mapM_ok hcandidates (g := fun c => (c.chunkId, c.score)) (k := id) ?_
    · rw [hmap, List.map_id, List.take_length]
    · intro item c hc
      unfold candidate at hc
      split at hc
      · cases hc
      · cases hc
        rfl
  · intro c hc
    obtain ⟨item, hitem, heq⟩ := mem_of_mapM_ok hcandidates hc
    obtain ⟨doc, hdoc, hid, hok⟩ := candidate_of_mem hdistinct hfused hitem
    obtain rfl := Except.ok.inj (hok.symm.trans heq)
    exact ⟨doc, hdoc, hid.symm, hid.symm, rfl⟩

end Fused

theorem exists_handle (tenantId : UUID) (query : SearchQuery) : ∃ fused candidates,
    reciprocalRankFusion [(sortedDesc (searcher.similarity query) searcher.corpus).map
      fun doc => searcher.docUuid doc.id, searcher.keywordIds query] defaultRrfK = .ok fused ∧
    searcher.handle tenantId query =
      .ok (rerank searcher.lower query.text candidates query.topK) ∧
    candidates.map (fun c => (c.chunkId, c.score)) = (ordered fused).take (ordered fused).length ∧
    ∀ c ∈ candidates, ∃ doc ∈ searcher.corpus, c.chunkId = searcher.docUuid doc.id ∧
      c.documentId = searcher.docUuid doc.id ∧ c.text = doc.text := by
  obtain ⟨fused, hfused⟩ := exists_fusion (by decide : 1 ≤ defaultRrfK)
    [(sortedDesc (searcher.similarity query) searcher.corpus).map
      fun doc => searcher.docUuid doc.id, searcher.keywordIds query]
  obtain ⟨candidates, hcandidates, hitems, hdocs⟩ := exists_candidates hdistinct hfused
  refine ⟨fused, candidates, hfused, ?_, hitems, hdocs⟩
  unfold handle
  rw [sims_eq]
  refine bind_ok.mpr ⟨_, rfl, bind_ok.mpr ⟨fused, ?_, bind_ok.mpr ⟨candidates, hcandidates, rfl⟩⟩⟩
  rw [vectorIds_eq]
  exact hfused

/-- A search returns, for every corpus and every query: as many documents as it may, none twice,
    with their own ids and texts, and whichever is preferred ahead of the other one. -/
theorem handle_ranks (tenantId : UUID) (query : SearchQuery) :
    ∃ results, searcher.handle tenantId query = .ok results ∧
      results.length = min query.topK searcher.corpus.length ∧
      (results.map (·.chunkId)).Nodup ∧
      (∀ result ∈ results, ∃ doc ∈ searcher.corpus, result.chunkId = searcher.docUuid doc.id ∧
        result.documentId = searcher.docUuid doc.id ∧ result.text = doc.text) ∧
      ∀ x ∈ searcher.corpus, ∀ y ∈ searcher.corpus, searcher.Prefers query x y →
        searcher.docUuid y.id ∈ results.map (·.chunkId) →
          [searcher.docUuid x.id, searcher.docUuid y.id].Sublist (results.map (·.chunkId)) := by
  obtain ⟨fused, candidates, hfused, hhandle, hitems, hdocs⟩ :=
    exists_handle hdistinct tenantId query
  have hlength : candidates.length = searcher.corpus.length := by
    have hcount := congrArg List.length hitems
    rw [List.length_map, List.take_length] at hcount
    exact hcount.trans (length_ordered_fused hdistinct hfused)
  have hids : (candidates.map (·.chunkId)).Nodup := by
    have hfirst := congrArg (List.map Prod.fst) hitems
    rw [List.map_map, List.take_length] at hfirst
    rw [show candidates.map (·.chunkId) = (ordered fused).map Prod.fst from hfirst]
    exact ((List.mergeSort_perm fused.items _).map Prod.fst).nodup_iff.mpr fused.nodup
  refine ⟨rerank searcher.lower query.text candidates query.topK, hhandle, ?_,
    nodup_rerank hids _, ?_, ?_⟩
  · rw [length_rerank, hlength]
  · intro result hresult
    obtain ⟨c, hc, rfl⟩ := mem_of_mem_rerank hresult
    exact hdocs c hc
  · intro x hx y hy hprefers hreturned
    have hnodup : ∀ ranking ∈ [(sortedDesc (searcher.similarity query) searcher.corpus).map
        fun doc => searcher.docUuid doc.id, searcher.keywordIds query], ranking.Nodup := by
      intro ranking hranking
      simp only [List.mem_cons, List.not_mem_nil, or_false] at hranking
      rcases hranking with rfl | rfl
      · exact nodup_vectorIds hdistinct
      · exact nodup_keywordIds hdistinct
    have htext : ∀ doc ∈ searcher.corpus, ∀ c ∈ candidates,
        c.chunkId = searcher.docUuid doc.id → c.text = doc.text := by
      intro doc hdoc c hc hid
      obtain ⟨found, hfound, hfoundId, -, htext⟩ := hdocs c hc
      obtain rfl := eq_of_docUuid hdistinct hfound hdoc (hfoundId.symm.trans hid)
      exact htext
    refine rerank_prefers hnodup hfused hitems (hprefers.ahead hdistinct hx hy) ?_ hreturned
    intro c hc d hd hcid hdid
    refine relevance_le ?_ ?_
    · rw [htext x hx c hc hcid, htext y hy d hd hdid]
      exact hprefers.coverage_le
    · rw [htext x hx c hc hcid, htext y hy d hd hdid]
      exact hprefers.phrase

/-- An evaluation over the corpus returns if and only if each of its queries can be made. -/
theorem run_returns_iff {harness : EvaluationHarness}
    (hsearcher : harness.searcher = searcher.handle) (cases : List EvalCase) (tenantId : UUID)
    (topK : Int) :
    (∃ report, harness.run cases tenantId topK = .ok report) ↔
      ∀ c ∈ cases, strip c.question ≠ [] ∧ 1 ≤ topK ∧ topK ≤ maxTopK := by
  constructor
  · rintro ⟨report, hrun⟩ c hc
    obtain ⟨result, -, hcase⟩ := exists_of_mapM_ok (EvaluationHarness.run_ok hrun) hc
    obtain ⟨query, -, hquery, -⟩ := EvaluationHarness.runCase_ok hcase
    unfold SearchQuery.make at hquery
    split at hquery
    · cases hquery
    · next hblank =>
        split at hquery
        · next hrange => exact ⟨hblank, hrange⟩
        · cases hquery
  · intro hcases
    have hcase : ∀ c ∈ cases, ∃ result, harness.runCase tenantId topK c = .ok result := by
      intro c hc
      obtain ⟨hblank, hrange⟩ := hcases c hc
      obtain ⟨query, hquery⟩ : ∃ query, SearchQuery.make c.question topK none = .ok query := by
        unfold SearchQuery.make
        rw [dif_neg hblank, dif_pos hrange]
        exact ⟨_, rfl⟩
      obtain ⟨-, candidates, -, hhandle, -⟩ := exists_handle hdistinct tenantId query
      exact ⟨_, bind_ok.mpr ⟨query, hquery, bind_ok.mpr ⟨_, hsearcher ▸ hhandle, rfl⟩⟩⟩
    obtain ⟨results, hresults⟩ := exists_mapM_ok hcase
    exact ⟨⟨results⟩, bind_ok.mpr ⟨results, hresults, rfl⟩⟩

end Distinct

/-! ### Tea -/

def teaLeaves : CorpusDoc := ⟨"leaves".toList, "green leaves".toList⟩

def teaCup : CorpusDoc := ⟨"cup".toList, "tea".toList⟩

/-- A vector for short texts and one for long ones. -/
def teaSearcher : InMemorySearcher where
  embedder := ⟨2, fun text => if text.length ≤ 5 then ⟨[1, 0], by simp⟩
    else ⟨[0, 1], by simp⟩, fun text => by split <;> rfl⟩
  lower := id
  float := ⟨(· * ·), (· / ·), List.sum, Rat.sqrt⟩
  docUuid id := ⟨id.length⟩
  corpus := [teaLeaves, teaCup]

theorem teaCup_preferred : teaSearcher.Prefers SearchHandler.teaQuery teaCup teaLeaves where
  similarity := .inl (by decide +kernel)
  overlap h := by
    have hnone : teaSearcher.overlap SearchHandler.teaQuery teaLeaves = 0 := by decide +kernel
    omega
  phrase h := by
    have hnot : ¬ normalize id SearchHandler.teaQuery.text <:+: teaLeaves.text := by
      decide +kernel
    exact absurd h hnot

theorem handle_ranks_tea : ∃ results,
    teaSearcher.handle ⟨1⟩ SearchHandler.teaQuery = .ok results ∧
      results.map (·.chunkId) = [⟨3⟩, ⟨6⟩] := by
  obtain ⟨results, hresults, hlength, hnodup, hdocs, hprefers⟩ :=
    @handle_ranks teaSearcher (by decide) ⟨1⟩ SearchHandler.teaQuery
  have hids : (results.map (·.chunkId)).length = 2 := (List.length_map _).trans hlength
  have hsubset : results.map (·.chunkId) ⊆ [⟨6⟩, ⟨3⟩] := by
    intro id hid
    obtain ⟨result, hresult, rfl⟩ := List.mem_map.mp hid
    obtain ⟨doc, hdoc, hid, -⟩ := hdocs result hresult
    exact hid ▸ List.mem_map_of_mem (f := fun doc : CorpusDoc => teaSearcher.docUuid doc.id) hdoc
  have hperm := (hnodup.subperm hsubset).perm_of_length_le hids.ge
  have hpair := hprefers teaCup (List.mem_cons_of_mem _ List.mem_cons_self) teaLeaves
    List.mem_cons_self teaCup_preferred (hperm.mem_iff.mpr List.mem_cons_self)
  exact ⟨results, hresults, (hpair.eq_of_length hids.symm).symm⟩

end InMemorySearcher

end Eka
