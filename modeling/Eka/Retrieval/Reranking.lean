import Mathlib.Algebra.Order.Ring.Rat
import Eka.Lib.MinMax
import Eka.Lib.SortedDesc
import Eka.Retrieval.Search

/-!
# What reranking keeps

A final score is a share of the normalized retrieval score, and a share of what the text of the
candidate has of the query. Only the first one depends on the other candidates.
-/

namespace Eka

open Py MinMax

namespace LexicalReranker

/-- What the text of a candidate gives, without its retrieval score. -/
def relevance (lower : Str → Str) (queryText : Str) (candidate : ScoredChunk) : ℚ :=
  final lower queryText 0 0 candidate

/-- The final score of a candidate among those that are reranked with it. -/
def finalAmong (lower : Str → Str) (queryText : Str) (candidates : List ScoredChunk)
    (candidate : ScoredChunk) : ℚ :=
  final lower queryText (low (candidates.map (·.score))) (span (candidates.map (·.score)))
    candidate

/-- A candidate with its final score. -/
def ranked (lower : Str → Str) (queryText : Str) (candidates : List ScoredChunk)
    (candidate : ScoredChunk) : ScoredChunk :=
  { candidate with score := finalAmong lower queryText candidates candidate }

variable {lower : Str → Str} {queryText : Str} {candidates : List ScoredChunk}

/-- The candidates with their final scores, the best first. -/
theorem rerank_eq (lower : Str → Str) (queryText : Str) (candidates : List ScoredChunk)
    (topK : Nat) :
    rerank lower queryText candidates topK =
      (sortedDesc (·.score) (candidates.map (ranked lower queryText candidates))).take topK := by
  unfold rerank
  cases candidates with
  | nil => simp [sortedDesc]
  | cons first rest => rfl

theorem relevance_setScore (lower : Str → Str) (queryText : Str) (candidate : ScoredChunk)
    (score : ℚ) :
    relevance lower queryText { candidate with score := score } =
      relevance lower queryText candidate := by
  simp [relevance, final]

theorem final_eq (low span : ℚ) (candidate : ScoredChunk) :
    final lower queryText low span candidate =
      3 / 10 * ((candidate.score - low) / span) + relevance lower queryText candidate := by
  unfold relevance final
  by_cases hspan : span = 0
  · simp [hspan]
  · simp [hspan, add_assoc]

theorem finalAmong_eq (lower : Str → Str) (queryText : Str) (candidates : List ScoredChunk)
    (candidate : ScoredChunk) :
    finalAmong lower queryText candidates candidate =
      3 / 10 * normalized (candidates.map (·.score)) candidate.score +
        relevance lower queryText candidate := final_eq _ _ candidate

/-! ## What is returned -/

theorem coverage_mem_unit (lower : Str → Str) (queryText text : Str) :
    0 ≤ coverage lower queryText text ∧ coverage lower queryText text ≤ 1 := by
  have hle : (((tokens lower queryText).filter (· ∈ tokens lower text)).length : ℚ) ≤
      (tokens lower queryText).length := by
    exact_mod_cast List.length_filter_le _ (tokens lower queryText)
  unfold coverage
  exact ⟨by positivity, div_le_one_of_le₀ hle (Nat.cast_nonneg _)⟩

theorem relevance_eq (lower : Str → Str) (queryText : Str) (candidate : ScoredChunk) :
    relevance lower queryText candidate = 6 / 10 * coverage lower queryText candidate.text +
      1 / 10 * if normalize lower queryText <:+: lower candidate.text then 1 else 0 := by
  unfold relevance final coverage
  by_cases htokens : tokens lower queryText = []
  · simp [htokens]
  · simp [htokens]

theorem relevance_mem (lower : Str → Str) (queryText : Str) (candidate : ScoredChunk) :
    0 ≤ relevance lower queryText candidate ∧ relevance lower queryText candidate ≤ 7 / 10 := by
  obtain ⟨hpos, hle⟩ := coverage_mem_unit lower queryText candidate.text
  rw [relevance_eq]
  split
  · exact ⟨by linarith, by linarith⟩
  · exact ⟨by linarith, by linarith⟩

/-- A final score lies between 0 and 1. -/
theorem finalAmong_mem_unit (lower : Str → Str) (queryText : Str) {c : ScoredChunk}
    (hc : c ∈ candidates) :
    0 ≤ finalAmong lower queryText candidates c ∧ finalAmong lower queryText candidates c ≤ 1 := by
  have hscore := List.mem_map_of_mem (f := (·.score)) hc
  have hpos := normalized_nonneg hscore
  have hle := normalized_le_one hscore
  obtain ⟨hpos', hle'⟩ := relevance_mem lower queryText c
  rw [finalAmong_eq]
  exact ⟨by linarith, by linarith⟩

theorem length_rerank (topK : Nat) :
    (rerank lower queryText candidates topK).length = min topK candidates.length := by
  rw [rerank_eq, List.length_take, length_sortedDesc, List.length_map]

theorem mem_of_mem_rerank {topK : Nat} {result : ScoredChunk}
    (h : result ∈ rerank lower queryText candidates topK) :
    ∃ c ∈ candidates, result = ranked lower queryText candidates c := by
  rw [rerank_eq] at h
  obtain ⟨c, hc, heq⟩ := List.mem_map.mp (mem_sortedDesc.mp (List.mem_of_mem_take h))
  exact ⟨c, hc, heq.symm⟩

theorem rerank_pairwise (lower : Str → Str) (queryText : Str) (candidates : List ScoredChunk)
    (topK : Nat) :
    (rerank lower queryText candidates topK).Pairwise fun a b => b.score ≤ a.score := by
  rw [rerank_eq]
  exact (sortedDesc_pairwise _ _).sublist (List.take_sublist _ _)

/-- Reranking keeps the ids apart. -/
theorem nodup_rerank (h : (candidates.map (·.chunkId)).Nodup) (topK : Nat) :
    ((rerank lower queryText candidates topK).map (·.chunkId)).Nodup := by
  have hids : (candidates.map (ranked lower queryText candidates)).map ScoredChunk.chunkId =
      candidates.map ScoredChunk.chunkId := by
    rw [List.map_map]
    rfl
  have hperm := (sortedDesc_perm (·.score)
    (candidates.map (ranked lower queryText candidates))).map ScoredChunk.chunkId
  rw [rerank_eq, List.map_take]
  refine List.Nodup.sublist (List.take_sublist _ _) (hperm.nodup_iff.mpr ?_)
  rw [hids]
  exact h

/-- What the cut leaves out is no better than what it keeps. -/
theorem finalAmong_le_of_cut {topK : Nat} {c result : ScoredChunk} (hc : c ∈ candidates)
    (hcut : c.chunkId ∉ (rerank lower queryText candidates topK).map (·.chunkId))
    (hresult : result ∈ rerank lower queryText candidates topK) :
    finalAmong lower queryText candidates c ≤ result.score := by
  have hnot : ranked lower queryText candidates c ∉ rerank lower queryText candidates topK := by
    intro hmem
    exact hcut (List.mem_map.mpr ⟨_, hmem, rfl⟩)
  rw [rerank_eq] at hnot hresult
  exact le_of_notMem_take hresult (List.mem_map_of_mem hc) hnot

/-! ## One retrieval score raised -/

/-- A raise of one retrieval score lowers the lead in the final score over no other candidate. -/
theorem finalAmong_sub_le_raised (lower : Str → Str) (queryText : Str)
    {pre post : List ScoredChunk} (c : ScoredChunk) {δ : ℚ} (hδ : 0 ≤ δ) {d : ScoredChunk}
    (hd : d ∈ pre ++ post) :
    finalAmong lower queryText (pre ++ c :: post) c -
        finalAmong lower queryText (pre ++ c :: post) d ≤
      finalAmong lower queryText (pre ++ { c with score := c.score + δ } :: post)
          { c with score := c.score + δ } -
        finalAmong lower queryText (pre ++ { c with score := c.score + δ } :: post) d := by
  have hscore : d.score ∈ pre.map (·.score) ++ post.map (·.score) := by
    rw [← List.map_append]
    exact List.mem_map_of_mem hd
  have hgap := normalized_sub_le_raised (x := c.score) hδ hscore
  simp only [finalAmong_eq, List.map_append, List.map_cons, relevance_setScore]
  linarith

/-! ## All retrieval scores mapped -/

theorem finalAmong_affine (lower : Str → Str) (queryText : Str) {a : ℚ} (ha : 0 < a) (b : ℚ)
    {c : ScoredChunk} (hc : c ∈ candidates) :
    finalAmong lower queryText
        (candidates.map fun d => { d with score := a * d.score + b })
        { c with score := a * c.score + b } =
      finalAmong lower queryText candidates c := by
  have hscores : (candidates.map fun d => { d with score := a * d.score + b }).map (·.score) =
      (candidates.map (·.score)).map fun x => a * x + b := by
    rw [List.map_map, List.map_map]
    rfl
  have hc := List.mem_map_of_mem (f := (·.score)) hc
  rw [finalAmong_eq, finalAmong_eq, hscores, normalized_affine ha b hc, relevance_setScore]

theorem map_ranked_affine (lower : Str → Str) (queryText : Str) {a : ℚ} (ha : 0 < a) (b : ℚ) :
    (candidates.map fun d => { d with score := a * d.score + b }).map
        (ranked lower queryText
          (candidates.map fun d => { d with score := a * d.score + b })) =
      candidates.map (ranked lower queryText candidates) := by
  rw [List.map_map]
  apply List.map_congr_left
  intro c hc
  have hfinal := finalAmong_affine lower queryText ha b hc
  simp only [Function.comp_apply, ranked, hfinal]

/-! ## Coverage -/

/-- The candidates with their final scores, as they are sorted before the cut
    (`reranker.py:57`). -/
def order (lower : Str → Str) (queryText : Str) (candidates : List ScoredChunk) :
    List ScoredChunk :=
  sortedDesc (·.score) (candidates.map (ranked lower queryText candidates))

/-- Both are in the order, and no place of `y` is before a place of `x`. -/
structure Precedes (lower : Str → Str) (queryText : Str) (candidates : List ScoredChunk)
    (x y : ScoredChunk) : Prop where
  mem_left : ranked lower queryText candidates x ∈ order lower queryText candidates
  mem_right : ranked lower queryText candidates y ∈ order lower queryText candidates
  before : ∀ i j : Nat, (order lower queryText candidates)[i]? =
      some (ranked lower queryText candidates x) →
    (order lower queryText candidates)[j]? = some (ranked lower queryText candidates y) → i < j

theorem precedes_of_finalAmong_lt {x y : ScoredChunk} (hx : x ∈ candidates) (hy : y ∈ candidates)
    (hlt : finalAmong lower queryText candidates y < finalAmong lower queryText candidates x) :
    Precedes lower queryText candidates x y where
  mem_left := mem_sortedDesc.mpr (List.mem_map_of_mem hx)
  mem_right := mem_sortedDesc.mpr (List.mem_map_of_mem hy)
  before := fun _ _ hi hj => lt_of_getElem?_of_lt (sortedDesc_pairwise _ _) hi hj hlt

/-- The lead in coverage outweighs the whole span of the retrieval scores and the bonus for the
    phrase. -/
theorem finalAmong_lt_of_coverage {x y : ScoredChunk} (hx : x ∈ candidates)
    (hy : y ∈ candidates)
    (hlead : 2 / 3 < coverage lower queryText x.text - coverage lower queryText y.text) :
    finalAmong lower queryText candidates y < finalAmong lower queryText candidates x := by
  have hretrieval := normalized_nonneg (List.mem_map_of_mem (f := (·.score)) hx)
  have hretrieval' := normalized_le_one (List.mem_map_of_mem (f := (·.score)) hy)
  have hphrase : ∀ p : Prop, [Decidable p] → 0 ≤ (if p then 1 else 0 : ℚ) ∧
      (if p then 1 else 0 : ℚ) ≤ 1 := by
    intro p _
    split <;> norm_num
  have hbonus := (hphrase (normalize lower queryText <:+: lower x.text)).1
  have hbonus' := (hphrase (normalize lower queryText <:+: lower y.text)).2
  rw [finalAmong_eq, finalAmong_eq, relevance_eq, relevance_eq]
  linarith

theorem coverage_eq_one {text : Str} (hquery : tokens lower queryText ≠ [])
    (hall : ∀ token ∈ tokens lower queryText, token ∈ tokens lower text) :
    coverage lower queryText text = 1 := by
  have hfilter : (tokens lower queryText).filter (· ∈ tokens lower text) =
      tokens lower queryText := by
    rw [List.filter_eq_self]
    intro token htoken
    exact decide_eq_true (hall token htoken)
  have hlength : ((tokens lower queryText).length : ℚ) ≠ 0 := by
    exact_mod_cast fun h => hquery (List.length_eq_zero_iff.mp h)
  unfold coverage
  rw [hfilter, div_self hlength]

theorem coverage_eq_zero {text : Str}
    (hnone : ∀ token ∈ tokens lower queryText, token ∉ tokens lower text) :
    coverage lower queryText text = 0 := by
  have hfilter : (tokens lower queryText).filter (· ∈ tokens lower text) = [] := by
    rw [List.filter_eq_nil_iff]
    intro token htoken
    simpa using hnone token htoken
  unfold coverage
  rw [hfilter]
  simp

end LexicalReranker

open LexicalReranker

/-- Reranking is monotone in the retrieval score. A raise of one retrieval score lowers the lead
    of its candidate over no other one, and keeps every one that it strictly outscored behind
    it. An increasing affine map of all retrieval scores leaves the final scores and what is
    returned. -/
theorem rerank_monotone (lower : Str → Str) (queryText : Str) :
    (∀ (pre post : List ScoredChunk) (c : ScoredChunk) (δ : ℚ), 0 ≤ δ →
      let before := pre ++ c :: post
      let raised := { c with score := c.score + δ }
      let after := pre ++ raised :: post
      ∀ d ∈ pre ++ post,
        finalAmong lower queryText before c - finalAmong lower queryText before d ≤
          finalAmong lower queryText after raised - finalAmong lower queryText after d ∧
        (finalAmong lower queryText before d < finalAmong lower queryText before c →
          ∀ topK, ranked lower queryText after d ∈ rerank lower queryText after topK →
            [ranked lower queryText after raised, ranked lower queryText after d].Sublist
              (rerank lower queryText after topK))) ∧
    ∀ (candidates : List ScoredChunk) (a b : ℚ), 0 < a →
      let mapped := candidates.map fun c => { c with score := a * c.score + b }
      (∀ c ∈ candidates,
        finalAmong lower queryText mapped { c with score := a * c.score + b } =
          finalAmong lower queryText candidates c) ∧
      ∀ topK, rerank lower queryText mapped topK = rerank lower queryText candidates topK := by
  refine ⟨?_, ?_⟩
  · intro pre post c δ hδ before raised after d hd
    have hgap := finalAmong_sub_le_raised lower queryText c hδ hd
    refine ⟨hgap, ?_⟩
    intro hlt topK hmem
    have hlead : finalAmong lower queryText after d < finalAmong lower queryText after raised :=
      sub_pos.mp ((sub_pos.mpr hlt).trans_le hgap)
    have hraised : raised ∈ after := List.mem_append_right _ List.mem_cons_self
    rw [rerank_eq] at hmem ⊢
    exact pair_sublist_take_of_lt (mem_sortedDesc.mpr (List.mem_map_of_mem hraised)) hmem hlead
  · intro candidates a b ha mapped
    refine ⟨fun c hc => finalAmong_affine lower queryText ha b hc, ?_⟩
    intro topK
    rw [rerank_eq, rerank_eq, map_ranked_affine lower queryText ha b]

/-- Two candidates, the weaker one raised by 3, and both doubled. -/
theorem rerank_monotone_pair :
    let c : ScoredChunk := ⟨⟨1⟩, ⟨1⟩, "tea".toList, 1⟩
    let raised : ScoredChunk := ⟨⟨1⟩, ⟨1⟩, "tea".toList, 1 + 3⟩
    let d : ScoredChunk := ⟨⟨2⟩, ⟨1⟩, "ice".toList, 2⟩
    finalAmong id "tea".toList [c, d] c - finalAmong id "tea".toList [c, d] d ≤
        finalAmong id "tea".toList [raised, d] raised - finalAmong id "tea".toList [raised, d] d ∧
      rerank id "tea".toList [⟨⟨1⟩, ⟨1⟩, "tea".toList, 2 * 1 + 0⟩,
          ⟨⟨2⟩, ⟨1⟩, "ice".toList, 2 * 2 + 0⟩] 2 = rerank id "tea".toList [c, d] 2 := by
  intro c raised d
  obtain ⟨hraise, haffine⟩ := rerank_monotone id "tea".toList
  exact ⟨(hraise [] [d] c 3 (by norm_num) d List.mem_cons_self).1,
    (haffine [c, d] 2 0 (by norm_num)).2 2⟩

/-- Coverage dominates. For every query with a token and all candidates, whatever their retrieval
    scores and texts, the one whose share of the query's tokens is higher by more than 2/3 is
    ahead of the other one; so is one with all the tokens of one with none. What is returned is
    the front of that order. -/
theorem coverage_dominates (lower : Str → Str) (queryText : Str) (candidates : List ScoredChunk)
    (hquery : tokens lower queryText ≠ []) :
    (∀ x ∈ candidates, ∀ y ∈ candidates,
      2 / 3 < coverage lower queryText x.text - coverage lower queryText y.text →
        Precedes lower queryText candidates x y) ∧
    (∀ x ∈ candidates, ∀ y ∈ candidates,
      (∀ token ∈ tokens lower queryText, token ∈ tokens lower x.text) →
      (∀ token ∈ tokens lower queryText, token ∉ tokens lower y.text) →
        Precedes lower queryText candidates x y) ∧
    ∀ topK, rerank lower queryText candidates topK =
      (order lower queryText candidates).take topK := by
  have hdominates : ∀ x ∈ candidates, ∀ y ∈ candidates,
      2 / 3 < coverage lower queryText x.text - coverage lower queryText y.text →
        Precedes lower queryText candidates x y := fun x hx y hy hlead =>
    precedes_of_finalAmong_lt hx hy (finalAmong_lt_of_coverage hx hy hlead)
  refine ⟨hdominates, ?_, rerank_eq lower queryText candidates⟩
  intro x hx y hy hall hnone
  apply hdominates x hx y hy
  rw [coverage_eq_one hquery hall, coverage_eq_zero hnone]
  norm_num

/-- A candidate with the one token of the query, against one with a higher retrieval score that
    has the query within a longer word only. -/
theorem coverage_dominates_pair :
    let x : ScoredChunk := ⟨⟨1⟩, ⟨1⟩, "tea".toList, 1⟩
    let y : ScoredChunk := ⟨⟨2⟩, ⟨1⟩, "steam".toList, 9⟩
    Precedes id "tea".toList [y, x] x y := by
  intro x y
  obtain ⟨-, hfull, -⟩ := coverage_dominates id "tea".toList [y, x] (by decide)
  exact hfull x (by simp) y (by simp) (by decide) (by decide)

end Eka
