import Mathlib.Algebra.Order.Field.Basic
import Eka.Lib.SortedDesc
import Eka.Retrieval.Retriever

/-!
# What rank fusion prefers

The score of an item is the sum of what each ranking gives it, so the order of the rankings does
not matter, and an item that is ahead wherever another one is ranked ends up ahead of it.
-/

namespace Eka

open Py

/-- What a ranking gives an item: `1 / (k + rank)`, and nothing if it does not rank it. -/
def contribution (k : Int) (ranking : List UUID) (id : UUID) : ℚ :=
  if id ∈ ranking then 1 / (k + (ranking.idxOf id + 1 : Nat)) else 0

/-- What the rankings give an item together. -/
def totalScore (k : Int) (rankings : List (List UUID)) (id : UUID) : ℚ :=
  rankings.foldr (fun ranking total => contribution k ranking id + total) 0

theorem totalScore_eq_zero {k : Int} {rankings : List (List UUID)} {id : UUID}
    (h : ¬ ∃ ranking ∈ rankings, id ∈ ranking) : totalScore k rankings id = 0 := by
  induction rankings with
  | nil => rfl
  | cons ranking rankings ih =>
      have hranking : id ∉ ranking := fun hmem => h ⟨ranking, List.mem_cons_self, hmem⟩
      have hrest : ¬ ∃ r ∈ rankings, id ∈ r := by
        rintro ⟨r, hr, hmem⟩
        exact h ⟨r, List.mem_cons_of_mem _ hr, hmem⟩
      show contribution k ranking id + totalScore k rankings id = 0
      rw [ih hrest, contribution, if_neg hranking, add_zero]

/-- The order of the rankings does not matter. -/
theorem totalScore_perm {k : Int} {rankings rankings' : List (List UUID)}
    (h : rankings'.Perm rankings) (id : UUID) :
    totalScore k rankings' id = totalScore k rankings id := by
  induction h with
  | nil => rfl
  | cons ranking _ ih => exact congrArg (contribution k ranking id + ·) ih
  | swap a b rankings =>
      show contribution k b id + (contribution k a id + totalScore k rankings id) =
        contribution k a id + (contribution k b id + totalScore k rankings id)
      rw [← add_assoc, ← add_assoc, add_comm (contribution k b id)]
  | trans _ _ ih ih' => exact ih.trans ih'

/-! ## The fused scores -/

/-- One ranking, from rank `n` on. -/
theorem get?_foldl_addRank (k : Int) {ranking : List UUID} (hnodup : ranking.Nodup) (n : Nat)
    (scores : Dict UUID ℚ) (id : UUID) :
    ((ranking.zipIdx n).foldl (addRank k) scores).get? id =
      if id ∈ ranking then
        some ((scores.get? id).getD 0 + 1 / (k + (ranking.idxOf id + n : Nat)))
      else scores.get? id := by
  induction ranking generalizing n scores with
  | nil => rfl
  | cons item ranking ih =>
      obtain ⟨hitem, hrest⟩ := List.nodup_cons.mp hnodup
      rw [List.zipIdx_cons, List.foldl_cons, ih hrest, addRank]
      simp only
      by_cases hid : id = item
      · subst hid
        rw [if_neg hitem, if_pos List.mem_cons_self, Dict.get?_set, if_pos rfl,
          List.idxOf_cons_self, Nat.zero_add]
      · have hmem : id ∈ item :: ranking ↔ id ∈ ranking := by
          rw [List.mem_cons]
          exact or_iff_right hid
        simp only [hmem, Dict.get?_set, if_neg hid, List.idxOf_cons_ne ranking (Ne.symm hid)]
        rw [Nat.succ_add_eq_add_succ]

theorem get?_addRanking (k : Int) {ranking : List UUID} (hnodup : ranking.Nodup)
    (scores : Dict UUID ℚ) (id : UUID) :
    (addRanking k scores ranking).get? id =
      if id ∈ ranking then some ((scores.get? id).getD 0 + contribution k ranking id)
      else scores.get? id := by
  unfold addRanking contribution
  rw [get?_foldl_addRank k hnodup]
  split
  · rfl
  · rfl

theorem get?_foldl_addRanking (k : Int) {rankings : List (List UUID)}
    (hnodup : ∀ ranking ∈ rankings, ranking.Nodup) (scores : Dict UUID ℚ) (id : UUID) :
    (rankings.foldl (addRanking k) scores).get? id =
      if ∃ ranking ∈ rankings, id ∈ ranking then
        some ((scores.get? id).getD 0 + totalScore k rankings id)
      else scores.get? id := by
  induction rankings generalizing scores with
  | nil => simp
  | cons ranking rankings ih =>
      have hranking := hnodup ranking List.mem_cons_self
      rw [List.foldl_cons, ih fun r hr => hnodup r (List.mem_cons_of_mem _ hr),
        get?_addRanking k hranking]
      have htotal : totalScore k (ranking :: rankings) id =
          contribution k ranking id + totalScore k rankings id := rfl
      have hnone : id ∉ ranking → contribution k ranking id = 0 := fun h => if_neg h
      by_cases hmem : id ∈ ranking
      · by_cases hrest : ∃ r ∈ rankings, id ∈ r
        · simp [hmem, hrest, htotal, add_assoc]
        · have hzero : totalScore k rankings id = 0 := totalScore_eq_zero hrest
          simp [hmem, hrest, htotal, hzero]
      · by_cases hrest : ∃ r ∈ rankings, id ∈ r
        · simp [hmem, hrest, htotal, hnone hmem]
        · simp [hmem, hrest]

/-- The fused scores. -/
theorem get?_fusion {k : Int} {rankings : List (List UUID)} {fused : Dict UUID ℚ}
    (hnodup : ∀ ranking ∈ rankings, ranking.Nodup)
    (h : reciprocalRankFusion rankings k = .ok fused) (id : UUID) :
    fused.get? id =
      if ∃ ranking ∈ rankings, id ∈ ranking then some (totalScore k rankings id) else none := by
  unfold reciprocalRankFusion at h
  split at h
  · cases h
  · cases h
    rw [get?_foldl_addRanking k hnodup]
    have hempty : (Dict.empty : Dict UUID ℚ).get? id = none := rfl
    rw [hempty, Option.getD_none, zero_add]

theorem exists_fusion {k : Int} (hk : 1 ≤ k) (rankings : List (List UUID)) :
    ∃ fused, reciprocalRankFusion rankings k = .ok fused := ⟨_, if_neg (by omega)⟩

/-! ## Being ahead -/

theorem idxOf_lt_of_sublist {ranking : List UUID} (hnodup : ranking.Nodup) {x y : UUID}
    (h : [x, y].Sublist ranking) : ranking.idxOf x < ranking.idxOf y := by
  obtain ⟨front, back, rfl, hx, hy⟩ := List.cons_sublist_iff.mp h
  obtain ⟨-, -, hdisjoint⟩ := List.nodup_append.mp hnodup
  have hback : y ∈ back := List.singleton_sublist.mp hy
  have hfront : y ∉ front := fun hmem => hdisjoint y hmem y hback rfl
  rw [List.idxOf_append_of_mem hx, List.idxOf_append_of_notMem hfront]
  exact Nat.lt_add_right _ (List.idxOf_lt_length_of_mem hx)

section Contribution

variable {k : Int} (hk : 1 ≤ k)

include hk

theorem rank_pos (n : Nat) : (0 : ℚ) < k + (n : Nat) := by
  have hpos : (0 : ℚ) < k := by exact_mod_cast (by omega : 0 < k)
  exact add_pos_of_pos_of_nonneg hpos (Nat.cast_nonneg n)

theorem contribution_nonneg (ranking : List UUID) (id : UUID) :
    0 ≤ contribution k ranking id := by
  unfold contribution
  split
  · exact (one_div_pos.mpr (rank_pos hk _)).le
  · exact le_refl 0

theorem totalScore_nonneg (rankings : List (List UUID)) (id : UUID) :
    0 ≤ totalScore k rankings id := by
  induction rankings with
  | nil => exact le_refl 0
  | cons ranking rankings ih => exact add_nonneg (contribution_nonneg hk ranking id) ih

/-- A better rank gives more. -/
theorem contribution_lt {ranking : List UUID} (hnodup : ranking.Nodup) {x y : UUID}
    (h : [x, y].Sublist ranking) : contribution k ranking y < contribution k ranking x := by
  have hx : x ∈ ranking := h.subset List.mem_cons_self
  have hy : y ∈ ranking := h.subset (by simp)
  have hlt := idxOf_lt_of_sublist hnodup h
  unfold contribution
  rw [if_pos hx, if_pos hy]
  refine one_div_lt_one_div_of_lt (rank_pos hk _) ?_
  have hcast : ((ranking.idxOf x + 1 : Nat) : ℚ) < (ranking.idxOf y + 1 : Nat) := by
    exact_mod_cast Nat.succ_lt_succ hlt
  exact add_lt_add_right hcast _

theorem contribution_le {ranking : List UUID} (hnodup : ranking.Nodup) {x y : UUID}
    (h : y ∈ ranking → [x, y].Sublist ranking) :
    contribution k ranking y ≤ contribution k ranking x := by
  by_cases hy : y ∈ ranking
  · exact (contribution_lt hk hnodup (h hy)).le
  · have hzero : contribution k ranking y = 0 := if_neg hy
    rw [hzero]
    exact contribution_nonneg hk ranking x

/-- An item that is ahead wherever the other one is ranked has the higher score. -/
theorem totalScore_lt {rankings : List (List UUID)}
    (hnodup : ∀ ranking ∈ rankings, ranking.Nodup) {x y : UUID}
    (hy : ∃ ranking ∈ rankings, y ∈ ranking)
    (hahead : ∀ ranking ∈ rankings, y ∈ ranking → [x, y].Sublist ranking) :
    totalScore k rankings y < totalScore k rankings x := by
  induction rankings with
  | nil =>
      obtain ⟨ranking, hmem, -⟩ := hy
      cases hmem
  | cons ranking rankings ih =>
      have hfirst := hnodup ranking List.mem_cons_self
      have hrest : ∀ r ∈ rankings, r.Nodup := fun r hr => hnodup r (List.mem_cons_of_mem _ hr)
      have hahead' : ∀ r ∈ rankings, y ∈ r → [x, y].Sublist r :=
        fun r hr => hahead r (List.mem_cons_of_mem _ hr)
      have hle := contribution_le hk hfirst (hahead ranking List.mem_cons_self)
      show contribution k ranking y + totalScore k rankings y <
        contribution k ranking x + totalScore k rankings x
      by_cases hlater : ∃ r ∈ rankings, y ∈ r
      · exact add_lt_add_of_le_of_lt hle (ih hrest hlater hahead')
      · have hhere : y ∈ ranking := by
          obtain ⟨r, hr, hmem⟩ := hy
          rcases List.mem_cons.mp hr with rfl | hr
          · exact hmem
          · exact absurd ⟨r, hr, hmem⟩ hlater
        have hlt := contribution_lt hk hfirst (hahead ranking List.mem_cons_self hhere)
        rw [totalScore_eq_zero hlater]
        exact add_lt_add_of_lt_of_le hlt (totalScore_nonneg hk rankings x)

end Contribution

/-- Rank fusion respects unanimous preference: it scores the items of the rankings and no other,
    whatever the order of the rankings, and of two items the one that comes first in every
    ranking of the second has the higher score and is retrieved first. -/
theorem fusion_respects_preference {k : Int} (hk : 1 ≤ k) {rankings : List (List UUID)}
    (hnodup : ∀ ranking ∈ rankings, ranking.Nodup) :
    ∃ fused, reciprocalRankFusion rankings k = .ok fused ∧
      (∀ id, id ∈ fused.keys ↔ ∃ ranking ∈ rankings, id ∈ ranking) ∧
      (∀ rankings', rankings'.Perm rankings → ∃ fused',
        reciprocalRankFusion rankings' k = .ok fused' ∧ ∀ id, fused'.get? id = fused.get? id) ∧
      ∀ x y, (∃ ranking ∈ rankings, y ∈ ranking) →
        (∀ ranking ∈ rankings, y ∈ ranking → [x, y].Sublist ranking) →
          ∃ sx sy, fused.get? x = some sx ∧ fused.get? y = some sy ∧ sy < sx ∧
            [(x, sx), (y, sy)].Sublist (PgVectorHybridRetriever.ordered fused) := by
  obtain ⟨fused, hfused⟩ := exists_fusion hk rankings
  refine ⟨fused, hfused, fun id => mem_keys_fusion hfused, ?_, ?_⟩
  · intro rankings' hperm
    obtain ⟨fused', hfused'⟩ := exists_fusion hk rankings'
    refine ⟨fused', hfused', fun id => ?_⟩
    have hnodup' : ∀ ranking ∈ rankings', ranking.Nodup :=
      fun ranking hmem => hnodup ranking (hperm.mem_iff.mp hmem)
    have hoccurs : (∃ ranking ∈ rankings', id ∈ ranking) ↔ ∃ ranking ∈ rankings, id ∈ ranking :=
      exists_congr fun ranking => and_congr_left fun _ => hperm.mem_iff
    rw [get?_fusion hnodup' hfused', get?_fusion hnodup hfused, totalScore_perm hperm]
    simp only [hoccurs]
  · intro x y hy hahead
    have hx : ∃ ranking ∈ rankings, x ∈ ranking := by
      obtain ⟨ranking, hmem, hin⟩ := hy
      exact ⟨ranking, hmem, (hahead ranking hmem hin).subset List.mem_cons_self⟩
    have hscoreX : fused.get? x = some (totalScore k rankings x) := by
      rw [get?_fusion hnodup hfused, if_pos hx]
    have hscoreY : fused.get? y = some (totalScore k rankings y) := by
      rw [get?_fusion hnodup hfused, if_pos hy]
    have hlt := totalScore_lt hk hnodup hy hahead
    refine ⟨_, _, hscoreX, hscoreY, hlt, ?_⟩
    exact pair_sublist_of_lt (sortedDesc_pairwise Prod.snd fused.items)
      (mem_sortedDesc.mpr (Dict.get?_eq_some.mp hscoreX))
      (mem_sortedDesc.mpr (Dict.get?_eq_some.mp hscoreY)) hlt

/-- Two rankings, one of which has both items. -/
theorem fusion_respects_preference_pair :
    ∃ fused sx sy, reciprocalRankFusion [[⟨1⟩, ⟨2⟩], [⟨1⟩]] 60 = .ok fused ∧
      fused.get? ⟨1⟩ = some sx ∧ fused.get? ⟨2⟩ = some sy ∧ sy < sx := by
  obtain ⟨fused, hfused, -, -, hprefer⟩ :=
    @fusion_respects_preference 60 (by decide) [[⟨1⟩, ⟨2⟩], [⟨1⟩]] (by decide)
  obtain ⟨sx, sy, hx, hy, hlt, -⟩ := hprefer ⟨1⟩ ⟨2⟩ ⟨_, List.mem_cons_self, by decide⟩ (by decide)
  exact ⟨fused, sx, sy, hfused, hx, hy, hlt⟩

end Eka
