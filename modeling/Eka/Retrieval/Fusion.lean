import Mathlib.Algebra.Order.Field.Rat
import Eka.Lib.PyDict
import Eka.Shared.Base

/-!
# Reciprocal rank fusion

`retrieval/domain/fusion.py`, in exact arithmetic.
-/

namespace Eka

open Py

/-- `DEFAULT_RRF_K` (`fusion.py:11`). -/
def defaultRrfK : Int := 60

/-- One item of a ranking (`fusion.py:21-22`). -/
def addRank (k : Int) (scores : Dict UUID ℚ) (item : UUID × Nat) : Dict UUID ℚ :=
  scores.set item.1 ((scores.get? item.1).getD 0 + 1 / (k + item.2))

/-- One ranking, its ranks from 1 (`fusion.py:21-22`). -/
def addRanking (k : Int) (scores : Dict UUID ℚ) (ranking : List UUID) : Dict UUID ℚ :=
  (ranking.zipIdx 1).foldl (addRank k) scores

/-- `reciprocal_rank_fusion` (`fusion.py:14-23`). -/
def reciprocalRankFusion (rankings : List (List UUID)) (k : Int) : Except Error (Dict UUID ℚ) :=
  if k < 1 then .error (.valueError "rrf k must be >= 1".toList)
  else .ok (rankings.foldl (addRanking k) .empty)

theorem mem_keys_addRanking {k : Int} {scores : Dict UUID ℚ} {ranking : List UUID} {id : UUID} :
    id ∈ (addRanking k scores ranking).keys ↔ id ∈ scores.keys ∨ id ∈ ranking := by
  have h : ∀ (items : List (UUID × Nat)) (scores : Dict UUID ℚ),
      id ∈ (items.foldl (addRank k) scores).keys ↔
        id ∈ scores.keys ∨ id ∈ items.map Prod.fst := by
    intro items
    induction items with
    | nil => simp
    | cons item items ih =>
        intro scores
        rw [List.foldl_cons, ih, addRank, Dict.mem_keys_set, List.map_cons, List.mem_cons, or_assoc]
  rw [addRanking, h, List.zipIdx_map_fst]

/-- The fused items are those of the rankings. -/
theorem mem_keys_fusion {rankings : List (List UUID)} {k : Int} {fused : Dict UUID ℚ}
    (h : reciprocalRankFusion rankings k = .ok fused) {id : UUID} :
    id ∈ fused.keys ↔ ∃ ranking ∈ rankings, id ∈ ranking := by
  have hfold : ∀ (rankings : List (List UUID)) (scores : Dict UUID ℚ),
      id ∈ (rankings.foldl (addRanking k) scores).keys ↔
        id ∈ scores.keys ∨ ∃ ranking ∈ rankings, id ∈ ranking := by
    intro rankings
    induction rankings with
    | nil => simp
    | cons ranking rankings ih =>
        intro scores
        rw [List.foldl_cons, ih, mem_keys_addRanking]
        simp [or_assoc]
  unfold reciprocalRankFusion at h
  split at h
  · cases h
  · cases h
    rw [hfold]
    simp

end Eka
