import Mathlib.Analysis.Real.Sqrt
import Eka.Ingestion.HashingEmbedding

/-!
# The hashing embedder in exact arithmetic

`embedding.py:35-46` over the reals. What the tokens add to the vector can be added in any order,
and whether it cancels or not, the vector that is returned has length 1.
-/

namespace Eka

open Py

namespace HashingEmbeddingModel

/-! ## Squares -/

/-- `sum(v * v for v in vector)`. -/
def sumSquares {K : Type} [Semiring K] (vector : List K) : K := (vector.map fun v => v * v).sum

@[simp] theorem sumSquares_nil {K : Type} [Semiring K] : sumSquares ([] : List K) = 0 := rfl

@[simp] theorem sumSquares_cons {K : Type} [Semiring K] (v : K) (vector : List K) :
    sumSquares (v :: vector) = v * v + sumSquares vector := by
  simp [sumSquares]

theorem sumSquares_nonneg (vector : List ℤ) : 0 ≤ sumSquares vector := by
  induction vector with
  | nil => exact le_refl 0
  | cons v vector ih =>
      rw [sumSquares_cons]
      exact add_nonneg (mul_self_nonneg v) ih

/-- Only a vector of zeros has length 0. -/
theorem eq_replicate_of_sumSquares_eq_zero {vector : List ℤ} (h : sumSquares vector = 0) :
    vector = List.replicate vector.length 0 := by
  induction vector with
  | nil => rfl
  | cons v vector ih =>
      rw [sumSquares_cons] at h
      have hrest := sumSquares_nonneg vector
      have hself := mul_self_nonneg v
      have hv : v = 0 := mul_self_eq_zero.mp (by omega)
      rw [List.length_cons, List.replicate_succ, ← ih (by omega), hv]

theorem sumSquares_replicate (n : Nat) : sumSquares (List.replicate n (0 : ℤ)) = 0 := by
  induction n with
  | zero => rfl
  | succ n ih =>
      rw [List.replicate_succ, sumSquares_cons, ih]
      rfl

/-- The first unit vector has length 1. -/
theorem sumSquares_unit {n : Nat} (h : 0 < n) :
    sumSquares ((List.replicate n (0 : ℤ)).set 0 1) = 1 := by
  cases n with
  | zero => omega
  | succ n =>
      rw [List.replicate_succ, List.set_cons_zero, sumSquares_cons, sumSquares_replicate]
      rfl

/-- The squares of the quotients by a number. -/
theorem sumSquares_map_div (vector : List ℤ) (norm : ℝ) :
    sumSquares (vector.map fun v : ℤ => (v : ℝ) / norm) =
      ((sumSquares vector : ℤ) : ℝ) / (norm * norm) := by
  induction vector with
  | nil => simp
  | cons v vector ih =>
      rw [List.map_cons, sumSquares_cons, sumSquares_cons, ih, div_mul_div_comm]
      push_cast
      rw [← add_div]

/-! ## The order of the tokens -/

variable {K : Type}

/-- Two tokens can be counted in either order. -/
theorem count_comm (primitives : Primitives K) (dimension : Nat) (vector : List ℤ)
    (token other : Str) :
    count primitives dimension (count primitives dimension vector token) other =
      count primitives dimension (count primitives dimension vector other) token := by
  unfold count
  apply List.ext_getElem?
  intro i
  rw [List.getElem?_modify, List.getElem?_modify, List.getElem?_modify, List.getElem?_modify]
  cases vector[i]? with
  | none => rfl
  | some v =>
      refine congrArg some ?_
      show (if _ then (if _ then _ else _) + _ else (if _ then _ else _)) =
        (if _ then (if _ then _ else _) + _ else (if _ then _ else _))
      split
      · split
        · exact add_right_comm _ _ _
        · rfl
      · rfl

theorem counts_perm (primitives : Primitives K) (dimension : Nat) {text text' : Str}
    (h : (findTokens (primitives.lower text)).Perm (findTokens (primitives.lower text'))) :
    counts primitives dimension text = counts primitives dimension text' := by
  apply h.foldl_eq'
  intro token _ other _ vector
  exact count_comm primitives dimension vector token other

theorem embedOne_perm (primitives : Primitives K) (dimension : Nat) {text text' : Str}
    (h : (findTokens (primitives.lower text)).Perm (findTokens (primitives.lower text'))) :
    embedOne primitives dimension text = embedOne primitives dimension text' := by
  unfold embedOne
  rw [counts_perm primitives dimension h]

/-! ## The division -/

/-- `v / math.sqrt(n)` over the reals, for any `str.lower` and any hash of the tokens. -/
noncomputable def overReals (lower : Str → Str) (index : Str → Nat) (odd : Str → Bool) :
    Primitives ℝ where
  lower := lower
  index := index
  odd := odd
  quotient v n := v / √n

/-- The vector before the division (`embedding.py:42-45`). -/
def numerators (primitives : Primitives K) (dimension : Nat) (text : Str) : List ℤ :=
  if sumSquares (counts primitives dimension text) = 0 then
    (counts primitives dimension text).set 0 1
  else counts primitives dimension text

/-- The `norm` of the division (`embedding.py:42-46`). -/
noncomputable def divisor (primitives : Primitives K) (dimension : Nat) (text : Str) : ℝ :=
  if √(sumSquares (counts primitives dimension text) : ℤ) = 0 then 1
  else √(sumSquares (counts primitives dimension text) : ℤ)

theorem divisor_ne_zero (primitives : Primitives K) (dimension : Nat) (text : Str) :
    divisor primitives dimension text ≠ 0 := by
  unfold divisor
  split
  · exact one_ne_zero
  · next h => exact h

variable {lower : Str → Str} {index : Str → Nat} {odd : Str → Bool}

theorem sqrt_sumSquares_eq_zero (vector : List ℤ) :
    √((sumSquares vector : ℤ) : ℝ) = 0 ↔ sumSquares vector = 0 := by
  rw [Real.sqrt_eq_zero (by exact_mod_cast sumSquares_nonneg vector), Int.cast_eq_zero]

/-- What is returned are the quotients. -/
theorem embedOne_eq_map (dimension : Nat) (text : Str) :
    embedOne (overReals lower index odd) dimension text =
      (numerators (overReals lower index odd) dimension text).map fun v : ℤ =>
        (v : ℝ) / divisor (overReals lower index odd) dimension text := by
  have hembed : embedOne (overReals lower index odd) dimension text =
      if sumSquares (counts (overReals lower index odd) dimension text) = 0 then
        ((counts (overReals lower index odd) dimension text).set 0 1).map fun v : ℤ =>
          (v : ℝ) / √((1 : ℤ) : ℝ)
      else (counts (overReals lower index odd) dimension text).map fun v : ℤ =>
        (v : ℝ) / √((sumSquares (counts (overReals lower index odd) dimension text) : ℤ) : ℝ) := rfl
  have hnorm := sqrt_sumSquares_eq_zero (counts (overReals lower index odd) dimension text)
  unfold numerators divisor
  by_cases hzero : sumSquares (counts (overReals lower index odd) dimension text) = 0
  · rw [hembed, if_pos hzero, if_pos hzero, if_pos (hnorm.mpr hzero), Int.cast_one, Real.sqrt_one]
  · rw [hembed, if_neg hzero, if_neg hzero, if_neg (mt hnorm.mp hzero)]

/-- The squares of the vector before the division sum to the square of the divisor. -/
theorem sumSquares_numerators (primitives : Primitives K) {dimension : Nat} (h : 1 ≤ dimension)
    (text : Str) : ((sumSquares (numerators primitives dimension text) : ℤ) : ℝ) =
      divisor primitives dimension text * divisor primitives dimension text := by
  have hnorm := sqrt_sumSquares_eq_zero (counts primitives dimension text)
  unfold numerators divisor
  by_cases hzero : sumSquares (counts primitives dimension text) = 0
  · have hlength := length_counts primitives dimension text
    rw [if_pos hzero, if_pos (hnorm.mpr hzero), eq_replicate_of_sumSquares_eq_zero hzero, hlength,
      sumSquares_unit h, Int.cast_one, one_mul]
  · have hnonneg := sumSquares_nonneg (counts primitives dimension text)
    rw [if_neg hzero, if_neg (mt hnorm.mp hzero), Real.mul_self_sqrt (by exact_mod_cast hnonneg)]

theorem sumSquares_embedOne {dimension : Nat} (h : 1 ≤ dimension) (text : Str) :
    sumSquares (embedOne (overReals lower index odd) dimension text) = 1 := by
  rw [embedOne_eq_map, sumSquares_map_div, sumSquares_numerators _ h]
  exact div_self (mul_ne_zero (divisor_ne_zero _ _ _) (divisor_ne_zero _ _ _))

end HashingEmbeddingModel

/-- The hashing embedder is a normalized bag of words. For every hash of the tokens, every
    dimension from 1 on and every text, the vector has that dimension, its squares sum to 1 and
    nothing was divided by 0, also where the tokens cancel; and texts with the same tokens, in
    whatever order, have the same vector. -/
theorem embedOne_unit_bag (lower : Str → Str) (index : Str → Nat) (odd : Str → Bool)
    (dimension : Nat) (h : 1 ≤ dimension) :
    let primitives := HashingEmbeddingModel.overReals lower index odd
    (∀ text,
      (HashingEmbeddingModel.embedOne primitives dimension text).length = dimension ∧
      HashingEmbeddingModel.sumSquares
        (HashingEmbeddingModel.embedOne primitives dimension text) = 1 ∧
      HashingEmbeddingModel.divisor primitives dimension text ≠ 0 ∧
      HashingEmbeddingModel.embedOne primitives dimension text =
        (HashingEmbeddingModel.numerators primitives dimension text).map fun v : ℤ =>
          (v : ℝ) / HashingEmbeddingModel.divisor primitives dimension text) ∧
    ∀ text text', (findTokens (lower text)).Perm (findTokens (lower text')) →
      HashingEmbeddingModel.embedOne primitives dimension text =
        HashingEmbeddingModel.embedOne primitives dimension text' := by
  intro primitives
  refine ⟨fun text => ⟨?_, ?_, ?_, ?_⟩, fun text text' hperm => ?_⟩
  · exact HashingEmbeddingModel.length_embedOne primitives dimension text
  · exact HashingEmbeddingModel.sumSquares_embedOne h text
  · exact HashingEmbeddingModel.divisor_ne_zero primitives dimension text
  · exact HashingEmbeddingModel.embedOne_eq_map dimension text
  · exact HashingEmbeddingModel.embedOne_perm primitives dimension hperm

/-- Two tokens that cancel each other, in either order: the first unit vector. -/
theorem embedOne_unit_bag_cancel :
    let primitives := HashingEmbeddingModel.overReals id (fun _ => 0) fun token => token = "a".toList
    HashingEmbeddingModel.counts primitives 2 "a, b".toList = [0, 0] ∧
      HashingEmbeddingModel.sumSquares
        (HashingEmbeddingModel.embedOne primitives 2 "a, b".toList) = 1 ∧
      HashingEmbeddingModel.embedOne primitives 2 "a, b".toList =
        HashingEmbeddingModel.embedOne primitives 2 "b a".toList := by
  intro primitives
  obtain ⟨hunit, hbag⟩ := embedOne_unit_bag id (fun _ => 0) (fun token => token = "a".toList) 2
    (by decide)
  exact ⟨by decide, (hunit "a, b".toList).2.1, hbag _ _ (by decide)⟩

end Eka
