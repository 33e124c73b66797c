import Mathlib.Algebra.Order.Field.Basic
import Mathlib.Tactic.Linarith

/-!
# Min-max normalization

The values of a list, brought to the interval from 0 to 1 by the lowest and the highest of them.
Where all of them are equal the span is 0, and so is every normalized value, as division by 0 is.
-/

namespace MinMax

universe u

variable {K : Type u} [Field K] [LinearOrder K]

def low (xs : List K) : K := xs.min?.getD 0

def high (xs : List K) : K := xs.max?.getD 0

def span (xs : List K) : K := high xs - low xs

def normalized (xs : List K) (x : K) : K := (x - low xs) / span xs

variable {xs : List K}

theorem low_eq_iff (hxs : xs ≠ []) {m : K} : low xs = m ↔ m ∈ xs ∧ ∀ x ∈ xs, m ≤ x := by
  cases hmin : xs.min? with
  | none => exact absurd (List.min?_eq_none_iff.mp hmin) hxs
  | some n =>
      rw [← List.min?_eq_some_iff, hmin, low, hmin, Option.getD_some, Option.some.injEq]

theorem high_eq_iff (hxs : xs ≠ []) {m : K} : high xs = m ↔ m ∈ xs ∧ ∀ x ∈ xs, x ≤ m := by
  cases hmax : xs.max? with
  | none => exact absurd (List.max?_eq_none_iff.mp hmax) hxs
  | some n =>
      rw [← List.max?_eq_some_iff, hmax, high, hmax, Option.getD_some, Option.some.injEq]

theorem low_mem (hxs : xs ≠ []) : low xs ∈ xs := ((low_eq_iff hxs).mp rfl).1

theorem high_mem (hxs : xs ≠ []) : high xs ∈ xs := ((high_eq_iff hxs).mp rfl).1

theorem low_le {x : K} (hx : x ∈ xs) : low xs ≤ x :=
  ((low_eq_iff (List.ne_nil_of_mem hx)).mp rfl).2 x hx

theorem le_high {x : K} (hx : x ∈ xs) : x ≤ high xs :=
  ((high_eq_iff (List.ne_nil_of_mem hx)).mp rfl).2 x hx

/-- The gap of two normalized values. -/
theorem normalized_sub (xs : List K) (x y : K) :
    normalized xs x - normalized xs y = (x - y) / span xs := by
  unfold normalized
  rw [← sub_div, sub_sub_sub_cancel_right]

variable [IsStrictOrderedRing K]

theorem sub_le_span {x y : K} (hx : x ∈ xs) (hy : y ∈ xs) : x - y ≤ span xs :=
  sub_le_sub (le_high hx) (low_le hy)

theorem span_nonneg {x : K} (hx : x ∈ xs) : 0 ≤ span xs := by
  have hspan := sub_le_span hx hx
  rwa [sub_self] at hspan

theorem normalized_nonneg {x : K} (hx : x ∈ xs) : 0 ≤ normalized xs x :=
  div_nonneg (sub_nonneg.mpr (low_le hx)) (span_nonneg hx)

theorem normalized_le_one {x : K} (hx : x ∈ xs) : normalized xs x ≤ 1 :=
  div_le_one_of_le₀ (sub_le_span hx (low_mem (List.ne_nil_of_mem hx))) (span_nonneg hx)

/-- A higher value stays higher. -/
theorem normalized_lt {x y : K} (hx : x ∈ xs) (hy : y ∈ xs) (hlt : y < x) :
    normalized xs y < normalized xs x := by
  have hspan : 0 < span xs := (sub_pos.mpr hlt).trans_le (sub_le_span hx hy)
  have hgap := div_pos (sub_pos.mpr hlt) hspan
  rw [← normalized_sub] at hgap
  exact sub_pos.mp hgap

/-! ## One value raised -/

section Middle

variable {α : Type u} {pre post : List α} {x y : α}

theorem eq_or_mem_rest (hy : y ∈ pre ++ x :: post) : y = x ∨ y ∈ pre ++ post := by
  simp only [List.mem_append, List.mem_cons] at hy ⊢
  tauto

theorem mem_of_mem_rest (x : α) (hy : y ∈ pre ++ post) : y ∈ pre ++ x :: post := by
  simp only [List.mem_append, List.mem_cons] at hy ⊢
  tauto

theorem mem_middle : x ∈ pre ++ x :: post := List.mem_append_right _ List.mem_cons_self

end Middle

section Raise

variable {pre post : List K} {x δ : K}

theorem low_le_low_raised (pre post : List K) (x : K) (hδ : 0 ≤ δ) :
    low (pre ++ x :: post) ≤ low (pre ++ (x + δ) :: post) := by
  rcases eq_or_mem_rest (low_mem (List.ne_nil_of_mem (mem_middle (x := x + δ)))) with h | h
  · have hlow : low (pre ++ x :: post) ≤ x := low_le mem_middle
    rw [h]
    linarith
  · exact low_le (mem_of_mem_rest x h)

theorem low_raised_le (pre post : List K) (x : K) (hδ : 0 ≤ δ) :
    low (pre ++ (x + δ) :: post) ≤ low (pre ++ x :: post) + δ := by
  rcases eq_or_mem_rest (low_mem (List.ne_nil_of_mem (mem_middle (x := x)))) with h | h
  · rw [h]
    exact low_le mem_middle
  · have hlow := low_le (mem_of_mem_rest (x + δ) h)
    linarith

theorem high_le_high_raised (pre post : List K) (x : K) (hδ : 0 ≤ δ) :
    high (pre ++ x :: post) ≤ high (pre ++ (x + δ) :: post) := by
  rcases eq_or_mem_rest (high_mem (List.ne_nil_of_mem (mem_middle (x := x)))) with h | h
  · have hhigh : x + δ ≤ high (pre ++ (x + δ) :: post) := le_high mem_middle
    rw [h]
    linarith
  · exact le_high (mem_of_mem_rest (x + δ) h)

theorem high_raised_le (pre post : List K) (x : K) (hδ : 0 ≤ δ) :
    high (pre ++ (x + δ) :: post) ≤ high (pre ++ x :: post) + δ := by
  rcases eq_or_mem_rest (high_mem (List.ne_nil_of_mem (mem_middle (x := x + δ)))) with h | h
  · have hhigh : x ≤ high (pre ++ x :: post) := le_high mem_middle
    rw [h]
    linarith
  · have hhigh := le_high (mem_of_mem_rest x h)
    linarith

/-- A gap that grows by `δ`, over a span that changes by no more than `δ`. -/
theorem div_le_div_of_raise {gap span span' : K} (hδ : 0 ≤ δ) (hgap : gap ≤ span)
    (hgap' : -gap ≤ span) (hraised : gap + δ ≤ span') (hraised' : -(gap + δ) ≤ span')
    (hgrow : span' ≤ span + δ) (hshrink : span ≤ span' + δ) :
    gap / span ≤ (gap + δ) / span' := by
  rcases eq_or_lt_of_le (show 0 ≤ span by linarith) with hspan | hspan
  · have hzero : gap = 0 := by linarith
    rw [hzero, zero_div]
    exact div_nonneg (by linarith) (by linarith)
  · rcases eq_or_lt_of_le (show 0 ≤ span' by linarith) with hspan' | hspan'
    · rw [← hspan', div_zero]
      exact div_nonpos_of_nonpos_of_nonneg (by linarith) hspan.le
    · rw [div_le_div_iff₀ hspan hspan']
      rcases le_total 0 gap with hpos | hneg
      · have hcross : gap * span' ≤ gap * (span + δ) := mul_le_mul_of_nonneg_left hgrow hpos
        have hdelta : gap * δ ≤ span * δ := mul_le_mul_of_nonneg_right hgap hδ
        linarith
      · have hcross : gap * span' ≤ gap * (span - δ) :=
          mul_le_mul_of_nonpos_left (by linarith) hneg
        have hdelta : -gap * δ ≤ span * δ := mul_le_mul_of_nonneg_right hgap' hδ
        linarith

/-- A raise of one value lowers its normalized lead over no other value. -/
theorem normalized_sub_le_raised (hδ : 0 ≤ δ) {y : K} (hy : y ∈ pre ++ post) :
    normalized (pre ++ x :: post) x - normalized (pre ++ x :: post) y ≤
      normalized (pre ++ (x + δ) :: post) (x + δ) - normalized (pre ++ (x + δ) :: post) y := by
  have hx : x ∈ pre ++ x :: post := mem_middle
  have hx' : x + δ ∈ pre ++ (x + δ) :: post := mem_middle
  have hlow := low_le_low_raised pre post x hδ
  have hlow' := low_raised_le pre post x hδ
  have hhigh := high_le_high_raised pre post x hδ
  have hhigh' := high_raised_le pre post x hδ
  have hgap := sub_le_span hx (mem_of_mem_rest x hy)
  have hgap' := sub_le_span (mem_of_mem_rest x hy) hx
  have hraised := sub_le_span hx' (mem_of_mem_rest (x + δ) hy)
  have hraised' := sub_le_span (mem_of_mem_rest (x + δ) hy) hx'
  have hshift : x + δ - y = x - y + δ := by linarith
  rw [normalized_sub, normalized_sub, hshift]
  unfold span at *
  exact div_le_div_of_raise hδ hgap (by linarith) (by linarith) (by linarith) (by linarith)
    (by linarith)

end Raise

/-! ## All values mapped -/

section Affine

variable {a : K} (ha : 0 < a) (b : K)

include ha

theorem low_affine (hxs : xs ≠ []) : low (xs.map fun x => a * x + b) = a * low xs + b := by
  refine (low_eq_iff (by simpa using hxs)).mpr ⟨List.mem_map_of_mem (low_mem hxs), ?_⟩
  intro y hy
  obtain ⟨x, hx, rfl⟩ := List.mem_map.mp hy
  exact add_le_add_left (mul_le_mul_of_nonneg_left (low_le hx) ha.le) b

theorem high_affine (hxs : xs ≠ []) : high (xs.map fun x => a * x + b) = a * high xs + b := by
  refine (high_eq_iff (by simpa using hxs)).mpr ⟨List.mem_map_of_mem (high_mem hxs), ?_⟩
  intro y hy
  obtain ⟨x, hx, rfl⟩ := List.mem_map.mp hy
  exact add_le_add_left (mul_le_mul_of_nonneg_left (le_high hx) ha.le) b

/-- An increasing affine map of all values leaves the normalized values. -/
theorem normalized_affine {x : K} (hx : x ∈ xs) :
    normalized (xs.map fun x => a * x + b) (a * x + b) = normalized xs x := by
  have hxs := List.ne_nil_of_mem hx
  unfold normalized span
  rw [low_affine ha b hxs, high_affine ha b hxs, add_sub_add_right_eq_sub,
    add_sub_add_right_eq_sub, ← mul_sub, ← mul_sub, mul_div_mul_left _ _ ha.ne']

end Affine

end MinMax
