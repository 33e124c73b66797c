import Mathlib.Algebra.Order.BigOperators.Group.List
import Mathlib.Algebra.Order.Field.Basic
import Mathlib.Data.Finset.Card
import Mathlib.Data.Finset.Dedup
import Mathlib.Tactic.Positivity

/-!
# Shares and means

How much of a set is covered by another, how many elements of a list are hits, and the mean of a
list. A set of which nothing is needed is covered; an empty list has no hits, and the mean 0.
-/

namespace Share

universe u v

section Gathered

variable {α : Type u} {β : Type v} [DecidableEq α] {f : β → Finset α} {xs ys : List β}

/-- The union of the sets of the elements. -/
def gathered (f : β → Finset α) (xs : List β) : Finset α := xs.foldl (fun s x => s ∪ f x) ∅

theorem mem_gathered {a : α} : a ∈ gathered f xs ↔ ∃ x ∈ xs, a ∈ f x := by
  have hfold : ∀ (xs : List β) (s : Finset α),
      a ∈ xs.foldl (fun s x => s ∪ f x) s ↔ a ∈ s ∨ ∃ x ∈ xs, a ∈ f x := by
    intro xs
    induction xs with
    | nil => simp
    | cons x xs ih =>
        intro s
        rw [List.foldl_cons, ih, Finset.mem_union, or_assoc, List.exists_mem_cons_iff]
  simp [gathered, hfold]

theorem gathered_mono (h : xs ⊆ ys) : gathered f xs ⊆ gathered f ys := by
  intro a ha
  obtain ⟨x, hx, hax⟩ := mem_gathered.mp ha
  exact mem_gathered.mpr ⟨x, h hx, hax⟩

theorem gathered_perm (h : xs.Perm ys) : gathered f xs = gathered f ys :=
  Finset.Subset.antisymm (gathered_mono h.subset) (gathered_mono h.symm.subset)

end Gathered

/-! ## Definitions -/

section Definitions

variable {K : Type u} [Field K] {α : Type v}

/-- The share of what is needed that is found. -/
def covered [DecidableEq α] (needed found : Finset α) : K :=
  if needed = ∅ then 1 else ((needed ∩ found).card : K) / needed.card

/-- The share of the elements that are hits. -/
def hitRate (p : α → Bool) (xs : List α) : K := (xs.countP p : K) / xs.length

/-- The mean of the values of the elements. -/
def mean (f : α → K) (xs : List α) : K := (xs.map f).sum / xs.length

theorem hitRate_perm {p : α → Bool} {xs ys : List α} (h : xs.Perm ys) :
    (hitRate p xs : K) = hitRate p ys := by
  unfold hitRate
  rw [h.countP_eq p, h.length_eq]

end Definitions

/-! ## Bounds and order -/

variable {K : Type u} [Field K] [LinearOrder K] [IsStrictOrderedRing K] {α : Type v}

section Covered

variable [DecidableEq α] {needed found found' : Finset α}

theorem covered_mem_unit (needed found : Finset α) :
    (covered needed found : K) ∈ Set.Icc 0 1 := by
  have hle : ((needed ∩ found).card : K) ≤ needed.card := by
    exact_mod_cast Finset.card_le_card Finset.inter_subset_left
  unfold covered
  split
  · exact ⟨zero_le_one, le_rfl⟩
  · exact ⟨by positivity, div_le_one_of_le₀ hle (Nat.cast_nonneg _)⟩

theorem covered_mono (h : found ⊆ found') :
    (covered needed found : K) ≤ covered needed found' := by
  have hle : ((needed ∩ found).card : K) ≤ (needed ∩ found').card := by
    exact_mod_cast Finset.card_le_card (Finset.inter_subset_inter_left h)
  unfold covered
  split
  · exact le_rfl
  · exact div_le_div_of_nonneg_right hle (Nat.cast_nonneg _)

end Covered

theorem hitRate_mem_unit (p : α → Bool) (xs : List α) : (hitRate p xs : K) ∈ Set.Icc 0 1 := by
  have hle : (xs.countP p : K) ≤ xs.length := by
    exact_mod_cast List.countP_le_length
  unfold hitRate
  exact ⟨by positivity, div_le_one_of_le₀ hle (Nat.cast_nonneg _)⟩

/-- With no value lower, the mean is no lower. -/
theorem mean_le_mean {f : α → K} {xs ys : List α}
    (h : List.Forall₂ (fun x y => f x ≤ f y) xs ys) : mean f xs ≤ mean f ys := by
  have hsum : (xs.map f).sum ≤ (ys.map f).sum := by
    refine List.Forall₂.sum_le_sum ?_
    rwa [List.forall₂_map_left_iff, List.forall₂_map_right_iff]
  unfold mean
  rw [h.length_eq]
  exact div_le_div_of_nonneg_right hsum (Nat.cast_nonneg _)

/-- The mean of values between 0 and 1 lies there. -/
theorem mean_mem_unit {f : α → K} {xs : List α} (h : ∀ x ∈ xs, f x ∈ Set.Icc 0 1) :
    mean f xs ∈ Set.Icc 0 1 := by
  have hnonneg : 0 ≤ (xs.map f).sum := List.sum_nonneg (List.forall_mem_map.mpr fun x hx => (h x hx).1)
  have hle : (xs.map f).sum ≤ xs.length := by
    have hsum := List.sum_le_card_nsmul (xs.map f) 1 (List.forall_mem_map.mpr fun x hx => (h x hx).2)
    rwa [List.length_map, nsmul_one] at hsum
  unfold mean
  exact ⟨div_nonneg hnonneg (Nat.cast_nonneg _), div_le_one_of_le₀ hle (Nat.cast_nonneg _)⟩

end Share
