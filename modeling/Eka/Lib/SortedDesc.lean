import Mathlib.Data.List.Nodup
import Mathlib.Data.List.Sort

/-!
# Sorting, the best first

`sorted(xs, key=..., reverse=True)`: by falling keys, items with equal keys in the order in which
they came. What a cut of the sorted list leaves out is no better than what it keeps.
-/

namespace Py

universe u v

variable {α : Type u} {κ : Type v} [LinearOrder κ]

/-- `sorted(xs, key=key, reverse=True)`. -/
def sortedDesc (key : α → κ) (xs : List α) : List α :=
  xs.mergeSort fun a b => decide (key b ≤ key a)

variable {key : α → κ} {xs : List α}

theorem sortedDesc_perm (key : α → κ) (xs : List α) : (sortedDesc key xs).Perm xs :=
  List.mergeSort_perm _ _

theorem mem_sortedDesc {x : α} : x ∈ sortedDesc key xs ↔ x ∈ xs := (sortedDesc_perm key xs).mem_iff

theorem length_sortedDesc (key : α → κ) (xs : List α) : (sortedDesc key xs).length = xs.length :=
  (sortedDesc_perm key xs).length_eq

theorem sortedDesc_pairwise (key : α → κ) (xs : List α) :
    (sortedDesc key xs).Pairwise fun a b => key b ≤ key a := by
  have htrans : ∀ a b c : α, decide (key b ≤ key a) = true → decide (key c ≤ key b) = true →
      decide (key c ≤ key a) = true := by
    intro a b c hab hbc
    simp only [decide_eq_true_eq] at *
    exact hbc.trans hab
  have htotal : ∀ a b : α, (decide (key b ≤ key a) || decide (key a ≤ key b)) = true := by
    intro a b
    simp only [Bool.or_eq_true, decide_eq_true_eq]
    exact le_total _ _
  exact (List.pairwise_mergeSort htrans htotal xs).imp fun h => of_decide_eq_true h

/-- Two items with different keys stand in the order of their keys. -/
theorem pair_sublist_of_lt {sorted : List α} (h : sorted.Pairwise fun a b => key b ≤ key a)
    {x y : α} (hx : x ∈ sorted) (hy : y ∈ sorted) (hlt : key y < key x) :
    [x, y].Sublist sorted := by
  obtain ⟨front, back, rfl⟩ := List.append_of_mem hx
  rcases List.mem_append.mp hy with hy | hy
  · obtain ⟨-, -, hcross⟩ := List.pairwise_append.mp h
    exact absurd (hcross y hy x List.mem_cons_self) hlt.not_ge
  · rcases List.mem_cons.mp hy with rfl | hy
    · exact absurd hlt (lt_irrefl _)
    · exact ((List.singleton_sublist.mpr hy).cons_cons x).trans (List.sublist_append_right _ _)

/-- Every position of a higher key comes before every position of a lower one. -/
theorem lt_of_getElem?_of_lt {sorted : List α} (h : sorted.Pairwise fun a b => key b ≤ key a)
    {x y : α} {i j : Nat} (hx : sorted[i]? = some x) (hy : sorted[j]? = some y)
    (hlt : key y < key x) : i < j := by
  obtain ⟨hi, rfl⟩ := List.getElem?_eq_some_iff.mp hx
  obtain ⟨hj, rfl⟩ := List.getElem?_eq_some_iff.mp hy
  by_contra hle
  rcases Nat.eq_or_lt_of_le (Nat.le_of_not_lt hle) with heq | hji
  · subst heq
    exact lt_irrefl _ hlt
  · exact absurd (List.pairwise_iff_getElem.mp h j i hj hi hji) hlt.not_ge

/-- A cut keeps the best. -/
theorem le_of_mem_take_of_mem_drop {sorted : List α}
    (h : sorted.Pairwise fun a b => key b ≤ key a) {n : Nat} {x y : α} (hx : x ∈ sorted.take n)
    (hy : y ∈ sorted.drop n) : key y ≤ key x := by
  rw [← List.take_append_drop n sorted] at h
  obtain ⟨-, -, hcross⟩ := List.pairwise_append.mp h
  exact hcross x hx y hy

/-- Whatever a cut keeps, it keeps what has a higher key, in front of it. -/
theorem pair_sublist_take_of_lt {n : Nat} {x y : α} (hx : x ∈ sortedDesc key xs)
    (hy : y ∈ (sortedDesc key xs).take n) (hlt : key y < key x) :
    [x, y].Sublist ((sortedDesc key xs).take n) := by
  have hsorted := sortedDesc_pairwise key xs
  have hx' : x ∈ (sortedDesc key xs).take n := by
    rw [← List.take_append_drop n (sortedDesc key xs)] at hx
    rcases List.mem_append.mp hx with hx | hx
    · exact hx
    · exact absurd (le_of_mem_take_of_mem_drop hsorted hy hx) hlt.not_ge
  exact pair_sublist_of_lt (hsorted.sublist (List.take_sublist n _)) hx' hy hlt

/-- What is not among the first is no better than they are. -/
theorem le_of_notMem_take {n : Nat} {x y : α} (hx : x ∈ (sortedDesc key xs).take n) (hy : y ∈ xs)
    (hcut : y ∉ (sortedDesc key xs).take n) : key y ≤ key x := by
  have hmem : y ∈ (sortedDesc key xs).take n ++ (sortedDesc key xs).drop n := by
    rw [List.take_append_drop]
    exact mem_sortedDesc.mpr hy
  exact le_of_mem_take_of_mem_drop (sortedDesc_pairwise key xs) hx
    ((List.mem_append.mp hmem).resolve_left hcut)

/-- An item comes before one with a lower key, and before one with the same key that it came
    before already. -/
theorem pair_sublist_sortedDesc {x y : α} (hx : x ∈ xs) (hy : y ∈ xs)
    (h : key y < key x ∨ key y = key x ∧ [x, y].Sublist xs) :
    [x, y].Sublist (sortedDesc key xs) := by
  rcases h with hlt | ⟨heq, hsublist⟩
  · exact pair_sublist_of_lt (sortedDesc_pairwise key xs) (mem_sortedDesc.mpr hx)
      (mem_sortedDesc.mpr hy) hlt
  · refine List.pair_sublist_mergeSort ?_ ?_ (decide_eq_true heq.le) hsublist
    · intro a b c hab hbc
      exact decide_eq_true ((of_decide_eq_true hbc).trans (of_decide_eq_true hab))
    · intro a b
      rw [Bool.or_eq_true, decide_eq_true_eq, decide_eq_true_eq]
      exact le_total _ _

/-- A map that keeps the keys keeps the order. -/
theorem sortedDesc_map {β : Type v} {key' : β → κ} {f : α → β} (h : ∀ x, key' (f x) = key x)
    (xs : List α) : sortedDesc key' (xs.map f) = (sortedDesc key xs).map f := by
  unfold sortedDesc
  symm
  apply List.map_mergeSort
  intro a _ b _
  rw [h, h]

end Py
