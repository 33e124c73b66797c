import Mathlib.Data.List.Nodup
import Mathlib.Data.List.Sort

/-!
# Standing ahead

`[x, y].Sublist xs`: somewhere in the list `x` stands ahead of `y`. A sort brings this about and
keeps it, and so does a cut that keeps the second of the two.
-/

namespace Ahead

universe u

variable {α : Type u} {xs : List α} {x y : α}

/-- In a list that is ordered, the one that may not come second comes first. -/
theorem of_pairwise {R : α → α → Prop} (h : xs.Pairwise R) (hx : x ∈ xs) (hy : y ∈ xs)
    (hne : x ≠ y) (hnot : ¬ R y x) : [x, y].Sublist xs := by
  obtain ⟨front, back, rfl⟩ := List.append_of_mem hx
  rcases List.mem_append.mp hy with hy | hy
  · obtain ⟨-, -, hcross⟩ := List.pairwise_append.mp h
    exact absurd (hcross y hy x List.mem_cons_self) hnot
  · rcases List.mem_cons.mp hy with rfl | hy
    · exact absurd rfl hne
    · exact ((List.singleton_sublist.mpr hy).cons_cons x).trans (List.sublist_append_right _ _)

/-- Whatever a cut keeps, it keeps what stands ahead of it. -/
theorem take (hnodup : xs.Nodup) (h : [x, y].Sublist xs) {n : Nat} (hy : y ∈ xs.take n) :
    [x, y].Sublist (xs.take n) := by
  rw [← List.take_append_drop n xs] at h hnodup
  obtain ⟨front, back, hsplit, hfront, hback⟩ := List.sublist_append_iff.mp h
  cases back with
  | nil =>
      rw [List.append_nil] at hsplit
      exact hsplit ▸ hfront
  | cons b bs =>
      -- the last of the two would be behind the cut
      have hlast : y ∈ b :: bs := by
        have hmem := congrArg List.getLast? hsplit
        rw [List.getLast?_append_of_ne_nil _ (List.cons_ne_nil b bs)] at hmem
        exact List.mem_of_getLast? hmem.symm
      exact absurd (hback.subset hlast) fun hdrop =>
        (List.nodup_append.mp hnodup).2.2 y hy y hdrop rfl

/-- A sort puts the lower one ahead. -/
theorem mergeSort_of_lt {le : α → α → Bool}
    (trans : ∀ a b c, le a b = true → le b c = true → le a c = true)
    (total : ∀ a b, (le a b || le b a) = true) (hx : x ∈ xs) (hy : y ∈ xs)
    (hlt : le y x = false) : [x, y].Sublist (xs.mergeSort le) := by
  refine of_pairwise (List.pairwise_mergeSort trans total xs) (List.mem_mergeSort.mpr hx)
    (List.mem_mergeSort.mpr hy) ?_ (by rw [hlt]; exact Bool.false_ne_true)
  rintro rfl
  have hself := total x x
  rw [hlt] at hself
  cases hself

end Ahead
