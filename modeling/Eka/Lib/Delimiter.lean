import Mathlib.Data.List.Infix

/-!
# Delimiters

Texts that are each followed by a delimiter. Where no delimiter begins within another one, a text
without delimiters ends where the first of them begins, so what stands in front of the delimiters
is the same whenever the whole is.
-/

namespace Delimiter

universe u

variable {α : Type u} {d d' t t' w rest rest' : List α}

/-- No proper part at the end of `d` can be the beginning of a place of `d'`. -/
def Apart (d d' : List α) : Prop :=
  ∀ w v, d = w ++ v → w ≠ [] → v ≠ [] → ¬ v <+: d' ∧ ¬ d' <+: v

/-- A delimiter with its first character nowhere else. -/
theorem apart_of_notMem {c : α} {s s' : List α} (h : c ∉ s) : Apart (c :: s) (c :: s') := by
  intro w v hsplit hw hv
  cases w with
  | nil => exact absurd rfl hw
  | cons a w =>
      cases v with
      | nil => exact absurd rfl hv
      | cons b v =>
          have hb : b ∈ s := by
            rw [(List.cons.inj hsplit).2]
            exact List.mem_append_right _ List.mem_cons_self
          have hne : b ≠ c := by
            rintro rfl
            exact h hb
          refine ⟨fun hprefix => ?_, fun hprefix => ?_⟩
          · exact hne (List.cons_prefix_cons.mp hprefix).1
          · exact hne (List.cons_prefix_cons.mp hprefix).1.symm

/-- A delimiter that begins with its first character twice, against one that does not go on as it
    does behind them. -/
theorem apart_of_twice {c a b : α} {s s' : List α} (h : c ∉ a :: s) (hne : a ≠ b) :
    Apart (c :: c :: a :: s) (c :: b :: s') := by
  intro w v hsplit hw hv
  cases w with
  | nil => exact absurd rfl hw
  | cons x w =>
      obtain ⟨-, hsplit⟩ := List.cons.inj hsplit
      cases w with
      | nil =>
          rw [← show c :: a :: s = v from hsplit]
          refine ⟨fun hprefix => ?_, fun hprefix => ?_⟩
          · exact hne (List.cons_prefix_cons.mp (List.cons_prefix_cons.mp hprefix).2).1
          · exact hne (List.cons_prefix_cons.mp (List.cons_prefix_cons.mp hprefix).2).1.symm
      | cons y w => exact apart_of_notMem h (y :: w) v hsplit (List.cons_ne_nil _ _) hv

/-- Between two texts that end where a delimiter begins there is nothing. -/
theorem eq_nil_of_overlap (hapart : Apart d d') (hd : d <+: w ++ rest) (hd' : d' <+: rest)
    (hnot : ¬ d <:+: t ++ w) : w = [] := by
  by_contra hw
  have hwithin : d <+: w → d <:+: t ++ w := fun h =>
    h.isInfix.trans (List.suffix_append t w).isInfix
  rcases List.prefix_or_prefix_of_prefix hd (List.prefix_append w rest) with h | ⟨v, rfl⟩
  · exact hnot (hwithin h)
  · by_cases hv : v = []
    · subst hv
      exact hnot (hwithin (by simp))
    · have hvrest : v <+: rest := (List.prefix_append_right_inj w).mp hd
      obtain ⟨hleft, hright⟩ := hapart w v rfl hw hv
      rcases List.prefix_or_prefix_of_prefix hvrest hd' with h | h
      · exact hleft h
      · exact hright h

/-- A text without delimiters ends where the first delimiter begins. -/
theorem text_unique (hapart : Apart d d') (hapart' : Apart d' d) (hd : d <+: rest)
    (hd' : d' <+: rest') (ht : ¬ d' <:+: t) (ht' : ¬ d <:+: t') (h : t ++ rest = t' ++ rest') :
    t = t' := by
  rcases List.append_eq_append_iff.mp h with ⟨w, rfl, rfl⟩ | ⟨w, rfl, rfl⟩
  · rw [eq_nil_of_overlap hapart hd hd' ht', List.append_nil]
  · rw [eq_nil_of_overlap hapart' hd' hd ht, List.append_nil]

end Delimiter
