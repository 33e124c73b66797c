import Eka.Lib.PyString

/-!
# Places in a join

Where a text occurs in parts that are joined by a character it does not have: inside one of the
parts, and no two parts have a place in common.
-/

namespace Py

/-- What stands in a join in front of the part after `parts`. -/
def leading (sep : Str) (parts : List Str) : Str := (parts.map fun part => part ++ sep).flatten

@[simp] theorem leading_nil (sep : Str) : leading sep [] = [] := rfl

theorem leading_cons (sep part : Str) (parts : List Str) :
    leading sep (part :: parts) = part ++ sep ++ leading sep parts := by
  unfold leading
  rw [List.map_cons, List.flatten_cons]

theorem leading_append (sep : Str) (parts rest : List Str) :
    leading sep (parts ++ rest) = leading sep parts ++ leading sep rest := by
  unfold leading
  rw [List.map_append, List.flatten_append]

theorem prefix_join (sep : Str) (front : List Str) (part : Str) (rest : List Str) :
    leading sep front ++ part <+: join sep (front ++ part :: rest) := by
  induction front with
  | nil =>
      by_cases hnil : rest = []
      · rw [hnil]
        exact List.prefix_append part []
      · rw [List.nil_append, join_cons sep part hnil, List.append_assoc]
        exact List.prefix_append _ _
  | cons first front ih =>
      have hnil : front ++ part :: rest ≠ [] :=
        List.append_ne_nil_of_right_ne_nil _ (List.cons_ne_nil _ _)
      rw [List.cons_append, join_cons sep first hnil, leading_cons, List.append_assoc]
      exact (List.prefix_append_right_inj _).mpr ih

/-- A text without `c` that occurs in a string occurs on one side of it. -/
theorem occurs_append_cons {c : Char} {w : Str} (hc : c ∉ w) {before after a b : Str}
    (h : before ++ w ++ after = a ++ c :: b) :
    (∃ rest, a = before ++ w ++ rest) ∨ ∃ front, before = a ++ c :: front ∧
      b = front ++ w ++ after := by
  rcases List.append_eq_append_iff.mp h with ⟨rest, ha, -⟩ | ⟨rest, hw, hafter⟩
  · exact .inl ⟨rest, ha⟩
  · cases rest with
    | nil => exact .inl ⟨[], by rw [hw, List.append_nil, List.append_nil]⟩
    | cons d rest =>
        obtain ⟨rfl, hb⟩ := List.cons.inj hafter
        rcases List.append_eq_append_iff.mp hw with ⟨front, -, hin⟩ | ⟨front, hbefore, hin⟩
        · rw [hin] at hc
          exact absurd (List.mem_append_right front List.mem_cons_self) hc
        · cases front with
          | nil =>
              rw [List.nil_append] at hin
              rw [← hin] at hc
              exact absurd List.mem_cons_self hc
          | cons e front =>
              obtain ⟨rfl, hrest⟩ := List.cons.inj hin
              refine .inr ⟨front, hbefore, ?_⟩
              rw [hb, hrest]
              rfl

/-- A text without the separator that occurs in a join occurs in one of the parts. -/
theorem occurs_join {c : Char} {w : Str} (hc : c ∉ w) (hw : w ≠ []) {parts : List Str}
    {before after : Str} (h : before ++ w ++ after = join [c] parts) :
    ∃ front part rest u v, parts = front ++ part :: rest ∧ part = u ++ w ++ v ∧
      before = leading [c] front ++ u := by
  induction parts generalizing before with
  | nil =>
      have hnil : before ++ w ++ after = [] := h
      rw [List.append_eq_nil_iff, List.append_eq_nil_iff] at hnil
      exact absurd hnil.1.2 hw
  | cons part parts ih =>
      by_cases hparts : parts = []
      · subst hparts
        have hpart : before ++ w ++ after = part := h.trans (List.append_nil part)
        exact ⟨[], part, [], before, after, rfl, hpart.symm, rfl⟩
      · rw [join_cons [c] part hparts, List.append_assoc part, List.singleton_append] at h
        rcases occurs_append_cons hc h with ⟨v, hpart⟩ | ⟨tail, hbefore, hjoin⟩
        · exact ⟨[], part, parts, before, v, rfl, hpart, rfl⟩
        · obtain ⟨front, next, rest, u, v, hall, hnext, htail⟩ := ih hjoin.symm
          refine ⟨part :: front, next, rest, u, v, ?_, hnext, ?_⟩
          · rw [hall, List.cons_append]
          · rw [hbefore, htail, leading_cons]
            simp

/-- A place within the length of a part belongs to no later part. -/
theorem leading_lt {c : Char} {front front' : List Str} {part part' : Str} {rest rest' : List Str}
    (h : front ++ part :: rest = front' ++ part' :: rest') (hlt : front.length < front'.length) :
    (leading [c] front).length + part.length < (leading [c] front').length := by
  have hleft : front ++ [part] <+: front ++ part :: rest := ⟨rest, (List.append_cons ..).symm⟩
  have hright : front' <+: front ++ part :: rest := by
    rw [h]
    exact List.prefix_append _ _
  have hle : (front ++ [part]).length ≤ front'.length := by
    rw [List.length_append, List.length_singleton]
    exact hlt
  obtain ⟨more, hmore⟩ := List.prefix_of_prefix_length_le hleft hright hle
  rw [← hmore, leading_append, leading_append, leading_cons]
  simp only [List.length_append, List.length_singleton]
  omega

/-- A place determines its part. -/
theorem part_unique {c : Char} {front front' : List Str} {part part' : Str}
    {rest rest' : List Str} (h : front ++ part :: rest = front' ++ part' :: rest') {u u' : Str}
    (hu : u.length ≤ part.length) (hu' : u'.length ≤ part'.length)
    (hplace : leading [c] front ++ u = leading [c] front' ++ u') :
    front.length = front'.length := by
  have hlength := congrArg List.length hplace
  rw [List.length_append, List.length_append] at hlength
  rcases Nat.lt_trichotomy front.length front'.length with hlt | heq | hlt
  · have := leading_lt (c := c) h hlt
    omega
  · exact heq
  · have := leading_lt (c := c) h.symm hlt
    omega

end Py
