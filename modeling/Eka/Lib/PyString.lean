import Mathlib.Algebra.Ring.Nat
import Mathlib.Data.List.DropRight

/-!
# Python strings

A `str` is the list of its code points. The operations follow the documented
behaviour of the built-in ones: `str.strip` and `str.rstrip` without an
argument remove what `str.isspace` accepts, and `str.split(sep)` cuts at the
leftmost, non-overlapping occurrences of a non-empty separator.
-/

namespace Py

/-- A `str`, as its code points. -/
abbrev Str := List Char

/-- The code points for which `str.isspace` holds. -/
def isSpace (c : Char) : Bool :=
  let n := c.toNat
  (9 ≤ n && n ≤ 13) || (28 ≤ n && n ≤ 32) || n == 133 || n == 160 || n == 5760 ||
    (8192 ≤ n && n ≤ 8202) || n == 8232 || n == 8233 || n == 8239 || n == 8287 || n == 12288

/-- `s.rstrip()`. -/
def rstrip (s : Str) : Str := s.rdropWhile isSpace

/-- `s.strip()`. -/
def strip (s : Str) : Str := rstrip (s.dropWhile isSpace)

/-- Every code point is whitespace; true of the empty string. -/
def Blank (s : Str) : Prop := ∀ c ∈ s, isSpace c = true

instance (s : Str) : Decidable (Blank s) := List.decidableBAll _ s

/-- Put `c` in front of the first part. -/
def consHead (c : Char) : List Str → List Str
  | [] => [[c]]
  | part :: parts => (c :: part) :: parts

/-- `split` with `k` code points of the last separator still to be skipped. -/
def splitSkip (sep : Str) : Nat → Str → List Str
  | _, [] => [[]]
  | k + 1, _ :: cs => splitSkip sep k cs
  | 0, c :: cs =>
      if sep.isPrefixOf (c :: cs) then [] :: splitSkip sep (sep.length - 1) cs
      else consHead c (splitSkip sep 0 cs)

/-- `s.split(sep)` for a non-empty `sep`. -/
def split (sep s : Str) : List Str := splitSkip sep 0 s

example : split "\n\n".toList "a\n\n\n\nb\n".toList = ["a".toList, [], "b\n".toList] := by decide

/-- `s.split()`: the runs of code points that are not whitespace. -/
def words (s : Str) : List Str := (s.splitOnP isSpace).filter (· ≠ [])

/-- `sep.join(parts)`. -/
def join (sep : Str) (parts : List Str) : Str := List.intercalate sep parts

example : join " ".toList (words " a  b\n".toList) = "a b".toList := by decide

/-- The string without its whitespace. -/
def nonSpace (s : Str) : Str := s.filter fun c => !isSpace c

/-- A digit of `format(n, "x")`. -/
def hexDigit (n : Nat) : Char :=
  if n < 10 then Char.ofNat (48 + n) else Char.ofNat (87 + n)

/-- The last `k` digits of `"%0{k}x" % n`. -/
def hex : Nat → Nat → Str
  | 0, _ => []
  | k + 1, n => hex k (n / 16) ++ [hexDigit (n % 16)]

/-- `repr(s)`, for a text whose characters outside ASCII are printable. -/
def reprText (s : Str) : Str :=
  let quote := if s.contains '\x27' && !s.contains '"' then '"' else '\x27'
  let escaped (c : Char) : Str :=
    if c = quote || c = '\\' then ['\\', c]
    else if c = '\t' then ['\\', 't']
    else if c = '\n' then ['\\', 'n']
    else if c = '\r' then ['\\', 'r']
    else if c.toNat < 32 || c.toNat = 127 then ['\\', 'x'] ++ hex 2 c.toNat
    else [c]
  quote :: s.flatMap escaped ++ [quote]

/-! ## Whitespace at the ends -/

theorem strip_eq_nil_iff {s : Str} : strip s = [] ↔ Blank s := by
  unfold strip rstrip
  rw [List.rdropWhile_eq_nil_iff]
  constructor
  · intro h c hc
    by_contra hns
    have hmem : c ∈ s.dropWhile isSpace := by
      rw [← List.takeWhile_append_dropWhile (p := isSpace) (l := s), List.mem_append] at hc
      rcases hc with hc | hc
      · exact absurd (List.mem_takeWhile_imp hc) hns
      · exact hc
    exact hns (h c hmem)
  · intro h c hc
    exact h c ((List.dropWhile_suffix _).subset hc)

theorem strip_ne_nil_iff {s : Str} : strip s ≠ [] ↔ ¬ Blank s := strip_eq_nil_iff.not

theorem length_rstrip_le (s : Str) : (rstrip s).length ≤ s.length :=
  (List.rdropWhile_prefix isSpace s).length_le

theorem length_strip_le (s : Str) : (strip s).length ≤ s.length :=
  (length_rstrip_le _).trans (List.dropWhile_suffix _).length_le

/-- The last code point of a stripped string is not whitespace. -/
theorem getLast_rstrip {s : Str} (h : rstrip s ≠ []) : isSpace ((rstrip s).getLast h) = false :=
  Bool.eq_false_iff.mpr (List.rdropWhile_last_not isSpace s h)

theorem strip_eq_self_of_ends {s : Str} (hhead : ∀ h : s ≠ [], isSpace (s.head h) = false)
    (hlast : ∀ h : s ≠ [], isSpace (s.getLast h) = false) : strip s = s := by
  have hdrop : s.dropWhile isSpace = s := by
    cases s with
    | nil => rfl
    | cons c cs =>
        have hc : isSpace c = false := hhead (List.cons_ne_nil _ _)
        simp [hc]
  unfold strip rstrip
  rw [hdrop, List.rdropWhile_eq_self_iff]
  intro h
  simpa using hlast h

theorem head_strip {s : Str} (h : strip s ≠ []) : isSpace ((strip s).head h) = false := by
  have hdrop : s.dropWhile isSpace ≠ [] := by
    intro hnil
    exact h (by unfold strip rstrip; rw [hnil]; rfl)
  have hpre : strip s <+: s.dropWhile isSpace := List.rdropWhile_prefix isSpace _
  rw [hpre.head h]
  exact List.head_dropWhile_not isSpace hdrop

theorem getLast_strip {s : Str} (h : strip s ≠ []) : isSpace ((strip s).getLast h) = false :=
  getLast_rstrip h

theorem strip_strip (s : Str) : strip (strip s) = strip s :=
  strip_eq_self_of_ends (fun h => head_strip h) (fun h => getLast_strip h)

/-- Stripping takes whitespace off on both sides. -/
theorem exists_strip (s : Str) :
    ∃ front back, Blank front ∧ Blank back ∧ s = front ++ strip s ++ back := by
  refine ⟨s.takeWhile isSpace, (s.dropWhile isSpace).rtakeWhile isSpace, ?_, ?_, ?_⟩
  · exact fun c hc => List.mem_takeWhile_imp hc
  · exact fun c hc => List.mem_rtakeWhile_imp hc
  · unfold strip rstrip
    rw [List.append_assoc, List.rdropWhile_append_rtakeWhile, List.takeWhile_append_dropWhile]

/-- An end of a concatenation is one of the second string, or has all of it. -/
theorem suffix_append_cases {w a b : Str} (h : w <:+ a ++ b) :
    w <:+ b ∨ ∃ x, x ≠ [] ∧ x <:+ a ∧ w = x ++ b := by
  obtain ⟨z, hz⟩ := h
  rcases List.append_eq_append_iff.mp hz with ⟨x, ha, hw⟩ | ⟨x, -, hb⟩
  · by_cases hnil : x = []
    · rw [hw, hnil]
      exact .inl (List.suffix_refl _)
    · exact .inr ⟨x, hnil, ⟨z, ha.symm⟩, hw⟩
  · exact .inl ⟨x, hb.symm⟩

/-- An end of a string survives that has no whitespace at either side. -/
theorem suffix_strip {w s : Str} (h : w <:+ s) (hne : w ≠ [])
    (hhead : isSpace (w.head hne) = false) (hlast : isSpace (w.getLast hne) = false) :
    w <:+ strip s := by
  obtain ⟨front, back, hfront, hback, hs⟩ := exists_strip s
  have hnil : back = [] := by
    by_contra hback'
    rw [hs] at h
    rw [h.getLast hne, List.getLast_append_of_ne_nil _ hback',
      hback _ (List.getLast_mem hback')] at hlast
    cases hlast
  rw [hs, hnil, List.append_nil] at h
  rcases suffix_append_cases h with hin | ⟨x, hx, hxf, rfl⟩
  · exact hin
  · rw [List.head_append_of_ne_nil hx, hfront _ (hxf.subset (List.head_mem hx))] at hhead
    cases hhead

/-- Nothing has been stripped off a string that is no shorter for it. -/
theorem strip_eq_of_length {s : Str} (h : s.length ≤ (strip s).length) : strip s = s := by
  obtain ⟨front, back, -, -, hs⟩ := exists_strip s
  have hlength := congrArg List.length hs
  rw [List.append_assoc, List.length_append, List.length_append] at hlength
  have hfront : front = [] := List.length_eq_zero_iff.mp (by omega)
  have hback : back = [] := List.length_eq_zero_iff.mp (by omega)
  rw [hfront, hback, List.nil_append, List.append_nil] at hs
  exact hs.symm

theorem blank_cons {c : Char} {s : Str} : Blank (c :: s) ↔ isSpace c = true ∧ Blank s :=
  List.forall_mem_cons

theorem blank_append {s t : Str} : Blank (s ++ t) ↔ Blank s ∧ Blank t := by
  simp [Blank, or_imp, forall_and]

theorem not_blank_strip {s : Str} : ¬ Blank (strip s) ↔ ¬ Blank s := by
  rw [← strip_ne_nil_iff, strip_strip, strip_ne_nil_iff]

/-- Whitespace at the end makes no difference to `rstrip`. -/
theorem rstrip_append_blank (s : Str) {t : Str} (ht : Blank t) : rstrip (s ++ t) = rstrip s := by
  unfold rstrip
  induction t using List.reverseRecOn with
  | nil => rw [List.append_nil]
  | append_singleton t c ih =>
      rw [← List.append_assoc, List.rdropWhile_concat_pos]
      · exact ih fun d hd => ht d (List.mem_append_left _ hd)
      · exact ht c (by simp)

theorem rstrip_append_of_not_blank (s : Str) {t : Str} (ht : ¬ Blank t) :
    rstrip (s ++ t) = s ++ rstrip t := by
  induction t using List.reverseRecOn with
  | nil => exact absurd (fun c hc => nomatch hc) ht
  | append_singleton t c ih =>
      unfold rstrip at ih ⊢
      rw [← List.append_assoc]
      by_cases hc : isSpace c = true
      · rw [List.rdropWhile_concat_pos _ _ _ hc, List.rdropWhile_concat_pos _ _ _ hc]
        refine ih fun hblank => ht ?_
        rw [blank_append]
        exact ⟨hblank, by simpa [Blank] using hc⟩
      · rw [List.rdropWhile_concat_neg _ _ _ hc, List.rdropWhile_concat_neg _ _ _ hc,
          List.append_assoc]

/-- Whitespace in front makes no difference to `strip`. -/
theorem strip_blank_append {s : Str} (hs : Blank s) (t : Str) : strip (s ++ t) = strip t := by
  unfold strip
  rw [List.dropWhile_append_of_pos hs]

/-- Whitespace behind makes no difference to `strip`. -/
theorem strip_append_blank (s : Str) {t : Str} (ht : Blank t) : strip (s ++ t) = strip s := by
  by_cases hs : Blank s
  · rw [strip_eq_nil_iff.mpr (blank_append.mpr ⟨hs, ht⟩), strip_eq_nil_iff.mpr hs]
  · have hdrop : (s ++ t).dropWhile isSpace = s.dropWhile isSpace ++ t := by
      rw [List.dropWhile_append, if_neg]
      intro hempty
      refine hs (strip_eq_nil_iff.mp ?_)
      unfold strip rstrip
      rw [List.isEmpty_iff.mp hempty]
      rfl
    unfold strip
    rw [hdrop, rstrip_append_blank _ ht]

/-- The string starts with something else than whitespace. -/
def Opens (s : Str) : Prop := ∃ c t, s = c :: t ∧ isSpace c = false

/-- The string ends with something else than whitespace. -/
def Closes (s : Str) : Prop := ∃ t c, s = t ++ [c] ∧ isSpace c = false

theorem Opens.append {s : Str} (h : Opens s) (t : Str) : Opens (s ++ t) := by
  obtain ⟨c, s, rfl, hc⟩ := h
  exact ⟨c, s ++ t, rfl, hc⟩

theorem Closes.append {t : Str} (h : Closes t) (s : Str) : Closes (s ++ t) := by
  obtain ⟨t, c, rfl, hc⟩ := h
  exact ⟨s ++ t, c, (List.append_assoc ..).symm, hc⟩

theorem Opens.of_append {s t : Str} (h : Opens (s ++ t)) (hs : s ≠ []) : Opens s := by
  obtain ⟨c, u, heq, hc⟩ := h
  obtain ⟨d, s, rfl⟩ := List.exists_cons_of_ne_nil hs
  obtain ⟨rfl, -⟩ := List.cons.inj heq
  exact ⟨d, s, rfl, hc⟩

theorem Closes.of_append {s t : Str} (h : Closes (s ++ t)) (ht : t ≠ []) : Closes t := by
  obtain ⟨u, c, heq, hc⟩ := h
  refine ⟨t.dropLast, t.getLast ht, (List.dropLast_append_getLast ht).symm, ?_⟩
  have hlast : (s ++ t).getLast (by simp [ht]) = c := by
    simp only [heq, List.getLast_append_singleton]
  rw [List.getLast_append_of_ne_nil _ ht] at hlast
  rw [hlast]
  exact hc

theorem Opens.not_blank {s : Str} (h : Opens s) : ¬ Blank s := by
  obtain ⟨c, t, rfl, hc⟩ := h
  intro hblank
  rw [hblank c List.mem_cons_self] at hc
  cases hc

theorem Closes.not_blank {s : Str} (h : Closes s) : ¬ Blank s := by
  obtain ⟨t, c, rfl, hc⟩ := h
  intro hblank
  rw [hblank c (by simp)] at hc
  cases hc

theorem opens_strip {s : Str} (h : ¬ Blank s) : Opens (strip s) := by
  have hne : strip s ≠ [] := strip_ne_nil_iff.mpr h
  exact ⟨_, _, (List.cons_head_tail hne).symm, head_strip hne⟩

theorem closes_strip {s : Str} (h : ¬ Blank s) : Closes (strip s) := by
  have hne : strip s ≠ [] := strip_ne_nil_iff.mpr h
  exact ⟨_, _, (List.dropLast_append_getLast hne).symm, getLast_strip hne⟩

theorem strip_eq_self {s : Str} (hopens : Opens s) (hcloses : Closes s) : strip s = s := by
  refine strip_eq_self_of_ends (fun _ => ?_) (fun _ => ?_)
  · obtain ⟨c, t, rfl, hc⟩ := hopens
    exact hc
  · obtain ⟨t, c, rfl, hc⟩ := hcloses
    rw [List.getLast_append_singleton]
    exact hc

/-- A string that starts with something else than whitespace is only stripped on the right. -/
theorem strip_of_opens {s : Str} (h : Opens s) : strip s = rstrip s := by
  obtain ⟨c, t, rfl, hc⟩ := h
  unfold strip
  rw [List.dropWhile_cons_of_neg (by rw [hc]; exact Bool.false_ne_true)]

theorem Closes.rstrip {s : Str} (h : Closes s) : rstrip s = s := by
  obtain ⟨t, c, rfl, hc⟩ := h
  exact List.rdropWhile_concat_neg _ _ _ (by rw [hc]; exact Bool.false_ne_true)

/-- Something stripped in front survives. -/
theorem prefix_strip {w s : Str} (hw : strip w = w) (h : w <+: s) : w <+: strip s := by
  obtain ⟨t, rfl⟩ := h
  by_cases hblank : Blank w
  · rw [← hw, strip_eq_nil_iff.mpr hblank]
    exact List.nil_prefix
  · have hopens : Opens w := hw ▸ opens_strip hblank
    have hcloses : Closes w := hw ▸ closes_strip hblank
    rw [strip_of_opens (hopens.append t)]
    by_cases ht : Blank t
    · refine ⟨[], ?_⟩
      rw [rstrip_append_blank _ ht, ← strip_of_opens hopens, hw, List.append_nil]
    · rw [rstrip_append_of_not_blank _ ht]
      exact List.prefix_append _ _

/-- What is put in front of a string keeps the whitespace that is then in the middle. -/
theorem exists_strip_append {s t : Str} (hs : Opens s) (ht : ¬ Blank t) :
    ∃ lead back, Blank lead ∧ Blank back ∧ t = lead ++ strip t ++ back ∧
      strip (s ++ t) = s ++ lead ++ strip t := by
  obtain ⟨lead, back, hlead, hback, hsplit⟩ := exists_strip t
  refine ⟨lead, back, hlead, hback, hsplit, ?_⟩
  have hshape : s ++ t = (s ++ lead ++ strip t) ++ back := by
    rw [List.append_assoc, List.append_assoc, ← List.append_assoc lead, ← hsplit]
  rw [hshape, strip_append_blank _ hback]
  refine strip_eq_self ?_ ((closes_strip ht).append _)
  rw [List.append_assoc]
  exact hs.append _

/-- A string that starts with something else than whitespace has none at its start. -/
theorem Opens.eq_nil_of_blank {lead t : Str} (h : Opens (lead ++ t)) (hlead : Blank lead) :
    lead = [] := by
  by_contra hne
  exact (h.of_append hne).not_blank hlead

/-- What is put in front of a string makes it no shorter, stripped. -/
theorem length_strip_append_le (s t : Str) : (strip t).length ≤ (strip (s ++ t)).length := by
  induction s with
  | nil => exact Nat.le_refl _
  | cons c s ih =>
      refine ih.trans ?_
      by_cases hc : isSpace c = true
      · have hblank : Blank [c] := fun d hd => by rw [List.mem_singleton.mp hd]; exact hc
        exact (congrArg List.length (strip_blank_append hblank (s ++ t))).ge
      · by_cases hrest : Blank (s ++ t)
        · rw [strip_eq_nil_iff.mpr hrest]
          exact Nat.zero_le _
        · have hopens : Opens [c] := ⟨c, [], rfl, Bool.eq_false_iff.mpr hc⟩
          obtain ⟨lead, -, -, -, -, hstrip⟩ := exists_strip_append hopens hrest
          show _ ≤ (strip ([c] ++ (s ++ t))).length
          rw [hstrip, List.length_append]
          omega

theorem nonSpace_append (s t : Str) : nonSpace (s ++ t) = nonSpace s ++ nonSpace t :=
  List.filter_append ..

theorem nonSpace_eq_nil {s : Str} : nonSpace s = [] ↔ Blank s := by
  simp [nonSpace, Blank, List.filter_eq_nil_iff]

/-- What is stripped is whitespace. -/
theorem nonSpace_rstrip (s : Str) : nonSpace (rstrip s) = nonSpace s := by
  unfold rstrip
  induction s using List.reverseRecOn with
  | nil => rfl
  | append_singleton s c ih =>
      by_cases hc : isSpace c = true
      · rw [List.rdropWhile_concat_pos _ _ _ hc, ih, nonSpace_append,
          nonSpace_eq_nil.mpr (show Blank [c] by simpa [Blank] using hc), List.append_nil]
      · rw [List.rdropWhile_concat_neg _ _ _ hc]

theorem nonSpace_strip (s : Str) : nonSpace (strip s) = nonSpace s := by
  unfold strip
  rw [nonSpace_rstrip]
  conv_rhs => rw [← List.takeWhile_append_dropWhile (p := isSpace) (l := s), nonSpace_append]
  rw [nonSpace_eq_nil.mpr fun c hc => List.mem_takeWhile_imp hc, List.nil_append]

/-! ## Splitting and joining -/

theorem join_cons (sep part : Str) {parts : List Str} (h : parts ≠ []) :
    join sep (part :: parts) = part ++ sep ++ join sep parts := by
  cases parts with
  | nil => exact absurd rfl h
  | cons next rest => simp [join, List.intercalate, List.intersperse]

theorem join_cons_append (sep a b : Str) (parts : List Str) :
    join sep ((a ++ b) :: parts) = a ++ join sep (b :: parts) := by
  by_cases h : parts = []
  · subst h
    exact List.append_assoc ..
  · rw [join_cons _ _ h, join_cons _ _ h, List.append_assoc, List.append_assoc, List.append_assoc]

theorem splitSkip_ne_nil (sep : Str) (k : Nat) (s : Str) : splitSkip sep k s ≠ [] := by
  fun_induction splitSkip sep k s with
  | case4 =>
      unfold consHead
      split <;> simp
  | _ => simp_all

theorem length_consHead (c : Char) {parts : List Str} (h : parts ≠ []) :
    (consHead c parts).length = parts.length := by
  cases parts with
  | nil => exact absurd rfl h
  | cons part rest => rfl

theorem join_consHead (sep : Str) (c : Char) {parts : List Str} (h : parts ≠ []) :
    join sep (consHead c parts) = c :: join sep parts := by
  cases parts with
  | nil => exact absurd rfl h
  | cons part rest =>
      by_cases hrest : rest = []
      · subst hrest
        rfl
      · rw [consHead, join_cons sep _ hrest, join_cons sep _ hrest]
        rfl

/-- The parts of a string, joined again, are the string. -/
theorem join_splitSkip {sep : Str} (hsep : sep ≠ []) :
    ∀ (k : Nat) (s : Str), join sep (splitSkip sep k s) = s.drop k := by
  intro k s
  induction s generalizing k with
  | nil => cases k <;> rfl
  | cons c cs ih =>
      cases k with
      | succ k => exact ih k
      | zero =>
          unfold splitSkip
          split
          · next hprefix =>
              obtain ⟨rest, hrest⟩ := List.isPrefixOf_iff_prefix.mp hprefix
              obtain ⟨d, ds, rfl⟩ := List.exists_cons_of_ne_nil hsep
              obtain ⟨rfl, rfl⟩ := List.cons.inj hrest
              rw [join_cons _ _ (splitSkip_ne_nil _ _ _), ih]
              simp
          · rw [join_consHead sep c (splitSkip_ne_nil _ _ _), ih 0]
            rfl

theorem join_split {sep : Str} (hsep : sep ≠ []) (s : Str) : join sep (split sep s) = s :=
  join_splitSkip hsep 0 s

/-- A string that lacks a character of the separator is not cut. -/
theorem split_of_absent {sep s : Str} {d : Char} (hsep : d ∈ sep) (h : d ∉ s) :
    split sep s = [s] := by
  unfold split
  induction s with
  | nil => rfl
  | cons c s ih =>
      have hprefix : sep.isPrefixOf (c :: s) = false := by
        rw [Bool.eq_false_iff]
        intro hpre
        exact h ((List.isPrefixOf_iff_prefix.mp hpre).subset hsep)
      rw [splitSkip, hprefix, ih fun hd => h (List.mem_cons_of_mem _ hd)]
      rfl

/-- Splitting at a single character goes through on both sides of an occurrence. -/
theorem split_append_cons (c : Char) (s t : Str) :
    split [c] (s ++ c :: t) = split [c] s ++ split [c] t := by
  unfold split
  induction s with
  | nil => simp [splitSkip, List.isPrefixOf]
  | cons d s ih =>
      simp only [List.cons_append, splitSkip, List.isPrefixOf, Bool.and_true, beq_iff_eq,
        List.length_singleton, Nat.sub_self]
      by_cases hd : c = d
      · simp only [hd, if_true, List.cons_append] at ih ⊢
        rw [ih]
      · simp only [hd, if_false]
        rw [ih]
        cases h : splitSkip [c] 0 s with
        | nil => exact absurd h (splitSkip_ne_nil _ _ _)
        | cons part rest => rfl

/-- A last character that is no separator belongs to the last part. -/
theorem split_concat {d c : Char} (hne : d ≠ c) (s : Str) :
    ∃ front last, split [d] s = front ++ [last] ∧
      split [d] (s ++ [c]) = front ++ [last ++ [c]] := by
  unfold split
  induction s with
  | nil => exact ⟨[], [], by simp [splitSkip, hne, consHead]⟩
  | cons e s ih =>
      obtain ⟨front, last, hs, hsc⟩ := ih
      simp only [List.cons_append, splitSkip, List.isPrefixOf, Bool.and_true, beq_iff_eq,
        List.length_singleton, Nat.sub_self, hs, hsc]
      by_cases he : d = e
      · rw [if_pos he, if_pos he]
        exact ⟨[] :: front, last, rfl, rfl⟩
      · rw [if_neg he, if_neg he]
        cases front with
        | nil => exact ⟨[], e :: last, rfl, rfl⟩
        | cons part rest => exact ⟨(e :: part) :: rest, last, rfl, rfl⟩

theorem length_le_join {sep part : Str} {parts : List Str} (h : part ∈ parts) :
    part.length ≤ (join sep parts).length := by
  induction parts with
  | nil => cases h
  | cons first rest ih =>
      by_cases hrest : rest = []
      · subst hrest
        rw [List.mem_singleton.mp h]
        show first.length ≤ (first ++ []).length
        rw [List.append_nil]
      · rw [join_cons sep first hrest, List.length_append, List.length_append]
        rcases List.mem_cons.mp h with rfl | h
        · omega
        · have := ih h
          omega

theorem mem_join_singleton {c d : Char} (hne : c ≠ d) (parts : List Str) :
    c ∈ join [d] parts ↔ c ∈ parts.flatten := by
  induction parts with
  | nil => rfl
  | cons part parts ih =>
      by_cases hparts : parts = []
      · rw [hparts]
        rfl
      · rw [join_cons [d] part hparts, List.flatten_cons, List.mem_append, List.mem_append,
          List.mem_append, ih, List.mem_singleton, or_iff_left hne]

/-- What stands in front of the first separator is determined by the whole. -/
theorem append_cons_inj {d : Char} {a b s t : Str} (ha : d ∉ a) (hb : d ∉ b)
    (h : a ++ d :: s = b ++ d :: t) : a = b ∧ s = t := by
  induction a generalizing b with
  | nil =>
      cases b with
      | nil => exact ⟨rfl, (List.cons.inj h).2⟩
      | cons c b => exact absurd (List.cons.inj h).1 (List.ne_of_not_mem_cons hb)
  | cons c a ih =>
      cases b with
      | nil => exact absurd (List.cons.inj h).1.symm (List.ne_of_not_mem_cons ha)
      | cons e b =>
          obtain ⟨rfl, hrest⟩ := List.cons.inj h
          obtain ⟨rfl, rfl⟩ := ih (fun hm => ha (List.mem_cons_of_mem _ hm))
            (fun hm => hb (List.mem_cons_of_mem _ hm)) hrest
          exact ⟨rfl, rfl⟩

/-! ## Decimal digits -/

theorem toString_toList (n : Nat) : (toString n).toList = Nat.toDigits 10 n := by
  rw [Nat.toString_eq_repr, Nat.toList_repr]

theorem isDigit_of_mem_toString {n : Nat} {c : Char} (h : c ∈ (toString n).toList) :
    c.isDigit = true := by
  rw [toString_toList] at h
  exact Nat.isDigit_of_mem_toDigits (by decide) (by decide) h

theorem toString_toList_injective {m n : Nat}
    (h : (toString m).toList = (toString n).toList) : m = n := by
  rw [toString_toList, toString_toList] at h
  rw [← @Nat.ofDigitChars_ten_toDigits m, h, Nat.ofDigitChars_ten_toDigits]

/-! ## Hexadecimal digits -/

theorem length_hex (k n : Nat) : (hex k n).length = k := by
  induction k generalizing n with
  | zero => rfl
  | succ k ih => simp [hex, ih]

theorem hexDigit_injective {a b : Nat} (ha : a < 16) (hb : b < 16)
    (h : hexDigit a = hexDigit b) : a = b := by
  have hall : ∀ x y : Fin 16, hexDigit x = hexDigit y → x = y := by decide
  exact congrArg Fin.val (hall ⟨a, ha⟩ ⟨b, hb⟩ h)

theorem hexDigit_ne_dash {n : Nat} (h : n < 16) : hexDigit n ≠ '-' := by
  have hall : ∀ x : Fin 16, hexDigit x ≠ '-' := by decide
  exact hall ⟨n, h⟩

theorem not_mem_hex (k n : Nat) : '-' ∉ hex k n := by
  induction k generalizing n with
  | zero => simp [hex]
  | succ k ih =>
      simp only [hex, List.mem_append, List.mem_singleton, not_or]
      exact ⟨ih (n / 16), (hexDigit_ne_dash (Nat.mod_lt n (by decide))).symm⟩

/-- Numbers of at most `k` digits are told apart by them. -/
theorem hex_injective {k a b : Nat} (ha : a < 16 ^ k) (hb : b < 16 ^ k)
    (h : hex k a = hex k b) : a = b := by
  induction k generalizing a b with
  | zero => omega
  | succ k ih =>
      obtain ⟨hrest, hlast⟩ := List.append_inj h (by rw [length_hex, length_hex])
      have hdigit : a % 16 = b % 16 := hexDigit_injective (Nat.mod_lt a (by decide))
        (Nat.mod_lt b (by decide)) (List.singleton_inj.mp hlast)
      have hdiv : a / 16 = b / 16 := by
        refine ih ?_ ?_ hrest
        · rw [Nat.div_lt_iff_lt_mul (by decide), ← Nat.pow_succ]
          exact ha
        · rw [Nat.div_lt_iff_lt_mul (by decide), ← Nat.pow_succ]
          exact hb
      omega

end Py
