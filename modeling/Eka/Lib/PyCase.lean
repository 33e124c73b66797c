import Eka.Lib.Runs

/-!
# Lower case

`str.lower`. The case mappings of the code points are the interpreter's, with what the Unicode
standard says about ASCII and whitespace; the one mapping that looks at its neighbours is that
of the capital sigma.
-/

namespace Py

/-- `c.lower()` of an ASCII character. -/
def asciiLower (c : Char) : Char :=
  if 65 ≤ c.toNat ∧ c.toNat ≤ 90 then Char.ofNat (c.toNat + 32) else c

theorem asciiLower_eq_nul {c : Char} : asciiLower c = '\x00' ↔ c = '\x00' := by
  have hall : ∀ n : Fin 91, 65 ≤ n.val → Char.ofNat (n.val + 32) ≠ '\x00' := by decide
  unfold asciiLower
  split
  · next h =>
      refine iff_of_false (hall ⟨c.toNat, by omega⟩ h.1) ?_
      rintro rfl
      exact absurd h.1 (by decide)
  · rfl

/-- The case data of the interpreter: the full lower-case mapping of a code point, and the
    properties `Cased` and `Case_Ignorable`. -/
structure CaseTable where
  lower : Char → Str
  cased : Char → Bool
  ignorable : Char → Bool
  ascii : ∀ c, c.toNat < 128 → lower c = [asciiLower c]
  space : ∀ c, isSpace c = true → lower c = [c]

namespace CaseTable

/-- `Σ`, `σ` and the `ς` at the end of a word. -/
def capitalSigma : Char := Char.ofNat 0x3a3

def smallSigma : Char := Char.ofNat 0x3c3

def finalSigma : Char := Char.ofNat 0x3c2

/-- A capital sigma stands at the end of a word: up to ignorable characters a cased one is in
    front of it, from right to left in `before`, and none behind. -/
def isFinal (table : CaseTable) (before after : Str) : Bool :=
  (before.find? fun c => !table.ignorable c).any table.cased &&
    !(after.find? fun c => !table.ignorable c).any table.cased

/-- The lower case of what follows `before`. -/
def lowerFrom (table : CaseTable) : Str → Str → Str
  | _, [] => []
  | before, c :: cs =>
      (if c = capitalSigma then [if table.isFinal before cs then finalSigma else smallSigma]
        else table.lower c) ++ table.lowerFrom (c :: before) cs

/-- `s.lower()`. -/
def lowerStr (table : CaseTable) (s : Str) : Str := table.lowerFrom [] s

/-- The lower case of a character on its own. -/
def plain (table : CaseTable) (c : Char) : Str :=
  if c = capitalSigma then [smallSigma] else table.lower c

/-- The tables of an interpreter that knows ASCII only. -/
def asciiTable : CaseTable where
  lower c := if c.toNat < 128 then [asciiLower c] else [c]
  cased c := (65 ≤ c.toNat && c.toNat ≤ 90) || (97 ≤ c.toNat && c.toNat ≤ 122)
  ignorable _ := false
  ascii c h := if_pos h
  space c h := by
    split
    · refine congrArg (fun d => [d]) (if_neg fun hupper => ?_)
      simp only [isSpace, Bool.or_eq_true, Bool.and_eq_true, decide_eq_true_eq, beq_iff_eq] at h
      omega
    · rfl

/-! ## Runs in lower case -/

section Runs

variable {table : CaseTable} {p : Char → Bool}

/-- The class has neither of the small sigmas. -/
def NoSigma (p : Char → Bool) : Prop := p smallSigma = false ∧ p finalSigma = false

/-- In lower case the character is one that is outside the class. -/
def Breaks (table : CaseTable) (p : Char → Bool) (c : Char) : Prop :=
  ∃ d, table.plain c = [d] ∧ p d = false

/-- For a class without sigmas the lower case is that of the characters one by one. -/
theorem runs_lowerFrom (hp : NoSigma p) (before s : Str) :
    runs p (table.lowerFrom before s) = runs p (s.flatMap table.plain) := by
  have hall : ∀ s before front : Str, runs p (front ++ table.lowerFrom before s) =
      runs p (front ++ s.flatMap table.plain) := by
    intro s
    induction s with
    | nil => intro before front; rfl
    | cons c s ih =>
        intro before front
        rw [lowerFrom, List.flatMap_cons]
        by_cases hc : c = capitalSigma
        · have hsmall : table.plain c = [smallSigma] := if_pos hc
          have hends : p (if table.isFinal before s then finalSigma else smallSigma) = false := by
            split
            · exact hp.2
            · exact hp.1
          rw [if_pos hc, hsmall, List.singleton_append, List.singleton_append,
            runs_append_cons hends, runs_append_cons hp.1]
          exact congrArg _ (ih (c :: before) [])
        · have hplain : table.plain c = table.lower c := if_neg hc
          rw [if_neg hc, hplain, ← List.append_assoc, ← List.append_assoc]
          exact ih (c :: before) (front ++ table.lower c)
  exact hall s before []

/-- A character that breaks runs cuts the lower case in two. -/
theorem runs_lower_append_cons (hp : NoSigma p) {c : Char} (hc : table.Breaks p c) (a b : Str) :
    runs p (table.lowerStr (a ++ c :: b)) =
      runs p (table.lowerStr a) ++ runs p (table.lowerStr b) := by
  obtain ⟨d, hplain, hd⟩ := hc
  unfold lowerStr
  rw [runs_lowerFrom hp, runs_lowerFrom hp, runs_lowerFrom hp, List.flatMap_append,
    List.flatMap_cons, hplain]
  exact runs_append_cons hd _ _

theorem runs_lower_cons (hp : NoSigma p) {c : Char} (hc : table.Breaks p c) (b : Str) :
    runs p (table.lowerStr (c :: b)) = runs p (table.lowerStr b) := by
  have h := runs_lower_append_cons hp hc [] b
  rwa [List.nil_append] at h

theorem runs_lower_concat (hp : NoSigma p) {c : Char} (hc : table.Breaks p c) (a : Str) :
    runs p (table.lowerStr (a ++ [c])) = runs p (table.lowerStr a) := by
  rw [runs_lower_append_cons hp hc a []]
  exact List.append_nil _

theorem breaks_of_isSpace (hspace : ∀ c, isSpace c = true → p c = false) {c : Char}
    (hc : isSpace c = true) : table.Breaks p c := by
  refine ⟨c, ?_, hspace c hc⟩
  unfold plain
  rw [if_neg, table.space c hc]
  rintro rfl
  revert hc
  decide

theorem breaks_of_ascii {c : Char} (hascii : c.toNat < 128) (hc : p (asciiLower c) = false) :
    table.Breaks p c := by
  refine ⟨asciiLower c, ?_, hc⟩
  unfold plain
  rw [if_neg, table.ascii c hascii]
  rintro rfl
  revert hascii
  decide

/-- Stripping takes no run away. -/
theorem runs_lower_strip (hp : NoSigma p) (hspace : ∀ c, isSpace c = true → p c = false)
    (s : Str) : runs p (table.lowerStr (strip s)) = runs p (table.lowerStr s) := by
  have hleft : ∀ s : Str, runs p (table.lowerStr (s.dropWhile isSpace)) =
      runs p (table.lowerStr s) := by
    intro s
    induction s with
    | nil => rfl
    | cons c s ih =>
        rw [List.dropWhile_cons]
        split
        · next hc => rw [ih, runs_lower_cons hp (breaks_of_isSpace hspace hc)]
        · rfl
  have hright : ∀ s : Str, runs p (table.lowerStr (rstrip s)) = runs p (table.lowerStr s) := by
    intro s
    unfold rstrip
    induction s using List.reverseRecOn with
    | nil => rfl
    | append_singleton s c ih =>
        by_cases hc : isSpace c = true
        · rw [List.rdropWhile_concat_pos _ _ _ hc, ih,
            runs_lower_concat hp (breaks_of_isSpace hspace hc)]
        · rw [List.rdropWhile_concat_neg _ _ _ hc]
  unfold strip
  rw [hright, hleft]

/-- Parts that are joined by a character that breaks runs keep theirs apart. -/
theorem runs_lower_join (hp : NoSigma p) {c : Char} (hc : table.Breaks p c) (parts : List Str) :
    runs p (table.lowerStr (join [c] parts)) =
      parts.flatMap fun part => runs p (table.lowerStr part) := by
  induction parts with
  | nil => rfl
  | cons part parts ih =>
      by_cases hparts : parts = []
      · rw [hparts, List.flatMap_singleton]
        show runs p (table.lowerStr (part ++ [])) = _
        rw [List.append_nil]
      · rw [join_cons [c] part hparts, List.append_assoc, List.singleton_append,
          runs_lower_append_cons hp hc, ih, List.flatMap_cons]

/-- Digits have no case. -/
theorem lowerStr_digits {s : Str} (hs : ∀ c ∈ s, c.isDigit = true) : table.lowerStr s = s := by
  have hall : ∀ (s before : Str), (∀ c ∈ s, c.isDigit = true) → table.lowerFrom before s = s := by
    intro s
    induction s with
    | nil => intro before _; rfl
    | cons c s ih =>
        intro before hs
        have hdigit : 48 ≤ c.toNat ∧ c.toNat ≤ 57 := by
          have := hs c List.mem_cons_self
          simpa [Char.isDigit, UInt32.le_iff_toNat_le] using this
        have hsigma : c ≠ capitalSigma := by
          rintro rfl
          revert hdigit
          decide
        have hlower : table.lower c = [c] := by
          rw [table.ascii c (by omega), asciiLower, if_neg (by omega)]
        rw [lowerFrom, if_neg hsigma, hlower, ih _ fun d hd => hs d (List.mem_cons_of_mem _ hd)]
        rfl
  exact hall s [] hs

end Runs

end CaseTable

end Py
