import Eka.Lib.PyString

/-!
# Replacing characters and reading numbers

`str.replace`, `str.strip(chars)` and `int(s, 16)`, as documented. Which code points outside
ASCII are decimal digits is left to the interpreter's Unicode tables.
-/

namespace Py

/-- `s.replace(old, new)` for a non-empty `old`. -/
def replace (old new s : Str) : Str := join new (split old s)

example : replace "-".toList [] "a-b--c".toList = "abc".toList := by decide

/-- `s.strip(chars)`. -/
def stripChars (chars s : Str) : Str := (s.dropWhile chars.contains).rdropWhile chars.contains

/-- The whitespace that `int` skips at either end: of the control characters that `str.isspace`
    accepts, not U+001C to U+001F. -/
def isIntSpace (c : Char) : Bool := isSpace c && !(28 ≤ c.toNat && c.toNat ≤ 31)

/-- A decimal digit of another script counts as the ASCII one. -/
def asciiDigit (decimal : Char → Option Nat) (c : Char) : Char :=
  if c.toNat < 128 ∨ isSpace c then c
  else
    match decimal c with
    | none => c
    | some d => hexDigit d

/-- The value of a digit to base 16. -/
def digitValue (c : Char) : Option Nat :=
  let n := c.toNat
  if 48 ≤ n ∧ n ≤ 57 then some (n - 48)
  else if 97 ≤ n ∧ n ≤ 102 then some (n - 87)
  else if 65 ≤ n ∧ n ≤ 70 then some (n - 55)
  else none

/-- Digits to base 16 after those that make `acc`, with single underscores between them; `gap`
    where a digit has to follow. -/
def scanDigits : Nat → Bool → Str → Option Nat
  | acc, gap, [] => if gap then none else some acc
  | acc, gap, c :: cs =>
      if c = '_' then
        if gap then none else scanDigits acc true cs
      else
        match digitValue c with
        | none => none
        | some d => scanDigits (16 * acc + d) false cs

/-- What follows an optional `0x`, which one underscore may end. -/
def dropBase (s : Str) : Str :=
  if "0x".toList.isPrefixOf s ∨ "0X".toList.isPrefixOf s then
    if (s.drop 2).head? = some '_' then s.drop 3 else s.drop 2
  else s

/-- `int(s, 16)`, without the `ValueError`. -/
def int16 (decimal : Char → Option Nat) (s : Str) : Option Int :=
  let s := ((s.map (asciiDigit decimal)).dropWhile isIntSpace).rdropWhile isIntSpace
  if s.head? = some '-' then (scanDigits 0 true (dropBase s.tail)).map fun n => -(n : Int)
  else if s.head? = some '+' then (scanDigits 0 true (dropBase s.tail)).map Int.ofNat
  else (scanDigits 0 true (dropBase s)).map Int.ofNat

example : int16 (fun _ => none) " -0x_1F\n".toList = some (-31) := by decide

example : int16 (fun _ => none) "\x1f1F".toList = none := by decide

/-! ## Replacing -/

theorem split_of_notMem {d : Char} {sep s : Str} (h : d ∉ s) : split (d :: sep) s = [s] :=
  split_of_absent List.mem_cons_self h

/-- Nothing is replaced in a string without the first character of `old`. -/
theorem replace_of_notMem {d : Char} {old new s : Str} (h : d ∉ s) :
    replace (d :: old) new s = s := by
  unfold replace
  rw [split_of_notMem h]
  exact List.append_nil s

theorem join_nil (parts : List Str) : join [] parts = parts.flatten := by
  induction parts with
  | nil => rfl
  | cons part parts ih =>
      by_cases hparts : parts = []
      · rw [hparts]
        rfl
      · rw [join_cons [] part hparts, ih, List.append_nil, List.flatten_cons]

/-- Replacing a character by nothing deletes it. -/
theorem replace_char (d : Char) (s : Str) : replace [d] [] s = s.filter (· ≠ d) := by
  unfold replace split
  rw [join_nil]
  induction s with
  | nil => rfl
  | cons c s ih =>
      by_cases hc : d = c
      · subst hc
        simpa [splitSkip, List.isPrefixOf] using ih
      · have hprefix : [d].isPrefixOf (c :: s) = false := by simp [List.isPrefixOf, hc]
        rw [splitSkip, hprefix, List.filter_cons_of_pos (by simpa using Ne.symm hc), ← ih]
        cases hparts : splitSkip [d] 0 s with
        | nil => exact absurd hparts (splitSkip_ne_nil _ _ _)
        | cons part parts => rfl

/-- Nothing is dropped from the ends of a string without a character to drop. -/
theorem dropWhile_rdropWhile_eq_self {p : Char → Bool} {s : Str} (h : ∀ c ∈ s, p c = false) :
    (s.dropWhile p).rdropWhile p = s := by
  have hdrop : s.dropWhile p = s := by
    cases s with
    | nil => rfl
    | cons c s => exact List.dropWhile_cons_of_neg (by
        rw [h c List.mem_cons_self]
        decide)
  rw [hdrop, List.rdropWhile_eq_self_iff]
  intro hs
  rw [h _ (List.getLast_mem hs)]
  decide

theorem stripChars_of_notMem {chars s : Str} (h : ∀ c ∈ s, c ∉ chars) :
    stripChars chars s = s := by
  refine dropWhile_rdropWhile_eq_self ?_
  intro c hc
  simpa using h c hc

/-! ## Reading hexadecimal digits back -/

/-- What the parsers look at in a digit that `format(n, "x")` writes. -/
theorem hexDigit_spec {n : Nat} (h : n < 16) :
    digitValue (hexDigit n) = some n ∧ (hexDigit n).toNat < 128 ∧
      isSpace (hexDigit n) = false ∧ hexDigit n ∉ "_xX-+u\x7b\x7d|".toList := by
  have hall : ∀ x : Fin 16, digitValue (hexDigit x) = some x.val ∧ (hexDigit x).toNat < 128 ∧
      isSpace (hexDigit x) = false ∧ hexDigit x ∉ "_xX-+u\x7b\x7d|".toList := by decide
  exact hall ⟨n, h⟩

theorem mem_hex {k n : Nat} {c : Char} (h : c ∈ hex k n) : ∃ d < 16, c = hexDigit d := by
  induction k generalizing n with
  | zero => cases h
  | succ k ih =>
      rcases List.mem_append.mp h with h | h
      · exact ih h
      · exact ⟨n % 16, Nat.mod_lt n (by decide), List.mem_singleton.mp h⟩

theorem notMem_hex {c : Char} (hc : c ∈ "_xX-+u\x7b\x7d|".toList) (k n : Nat) : c ∉ hex k n := by
  intro h
  obtain ⟨d, hd, rfl⟩ := mem_hex h
  exact (hexDigit_spec hd).2.2.2 hc

theorem scanDigits_concat {acc v d : Nat} {gap : Bool} {s : Str} (hd : d < 16)
    (h : scanDigits acc gap s = some v) :
    scanDigits acc gap (s ++ [hexDigit d]) = some (16 * v + d) := by
  have hdigit : ∀ acc gap, scanDigits acc gap [hexDigit d] = some (16 * acc + d) := by
    intro acc gap
    obtain ⟨hvalue, -, -, hnot⟩ := hexDigit_spec hd
    have hne : hexDigit d ≠ '_' := fun heq => hnot (by rw [heq]; decide)
    simp [scanDigits, hne, hvalue]
  induction s generalizing acc gap with
  | nil =>
      cases gap with
      | true => cases h
      | false =>
          cases h
          exact hdigit _ _
  | cons c s ih =>
      simp only [List.cons_append, scanDigits] at h ⊢
      by_cases hc : c = '_'
      · simp only [hc, if_true] at h ⊢
        cases gap with
        | true => cases h
        | false => exact ih h
      · simp only [hc, if_false] at h ⊢
        cases hvalue : digitValue c with
        | none => rw [hvalue] at h; cases h
        | some e =>
            rw [hvalue] at h
            exact ih h

theorem scanDigits_hex {k n : Nat} (acc : Nat) (hn : n < 16 ^ k) :
    scanDigits acc false (hex k n) = some (acc * 16 ^ k + n) := by
  induction k generalizing n with
  | zero =>
      obtain rfl : n = 0 := by omega
      simp [hex, scanDigits]
  | succ k ih =>
      have hdiv : n / 16 < 16 ^ k := by
        rw [Nat.div_lt_iff_lt_mul (by decide), ← Nat.pow_succ]
        exact hn
      unfold hex
      rw [scanDigits_concat (Nat.mod_lt n (by decide)) (ih hdiv), Nat.pow_succ]
      congr 1
      have := Nat.div_add_mod n 16
      generalize 16 ^ k = p at *
      rw [Nat.mul_add, ← Nat.mul_assoc, Nat.mul_comm 16 acc, Nat.mul_assoc, Nat.mul_comm 16 p]
      omega

/-- Where a digit stands, it does not matter whether one has to. -/
theorem scanDigits_gap {acc : Nat} {s : Str} (hs : s ≠ []) (hnot : '_' ∉ s) :
    scanDigits acc true s = scanDigits acc false s := by
  cases s with
  | nil => exact absurd rfl hs
  | cons c s =>
      have hc : c ≠ '_' := (List.ne_of_not_mem_cons hnot).symm
      simp [scanDigits, hc]

theorem dropBase_of_notMem {s : Str} (hx : 'x' ∉ s) (hX : 'X' ∉ s) : dropBase s = s := by
  unfold dropBase
  refine if_neg ?_
  rintro (h | h)
  · exact hx ((List.isPrefixOf_iff_prefix.mp h).subset (by decide))
  · exact hX ((List.isPrefixOf_iff_prefix.mp h).subset (by decide))

/-- `int(format(n, "x").zfill(k), 16)`. -/
theorem int16_hex {k n : Nat} (hk : 0 < k) (hn : n < 16 ^ k) (decimal : Char → Option Nat) :
    int16 decimal (hex k n) = some (Int.ofNat n) := by
  have hne : hex k n ≠ [] := by
    rw [← List.length_pos_iff, length_hex]
    exact hk
  have hascii : (hex k n).map (asciiDigit decimal) = hex k n := by
    conv_rhs => rw [← List.map_id (hex k n)]
    refine List.map_congr_left ?_
    intro c hc
    obtain ⟨d, hd, rfl⟩ := mem_hex hc
    exact if_pos (.inl (hexDigit_spec hd).2.1)
  have hstrip : ((hex k n).dropWhile isIntSpace).rdropWhile isIntSpace = hex k n := by
    refine dropWhile_rdropWhile_eq_self ?_
    intro c hc
    obtain ⟨d, hd, rfl⟩ := mem_hex hc
    unfold isIntSpace
    rw [(hexDigit_spec hd).2.2.1, Bool.false_and]
  have hhead : ∀ c ∈ "_xX-+u\x7b\x7d|".toList, (hex k n).head? ≠ some c := by
    intro c hc h
    exact notMem_hex hc k n (List.mem_of_mem_head? h)
  unfold int16
  simp only
  rw [hascii, hstrip, if_neg (hhead '-' (by decide)), if_neg (hhead '+' (by decide)),
    dropBase_of_notMem (notMem_hex (by decide) k n) (notMem_hex (by decide) k n),
    scanDigits_gap hne (notMem_hex (by decide) k n), scanDigits_hex 0 hn]
  simp

end Py
