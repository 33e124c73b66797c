import Eka.Lib.JsonText
import Eka.Retrieval.Payload

/-!
# Payloads as texts

`serialize` and `deserialize` with `json.dumps` and `json.loads` written out. What is left to the
interpreter is how a float is written and read (`float.__repr__` and `float`).
-/

namespace Eka

open Py JsonText

namespace Json

mutual

/-- The value of `json.dumps`. -/
def toValue : Json → Value ℚ
  | .null => .null
  | .bool b => .bool b
  | .number q => .number q
  | .string s => .string s
  | .array items => .array (toValues items)
  | .object items => .object (toMembers items)

def toValues : List Json → List (Value ℚ)
  | [] => []
  | item :: items => item.toValue :: toValues items

def toMembers : List (Str × Json) → List (Str × Value ℚ)
  | [] => []
  | (key, item) :: items => (key, item.toValue) :: toMembers items

end

mutual

/-- The value of `json.loads`. -/
def ofValue : Value ℚ → Json
  | .null => .null
  | .bool b => .bool b
  | .number q => .number q
  | .string s => .string s
  | .array items => .array (ofValues items)
  | .object items => .object (ofMembers items)

def ofValues : List (Value ℚ) → List Json
  | [] => []
  | item :: items => ofValue item :: ofValues items

def ofMembers : List (Str × Value ℚ) → List (Str × Json)
  | [] => []
  | (key, item) :: items => (key, ofValue item) :: ofMembers items

end

mutual

theorem ofValue_toValue : ∀ value : Json, ofValue value.toValue = value
  | .null | .bool _ | .number _ | .string _ => rfl
  | .array items => congrArg Json.array (ofValues_toValues items)
  | .object items => congrArg Json.object (ofMembers_toMembers items)

theorem ofValues_toValues : ∀ items : List Json, ofValues (toValues items) = items
  | [] => rfl
  | item :: items => congrArg₂ List.cons (ofValue_toValue item) (ofValues_toValues items)

theorem ofMembers_toMembers : ∀ items : List (Str × Json), ofMembers (toMembers items) = items
  | [] => rfl
  | (key, item) :: items => congrArg₂ List.cons
      (congrArg (Prod.mk key) (ofValue_toValue item)) (ofMembers_toMembers items)

end

end Json

/-- `json.dumps` and `json.loads` on texts, with the `float(s)`, `repr(s)` and the decimal digits
    of the interpreter. -/
def JsonCodec.ofNumerals (numerals : Numerals ℚ) (float : Str → Option ℚ) (repr : Str → Str)
    (decimal : Char → Option Nat) : JsonCodec where
  dumps value := JsonText.dumps numerals value.toValue
  loads s :=
    match JsonText.loads numerals s with
    | none => .error (.valueError "Expecting value".toList)
    | some value => .ok (Json.ofValue value)
  float := float
  repr := repr
  decimal := decimal

namespace ScoredChunk

/-- The dictionary of a result names each key once. -/
theorem distinct_json (result : ScoredChunk) : result.json.toValue.Distinct := by
  refine ⟨?_, trivial, trivial, trivial, trivial, trivial⟩
  show (["chunk_id".toList, "document_id".toList, "text".toList, "score".toList] : List Str).Nodup
  decide

theorem distinct_results (results : List ScoredChunk) :
    (Json.array (results.map json)).toValue.Distinct := by
  induction results with
  | nil => trivial
  | cons result results ih => exact ⟨result.distinct_json, ih⟩

end ScoredChunk

section Codec

variable (numerals : Numerals ℚ) (float : Str → Option ℚ) (repr : Str → Str)
  (decimal : Char → Option Nat)

theorem JsonCodec.ofNumerals_faithful : (ofNumerals numerals float repr decimal).Faithful := by
  intro results
  have hloads := @loads_dumps _ numerals _ (ScoredChunk.distinct_results results)
  unfold serialize ofNumerals
  simp only
  rw [hloads]
  simp only
  rw [Json.ofValue_toValue]

/-- Every list of results survives its payload, whatever is in the texts of the chunks; the
    payload is printable ASCII. -/
theorem deserialize_payload (results : List ScoredChunk) :
    deserialize (.ofNumerals numerals float repr decimal)
        (serialize (.ofNumerals numerals float repr decimal) results) =
      .ok (results.map ScoredChunk.loaded) ∧
    Printable (serialize (.ofNumerals numerals float repr decimal) results) :=
  ⟨deserialize_serialize (JsonCodec.ofNumerals_faithful numerals float repr decimal) results,
    printable_dumps numerals _⟩

end Codec

/-! ### Scores -/

/-- The value of digits with or without a sign. -/
def readInt : Str → Int
  | '-' :: digits => -(Nat.ofDigitChars 10 digits 0 : Nat)
  | digits => (Nat.ofDigitChars 10 digits 0 : Nat)

def writeInt : Int → Str
  | .ofNat n => (toString n).toList
  | .negSucc n => '-' :: (toString (n + 1)).toList

theorem readInt_writeInt (n : Int) : readInt (writeInt n) = n := by
  cases n with
  | ofNat n =>
      have hread : readInt (toString n).toList =
          (Nat.ofDigitChars 10 (toString n).toList 0 : Nat) := by
        unfold readInt
        split
        · next digits heq =>
            have hmem : '-' ∈ (toString n).toList := heq ▸ List.mem_cons_self
            exact absurd (isDigit_of_mem_toString hmem) (by decide)
        · rfl
      rw [writeInt, hread, toString_toList, Nat.ofDigitChars_ten_toDigits]
      rfl
  | negSucc n =>
      rw [writeInt, toString_toList]
      show -((Nat.ofDigitChars 10 (Nat.toDigits 10 (n + 1)) 0 : Nat) : Int) = _
      rw [Nat.ofDigitChars_ten_toDigits]
      rfl

theorem isNumeral_of_mem_writeInt {n : Int} {c : Char} (h : c ∈ writeInt n) :
    isNumeral c = true ∧ c ≠ 'e' := by
  have hdigits : ∀ m : Nat, c ∈ (toString m).toList → isNumeral c = true ∧ c ≠ 'e' := by
    intro m hc
    refine ⟨Numerals.nat.isNumeral_write m c hc, ?_⟩
    rintro rfl
    exact absurd (isDigit_of_mem_toString hc) (by decide)
  cases n with
  | ofNat m => exact hdigits m h
  | negSucc m =>
      rcases List.mem_cons.mp h with rfl | h
      · exact ⟨by decide, by decide⟩
      · exact hdigits (m + 1) h

/-- The first number of places from `k` on that is enough for the fractions of a denominator. -/
def placesFrom (den : Nat) : Nat → Nat → Nat
  | 0, k => k
  | n + 1, k => if 10 ^ k % den = 0 then k else placesFrom den n (k + 1)

/-- The decimal of a number, with a digit on each side of the point; a double has no more than
    1074 places. -/
def writeDecimal (q : ℚ) : Str :=
  let places := placesFrom q.den 1074 1
  let digits := (toString (q.num.natAbs * 10 ^ places / q.den)).toList.leftpad (places + 1) '0'
  let point := digits.length - places
  (if q < 0 then ['-'] else []) ++ digits.take point ++ '.' :: digits.drop point

def readDecimal (s : Str) : Option ℚ :=
  let whole := s.takeWhile (· ≠ '.')
  let places := (s.dropWhile (· ≠ '.')).tail
  if (whole ++ places).all fun c => c.isDigit || c == '-' then
    some (readInt (whole ++ places) / (10 ^ places.length : Nat))
  else none

/-- The decimal is read back as the number. -/
def IsDecimal (q : ℚ) (s : Str) : Prop :=
  readDecimal s = some q ∧ s ≠ [] ∧ (s.all fun c => isNumeral c && c != 'e') = true

theorem IsDecimal.isNumeral {q : ℚ} {s : Str} (h : IsDecimal q s) {c : Char} (hc : c ∈ s) :
    isNumeral c = true ∧ c ≠ 'e' := by
  simpa using List.all_eq_true.mp h.2.2 c hc

instance (q : ℚ) (s : Str) : Decidable (IsDecimal q s) := inferInstanceAs (Decidable (_ ∧ _ ∧ _))

/-- Decimals, and numerator and denominator of a number that has none, as no float is. -/
def Numerals.decimal : Numerals ℚ where
  write q :=
    if IsDecimal q (writeDecimal q) then writeDecimal q
    else writeInt q.num ++ 'e' :: writeInt q.den
  read s :=
    if 'e' ∈ s then
      some (readInt (s.takeWhile (· ≠ 'e')) / readInt (s.dropWhile (· ≠ 'e')).tail)
    else readDecimal s
  read_write q := by
    split
    · next h => rw [if_neg fun hmem => (h.isNumeral hmem).2 rfl, h.1]
    · have hnum : ∀ c ∈ writeInt q.num, decide (c ≠ 'e') = true := fun c hc =>
        decide_eq_true (isNumeral_of_mem_writeInt hc).2
      rw [if_pos (List.mem_append_right _ List.mem_cons_self),
        List.takeWhile_append_of_pos hnum, List.dropWhile_append_of_pos hnum]
      simp only [ne_eq, not_true_eq_false, decide_false, Bool.false_eq_true, not_false_eq_true,
        List.takeWhile_cons_of_neg, List.dropWhile_cons_of_neg, List.append_nil, List.tail_cons]
      rw [readInt_writeInt, readInt_writeInt]
      exact congrArg some (Rat.num_div_den q)
  write_ne_nil q := by
    split
    · next h => exact h.2.1
    · exact List.append_ne_nil_of_right_ne_nil _ (List.cons_ne_nil _ _)
  isNumeral_write q c hc := by
    split at hc
    · next h => exact (h.isNumeral hc).1
    · rcases List.mem_append.mp hc with hc | hc
      · exact (isNumeral_of_mem_writeInt hc).1
      · rcases List.mem_cons.mp hc with rfl | hc
        · decide
        · exact (isNumeral_of_mem_writeInt hc).1

/-- A text with a character outside ASCII and one outside the basic plane. -/
def smileResult : ScoredChunk := ⟨⟨1⟩, ⟨2⟩, ['\u00fc', Char.ofNat 0x1f600], 9 / 10⟩

def decimalCodec : JsonCodec := .ofNumerals Numerals.decimal (fun _ => none) id fun _ => none

theorem deserialize_payload_smile :
    quote smileResult.text = "\"\\u00fc\\ud83d\\ude00\"".toList ∧
    Numerals.decimal.write smileResult.score = "0.9".toList ∧
    deserialize decimalCodec (serialize decimalCodec [smileResult]) =
      .ok [⟨⟨1⟩, ⟨2⟩, .string ['\u00fc', Char.ofNat 0x1f600], 9 / 10⟩] :=
  ⟨by decide, by decide +kernel,
    (deserialize_payload Numerals.decimal (fun _ => none) id (fun _ => none) [smileResult]).1⟩

end Eka
