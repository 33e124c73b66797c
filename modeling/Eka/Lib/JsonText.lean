import Eka.Lib.PyDict
import Eka.Lib.PyParse

/-!
# JSON texts

`json.dumps` with its default settings and `json.loads`, as documented: the writer puts `", "` and
`": "` between the parts and writes everything outside printable ASCII as `\uXXXX`, a code point
above `U+FFFF` as a surrogate pair; the reader is a recursive descent. How the numbers are written
is a parameter, so that a caller can have integers, or the shortest texts of floats.
-/

namespace JsonText

open Py

/-- What `json.loads` returns, over numbers `N`; an object is a `dict`, in its order. -/
inductive Value (N : Type) where
  | null
  | bool (b : Bool)
  | number (n : N)
  | string (s : Str)
  | array (items : List (Value N))
  | object (members : List (Str × Value N))

/-! ## Strings -/

/-- The short escapes of the writer. -/
def shortEscapes : List (Char × Char) :=
  [('\x22', '\x22'), ('\x5c', '\x5c'), ('\n', 'n'), ('\x0d', 'r'), ('\t', 't'), ('\x0c', 'f'),
    ('\x08', 'b')]

/-- `\uXXXX`. -/
def escapeUnit (n : Nat) : Str := '\x5c' :: 'u' :: hex 4 n

/-- The UTF-16 code units of a code point. -/
def units (c : Char) : List Nat :=
  if c.toNat < 0x10000 then [c.toNat]
  else [0xd800 + (c.toNat - 0x10000) / 0x400, 0xdc00 + (c.toNat - 0x10000) % 0x400]

/-- One code point in a string of the writer (`ensure_ascii`). -/
def escapeChar (c : Char) : Str :=
  match shortEscapes.lookup c with
  | some e => ['\x5c', e]
  | none => if 32 ≤ c.toNat ∧ c.toNat ≤ 126 then [c] else (units c).flatMap escapeUnit

/-- A string of the writer. -/
def quote (s : Str) : Str := '\x22' :: s.flatMap escapeChar ++ ['\x22']

/-- The short escapes of the reader. -/
def unescapes : List (Char × Char) :=
  [('\x22', '\x22'), ('\x5c', '\x5c'), ('/', '/'), ('b', '\x08'), ('f', '\x0c'), ('n', '\n'),
    ('r', '\x0d'), ('t', '\t')]

/-- Where the reader stands in a string: between characters, after a backslash, or in `\uXXXX`
    with `left` digits to come after the next one. -/
inductive Scan where
  | plain
  | escaped
  | unit (left value : Nat)

/-- The code units up to the closing quote, and what follows it. -/
def scanUnits : Scan → Str → Option (List Nat × Str)
  | _, [] => none
  | .plain, c :: cs =>
      if c = '\x22' then some ([], cs)
      else if c = '\x5c' then scanUnits .escaped cs
      else if c.toNat < 32 then none
      else (scanUnits .plain cs).map (Prod.map (c.toNat :: ·) id)
  | .escaped, c :: cs =>
      if c = 'u' then scanUnits (.unit 3 0) cs
      else
        match unescapes.lookup c with
        | none => none
        | some d => (scanUnits .plain cs).map (Prod.map (d.toNat :: ·) id)
  | .unit left value, c :: cs =>
      match digitValue c with
      | none => none
      | some d =>
          match left with
          | 0 => (scanUnits .plain cs).map (Prod.map ((16 * value + d) :: ·) id)
          | left + 1 => scanUnits (.unit left (16 * value + d)) cs

def isHigh (u : Nat) : Bool := 0xd800 ≤ u && u ≤ 0xdbff

def isLow (u : Nat) : Bool := 0xdc00 ≤ u && u ≤ 0xdfff

/-- The code points of code units; a surrogate that stands alone is none. -/
def ofUnits : List Nat → Option Str
  | [] => some []
  | [u] => if isHigh u || isLow u then none else some [Char.ofNat u]
  | u :: v :: us =>
      if isHigh u && isLow v then
        (ofUnits us).map (Char.ofNat (0x10000 + (u - 0xd800) * 0x400 + (v - 0xdc00)) :: ·)
      else if isHigh u || isLow u then none
      else (ofUnits (v :: us)).map (Char.ofNat u :: ·)

/-- A string after its opening quote, and what follows it. -/
def readString (s : Str) : Option (Str × Str) :=
  (scanUnits .plain s).bind fun p => (ofUnits p.1).map fun t => (t, p.2)

/-! ## Numbers -/

/-- The characters of numbers. -/
def isNumeral (c : Char) : Bool :=
  (48 ≤ c.toNat && c.toNat ≤ 57) || "-+.eE".toList.contains c

/-- How numbers are written and read. -/
structure Numerals (N : Type) where
  write : N → Str
  read : Str → Option N
  read_write : ∀ n, read (write n) = some n
  write_ne_nil : ∀ n, write n ≠ []
  isNumeral_write : ∀ n, ∀ c ∈ write n, isNumeral c = true

variable {N : Type} (numerals : Numerals N)

/-! ## The writer -/

mutual

/-- `json.dumps(value)`. -/
def dumps : Value N → Str
  | .null => "null".toList
  | .bool b => if b then "true".toList else "false".toList
  | .number n => numerals.write n
  | .string s => quote s
  | .array items => '[' :: join ", ".toList (dumpsItems items) ++ [']']
  | .object members => '\x7b' :: join ", ".toList (dumpsMembers members) ++ ['\x7d']

def dumpsItems : List (Value N) → List Str
  | [] => []
  | item :: items => dumps item :: dumpsItems items

def dumpsMembers : List (Str × Value N) → List Str
  | [] => []
  | (key, value) :: members => (quote key ++ ": ".toList ++ dumps value) :: dumpsMembers members

end

/-! ## The reader -/

def isJsonSpace (c : Char) : Bool := c = ' ' || c = '\t' || c = '\n' || c = '\x0d'

def skipSpace (s : Str) : Str := s.dropWhile isJsonSpace

/-- A name or a number at the start of a text. -/
def readAtom (s : Str) : Option (Value N × Str) :=
  if "null".toList.isPrefixOf s then some (.null, s.drop 4)
  else if "true".toList.isPrefixOf s then some (.bool true, s.drop 4)
  else if "false".toList.isPrefixOf s then some (.bool false, s.drop 5)
  else (numerals.read (s.takeWhile isNumeral)).map fun n => (.number n, s.dropWhile isNumeral)

mutual

/-- The value at the start of a text, and what follows it; `none` as well when `fuel` values
    inside one another and behind one another were not enough. -/
def readValue : Nat → Str → Option (Value N × Str)
  | 0, _ => none
  | _ + 1, [] => none
  | fuel + 1, c :: cs =>
      if c = '\x22' then (readString cs).map fun p => (.string p.1, p.2)
      else if c = '[' then
        if (skipSpace cs).head? = some ']' then some (.array [], (skipSpace cs).tail)
        else (readItems fuel (skipSpace cs)).map fun p => (.array p.1, p.2)
      else if c = '\x7b' then
        if (skipSpace cs).head? = some '\x7d' then some (.object [], (skipSpace cs).tail)
        else (readMembers fuel (skipSpace cs)).map fun p =>
          -- a key that comes again overwrites
          (.object (Dict.empty.setAll p.1).items, p.2)
      else readAtom numerals (c :: cs)

/-- The items of an array from the next one on. -/
def readItems : Nat → Str → Option (List (Value N) × Str)
  | 0, _ => none
  | fuel + 1, s =>
      match readValue fuel s with
      | none => none
      | some (item, rest) =>
          match skipSpace rest with
          | [] => none
          | c :: rest =>
              if c = ',' then
                (readItems fuel (skipSpace rest)).map fun p => (item :: p.1, p.2)
              else if c = ']' then some ([item], rest)
              else none

/-- The members of an object from the next one on. -/
def readMembers : Nat → Str → Option (List (Str × Value N) × Str)
  | 0, _ => none
  | _ + 1, [] => none
  | fuel + 1, c :: s =>
      if c ≠ '\x22' then none
      else
        match readString s with
        | none => none
        | some (key, rest) =>
            match skipSpace rest with
            | [] => none
            | c :: rest =>
                if c ≠ ':' then none
                else
                  match readValue fuel (skipSpace rest) with
                  | none => none
                  | some (value, rest) =>
                      match skipSpace rest with
                      | [] => none
                      | c :: rest =>
                          if c = ',' then
                            (readMembers fuel (skipSpace rest)).map fun p =>
                              ((key, value) :: p.1, p.2)
                          else if c = '\x7d' then some ([(key, value)], rest)
                          else none

end

/-- `json.loads(s)`; `none` for a `JSONDecodeError`. -/
def loads (s : Str) : Option (Value N) :=
  match readValue numerals (s.length + 1) (skipSpace s) with
  | none => none
  | some (value, rest) => if skipSpace rest = [] then some value else none

/-! ## Strings survive -/

section Strings

/-- No code point is a surrogate. -/
theorem toNat_valid (c : Char) :
    c.toNat < 0xd800 ∨ 0xdfff < c.toNat ∧ c.toNat < 0x110000 := c.valid

theorem mem_of_lookup {table : List (Char × Char)} {c e : Char}
    (h : table.lookup c = some e) : (c, e) ∈ table := by
  obtain ⟨front, back, rfl, -⟩ := List.lookup_eq_some_iff.mp h
  exact List.mem_append_right front List.mem_cons_self

theorem unescapes_of_short {c e : Char} (h : shortEscapes.lookup c = some e) :
    unescapes.lookup e = some c ∧ e ≠ 'u' := by
  have hall : ∀ p ∈ shortEscapes, unescapes.lookup p.2 = some p.1 ∧ p.2 ≠ 'u' := by decide
  exact hall (c, e) (mem_of_lookup h)

theorem scanUnits_hex {n : Nat} (hn : n < 16 ^ 4) (rest : Str) :
    scanUnits (.unit 3 0) (hex 4 n ++ rest) =
      (scanUnits .plain rest).map (Prod.map (n :: ·) id) := by
  have hdigit : ∀ m, digitValue (hexDigit (m % 16)) = some (m % 16) := fun m =>
    (hexDigit_spec (Nat.mod_lt m (by decide))).1
  have hvalue : 16 * (16 * (16 * (16 * 0 + n / 16 / 16 / 16 % 16) + n / 16 / 16 % 16) +
      n / 16 % 16) + n % 16 = n := by omega
  simp only [hex, List.nil_append, List.cons_append, scanUnits, hdigit, hvalue]

/-- One `\uXXXX`. -/
theorem scanUnits_escapeUnit {n : Nat} (hn : n < 16 ^ 4) (rest : Str) :
    scanUnits .plain (escapeUnit n ++ rest) =
      (scanUnits .plain rest).map (Prod.map (n :: ·) id) := by
  have hquote : ('\x5c' : Char) ≠ '\x22' := by decide
  unfold escapeUnit
  rw [List.cons_append, List.cons_append, scanUnits, if_neg hquote, if_pos rfl, scanUnits,
    if_pos rfl, scanUnits_hex hn]

theorem unit_lt {c : Char} {n : Nat} (h : n ∈ units c) : n < 16 ^ 4 := by
  have hc := toNat_valid c
  unfold units at h
  split at h
  · rw [List.mem_singleton] at h
    omega
  · simp only [List.mem_cons, List.not_mem_nil, or_false] at h
    omega

theorem scanUnits_units {us : List Nat} (h : ∀ n ∈ us, n < 16 ^ 4) (rest : Str) :
    scanUnits .plain (us.flatMap escapeUnit ++ rest) =
      (scanUnits .plain rest).map (Prod.map (us ++ ·) id) := by
  induction us with
  | nil =>
      rw [List.flatMap_nil, List.nil_append]
      cases scanUnits .plain rest <;> rfl
  | cons u us ih =>
      rw [List.flatMap_cons, List.append_assoc, scanUnits_escapeUnit (h u List.mem_cons_self),
        ih fun n hn => h n (List.mem_cons_of_mem u hn), Option.map_map]
      rfl

/-- The reader finds the code units of a code point where the writer has put one. -/
theorem scanUnits_escapeChar (c : Char) (rest : Str) :
    scanUnits .plain (escapeChar c ++ rest) =
      (scanUnits .plain rest).map (Prod.map (units c ++ ·) id) := by
  have hquote : ('\x5c' : Char) ≠ '\x22' := by decide
  unfold escapeChar
  cases hshort : shortEscapes.lookup c with
  | some e =>
      obtain ⟨hback, hu⟩ := unescapes_of_short hshort
      have hunits : units c = [c.toNat] := by
        have hall : ∀ p ∈ shortEscapes, units p.1 = [p.1.toNat] := by decide
        exact hall (c, e) (mem_of_lookup hshort)
      simp only [List.cons_append, List.nil_append]
      rw [scanUnits, if_neg hquote, if_pos rfl, scanUnits, if_neg hu, hback, hunits]
      rfl
  | none =>
      have hnone := List.lookup_eq_none_iff.mp hshort
      simp only
      split
      · next hprintable =>
          have hne : ∀ p ∈ shortEscapes, c ≠ p.1 := fun p hp => by simpa using hnone p hp
          have hunits : units c = [c.toNat] := if_pos (by omega)
          rw [List.cons_append, List.nil_append, scanUnits,
            if_neg (hne ('\x22', '\x22') (by decide)), if_neg (hne ('\x5c', '\x5c') (by decide)),
            if_neg (by omega), hunits]
          rfl
      · exact scanUnits_units (fun n hn => unit_lt hn) rest

theorem scanUnits_flatMap (s rest : Str) :
    scanUnits .plain (s.flatMap escapeChar ++ '\x22' :: rest) = some (s.flatMap units, rest) := by
  induction s with
  | nil => rfl
  | cons c s ih =>
      rw [List.flatMap_cons, List.append_assoc, scanUnits_escapeChar, ih, List.flatMap_cons]
      rfl

theorem not_surrogate (c : Char) : isHigh c.toNat = false ∧ isLow c.toNat = false := by
  have hvalid := toNat_valid c
  simp only [isHigh, isLow, Bool.and_eq_false_iff, decide_eq_false_iff_not]
  omega

theorem ofUnits_units (c : Char) (us : List Nat) :
    ofUnits (units c ++ us) = (ofUnits us).map (c :: ·) := by
  unfold units
  split
  · obtain ⟨hhigh, hlow⟩ := not_surrogate c
    cases us with
    | nil => simp [ofUnits, hhigh, hlow]
    | cons u us => simp [ofUnits, hhigh, hlow]
  · next hbig =>
      have hc := toNat_valid c
      have hhigh : isHigh (0xd800 + (c.toNat - 0x10000) / 0x400) = true := by
        simp only [isHigh, Bool.and_eq_true, decide_eq_true_eq]
        omega
      have hlow : isLow (0xdc00 + (c.toNat - 0x10000) % 0x400) = true := by
        simp only [isLow, Bool.and_eq_true, decide_eq_true_eq]
        omega
      have hvalue : 0x10000 + (0xd800 + (c.toNat - 0x10000) / 0x400 - 0xd800) * 0x400 +
          (0xdc00 + (c.toNat - 0x10000) % 0x400 - 0xdc00) = c.toNat := by omega
      rw [List.cons_append, List.cons_append, List.nil_append, ofUnits, hhigh, hlow, hvalue,
        Char.ofNat_toNat]
      rfl

/-- A string survives the way through its text. -/
theorem readString_quote (s rest : Str) :
    readString (s.flatMap escapeChar ++ '\x22' :: rest) = some (s, rest) := by
  have hunits : ofUnits (s.flatMap units) = some s := by
    induction s with
    | nil => rfl
    | cons c s ih => rw [List.flatMap_cons, ofUnits_units, ih]; rfl
  unfold readString
  rw [scanUnits_flatMap, Option.bind_some]
  simp only
  rw [hunits]
  rfl

end Strings

/-! ## Values survive -/

namespace Value

mutual

/-- In every object inside the value, no key comes twice. -/
def Distinct : Value N → Prop
  | .array items => DistinctItems items
  | .object members => (members.map Prod.fst).Nodup ∧ DistinctMembers members
  | _ => True

def DistinctItems : List (Value N) → Prop
  | [] => True
  | item :: items => item.Distinct ∧ DistinctItems items

def DistinctMembers : List (Str × Value N) → Prop
  | [] => True
  | (_, value) :: members => value.Distinct ∧ DistinctMembers members

end

mutual

/-- The fuel that reading the value back takes. -/
def cost : Value N → Nat
  | .array items => 1 + costItems items
  | .object members => 1 + costMembers members
  | _ => 1

def costItems : List (Value N) → Nat
  | [] => 0
  | item :: items => 1 + item.cost + costItems items

def costMembers : List (Str × Value N) → Nat
  | [] => 0
  | (_, value) :: members => 1 + value.cost + costMembers members

end

end Value

/-- A number would end in front of this. -/
def Stops (s : Str) : Prop := ∀ c, s.head? = some c → isNumeral c = false

theorem stops_cons {c : Char} (h : isNumeral c = false) (s : Str) : Stops (c :: s) := by
  rintro _ ⟨⟩
  exact h

section Values

variable {numerals : Numerals N}

/-- What the text of a value starts with. -/
theorem dumps_opens (v : Value N) : ∃ c cs, dumps numerals v = c :: cs ∧
    isJsonSpace c = false ∧ c ≠ ']' ∧ c ≠ '\x7d' := by
  cases v with
  | null => exact ⟨_, _, rfl, by decide⟩
  | bool b => cases b <;> exact ⟨_, _, rfl, by decide⟩
  | number n =>
      obtain ⟨c, cs, hwrite⟩ := List.exists_cons_of_ne_nil (numerals.write_ne_nil n)
      have hc : isNumeral c = true :=
        numerals.isNumeral_write n c (by rw [hwrite]; exact List.mem_cons_self)
      refine ⟨c, cs, hwrite, ?_, ?_, ?_⟩
      · rw [Bool.eq_false_iff]
        intro hspace
        simp only [isJsonSpace, Bool.or_eq_true, decide_eq_true_eq] at hspace
        rcases hspace with ((rfl | rfl) | rfl) | rfl <;> exact absurd hc (by decide)
      · rintro rfl
        exact absurd hc (by decide)
      · rintro rfl
        exact absurd hc (by decide)
  | string s => exact ⟨_, _, rfl, by decide⟩
  | array items => exact ⟨_, _, rfl, by decide⟩
  | object members => exact ⟨_, _, rfl, by decide⟩

theorem skipSpace_cons {c : Char} (h : isJsonSpace c = false) (s : Str) :
    skipSpace (c :: s) = c :: s := by
  unfold skipSpace
  rw [List.dropWhile_cons_of_neg (by rw [h]; exact Bool.false_ne_true)]

theorem skipSpace_space (s : Str) : skipSpace (' ' :: s) = skipSpace s :=
  List.dropWhile_cons_of_pos rfl

theorem skipSpace_dumps (v : Value N) (rest : Str) :
    skipSpace (dumps numerals v ++ rest) = dumps numerals v ++ rest := by
  obtain ⟨c, cs, hv, hspace, -⟩ := @dumps_opens _ numerals v
  rw [hv, List.cons_append, skipSpace_cons hspace]

/-- A number is read up to what is not part of it. -/
theorem readAtom_number (n : N) {rest : Str} (h : Stops rest) :
    readAtom numerals (numerals.write n ++ rest) = some (.number n, rest) := by
  have hchars := numerals.isNumeral_write n
  obtain ⟨c, cs, hwrite⟩ := List.exists_cons_of_ne_nil (numerals.write_ne_nil n)
  have hc : isNumeral c = true := hchars c (by rw [hwrite]; exact List.mem_cons_self)
  have hname : ∀ d ds, isNumeral d = false →
      (d :: ds : Str).isPrefixOf (numerals.write n ++ rest) = false := by
    intro d ds hd
    have hne : d ≠ c := by
      rintro rfl
      rw [hd] at hc
      cases hc
    rw [hwrite, List.cons_append, List.isPrefixOf]
    simp [hne]
  have htake : (numerals.write n ++ rest).takeWhile isNumeral = numerals.write n := by
    rw [List.takeWhile_append_of_pos hchars]
    cases rest with
    | nil => simp
    | cons d rest => simp [h d rfl]
  have hdrop : (numerals.write n ++ rest).dropWhile isNumeral = rest := by
    rw [List.dropWhile_append_of_pos hchars]
    cases rest with
    | nil => rfl
    | cons d rest => simp [h d rfl]
  have hnull : "null".toList.isPrefixOf (numerals.write n ++ rest) = false := hname 'n' _ rfl
  have htrue : "true".toList.isPrefixOf (numerals.write n ++ rest) = false := hname 't' _ rfl
  have hfalse : "false".toList.isPrefixOf (numerals.write n ++ rest) = false := hname 'f' _ rfl
  unfold readAtom
  rw [hnull, htrue, hfalse, htake, hdrop, numerals.read_write]
  rfl

/-- Setting distinct keys in an empty `dict` lists them. -/
theorem items_setAll {members : List (Str × Value N)} (h : (members.map Prod.fst).Nodup) :
    (Dict.empty.setAll members).items = members := by
  induction members using List.reverseRecOn with
  | nil => rfl
  | append_singleton members member ih =>
      rw [List.map_append, List.nodup_append] at h
      obtain ⟨hfront, -, happart⟩ := h
      have hkey : member.1 ∉ (Dict.empty.setAll members).keys := by
        unfold Dict.keys
        rw [ih hfront]
        intro hmem
        exact happart member.1 hmem member.1 List.mem_cons_self rfl
      unfold Dict.setAll at hkey ih ⊢
      rw [List.foldl_concat, Dict.set, dif_neg hkey]
      simp only [ih hfront]

theorem join_singleton (sep part : Str) : join sep [part] = part := List.intercalate_singleton

/-- The text of the items starts with that of the first one. -/
theorem skipSpace_items (item : Value N) (items : List (Value N)) (rest : Str) :
    skipSpace (join ", ".toList (dumpsItems numerals (item :: items)) ++ rest) =
      join ", ".toList (dumpsItems numerals (item :: items)) ++ rest := by
  unfold dumpsItems
  cases items with
  | nil =>
      rw [dumpsItems, join_singleton]
      exact skipSpace_dumps item rest
  | cons next items =>
      rw [join_cons _ _ (by simp [dumpsItems]), List.append_assoc, List.append_assoc]
      exact skipSpace_dumps item _

theorem items_not_closed (item : Value N) (items : List (Value N)) (rest : Str) :
    (join ", ".toList (dumpsItems numerals (item :: items)) ++ rest).head? ≠ some ']' := by
  obtain ⟨c, cs, hitem, -, hc, -⟩ := @dumps_opens _ numerals item
  have hhead : ∃ text, join ", ".toList (dumpsItems numerals (item :: items)) ++ rest =
      c :: text := by
    unfold dumpsItems
    cases items with
    | nil => exact ⟨_, by rw [dumpsItems, join_singleton, hitem, List.cons_append]⟩
    | cons next items =>
        exact ⟨_, by rw [join_cons _ _ (by simp [dumpsItems]), hitem, List.append_assoc,
          List.append_assoc, List.cons_append]⟩
  obtain ⟨text, htext⟩ := hhead
  rw [htext]
  exact fun h => hc (Option.some.inj h)

/-- The text of the members starts with a key. -/
theorem members_open (key : Str) (value : Value N) (members : List (Str × Value N)) (rest : Str) :
    ∃ text, join ", ".toList (dumpsMembers numerals ((key, value) :: members)) ++ rest =
      '\x22' :: text := by
  unfold dumpsMembers
  cases members with
  | nil => exact ⟨_, by rw [dumpsMembers, join_singleton]; rfl⟩
  | cons next members => exact ⟨_, by rw [join_cons _ _ (by simp [dumpsMembers])]; rfl⟩

mutual

/-- A value is read back from its text, in front of anything that is not part of a number. -/
theorem readValue_dumps : ∀ (v : Value N) {fuel : Nat} {rest : Str}, v.Distinct →
    v.cost ≤ fuel → Stops rest →
    readValue numerals fuel (dumps numerals v ++ rest) = some (v, rest)
  | .null, fuel + 1, rest, _, _, _ => rfl
  | .bool b, fuel + 1, rest, _, _, _ => by cases b <;> rfl
  | .number n, fuel + 1, rest, _, _, hrest => by
      have hatom := @readAtom_number _ numerals n _ hrest
      obtain ⟨c, cs, hwrite⟩ := List.exists_cons_of_ne_nil (numerals.write_ne_nil n)
      have hc : isNumeral c = true :=
        numerals.isNumeral_write n c (by rw [hwrite]; exact List.mem_cons_self)
      have hne : ∀ d, isNumeral d = false → c ≠ d := by
        rintro d hd rfl
        rw [hd] at hc
        cases hc
      unfold dumps
      rw [hwrite, List.cons_append] at hatom ⊢
      rw [readValue, if_neg (hne '\x22' (by decide)), if_neg (hne '[' (by decide)),
        if_neg (hne '\x7b' (by decide)), hatom]
  | .string s, fuel + 1, rest, _, _, _ => by
      unfold dumps quote
      rw [List.cons_append, List.cons_append, List.append_assoc, readValue, if_pos rfl,
        List.singleton_append, readString_quote]
      rfl
  | .array [], fuel + 1, rest, _, _, _ => rfl
  | .array (item :: items), fuel + 1, rest, hdistinct, hfuel, _ => by
      have hcost : Value.costItems (item :: items) ≤ fuel := by
        simp only [Value.cost] at hfuel
        omega
      have hitems := @readItems_dumps item items _ rest hdistinct hcost
      unfold dumps
      rw [List.cons_append, List.cons_append, List.append_assoc, List.singleton_append, readValue,
        if_neg (by decide), if_pos rfl, skipSpace_items, if_neg (items_not_closed item items _),
        hitems]
      rfl
  | .object [], fuel + 1, rest, _, _, _ => rfl
  | .object ((key, value) :: members), fuel + 1, rest, hdistinct, hfuel, _ => by
      have hcost : Value.costMembers ((key, value) :: members) ≤ fuel := by
        simp only [Value.cost] at hfuel
        omega
      have hmembers := @readMembers_dumps key value members _ rest hdistinct.2 hcost
      unfold dumps
      obtain ⟨text, htext⟩ := @members_open _ numerals key value members
        ('\x7d' :: rest)
      rw [htext] at hmembers
      rw [List.cons_append, List.cons_append, List.append_assoc, List.singleton_append, htext,
        readValue, if_neg (by decide), if_neg (by decide), if_pos rfl,
        skipSpace_cons (by decide), if_neg (by simp), hmembers, Option.map_some]
      simp only
      rw [items_setAll hdistinct.1]
  | .null, 0, _, _, hfuel, _ => by simp [Value.cost] at hfuel
  | .bool _, 0, _, _, hfuel, _ => by simp [Value.cost] at hfuel
  | .number _, 0, _, _, hfuel, _ => by simp [Value.cost] at hfuel
  | .string _, 0, _, _, hfuel, _ => by simp [Value.cost] at hfuel
  | .array _, 0, _, _, hfuel, _ => by simp [Value.cost] at hfuel
  | .object _, 0, _, _, hfuel, _ => by simp [Value.cost] at hfuel

/-- The items of an array from one on. -/
theorem readItems_dumps : ∀ (item : Value N) (items : List (Value N)) {fuel : Nat} {rest : Str},
    Value.DistinctItems (item :: items) → Value.costItems (item :: items) ≤ fuel →
    readItems numerals fuel
      (join ", ".toList (dumpsItems numerals (item :: items)) ++ ']' :: rest) =
        some (item :: items, rest)
  | item, [], fuel + 1, rest, hdistinct, hfuel => by
      have hitem := @readValue_dumps item fuel (']' :: rest) hdistinct.1
        (by simp only [Value.costItems] at hfuel; omega) (stops_cons (by decide) _)
      rw [dumpsItems, dumpsItems, join_singleton, readItems, hitem]
      rfl
  | item, next :: items, fuel + 1, rest, hdistinct, hfuel => by
      simp only [Value.costItems] at hfuel
      have hitems := @readItems_dumps next items fuel rest hdistinct.2
        (by simp only [Value.costItems]; omega)
      have hitem := @readValue_dumps item fuel
        (", ".toList ++ (join ", ".toList (dumpsItems numerals (next :: items)) ++
          ']' :: rest)) hdistinct.1 (by omega) (stops_cons (by decide) _)
      rw [dumpsItems, join_cons _ _ (by simp [dumpsItems]), List.append_assoc, List.append_assoc,
        readItems, hitem]
      simp only
      have hcomma : skipSpace (", ".toList ++ (join ", ".toList
          (dumpsItems numerals (next :: items)) ++ ']' :: rest)) =
            ',' :: ' ' :: (join ", ".toList (dumpsItems numerals (next :: items)) ++ ']' :: rest) :=
        rfl
      rw [hcomma]
      simp only [if_true]
      rw [skipSpace_space, skipSpace_items, hitems]
      rfl
  | _, [], 0, _, _, hfuel => by simp [Value.costItems] at hfuel
  | _, _ :: _, 0, _, _, hfuel => by simp [Value.costItems] at hfuel

/-- The members of an object from one on. -/
theorem readMembers_dumps : ∀ (key : Str) (value : Value N) (members : List (Str × Value N))
    {fuel : Nat} {rest : Str}, Value.DistinctMembers ((key, value) :: members) →
    Value.costMembers ((key, value) :: members) ≤ fuel →
    readMembers numerals fuel
      (join ", ".toList (dumpsMembers numerals ((key, value) :: members)) ++ '\x7d' :: rest) =
        some ((key, value) :: members, rest)
  | key, value, [], fuel + 1, rest, hdistinct, hfuel => by
      have hvalue := @readValue_dumps value fuel ('\x7d' :: rest) hdistinct.1
        (by simp only [Value.costMembers] at hfuel; omega) (stops_cons (by decide) _)
      have hshape : join ", ".toList (dumpsMembers numerals [(key, value)]) ++ '\x7d' :: rest =
          '\x22' :: (key.flatMap escapeChar ++ '\x22' :: ':' :: ' ' ::
            (dumps numerals value ++ '\x7d' :: rest)) := by
        simp [dumpsMembers, join_singleton, quote]
      rw [hshape, readMembers, if_neg (by decide), readString_quote]
      simp only
      rw [skipSpace_cons (by decide)]
      simp only [ne_eq, not_true_eq_false, if_false]
      rw [skipSpace_space, skipSpace_dumps, hvalue]
      rfl
  | key, value, next :: members, fuel + 1, rest, hdistinct, hfuel => by
      simp only [Value.costMembers] at hfuel
      have hmembers := @readMembers_dumps next.1 next.2 members fuel rest
        hdistinct.2 (by simp only [Value.costMembers]; omega)
      obtain ⟨text, htext⟩ := @members_open _ numerals next.1 next.2 members
        ('\x7d' :: rest)
      have hvalue := @readValue_dumps value fuel (',' :: ' ' :: '\x22' :: text)
        hdistinct.1 (by omega) (stops_cons (by decide) _)
      have hshape : join ", ".toList (dumpsMembers numerals ((key, value) :: next :: members)) ++
          '\x7d' :: rest = '\x22' :: (key.flatMap escapeChar ++ '\x22' :: ':' :: ' ' ::
            (dumps numerals value ++ ',' :: ' ' :: '\x22' :: text)) := by
        rw [← htext, dumpsMembers, join_cons _ _ (by simp [dumpsMembers])]
        simp [quote]
      rw [htext] at hmembers
      rw [hshape, readMembers, if_neg (by decide), readString_quote]
      simp only
      rw [skipSpace_cons (by decide)]
      simp only [ne_eq, not_true_eq_false, if_false]
      rw [skipSpace_space, skipSpace_dumps, hvalue]
      simp only
      rw [skipSpace_cons (by decide)]
      simp only [if_true]
      rw [skipSpace_space, skipSpace_cons (by decide), hmembers]
      rfl
  | _, _, [], 0, _, _, hfuel => by simp [Value.costMembers] at hfuel
  | _, _, _ :: _, 0, _, _, hfuel => by simp [Value.costMembers] at hfuel

end

mutual

/-- The fuel of `loads` is enough. -/
theorem cost_le_length : ∀ v : Value N, v.cost ≤ (dumps numerals v).length
  | .null => by simp [Value.cost, dumps]
  | .bool b => by cases b <;> simp [Value.cost, dumps]
  | .number n => by
      have := List.length_pos_iff.mpr (numerals.write_ne_nil n)
      simp only [Value.cost, dumps]
      omega
  | .string s => by simp [Value.cost, dumps, quote]
  | .array items => by
      have := costItems_le_length items
      simp only [Value.cost, dumps, List.length_append, List.length_cons, List.length_nil]
      omega
  | .object members => by
      have := costMembers_le_length members
      simp only [Value.cost, dumps, List.length_append, List.length_cons, List.length_nil]
      omega

theorem costItems_le_length : ∀ items : List (Value N), Value.costItems items ≤
    (join ", ".toList (dumpsItems numerals items)).length + 1
  | [] => Nat.zero_le _
  | [item] => by
      have := cost_le_length item
      simp only [Value.costItems, dumpsItems, join_singleton]
      omega
  | item :: next :: items => by
      have hitem := cost_le_length item
      have hitems := costItems_le_length (next :: items)
      rw [dumpsItems, join_cons _ _ (by simp [dumpsItems]), Value.costItems]
      simp only [List.length_append]
      have : ", ".toList.length = 2 := rfl
      omega

theorem costMembers_le_length : ∀ members : List (Str × Value N), Value.costMembers members ≤
    (join ", ".toList (dumpsMembers numerals members)).length + 1
  | [] => Nat.zero_le _
  | [(key, value)] => by
      have := cost_le_length value
      simp only [Value.costMembers, dumpsMembers, join_singleton, List.length_append]
      omega
  | (key, value) :: next :: members => by
      have hvalue := cost_le_length value
      have hmembers := costMembers_le_length (next :: members)
      rw [dumpsMembers, join_cons _ _ (by simp [dumpsMembers]), Value.costMembers]
      simp only [List.length_append]
      have : ", ".toList.length = 2 := rfl
      omega

end

/-- `json.loads(json.dumps(value)) == value`. -/
theorem loads_dumps {v : Value N} (h : v.Distinct) :
    loads numerals (dumps numerals v) = some v := by
  have hcost := @cost_le_length _ numerals v
  have hread := @readValue_dumps _ numerals v _ [] h (Nat.le_succ_of_le hcost)
    (by rintro _ ⟨⟩)
  have hspace := @skipSpace_dumps _ numerals v []
  rw [List.append_nil] at hread hspace
  unfold loads
  rw [hspace, hread]
  rfl

end Values

/-! ## What the writer uses -/

/-- Printable ASCII, and so no line break. -/
def Printable (s : Str) : Prop := ∀ c ∈ s, 32 ≤ c.toNat ∧ c.toNat ≤ 126

theorem Printable.of_all {s : Str} (h : (s.all fun c => 32 ≤ c.toNat && c.toNat ≤ 126) = true) :
    Printable s := by
  intro c hc
  have htest := List.all_eq_true.mp h c hc
  rwa [Bool.and_eq_true, decide_eq_true_eq, decide_eq_true_eq] at htest

theorem Printable.append {s t : Str} (hs : Printable s) (ht : Printable t) :
    Printable (s ++ t) := fun c hc => (List.mem_append.mp hc).elim (hs c) (ht c)

theorem Printable.cons {c : Char} {s : Str} (hc : 32 ≤ c.toNat ∧ c.toNat ≤ 126)
    (hs : Printable s) : Printable (c :: s) := List.forall_mem_cons.mpr ⟨hc, hs⟩

theorem Printable.flatMap {α : Type} {xs : List α} {f : α → Str}
    (h : ∀ x ∈ xs, Printable (f x)) : Printable (xs.flatMap f) := by
  intro c hc
  obtain ⟨x, hx, hcx⟩ := List.mem_flatMap.mp hc
  exact h x hx c hcx

theorem Printable.join {parts : List Str} (h : ∀ part ∈ parts, Printable part) :
    Printable (join ", ".toList parts) := by
  induction parts with
  | nil => exact fun c hc => nomatch hc
  | cons part parts ih =>
      obtain ⟨hpart, hparts⟩ := List.forall_mem_cons.mp h
      by_cases hnil : parts = []
      · rw [hnil, join_singleton]
        exact hpart
      · rw [join_cons _ _ hnil]
        exact (hpart.append (.of_all rfl)).append (ih hparts)

theorem printable_escapeUnit (n : Nat) : Printable (escapeUnit n) := by
  refine .cons (by decide) (.cons (by decide) ?_)
  intro c hc
  obtain ⟨d, hd, rfl⟩ := mem_hex hc
  have hall : ∀ d : Fin 16, 32 ≤ (hexDigit d).toNat ∧ (hexDigit d).toNat ≤ 126 := by decide
  exact hall ⟨d, hd⟩

theorem printable_escapeChar (c : Char) : Printable (escapeChar c) := by
  unfold escapeChar
  cases hshort : shortEscapes.lookup c with
  | some e =>
      have hall : ∀ p ∈ shortEscapes, 32 ≤ p.2.toNat ∧ p.2.toNat ≤ 126 := by decide
      exact .cons (by decide) (.cons (hall (c, e) (mem_of_lookup hshort)) (fun _ hd => nomatch hd))
  | none =>
      simp only
      split
      · next hc => exact .cons hc (fun _ hd => nomatch hd)
      · exact .flatMap fun n _ => printable_escapeUnit n

theorem printable_quote (s : Str) : Printable (quote s) :=
  .append (.cons (by decide) (.flatMap fun c _ => printable_escapeChar c))
    (.of_all rfl)

theorem isNumeral_printable {c : Char} (h : isNumeral c = true) :
    32 ≤ c.toNat ∧ c.toNat ≤ 126 := by
  unfold isNumeral at h
  rw [Bool.or_eq_true, Bool.and_eq_true, decide_eq_true_eq, decide_eq_true_eq,
    List.contains_iff_mem] at h
  rcases h with h | h
  · omega
  · have hall : Printable "-+.eE".toList := .of_all rfl
    exact hall c h

mutual

/-- Nothing but printable ASCII is written. -/
theorem printable_dumps : ∀ v : Value N, Printable (dumps numerals v)
  | .null => by unfold dumps; exact .of_all rfl
  | .bool b => by cases b <;> unfold dumps <;> exact .of_all rfl
  | .number n => fun c hc => isNumeral_printable (numerals.isNumeral_write n c hc)
  | .string s => printable_quote s
  | .array items => by
      unfold dumps
      exact .append (.cons (by decide) (.join (printable_dumpsItems items)))
        (.of_all rfl)
  | .object members => by
      unfold dumps
      exact .append (.cons (by decide) (.join (printable_dumpsMembers members)))
        (.of_all rfl)

theorem printable_dumpsItems : ∀ items : List (Value N),
    ∀ part ∈ dumpsItems numerals items, Printable part
  | [] => fun _ hpart => nomatch hpart
  | item :: items => by
      unfold dumpsItems
      exact List.forall_mem_cons.mpr ⟨printable_dumps item, printable_dumpsItems items⟩

theorem printable_dumpsMembers : ∀ members : List (Str × Value N),
    ∀ part ∈ dumpsMembers numerals members, Printable part
  | [] => fun _ hpart => nomatch hpart
  | (key, value) :: members => by
      unfold dumpsMembers
      refine List.forall_mem_cons.mpr ⟨?_, printable_dumpsMembers members⟩
      exact ((printable_quote key).append (.of_all rfl)).append
        (printable_dumps value)

end

/-! ## Natural numbers -/

/-- The value of decimal digits, without a zero in front. -/
def readNat (s : Str) : Option Nat :=
  if s = [] ∨ ¬ s.all Char.isDigit ∨ (1 < s.length ∧ s.head? = some '0') then none
  else some (Nat.ofDigitChars 10 s 0)

/-- A number above 0 does not start with a zero. -/
theorem head_toDigits {n : Nat} (h : 0 < n) : (Nat.toDigits 10 n).head? ≠ some '0' := by
  induction n using Nat.strong_induction_on with
  | _ n ih =>
      by_cases hsmall : n < 10
      · rw [Nat.toDigits_of_lt_base hsmall]
        have hall : ∀ k : Fin 10, 0 < k.val → [k.val.digitChar].head? ≠ some '0' := by decide
        exact hall ⟨n, hsmall⟩ h
      · rw [Nat.toDigits_of_base_le (by decide) (by omega), List.head?_append_of_ne_nil _
          Nat.toDigits_ne_nil]
        exact ih (n / 10) (by omega) (by omega)

theorem readNat_toString (n : Nat) : readNat (toString n).toList = some n := by
  unfold readNat
  have hdigits : (toString n).toList.all Char.isDigit = true :=
    List.all_eq_true.mpr fun c hc => isDigit_of_mem_toString hc
  rw [if_neg, toString_toList, Nat.ofDigitChars_ten_toDigits]
  rintro (hnil | hall | ⟨hlength, hhead⟩)
  · rw [toString_toList] at hnil
    exact Nat.toDigits_ne_nil hnil
  · exact hall hdigits
  · rw [toString_toList] at hlength hhead
    cases n with
    | zero => exact absurd hlength (by decide)
    | succ n => exact head_toDigits (Nat.succ_pos n) hhead

/-- `int`s that are not negative. -/
def Numerals.nat : Numerals Nat where
  write n := (toString n).toList
  read := readNat
  read_write := readNat_toString
  write_ne_nil n := by
    rw [toString_toList]
    exact Nat.toDigits_ne_nil
  isNumeral_write n c hc := by
    have hdigit := isDigit_of_mem_toString hc
    unfold isNumeral
    rw [Bool.or_eq_true, Bool.and_eq_true, decide_eq_true_eq, decide_eq_true_eq]
    exact .inl (Char.isDigit_iff_toNat.mp hdigit)

example : dumps Numerals.nat
    (.object [("a".toList, .array [.number 10, .string "\u00e9\n".toList])]) =
    "\x7b\"a\": [10, \"\\u00e9\\n\"]\x7d".toList := by decide

end JsonText
