import Mathlib.Computability.Language
import Mathlib.Data.List.Infix
import Eka.Lib.PyString

/-!
# Regular expressions

Patterns of `re` over classes of characters, matched the way `re` matches them: alternatives
from left to right, repetitions greedily, with backtracking, and the first way through wins.
Repetitions are of one class. What a pattern matches somewhere is a matter of its language
alone; the order decides what a substitution removes.
-/

namespace Py

/-- `[...]` and `[^...]`. -/
inductive CharClass where
  | oneOf (chars : List Char)
  | noneOf (chars : List Char)

namespace CharClass

def test : CharClass → Char → Bool
  | oneOf chars, c => chars.contains c
  | noneOf chars, c => !chars.contains c

/-- The property holds of every character of the class, which is listed. -/
def all (p : Char → Bool) : CharClass → Bool
  | oneOf chars => chars.all p
  | noneOf _ => false

theorem of_all {p : Char → Bool} {k : CharClass} (h : k.all p = true) {c : Char}
    (hc : k.test c = true) : p c = true := by
  cases k with
  | oneOf chars => exact List.all_eq_true.mp h c (List.contains_iff_mem.mp hc)
  | noneOf chars => cases h

end CharClass

/-- The characters of `\s`. -/
def spaces : List Char :=
  [9, 10, 11, 12, 13, 28, 29, 30, 31, 32, 133, 160, 5760, 8192, 8193, 8194, 8195, 8196, 8197,
    8198, 8199, 8200, 8201, 8202, 8232, 8233, 8239, 8287, 12288].map Char.ofNat

theorem mem_spaces {c : Char} : c ∈ spaces ↔ isSpace c = true := by
  unfold spaces
  rw [List.mem_map]
  constructor
  · rintro ⟨n, hn, rfl⟩
    revert n
    decide
  · intro h
    refine ⟨c.toNat, ?_, Char.ofNat_toNat c⟩
    simp only [isSpace, Bool.or_eq_true, Bool.and_eq_true, decide_eq_true_eq, beq_iff_eq] at h
    simp only [List.mem_cons, List.not_mem_nil, or_false]
    omega

theorem test_spaces {c : Char} : (CharClass.oneOf spaces).test c = true ↔ isSpace c = true :=
  List.contains_iff_mem.trans mem_spaces

/-- A pattern. -/
inductive Regex where
  | empty
  | cls (k : CharClass)
  | seq (a b : Regex)
  | alt (a b : Regex)
  | many (k : CharClass)

namespace Regex

/-- `(?:r)?`. -/
def opt (r : Regex) : Regex := alt r empty

/-- `[...]+`. -/
def many1 (k : CharClass) : Regex := seq (cls k) (many k)

/-- Patterns one after the other. -/
def concat (rs : List Regex) : Regex := rs.foldr seq empty

/-- `r|...`. -/
def anyOf (r : Regex) (rs : List Regex) : Regex := rs.foldl alt r

/-- A literal under `re.IGNORECASE`. Besides the two cases of a letter of ASCII, `i` matches `İ`
    and `ı`, `k` the Kelvin sign and `s` the long `s`. -/
def ignoreCase (c : Char) : CharClass :=
  .oneOf (if c = 'i' then ['i', 'I', Char.ofNat 0x130, Char.ofNat 0x131]
    else if c = 'k' then ['k', 'K', Char.ofNat 0x212a]
    else if c = 's' then ['s', 'S', Char.ofNat 0x17f]
    else if 97 ≤ c.toNat ∧ c.toNat ≤ 122 then [c, Char.ofNat (c.toNat - 32)]
    else [c])

/-- Literals one after the other under `re.IGNORECASE`. -/
def word (s : String) : Regex := concat (s.toList.map fun c => cls (ignoreCase c))

/-- What a greedy repetition may leave, the shortest rest first. -/
def runMany (k : CharClass) : Str → List Str
  | [] => [[]]
  | c :: cs => if k.test c then runMany k cs ++ [c :: cs] else [c :: cs]

/-- What a match at the start of a string may leave of it, in the order in which the ways are
    tried. -/
def run : Regex → Str → List Str
  | empty, s => [s]
  | cls _, [] => []
  | cls k, c :: cs => if k.test c then [cs] else []
  | seq a b, s => (a.run s).flatMap b.run
  | alt a b, s => a.run s ++ b.run s
  | many k, s => runMany k s

/-- `re.search(r, s) is not None`. -/
def search (r : Regex) (s : Str) : Bool := s.tails.any fun t => !(r.run t).isEmpty

/-- The parts of a string between the matches, from left to right, with `k` characters of the
    last match still to be skipped. -/
def pieces (r : Regex) : Nat → Str → List Str
  | _, [] => [[]]
  | k + 1, _ :: cs => r.pieces k cs
  | 0, c :: cs =>
      match r.run (c :: cs) with
      | [] => consHead c (r.pieces 0 cs)
      | rest :: _ => [] :: r.pieces (cs.length - rest.length) cs

/-- `re.subn(r, repl, s)`, for a pattern that does not match the empty string and a text `repl`
    without escapes. -/
def subn (r : Regex) (repl s : Str) : Str × Nat :=
  (join repl (r.pieces 0 s), (r.pieces 0 s).length - 1)

/-! ## The language of a pattern -/

def denote : Regex → Language Char
  | empty => 1
  | cls k => {w | ∃ c, k.test c = true ∧ w = [c]}
  | seq a b => a.denote * b.denote
  | alt a b => a.denote + b.denote
  | many k => {w | ∀ c ∈ w, k.test c = true}

theorem mem_runMany {k : CharClass} {s rest : Str} :
    rest ∈ runMany k s ↔ ∃ w, (∀ c ∈ w, k.test c = true) ∧ w ++ rest = s := by
  induction s with
  | nil =>
      rw [runMany, List.mem_singleton]
      constructor
      · rintro rfl
        exact ⟨[], by simp, rfl⟩
      · rintro ⟨w, -, hw⟩
        exact (List.append_eq_nil_iff.mp hw).2
  | cons c cs ih =>
      have hself : ∃ w, (∀ d ∈ w, k.test d = true) ∧ w ++ (c :: cs) = c :: cs := ⟨[], by simp, rfl⟩
      unfold runMany
      split
      · next hc =>
          rw [List.mem_append, List.mem_singleton, ih]
          constructor
          · rintro (⟨w, hw, rfl⟩ | rfl)
            · refine ⟨c :: w, ?_, rfl⟩
              intro d hd
              rcases List.mem_cons.mp hd with rfl | hd
              · exact hc
              · exact hw d hd
            · exact hself
          · rintro ⟨w, hw, heq⟩
            cases w with
            | nil => exact .inr heq
            | cons d w =>
                obtain ⟨-, heq⟩ := List.cons.inj heq
                exact .inl ⟨w, fun e he => hw e (List.mem_cons_of_mem _ he), heq⟩
      · next hc =>
          rw [List.mem_singleton]
          constructor
          · rintro rfl
            exact hself
          · rintro ⟨w, hw, heq⟩
            cases w with
            | nil => exact heq
            | cons d w =>
                obtain ⟨rfl, -⟩ := List.cons.inj heq
                exact absurd (hw d List.mem_cons_self) hc

/-- A match leaves what follows a word of the language. -/
theorem mem_run {r : Regex} {s rest : Str} :
    rest ∈ r.run s ↔ ∃ w ∈ r.denote, w ++ rest = s := by
  induction r generalizing s rest with
  | empty =>
      rw [run, List.mem_singleton]
      constructor
      · rintro rfl
        exact ⟨[], rfl, rfl⟩
      · rintro ⟨w, rfl, rfl⟩
        rfl
  | cls k =>
      cases s with
      | nil =>
          refine iff_of_false (List.not_mem_nil) ?_
          rintro ⟨w, ⟨c, -, rfl⟩, hw⟩
          cases hw
      | cons c cs =>
          rw [run]
          split
          · next hc =>
              rw [List.mem_singleton]
              constructor
              · rintro rfl
                exact ⟨[c], ⟨c, hc, rfl⟩, rfl⟩
              · rintro ⟨w, ⟨d, -, rfl⟩, hw⟩
                exact (List.cons.inj hw).2
          · next hc =>
              refine iff_of_false (List.not_mem_nil) ?_
              rintro ⟨w, ⟨d, hd, rfl⟩, hw⟩
              obtain ⟨rfl, -⟩ := List.cons.inj hw
              exact hc hd
  | seq a b iha ihb =>
      rw [run, List.mem_flatMap]
      constructor
      · rintro ⟨t, ht, hrest⟩
        obtain ⟨u, hu, rfl⟩ := iha.mp ht
        obtain ⟨v, hv, rfl⟩ := ihb.mp hrest
        exact ⟨u ++ v, Language.append_mem_mul hu hv, List.append_assoc ..⟩
      · rintro ⟨w, hw, rfl⟩
        obtain ⟨u, hu, v, hv, rfl⟩ := Language.mem_mul.mp hw
        exact ⟨v ++ rest, iha.mpr ⟨u, hu, (List.append_assoc ..).symm⟩, ihb.mpr ⟨v, hv, rfl⟩⟩
  | alt a b iha ihb =>
      rw [run, List.mem_append, iha, ihb]
      constructor
      · rintro (⟨w, hw, heq⟩ | ⟨w, hw, heq⟩)
        · exact ⟨w, .inl hw, heq⟩
        · exact ⟨w, .inr hw, heq⟩
      · rintro ⟨w, hw | hw, heq⟩
        · exact .inl ⟨w, hw, heq⟩
        · exact .inr ⟨w, hw, heq⟩
  | many k => exact mem_runMany

/-- Nothing in the string matches. -/
def Free (r : Regex) (s : Str) : Prop := ∀ w ∈ r.denote, ¬ w <:+: s

theorem run_eq_nil {r : Regex} {s : Str} : r.run s = [] ↔ ∀ w ∈ r.denote, ¬ w <+: s := by
  rw [List.eq_nil_iff_forall_not_mem]
  constructor
  · rintro h w hw ⟨rest, hrest⟩
    exact h rest (mem_run.mpr ⟨w, hw, hrest⟩)
  · intro h rest hrest
    obtain ⟨w, hw, heq⟩ := mem_run.mp hrest
    exact h w hw ⟨rest, heq⟩

/-- Searching finds nothing exactly when no part of the string is in the language. -/
theorem search_eq_false {r : Regex} {s : Str} : r.search s = false ↔ r.Free s := by
  unfold search
  rw [List.any_eq_false]
  constructor
  · intro h w hw hin
    obtain ⟨t, hwt, hts⟩ := List.infix_iff_prefix_suffix.mp hin
    have hnil := h t ((List.mem_tails _ _).mpr hts)
    rw [Bool.not_eq_true, Bool.not_eq_false', List.isEmpty_iff] at hnil
    exact run_eq_nil.mp hnil w hw hwt
  · intro h t ht
    rw [Bool.not_eq_true, Bool.not_eq_false', List.isEmpty_iff]
    refine run_eq_nil.mpr fun w hw hwt => h w hw ?_
    exact List.infix_iff_prefix_suffix.mpr ⟨t, hwt, (List.mem_tails _ _).mp ht⟩

/-! ## What the words of a pattern look like -/

/-- The empty string matches. -/
def nullable : Regex → Bool
  | empty => true
  | cls _ => false
  | seq a b => a.nullable && b.nullable
  | alt a b => a.nullable || b.nullable
  | many _ => true

/-- No word has the character `c`. -/
def avoids (c : Char) : Regex → Bool
  | empty => true
  | cls k => !k.test c
  | seq a b => a.avoids c && b.avoids c
  | alt a b => a.avoids c && b.avoids c
  | many k => !k.test c

/-- Every word that has a first character has one with the property. -/
def starts (p : Char → Bool) : Regex → Bool
  | empty => true
  | cls k => k.all p
  | seq a b => a.starts p && (!a.nullable || b.starts p)
  | alt a b => a.starts p && b.starts p
  | many k => k.all p

/-- Every word that has a last character has one with the property. -/
def ends (p : Char → Bool) : Regex → Bool
  | empty => true
  | cls k => k.all p
  | seq a b => b.ends p && (!b.nullable || a.ends p)
  | alt a b => a.ends p && b.ends p
  | many k => k.all p

theorem nullable_of_nil_mem {r : Regex} (h : [] ∈ r.denote) : r.nullable = true := by
  induction r with
  | empty => rfl
  | cls k =>
      obtain ⟨c, -, hc⟩ := h
      cases hc
  | seq a b iha ihb =>
      obtain ⟨u, hu, v, hv, huv⟩ := Language.mem_mul.mp h
      obtain ⟨rfl, rfl⟩ := List.append_eq_nil_iff.mp huv
      simp [nullable, iha hu, ihb hv]
  | alt a b iha ihb =>
      rcases h with h | h
      · simp [nullable, iha h]
      · simp [nullable, ihb h]
  | many k => rfl

theorem notMem_of_avoids {r : Regex} {c : Char} (h : r.avoids c = true) {w : Str}
    (hw : w ∈ r.denote) : c ∉ w := by
  induction r generalizing w with
  | empty =>
      cases hw
      exact List.not_mem_nil
  | cls k =>
      obtain ⟨d, hd, rfl⟩ := hw
      intro hc
      rw [List.mem_singleton.mp hc] at h
      simp [avoids, hd] at h
  | seq a b iha ihb =>
      obtain ⟨ha, hb⟩ := Bool.and_eq_true_iff.mp h
      obtain ⟨u, hu, v, hv, rfl⟩ := Language.mem_mul.mp hw
      intro hc
      rcases List.mem_append.mp hc with hc | hc
      · exact iha ha hu hc
      · exact ihb hb hv hc
  | alt a b iha ihb =>
      obtain ⟨ha, hb⟩ := Bool.and_eq_true_iff.mp h
      rcases hw with hw | hw
      · exact iha ha hw
      · exact ihb hb hw
  | many k =>
      intro hc
      simp [avoids, hw c hc] at h

theorem of_starts {p : Char → Bool} {r : Regex} (h : r.starts p = true) {c : Char} {t : Str}
    (hw : c :: t ∈ r.denote) : p c = true := by
  induction r generalizing t with
  | empty => cases hw
  | cls k =>
      obtain ⟨d, hd, heq⟩ := hw
      cases heq
      exact CharClass.of_all h hd
  | seq a b iha ihb =>
      obtain ⟨ha, hb⟩ := Bool.and_eq_true_iff.mp h
      obtain ⟨u, hu, v, hv, huv⟩ := Language.mem_mul.mp hw
      cases u with
      | nil =>
          rw [nullable_of_nil_mem hu] at hb
          rw [List.nil_append] at huv
          rw [huv] at hv
          exact ihb hb hv
      | cons d u =>
          obtain ⟨rfl, -⟩ := List.cons.inj huv
          exact iha ha hu
  | alt a b iha ihb =>
      obtain ⟨ha, hb⟩ := Bool.and_eq_true_iff.mp h
      rcases hw with hw | hw
      · exact iha ha hw
      · exact ihb hb hw
  | many k => exact CharClass.of_all h (hw c List.mem_cons_self)

theorem of_ends {p : Char → Bool} {r : Regex} (h : r.ends p = true) {t : Str} {c : Char}
    (hw : t ++ [c] ∈ r.denote) : p c = true := by
  induction r generalizing t with
  | empty => exact absurd hw (List.append_ne_nil_of_right_ne_nil _ (List.cons_ne_nil _ _))
  | cls k =>
      obtain ⟨d, hd, heq⟩ := hw
      obtain ⟨-, heq⟩ := List.append_inj' (show t ++ [c] = [] ++ [d] from heq) rfl
      cases heq
      exact CharClass.of_all h hd
  | seq a b iha ihb =>
      obtain ⟨hb, ha⟩ := Bool.and_eq_true_iff.mp h
      obtain ⟨u, hu, v, hv, huv⟩ := Language.mem_mul.mp hw
      cases v using List.reverseRecOn with
      | nil =>
          rw [nullable_of_nil_mem hv] at ha
          rw [List.append_nil] at huv
          rw [huv] at hu
          exact iha ha hu
      | append_singleton v d _ =>
          rw [← List.append_assoc] at huv
          obtain ⟨-, heq⟩ := List.append_inj' huv rfl
          cases heq
          exact ihb hb hv
  | alt a b iha ihb =>
      obtain ⟨ha, hb⟩ := Bool.and_eq_true_iff.mp h
      rcases hw with hw | hw
      · exact iha ha hw
      · exact ihb hb hw
  | many k => exact CharClass.of_all h (hw c (by simp))

/-! ## Parts of a string -/

theorem Free.part {r : Regex} {s t : Str} (h : r.Free t) (hst : s <:+: t) : r.Free s :=
  fun w hw hin => h w hw (hin.trans hst)

/-- A string without `c` lies on one side of it. -/
theorem infix_append_cons {c : Char} {w : Str} (hc : c ∉ w) (a b : Str) :
    w <:+: a ++ c :: b ↔ w <:+: a ∨ w <:+: b := by
  constructor
  · intro h
    rcases List.infix_append_iff.mp h with h | h | ⟨u, v, rfl, hu, hv⟩
    · exact .inl h
    · rcases List.infix_cons_iff.mp h with h | h
      · cases w with
        | nil => exact .inl List.nil_infix
        | cons d w =>
            obtain ⟨rfl, -⟩ := List.cons_prefix_cons.mp h
            exact absurd List.mem_cons_self hc
      · exact .inr h
    · cases v with
      | nil =>
          rw [List.append_nil]
          exact .inl hu.isInfix
      | cons d v =>
          obtain ⟨rfl, -⟩ := List.cons_prefix_cons.mp hv
          exact absurd (by simp) hc
  · rintro (h | h)
    · exact h.trans (List.infix_append [] a (c :: b))
    · exact h.trans ((List.suffix_cons c b).isInfix.trans (List.suffix_append a _).isInfix)

/-- A character that no word has splits the search. -/
theorem free_append_cons {r : Regex} {c : Char} (hc : r.avoids c = true) (a b : Str) :
    r.Free (a ++ c :: b) ↔ r.Free a ∧ r.Free b := by
  unfold Free
  constructor
  · intro h
    refine ⟨fun w hw hin => h w hw ?_, fun w hw hin => h w hw ?_⟩
    · exact (infix_append_cons (notMem_of_avoids hc hw) a b).mpr (.inl hin)
    · exact (infix_append_cons (notMem_of_avoids hc hw) a b).mpr (.inr hin)
  · rintro ⟨ha, hb⟩ w hw hin
    rcases (infix_append_cons (notMem_of_avoids hc hw) a b).mp hin with hin | hin
    · exact ha w hw hin
    · exact hb w hw hin

/-- In front of a string, a character that starts no word makes no difference. -/
theorem free_cons {r : Regex} {p : Char → Bool} (hstarts : r.starts p = true) {c : Char}
    (hc : p c = false) (s : Str) (hnull : r.nullable = false) : r.Free (c :: s) ↔ r.Free s := by
  refine ⟨fun h => h.part (List.suffix_cons c s).isInfix, fun h w hw hin => ?_⟩
  rcases List.infix_cons_iff.mp hin with hpre | hin
  · cases w with
    | nil =>
        rw [nullable_of_nil_mem hw] at hnull
        cases hnull
    | cons d w =>
        obtain ⟨rfl, -⟩ := List.cons_prefix_cons.mp hpre
        rw [of_starts hstarts hw] at hc
        cases hc
  · exact h w hw hin

theorem free_nil {r : Regex} (hnull : r.nullable = false) : r.Free [] := by
  intro w hw hin
  rw [List.infix_nil.mp hin] at hw
  rw [nullable_of_nil_mem hw] at hnull
  cases hnull

/-- In front of a string, characters that start no word make no difference. -/
theorem free_append_of_starts {r : Regex} {p : Char → Bool} (hstarts : r.starts p = true)
    (hnull : r.nullable = false) {front : Str} (hfront : ∀ c ∈ front, p c = false) (s : Str) :
    r.Free (front ++ s) ↔ r.Free s := by
  induction front with
  | nil => rfl
  | cons c front ih =>
      rw [List.cons_append, free_cons hstarts (hfront c List.mem_cons_self) _ hnull]
      exact ih fun d hd => hfront d (List.mem_cons_of_mem _ hd)

/-- Behind a string, a character that ends no word makes no difference. -/
theorem free_concat {r : Regex} {p : Char → Bool} (hends : r.ends p = true) {c : Char}
    (hc : p c = false) (s : Str) (hnull : r.nullable = false) : r.Free (s ++ [c]) ↔ r.Free s := by
  refine ⟨fun h => h.part (List.prefix_append s [c]).isInfix, fun h w hw hin => ?_⟩
  rcases List.infix_concat_iff.mp hin with hsuf | hin
  · rcases List.suffix_concat_iff.mp hsuf with rfl | ⟨t, rfl, -⟩
    · rw [nullable_of_nil_mem hw] at hnull
      cases hnull
    · rw [of_ends hends hw] at hc
      cases hc
  · exact h w hw hin

/-- A string ends with a word. -/
def EndsWith (r : Regex) (s : Str) : Prop := ∃ w ∈ r.denote, w <:+ s

theorem mem_many1 {k : CharClass} {w : Str} :
    w ∈ (many1 k).denote ↔ w ≠ [] ∧ ∀ c ∈ w, k.test c = true := by
  constructor
  · intro h
    obtain ⟨u, ⟨c, hc, rfl⟩, v, hv, rfl⟩ := Language.mem_mul.mp h
    refine ⟨List.cons_ne_nil _ _, ?_⟩
    intro d hd
    rcases List.mem_cons.mp hd with rfl | hd
    · exact hc
    · exact hv d hd
  · rintro ⟨hne, hall⟩
    cases w with
    | nil => exact absurd rfl hne
    | cons c w =>
        have hc : [c] ∈ (cls k).denote := ⟨c, hall c List.mem_cons_self, rfl⟩
        have hw : w ∈ (many k).denote := fun d hd => hall d (List.mem_cons_of_mem _ hd)
        exact Language.append_mem_mul hc hw

/-- A character of a repetition at the end of a pattern completes a match where what comes
    before the repetition ends the string. -/
theorem free_seq_many1_concat {r : Regex} {k : CharClass} {s : Str}
    (hs : (seq r (many1 k)).Free s) {c : Char} (hc : k.test c = true) :
    (seq r (many1 k)).Free (s ++ [c]) ↔ ¬ r.EndsWith s := by
  constructor
  · rintro h ⟨w, hw, front, rfl⟩
    have hlast : [c] ∈ (many1 k).denote := mem_many1.mpr ⟨List.cons_ne_nil _ _, by simpa using hc⟩
    refine h (w ++ [c]) (Language.append_mem_mul hw hlast) ?_
    rw [List.append_assoc]
    exact (List.suffix_append _ _).isInfix
  · intro hopen w hw hin
    obtain ⟨u, hu, v, hv, rfl⟩ := Language.mem_mul.mp hw
    obtain ⟨hne, hall⟩ := mem_many1.mp hv
    cases v using List.reverseRecOn with
    | nil => exact hne rfl
    | append_singleton v d _ =>
        rcases List.infix_concat_iff.mp hin with hsuf | hin
        · -- the last repetition is `c`, and the ones before it match in `s` already
          rcases List.suffix_concat_iff.mp hsuf with hnil | ⟨t, ht, hts⟩
          · exact absurd (List.append_eq_nil_iff.mp hnil).2 hne
          · rw [← List.append_assoc] at ht
            obtain ⟨rfl, -⟩ := List.append_inj' ht rfl
            by_cases hv : v = []
            · rw [hv, List.append_nil] at hts
              exact hopen ⟨u, hu, hts⟩
            · have hmany : v ∈ (many1 k).denote :=
                mem_many1.mpr ⟨hv, fun e he => hall e (List.mem_append_left _ he)⟩
              exact hs _ (Language.append_mem_mul hu hmany) hts.isInfix
        · exact hs _ hw hin

/-! ## Substitution -/

section Pieces

variable {r : Regex}

theorem pieces_ne_nil (r : Regex) (k : Nat) (s : Str) : r.pieces k s ≠ [] := by
  induction s generalizing k with
  | nil => cases k <;> exact List.cons_ne_nil _ _
  | cons c cs ih =>
      cases k with
      | succ k => exact ih k
      | zero =>
          unfold pieces
          split
          · unfold consHead
            split <;> simp
          · simp

/-- The parts come from the string, the first one from its start and the last one from its
    end. -/
theorem exists_pieces (r : Regex) (k : Nat) (s : Str) :
    ∃ first rest, r.pieces k s = first :: rest ∧ first <+: s.drop k ∧
      (∀ part ∈ rest, part <:+: s.drop k) ∧ (first :: rest).getLast (by simp) <:+ s.drop k ∧
        (rest = [] → first = s.drop k) := by
  induction s generalizing k with
  | nil =>
      refine ⟨[], [], ?_, List.nil_prefix, by simp, List.nil_suffix, by simp⟩
      cases k <;> rfl
  | cons c cs ih =>
      cases k with
      | succ k => exact ih k
      | zero =>
          unfold pieces
          split
          · obtain ⟨first, rest, hpieces, hfirst, hrest, hlast, hwhole⟩ := ih 0
            rw [hpieces]
            refine ⟨c :: first, rest, rfl, List.cons_prefix_cons.mpr ⟨rfl, hfirst⟩, ?_, ?_, ?_⟩
            · exact fun part hpart => (hrest part hpart).trans (List.suffix_cons c cs).isInfix
            · cases rest with
              | nil =>
                  rw [hwhole rfl]
                  exact List.suffix_refl _
              | cons part rest => exact hlast.trans (List.suffix_cons c cs)
            · intro hnil
              rw [hwhole hnil]
              rfl
          · next rest' _ _ =>
              obtain ⟨first, rest, hpieces, hfirst, hrest, hlast, -⟩ := ih (cs.length - rest'.length)
              have hsuffix : cs.drop (cs.length - rest'.length) <:+ c :: cs :=
                (List.drop_suffix _ _).trans (List.suffix_cons c cs)
              rw [hpieces]
              refine ⟨[], first :: rest, rfl, List.nil_prefix, ?_, ?_, by simp⟩
              · intro part hpart
                rcases List.mem_cons.mp hpart with rfl | hpart
                · exact hfirst.isInfix.trans hsuffix.isInfix
                · exact (hrest part hpart).trans hsuffix.isInfix
              · rw [List.getLast_cons (List.cons_ne_nil _ _)]
                exact hlast.trans hsuffix

theorem infix_of_mem_pieces {part s : Str} (h : part ∈ r.pieces 0 s) : part <:+: s := by
  obtain ⟨first, rest, hpieces, hfirst, hrest, -, -⟩ := exists_pieces r 0 s
  rw [hpieces] at h
  rcases List.mem_cons.mp h with rfl | h
  · exact hfirst.isInfix
  · exact hrest part h

/-- No part has a match. -/
theorem free_of_mem_pieces (hnull : r.nullable = false) {k : Nat} {s part : Str}
    (h : part ∈ r.pieces k s) : r.Free part := by
  have hnil : r.Free [] := free_nil hnull
  induction s generalizing k part with
  | nil =>
      have hpieces : r.pieces k [] = [[]] := by cases k <;> rfl
      rw [hpieces, List.mem_singleton] at h
      rw [h]
      exact hnil
  | cons c cs ih =>
      cases k with
      | succ k => exact ih h
      | zero =>
          unfold pieces at h
          split at h
          · next hrun =>
              obtain ⟨first, rest, hpieces, hfirst, -⟩ := exists_pieces r 0 cs
              rw [hpieces] at h
              rcases List.mem_cons.mp h with rfl | h
              · -- a match in the first part starts at `c` or is in the part that follows it
                have hpart : r.Free first := ih (by rw [hpieces]; exact List.mem_cons_self)
                intro w hw hin
                rcases List.infix_cons_iff.mp hin with hpre | hin
                · exact run_eq_nil.mp hrun w hw
                    (hpre.trans (List.cons_prefix_cons.mpr ⟨rfl, hfirst⟩))
                · exact hpart w hw hin
              · exact ih (by rw [hpieces]; exact List.mem_cons_of_mem _ h)
          · rcases List.mem_cons.mp h with rfl | h
            · exact hnil
            · exact ih h

theorem pieces_of_free {s : Str} (h : r.Free s) : r.pieces 0 s = [s] := by
  induction s with
  | nil => rfl
  | cons c cs ih =>
      have hrun : r.run (c :: cs) = [] :=
        run_eq_nil.mpr fun w hw hpre => h w hw hpre.isInfix
      unfold pieces
      rw [hrun]
      simp only
      rw [ih (h.part (List.suffix_cons c cs).isInfix)]
      rfl

theorem subn_of_free {repl s : Str} (h : r.Free s) : r.subn repl s = (s, 0) := by
  unfold subn
  rw [pieces_of_free h]
  exact Prod.ext (List.append_nil s) rfl

/-- Nothing is replaced exactly where nothing matches. -/
theorem subn_eq_zero (hnull : r.nullable = false) {repl s : Str} :
    (r.subn repl s).2 = 0 ↔ r.Free s := by
  constructor
  · intro h
    obtain ⟨first, rest, hpieces, -, -, -, hwhole⟩ := exists_pieces r 0 s
    unfold subn at h
    rw [hpieces, List.length_cons, Nat.add_sub_cancel, List.length_eq_zero_iff] at h
    have hmem : first ∈ r.pieces 0 s := by
      rw [hpieces]
      exact List.mem_cons_self
    have hfree := free_of_mem_pieces hnull hmem
    rw [hwhole h] at hfree
    exact hfree
  · intro h
    rw [subn_of_free h]

/-- Removing the words loses no character that they do not have. -/
theorem count_join_pieces (hnull : r.nullable = false) {c : Char} (hc : r.avoids c = true)
    (sep : Str) (k : Nat) (s : Str) :
    (join sep (r.pieces k s)).count c =
      (s.drop k).count c + ((r.pieces k s).length - 1) * sep.count c := by
  induction s generalizing k with
  | nil => cases k <;> simp [pieces, join]
  | cons x cs ih =>
      cases k with
      | succ k => exact ih k
      | zero =>
          unfold pieces
          split
          · have hlen : (consHead x (r.pieces 0 cs)).length = (r.pieces 0 cs).length :=
              length_consHead x (pieces_ne_nil r 0 cs)
            have hih := ih 0
            rw [join_consHead sep x (pieces_ne_nil r 0 cs), hlen, List.count_cons, hih,
              List.drop_zero, List.drop_zero, List.count_cons]
            omega
          · next rest _ hrun =>
              -- the word that goes begins with `x`, and what follows it is `rest`
              have hmem : rest ∈ r.run (x :: cs) := by rw [hrun]; exact List.mem_cons_self
              obtain ⟨w, hw, hsplit⟩ := mem_run.mp hmem
              have hnone : w.count c = 0 := List.count_eq_zero.mpr (notMem_of_avoids hc hw)
              cases w with
              | nil =>
                  rw [nullable_of_nil_mem hw] at hnull
                  cases hnull
              | cons y w =>
                  have hcs : w ++ rest = cs := (List.cons.inj hsplit).2
                  have hdrop : cs.drop (cs.length - rest.length) = rest := by
                    rw [← hcs, List.length_append, Nat.add_sub_cancel, List.drop_left]
                  have hcount : (x :: cs).count c = rest.count c := by
                    rw [← hsplit, List.count_append, hnone, Nat.zero_add]
                  have hpos : (r.pieces (cs.length - rest.length) cs).length ≠ 0 :=
                    fun h => pieces_ne_nil r _ cs (List.length_eq_zero_iff.mp h)
                  obtain ⟨n, hn⟩ := Nat.exists_eq_succ_of_ne_zero hpos
                  have hih := ih (cs.length - rest.length)
                  rw [hdrop, hn, Nat.succ_sub_one] at hih
                  rw [join_cons sep [] (pieces_ne_nil r _ cs), List.nil_append,
                    List.count_append, hih, List.drop_zero, hcount, List.length_cons, hn,
                    Nat.add_sub_cancel, Nat.succ_mul]
                  omega

/-- What stands for a word shows in the result. -/
theorem count_subn (hnull : r.nullable = false) {c : Char} (hc : r.avoids c = true)
    (repl s : Str) :
    (r.subn repl s).1.count c = s.count c + (r.subn repl s).2 * repl.count c :=
  count_join_pieces hnull hc repl 0 s

/-- A text in brackets keeps the parts that it joins apart. -/
theorem free_join {sep mid : Str} {a b : Char} (hsep : sep = a :: mid ++ [b])
    (ha : r.avoids a = true) (hb : r.avoids b = true) (hmid : r.Free mid) {parts : List Str}
    (hparts : parts ≠ []) (h : ∀ part ∈ parts, r.Free part) : r.Free (join sep parts) := by
  induction parts with
  | nil => exact absurd rfl hparts
  | cons part parts ih =>
      have hpart := h part List.mem_cons_self
      by_cases hnil : parts = []
      · rw [hnil]
        show r.Free (part ++ [])
        rw [List.append_nil]
        exact hpart
      · have hrest := ih hnil fun other hother => h other (List.mem_cons_of_mem _ hother)
        have hshape : part ++ sep ++ join sep parts =
            part ++ a :: (mid ++ b :: join sep parts) := by
          rw [hsep]
          simp
        rw [join_cons sep part hnil, hshape]
        exact (free_append_cons ha _ _).mpr
          ⟨hpart, (free_append_cons hb _ _).mpr ⟨hmid, hrest⟩⟩

end Pieces

end Regex

end Py
