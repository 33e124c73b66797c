import Eka.Lib.PyCase

/-!
# Whitespace layout

`re.sub(r"\s+", " ", s)`: every run of whitespace becomes one space. Words that stand one after
the other in the collapsed text are the words that stand so in the text, whatever whitespace is
between them.
-/

namespace Py

/-- The rest of a collapsed text, behind whitespace or not. -/
def collapseFrom : Bool → Str → Str
  | _, [] => []
  | true, c :: cs => if isSpace c then collapseFrom true cs else c :: collapseFrom false cs
  | false, c :: cs => if isSpace c then ' ' :: collapseFrom true cs else c :: collapseFrom false cs

/-- `re.sub(r"\s+", " ", s)`. -/
def collapse (s : Str) : Str := collapseFrom false s

example : collapse " a\n\n b".toList = " a b".toList := by decide

/-- The words stand one after the other, whitespace and nothing else between them. -/
inductive Spread : List Str → Str → Prop
  | nil : Spread [] []
  | single (w : Str) : Spread [w] w
  | cons {w gap t : Str} {ws : List Str} (gapSome : gap ≠ []) (gapBlank : Blank gap)
      (more : ws ≠ []) (rest : Spread ws t) : Spread (w :: ws) (w ++ gap ++ t)

/-- Somewhere in `s` the words stand one after the other. -/
def Occur (ws : List Str) (s : Str) : Prop := ∃ t, Spread ws t ∧ t <:+: s

/-- A text that is not empty and has no whitespace. -/
def IsWord (w : Str) : Prop := w ≠ [] ∧ ∀ c ∈ w, isSpace c = false

variable {inSpace : Bool} {c : Char} {s t u w : Str} {ws : List Str}

theorem isWord_of_mem_words (h : w ∈ words s) : IsWord w := by
  induction s using cut_induction (fun c => !isSpace c) with
  | whole s hs =>
      by_cases hnil : s = []
      · subst hnil
        cases h
      · rw [words_eq_runs, runs_of_forall hnil hs, List.mem_singleton] at h
        subst h
        exact ⟨hnil, fun c hc => by simpa using hs c hc⟩
  | cut a c b ha hc ih =>
      rw [words_eq_runs, runs_append_cons hc] at h
      rcases List.mem_append.mp h with h | h
      · by_cases hnil : a = []
        · subst hnil
          cases h
        · rw [runs_of_forall hnil ha, List.mem_singleton] at h
          subst h
          exact ⟨hnil, fun c hc => by simpa using ha c hc⟩
      · rw [words_eq_runs] at ih
        exact ih h

/-! ## One character -/

theorem collapseFrom_cons (h : isSpace c = false) (inSpace : Bool) (s : Str) :
    collapseFrom inSpace (c :: s) = c :: collapseFrom false s := by
  cases inSpace <;> simp [collapseFrom, h]

theorem collapseFrom_space (h : isSpace c = true) (s : Str) :
    collapseFrom false (c :: s) = ' ' :: collapseFrom true s := by
  simp [collapseFrom, h]

theorem collapseFrom_skip (h : isSpace c = true) (s : Str) :
    collapseFrom true (c :: s) = collapseFrom true s := by
  simp [collapseFrom, h]

theorem collapseFrom_word (h : IsWord w) (inSpace : Bool) (s : Str) :
    collapseFrom inSpace (w ++ s) = w ++ collapseFrom false s := by
  obtain ⟨hne, hw⟩ := h
  induction w generalizing inSpace with
  | nil => exact absurd rfl hne
  | cons c w ih =>
      rw [List.cons_append, collapseFrom_cons (hw c List.mem_cons_self), List.cons_append]
      by_cases hnil : w = []
      · subst hnil
        rfl
      · rw [ih false hnil fun d hd => hw d (List.mem_cons_of_mem _ hd)]

theorem collapseFrom_blank (h : Blank t) (s : Str) :
    collapseFrom true (t ++ s) = collapseFrom true s := by
  induction t with
  | nil => rfl
  | cons c t ih =>
      rw [List.cons_append, collapseFrom_skip (h c List.mem_cons_self),
        ih fun d hd => h d (List.mem_cons_of_mem _ hd)]

theorem collapseFrom_gap (hne : t ≠ []) (h : Blank t) (s : Str) :
    collapseFrom false (t ++ s) = ' ' :: collapseFrom true s := by
  cases t with
  | nil => exact absurd rfl hne
  | cons c t =>
      rw [List.cons_append, collapseFrom_space (h c List.mem_cons_self),
        collapseFrom_blank fun d hd => h d (List.mem_cons_of_mem _ hd)]

/-! ## Words in the collapsed text -/

theorem collapseFrom_append (inSpace : Bool) (s t : Str) :
    ∃ behind, collapseFrom inSpace (s ++ t) = collapseFrom inSpace s ++ collapseFrom behind t := by
  induction s generalizing inSpace with
  | nil =>
      refine ⟨inSpace, ?_⟩
      cases inSpace <;> rfl
  | cons c s ih =>
      cases hc : isSpace c with
      | false =>
          obtain ⟨behind, h⟩ := ih false
          refine ⟨behind, ?_⟩
          rw [List.cons_append, collapseFrom_cons hc, collapseFrom_cons hc, h, List.cons_append]
      | true =>
          obtain ⟨behind, h⟩ := ih true
          refine ⟨behind, ?_⟩
          cases inSpace with
          | false =>
              rw [List.cons_append, collapseFrom_space hc, collapseFrom_space hc, h,
                List.cons_append]
          | true => rw [List.cons_append, collapseFrom_skip hc, collapseFrom_skip hc, h]

/-- Spread words are collapsed to the words with single spaces between them. -/
theorem Spread.collapseFrom (h : Spread ws t) (hws : ∀ w ∈ ws, IsWord w) (hne : ws ≠ [])
    (inSpace : Bool) (s : Str) :
    Py.collapseFrom inSpace (t ++ s) = join [' '] ws ++ Py.collapseFrom false s := by
  induction h generalizing inSpace with
  | nil => exact absurd rfl hne
  | single w =>
      rw [collapseFrom_word (hws w List.mem_cons_self)]
      exact congrArg (· ++ _) (List.append_nil w).symm
  | cons gapSome gapBlank more rest ih =>
      have hrest := ih (fun w hw => hws w (List.mem_cons_of_mem _ hw)) more true
      rw [List.append_assoc, List.append_assoc, collapseFrom_word (hws _ List.mem_cons_self),
        collapseFrom_gap gapSome gapBlank, hrest, join_cons [' '] _ more]
      simp

/-- What comes out of a collapse comes out of a suffix of the text. -/
theorem suffix_of_collapseFrom {p : Str} (h : collapseFrom inSpace s = p ++ u) :
    ∃ s' behind, s' <:+ s ∧ collapseFrom behind s' = u := by
  induction s generalizing inSpace p with
  | nil =>
      have hu : u = [] := (List.append_eq_nil_iff.mp (by cases inSpace <;> exact h.symm)).2
      exact ⟨[], inSpace, List.nil_suffix, by subst hu; cases inSpace <;> rfl⟩
  | cons c s ih =>
      cases p with
      | nil => exact ⟨c :: s, inSpace, List.suffix_refl _, h⟩
      | cons d p =>
          have hrest : ∃ behind p', collapseFrom behind s = p' ++ u := by
            cases hc : isSpace c with
            | false =>
                rw [collapseFrom_cons hc] at h
                exact ⟨false, p, (List.cons.inj h).2⟩
            | true =>
                cases inSpace with
                | false =>
                    rw [collapseFrom_space hc] at h
                    exact ⟨true, p, (List.cons.inj h).2⟩
                | true =>
                    rw [collapseFrom_skip hc] at h
                    exact ⟨true, d :: p, h⟩
          obtain ⟨behind, p', hrest⟩ := hrest
          obtain ⟨s', behind', hsuffix, hs'⟩ := ih hrest
          exact ⟨s', behind', hsuffix.trans (List.suffix_cons c s), hs'⟩

/-- A character of a word comes from itself, with whitespace in front of it that was dropped. -/
theorem exists_of_collapseFrom_cons (hc : isSpace c = false)
    (h : collapseFrom inSpace s = c :: u) :
    ∃ gap rest, s = gap ++ c :: rest ∧ Blank gap ∧ collapseFrom false rest = u ∧
      (inSpace = false → gap = []) := by
  induction s generalizing inSpace with
  | nil => cases inSpace <;> cases h
  | cons d s ih =>
      cases hd : isSpace d with
      | false =>
          rw [collapseFrom_cons hd, List.cons.injEq] at h
          obtain ⟨rfl, h⟩ := h
          exact ⟨[], s, rfl, List.forall_mem_nil _, h, fun _ => rfl⟩
      | true =>
          cases inSpace with
          | false =>
              rw [collapseFrom_space hd, List.cons.injEq] at h
              rw [← h.1] at hc
              cases hc
          | true =>
              rw [collapseFrom_skip hd] at h
              obtain ⟨gap, rest, rfl, hgap, hrest, -⟩ := ih h
              refine ⟨d :: gap, rest, rfl, ?_, hrest, (fun hfalse => nomatch hfalse)⟩
              intro e he
              rcases List.mem_cons.mp he with rfl | he
              · exact hd
              · exact hgap e he

theorem exists_of_collapseFrom_word (hw : IsWord w) (h : collapseFrom inSpace s = w ++ u) :
    ∃ gap rest, s = gap ++ w ++ rest ∧ Blank gap ∧ collapseFrom false rest = u ∧
      (inSpace = false → gap = []) := by
  obtain ⟨hne, hw⟩ := hw
  induction w generalizing inSpace s with
  | nil => exact absurd rfl hne
  | cons c w ih =>
      obtain ⟨gap, rest, rfl, hgap, hrest, hfirst⟩ :=
        exists_of_collapseFrom_cons (hw c List.mem_cons_self) h
      by_cases hnil : w = []
      · subst hnil
        exact ⟨gap, rest, by simp, hgap, hrest, hfirst⟩
      · obtain ⟨gap', rest', rfl, -, hrest', hfirst'⟩ :=
          ih hrest hnil fun d hd => hw d (List.mem_cons_of_mem _ hd)
        rw [hfirst' rfl]
        exact ⟨gap, rest', by simp, hgap, hrest', hfirst⟩

theorem exists_of_collapseFrom_space (h : collapseFrom false s = ' ' :: u) :
    ∃ c rest, s = c :: rest ∧ isSpace c = true ∧ collapseFrom true rest = u := by
  cases s with
  | nil => cases h
  | cons c s =>
      cases hc : isSpace c with
      | false =>
          rw [collapseFrom_cons hc, List.cons.injEq] at h
          rw [h.1] at hc
          exact absurd hc (by decide)
      | true =>
          rw [collapseFrom_space hc, List.cons.injEq] at h
          exact ⟨c, s, rfl, hc, h.2⟩

/-- Words with single spaces between them come from spread words. -/
theorem exists_spread_of_collapseFrom (hws : ∀ w ∈ ws, IsWord w) (hne : ws ≠ [])
    (h : collapseFrom inSpace s = join [' '] ws ++ u) :
    ∃ gap t rest, s = gap ++ t ++ rest ∧ Blank gap ∧ Spread ws t := by
  induction ws generalizing inSpace s with
  | nil => exact absurd rfl hne
  | cons w ws ih =>
      have hw := hws w List.mem_cons_self
      by_cases hmore : ws = []
      · subst hmore
        have hsingle : join [' '] [w] = w := List.append_nil w
        rw [hsingle] at h
        obtain ⟨gap, rest, rfl, hgap, -, -⟩ := exists_of_collapseFrom_word hw h
        exact ⟨gap, w, rest, rfl, hgap, .single w⟩
      · rw [join_cons [' '] w hmore, List.append_assoc, List.append_assoc] at h
        obtain ⟨gap, rest, rfl, hgap, hrest, -⟩ := exists_of_collapseFrom_word hw h
        obtain ⟨c, rest, rfl, hc, hrest⟩ := exists_of_collapseFrom_space hrest
        obtain ⟨gap', t, rest, rfl, hgap', hspread⟩ :=
          ih (fun w hw => hws w (List.mem_cons_of_mem _ hw)) hmore hrest
        refine ⟨gap, w ++ (c :: gap') ++ t, rest, by simp, hgap, ?_⟩
        refine .cons (List.cons_ne_nil _ _) ?_ hmore hspread
        intro d hd
        rcases List.mem_cons.mp hd with rfl | hd
        · exact hc
        · exact hgap' d hd

/-- The words with single spaces between them are in the collapsed text exactly when they occur
    in the text one after the other. -/
theorem join_infix_collapse_iff (hws : ∀ w ∈ ws, IsWord w) :
    join [' '] ws <:+: collapse s ↔ Occur ws s := by
  by_cases hne : ws = []
  · subst hne
    exact iff_of_true (List.nil_infix) ⟨[], .nil, List.nil_infix⟩
  · constructor
    · rintro ⟨p, r, h⟩
      rw [List.append_assoc] at h
      obtain ⟨s', behind, hsuffix, hs'⟩ := suffix_of_collapseFrom h.symm
      obtain ⟨gap, t, rest, rfl, -, hspread⟩ := exists_spread_of_collapseFrom hws hne hs'
      exact ⟨t, hspread, List.IsInfix.trans ⟨gap, rest, rfl⟩ hsuffix.isInfix⟩
    · rintro ⟨t, hspread, a, b, rfl⟩
      rw [List.append_assoc]
      obtain ⟨behind, h⟩ := collapseFrom_append false a (t ++ b)
      rw [hspread.collapseFrom hws hne] at h
      exact ⟨_, _, by rw [collapse, h, List.append_assoc]⟩

/-- Words with single spaces between them are spread. -/
theorem spread_join (ws : List Str) : Spread ws (join [' '] ws) := by
  induction ws with
  | nil => exact .nil
  | cons w ws ih =>
      by_cases hmore : ws = []
      · subst hmore
        have hsingle : join [' '] [w] = w := List.append_nil w
        rw [hsingle]
        exact .single w
      · rw [join_cons [' '] w hmore]
        exact .cons (by simp) (by decide) hmore ih

theorem Occur.of_join (h : join [' '] ws <:+: s) : Occur ws s := ⟨_, spread_join ws, h⟩

/-! ## Runs and lower case -/

/-- A collapse changes no run of a class without whitespace. -/
theorem runs_collapse {p : Char → Bool} (hspace : ∀ c, isSpace c = true → p c = false) (s : Str) :
    runs p (collapse s) = runs p s := by
  have hskip : ∀ {c : Char} (s : Str), isSpace c = true → runs p (c :: s) = runs p s :=
    fun s hc => runs_append_cons (hspace _ hc) [] s
  have hall : ∀ s : Str, (∀ front, runs p (front ++ collapseFrom false s) = runs p (front ++ s)) ∧
      runs p (collapseFrom true s) = runs p s := by
    intro s
    induction s with
    | nil => exact ⟨fun front => rfl, rfl⟩
    | cons c s ih =>
        obtain ⟨hfalse, htrue⟩ := ih
        cases hc : isSpace c with
        | false =>
            rw [collapseFrom_cons hc, collapseFrom_cons hc]
            refine ⟨fun front => ?_, hfalse [c]⟩
            have h := hfalse (front ++ [c])
            rwa [List.append_assoc, List.append_assoc] at h
        | true =>
            rw [collapseFrom_space hc, collapseFrom_skip hc, hskip s hc]
            refine ⟨fun front => ?_, htrue⟩
            rw [runs_append_cons (hspace ' ' rfl), runs_append_cons (hspace c hc), htrue]
  exact (hall s).1 []

namespace CaseTable

/-- Whitespace and nothing else is lowered to whitespace, and it ends a word. -/
structure KeepsLayout (table : CaseTable) : Prop where
  word : ∀ c, isSpace c = false → IsWord (table.lower c)
  cased : ∀ c, isSpace c = true → table.cased c = false
  ignorable : ∀ c, isSpace c = true → table.ignorable c = false

theorem asciiTable_keepsLayout : asciiTable.KeepsLayout where
  word := by
    intro c hc
    show IsWord (if c.toNat < 128 then [asciiLower c] else [c])
    have hself : IsWord [c] := ⟨by simp, by simpa using hc⟩
    have hupper : ∀ n : Fin 91, 65 ≤ n.val → isSpace (Char.ofNat (n.val + 32)) = false := by
      decide
    unfold asciiLower
    split
    · split
      · next h => exact ⟨by simp, by simpa using hupper ⟨c.toNat, by omega⟩ h.1⟩
      · exact hself
    · exact hself
  cased := by
    intro c hc
    simp only [isSpace, Bool.or_eq_true, Bool.and_eq_true, decide_eq_true_eq, beq_iff_eq] at hc
    show (65 ≤ c.toNat && c.toNat ≤ 90 || 97 ≤ c.toNat && c.toNat ≤ 122) = false
    rw [Bool.eq_false_iff]
    simp only [ne_eq, Bool.or_eq_true, Bool.and_eq_true, decide_eq_true_eq]
    omega
  ignorable := fun _ _ => rfl

variable {table : CaseTable}

/-- Up to ignorable characters a cased one comes first. -/
def castFirst (table : CaseTable) (s : Str) : Bool :=
  (s.find? fun c => !table.ignorable c).any table.cased

theorem castFirst_cons (table : CaseTable) (c : Char) (s : Str) :
    table.castFirst (c :: s) = if table.ignorable c then table.castFirst s else table.cased c := by
  unfold castFirst
  rw [List.find?_cons]
  cases table.ignorable c <;> rfl

theorem KeepsLayout.castFirst_space (h : table.KeepsLayout) (hc : isSpace c = true) (s : Str) :
    table.castFirst (c :: s) = false := by
  rw [castFirst_cons, h.ignorable c hc, h.cased c hc]
  rfl

theorem KeepsLayout.castFirst_collapse (h : table.KeepsLayout) (s : Str) :
    table.castFirst (collapseFrom false s) = table.castFirst s := by
  induction s with
  | nil => rfl
  | cons c s ih =>
      cases hc : isSpace c with
      | false => rw [collapseFrom_cons hc, castFirst_cons, castFirst_cons, ih]
      | true => rw [collapseFrom_space hc, h.castFirst_space rfl, h.castFirst_space hc]

/-- The lower case of a collapsed text, behind texts with the same character that counts. -/
theorem KeepsLayout.lowerFrom_collapseFrom (h : table.KeepsLayout) (s : Str) :
    ∀ (inSpace : Bool) (before before' : Str),
      table.castFirst before = table.castFirst before' →
      (inSpace = true → table.castFirst before = false) →
      table.lowerFrom before (collapseFrom inSpace s) =
        collapseFrom inSpace (table.lowerFrom before' s) := by
  induction s with
  | nil => intro inSpace before before' _ _; cases inSpace <;> rfl
  | cons c s ih =>
      intro inSpace before before' hbefore hspace
      cases hc : isSpace c with
      | true =>
          have hsigma : ∀ d, isSpace d = true → d ≠ capitalSigma := by
            rintro d hd rfl
            revert hd
            decide
          have hlower : ∀ (d : Char) (front rest : Str), isSpace d = true →
              table.lowerFrom front (d :: rest) = d :: table.lowerFrom (d :: front) rest := by
            intro d front rest hd
            rw [lowerFrom, if_neg (hsigma d hd), table.space d hd]
            rfl
          rw [hlower c before' s hc]
          cases inSpace with
          | false =>
              rw [collapseFrom_space hc, collapseFrom_space hc, hlower ' ' before _ rfl]
              refine congrArg (' ' :: ·) (ih true _ _ ?_ fun _ => h.castFirst_space rfl before)
              rw [h.castFirst_space rfl, h.castFirst_space hc]
          | true =>
              rw [collapseFrom_skip hc, collapseFrom_skip hc]
              refine ih true _ _ ?_ hspace
              rw [hspace rfl, h.castFirst_space hc]
      | false =>
          have hcast : table.castFirst (c :: before) = table.castFirst (c :: before') := by
            rw [castFirst_cons, castFirst_cons, hbefore]
          have hrest := ih false (c :: before) (c :: before') hcast (by simp)
          rw [collapseFrom_cons hc, lowerFrom, lowerFrom, hrest]
          by_cases hsigma : c = capitalSigma
          · have hfinal : table.isFinal before (collapseFrom false s) =
                table.isFinal before' s := by
              show (table.castFirst before && !table.castFirst (collapseFrom false s)) =
                (table.castFirst before' && !table.castFirst s)
              rw [hbefore, h.castFirst_collapse]
            rw [if_pos hsigma, if_pos hsigma, hfinal]
            refine (collapseFrom_word ⟨by simp, ?_⟩ inSpace _).symm
            intro d hd
            rw [List.mem_singleton] at hd
            subst hd
            split <;> decide
          · rw [if_neg hsigma, if_neg hsigma]
            exact (collapseFrom_word (h.word c hc) inSpace _).symm

/-- Collapsing and lowering a text can be done in either order. -/
theorem KeepsLayout.lowerStr_collapse (h : table.KeepsLayout) (s : Str) :
    table.lowerStr (collapse s) = collapse (table.lowerStr s) :=
  h.lowerFrom_collapseFrom s false [] [] rfl (by simp)

end CaseTable

end Py
