import Eka.Lib.PyString

/-!
# Maximal runs of a class of characters

`re.findall("[...]+", s)` for a character class. A string is cut at any character outside
the class, so a run never sees what stands on the other side of one.
-/

namespace Py

/-- The maximal runs of characters in the class `p`, from left to right. -/
def runs (p : Char → Bool) (s : Str) : List Str :=
  (s.splitOnP fun c => !p c).filter (· ≠ [])

example : runs (fun c => c.isDigit) "a12 3-".toList = ["12".toList, "3".toList] := by decide

variable {p q : Char → Bool}

@[simp] theorem runs_nil (p : Char → Bool) : runs p [] = [] := rfl

/-- `s.split()` are the runs of characters that are not whitespace. -/
theorem words_eq_runs (s : Str) : words s = runs (fun c => !isSpace c) s := by
  unfold words runs
  simp only [Bool.not_not]

/-- A character outside the class ends a run and starts none. -/
theorem runs_append_cons {c : Char} (hc : p c = false) (s t : Str) :
    runs p (s ++ c :: t) = runs p s ++ runs p t := by
  unfold runs
  rw [List.splitOnP_append_cons s t (by simp [hc]), List.filter_append]

/-- A string of the class is one run. -/
theorem runs_of_forall {s : Str} (hs : s ≠ []) (h : ∀ c ∈ s, p c = true) : runs p s = [s] := by
  unfold runs
  rw [List.splitOnP_eq_singleton]
  · simp [hs]
  · intro c hc
    rw [h c hc]
    rfl

/-- Cutting a string at its characters outside a class, one after the other. -/
theorem cut_induction (q : Char → Bool) {P : Str → Prop}
    (whole : ∀ s, (∀ c ∈ s, q c = true) → P s)
    (cut : ∀ a c b, (∀ d ∈ a, q d = true) → q c = false → P b → P (a ++ c :: b)) (s : Str) :
    P s := by
  have hall : ∀ s front : Str, (∀ d ∈ front, q d = true) → P (front ++ s) := by
    intro s
    induction s with
    | nil =>
        intro front hfront
        rw [List.append_nil]
        exact whole front hfront
    | cons c s ih =>
        intro front hfront
        cases hc : q c with
        | false => exact cut front c s hfront hc (ih [] fun _ hd => nomatch hd)
        | true =>
            have h := ih (front ++ [c]) (by
              intro d hd
              rcases List.mem_append.mp hd with hd | hd
              · exact hfront d hd
              · rw [List.mem_singleton.mp hd, hc])
            rwa [List.append_assoc] at h
  exact hall s [] fun _ hd => nomatch hd

/-- The runs are what a filter leaves of the string. -/
theorem flatten_runs (p : Char → Bool) (s : Str) : (runs p s).flatten = s.filter p := by
  have hwhole : ∀ s, (∀ c ∈ s, p c = true) → (runs p s).flatten = s.filter p := by
    intro s hs
    rw [List.filter_eq_self.mpr hs]
    by_cases hnil : s = []
    · rw [hnil]
      rfl
    · rw [runs_of_forall hnil hs, List.flatten_singleton]
  induction s using cut_induction p with
  | whole s hs => exact hwhole s hs
  | cut a c b ha hc ih =>
      rw [runs_append_cons hc, List.flatten_append, hwhole a ha, ih, List.filter_append,
        List.filter_cons_of_neg (by simp [hc])]

/-- Laying the whitespace out anew keeps every other character. -/
theorem mem_join_words {c : Char} (hc : isSpace c = false) (s : Str) :
    c ∈ join " ".toList (words s) ↔ c ∈ s := by
  have hne : c ≠ ' ' := by
    rintro rfl
    revert hc
    decide
  rw [show " ".toList = [' '] from rfl, mem_join_singleton hne, words_eq_runs, flatten_runs,
    List.mem_filter, hc]
  simp

/-- Runs of a smaller class are found within the runs of a larger one. -/
theorem flatMap_runs (hpq : ∀ c, p c = true → q c = true) (s : Str) :
    (runs q s).flatMap (runs p) = runs p s := by
  have hcut : ∀ c, q c = false → p c = false := by
    intro c hc
    cases hp : p c with
    | false => rfl
    | true => rw [hpq c hp] at hc; cases hc
  have hwhole : ∀ s, (∀ c ∈ s, q c = true) → (runs q s).flatMap (runs p) = runs p s := by
    intro s hs
    by_cases hnil : s = []
    · subst hnil
      rfl
    · rw [runs_of_forall hnil hs, List.flatMap_singleton]
  induction s using cut_induction q with
  | whole s hs => exact hwhole s hs
  | cut a c b ha hc ih =>
      rw [runs_append_cons hc, runs_append_cons (hcut c hc), List.flatMap_append, hwhole a ha, ih]

/-- Parts that are joined by a character outside the class keep their runs apart. -/
theorem runs_join {c : Char} (hc : p c = false) (parts : List Str) :
    runs p (join [c] parts) = parts.flatMap (runs p) := by
  induction parts with
  | nil => rfl
  | cons part rest ih =>
      by_cases hrest : rest = []
      · subst hrest
        show runs p (part ++ []) = runs p part ++ []
        rw [List.append_nil, List.append_nil]
      · rw [join_cons [c] part hrest, List.append_assoc, List.singleton_append,
          runs_append_cons hc, ih, List.flatMap_cons]

/-- Laying the whitespace out anew changes no run of a class without whitespace. -/
theorem runs_join_words (hspace : ∀ c, isSpace c = true → p c = false) (s : Str) :
    runs p (join " ".toList (words s)) = runs p s := by
  rw [show " ".toList = [' '] from rfl, runs_join (hspace ' ' rfl), words_eq_runs]
  refine flatMap_runs ?_ s
  intro c hc
  cases hs : isSpace c with
  | false => rfl
  | true => rw [hspace c hs] at hc; cases hc

end Py
