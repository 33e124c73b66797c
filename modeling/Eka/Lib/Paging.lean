import Eka.Lib.Select

/-!
# Reading an ordered answer page by page

Every page is a query of its own, and where keys are equal each query may order the rows
anew. A cut between two pages is *clean* when no two rows with equal keys lie on its two
sides. Clean cuts are all that matters: they make the rows before a cut the same rows under
every order, and at any other cut there are two orders that disagree about them.
-/

namespace Relational

universe u

variable {R : Type u}

/-- The rows that come no later than `r` under every order. -/
def countUpTo (le : R → R → Bool) (rows : List R) (r : R) : Nat := rows.countP fun x => le x r

/-- The rows that come before `r` under every order. -/
def countBefore (le : R → R → Bool) (rows : List R) (r : R) : Nat :=
  rows.countP fun x => !le r x

/-- No two rows with equal keys lie on different sides of the cut. -/
def CleanCut (le : R → R → Bool) (rows : List R) (cut : Nat) : Prop :=
  ∀ r ∈ rows, countUpTo le rows r ≤ cut ∨ cut ≤ countBefore le rows r

instance (le : R → R → Bool) (rows : List R) (cut : Nat) : Decidable (CleanCut le rows cut) :=
  inferInstanceAs (Decidable (∀ r ∈ rows, _))

/-- The order of a key: any two rows compare, and rows with equal keys compare both ways. -/
structure KeyOrder (le : R → R → Bool) : Prop where
  total : ∀ a b, le a b = true ∨ le b a = true
  trans : ∀ a b c, le a b = true → le b c = true → le a c = true

theorem KeyOrder.flip {le : R → R → Bool} (h : KeyOrder le) : KeyOrder fun a b => le b a :=
  ⟨fun a b => h.total b a, fun a b c hab hbc => h.trans c b a hbc hab⟩

/-- An answer to the ordered query: the rows, in an order that the server may choose. -/
structure Answers (le : R → R → Bool) (rows answer : List R) : Prop where
  perm : answer.Perm rows
  sorted : answer.Pairwise fun a b => le a b = true

/-! ## Prefixes of a sorted list -/

section Sorted

variable {le : R → R → Bool} {rows answer answer' : List R}

/-- In a sorted list, what a downward closed property selects comes first. -/
theorem getElem_iff_lt_countP {l : List R} {p : R → Bool}
    (hsorted : l.Pairwise fun a b => le a b = true)
    (hdown : ∀ x y, le x y = true → p y = true → p x = true) :
    ∀ i (hi : i < l.length), p l[i] = true ↔ i < l.countP p := by
  induction l with
  | nil =>
      intro i hi
      simp at hi
  | cons a l ih =>
      rw [List.pairwise_cons] at hsorted
      intro i hi
      by_cases ha : p a = true
      · cases i with
        | zero => simp [ha]
        | succ i =>
            have htail := ih hsorted.2 i (by simpa using hi)
            simpa [List.countP_cons, ha] using htail
      · have hnone : ∀ y ∈ l, ¬ p y = true := fun y hy hp => ha (hdown a y (hsorted.1 y hy) hp)
        have hzero : l.countP p = 0 := List.countP_eq_zero.mpr hnone
        rw [List.countP_cons, hzero, if_neg ha]
        cases i with
        | zero => simpa using ha
        | succ i => simpa using hnone _ (List.getElem_mem (by simpa using hi))

/-- A property that holds of the first elements alone selects them. -/
theorem filter_eq_take {l : List R} {p : R → Bool} {cut : Nat}
    (h : ∀ i (hi : i < l.length), p l[i] = true ↔ i < cut) : l.filter p = l.take cut := by
  induction l generalizing cut with
  | nil => simp
  | cons a l ih =>
      have hhead := h 0 (by simp)
      cases cut with
      | zero =>
          rw [List.take_zero, List.filter_eq_nil_iff]
          intro x hx
          obtain ⟨i, hi, rfl⟩ := List.getElem_of_mem hx
          simpa using h i hi
      | succ cut =>
          have ha : p a = true := by simpa using hhead
          rw [List.filter_cons_of_pos ha, List.take_succ_cons, ih]
          intro i hi
          have htail := h (i + 1) (by simpa using hi)
          simpa using htail

theorem countUpTo_perm (h : answer.Perm rows) (r : R) :
    countUpTo le answer r = countUpTo le rows r := h.countP_eq _

theorem countBefore_perm (h : answer.Perm rows) (r : R) :
    countBefore le answer r = countBefore le rows r := h.countP_eq _

/-- Where a row may stand in an answer. -/
theorem Answers.lt_countUpTo (hle : KeyOrder le) (h : Answers le rows answer) {i : Nat}
    (hi : i < answer.length) {r : R} :
    le answer[i] r = true ↔ i < countUpTo le rows r := by
  rw [← countUpTo_perm h.perm]
  refine getElem_iff_lt_countP (p := fun x => le x r) h.sorted ?_ i hi
  intro x y hxy hy
  exact hle.trans x y r hxy hy

theorem Answers.lt_countBefore (hle : KeyOrder le) (h : Answers le rows answer) {i : Nat}
    (hi : i < answer.length) {r : R} :
    (!le r answer[i]) = true ↔ i < countBefore le rows r := by
  rw [← countBefore_perm h.perm]
  refine getElem_iff_lt_countP (p := fun x => !le r x) h.sorted ?_ i hi
  intro x y hxy hy
  simp only [Bool.not_eq_true', Bool.eq_false_iff] at hy ⊢
  intro hx
  exact hy (hle.trans r x y hx hxy)

/-- Before a clean cut come the rows that fit there whole. -/
theorem Answers.take_of_cleanCut (hle : KeyOrder le) (h : Answers le rows answer) {cut : Nat}
    (hcut : CleanCut le rows cut) :
    answer.take cut = answer.filter fun r => countUpTo le rows r ≤ cut := by
  refine (filter_eq_take ?_).symm
  intro i hi
  have hself : le answer[i] answer[i] = true := by
    rcases hle.total answer[i] answer[i] with h | h <;> exact h
  have hupto := (h.lt_countUpTo hle hi).mp hself
  have hbefore : ¬ i < countBefore le rows answer[i] := by
    rw [← h.lt_countBefore hle hi]
    simp [hself]
  rcases hcut _ (h.perm.mem_iff.mp (List.getElem_mem hi)) with hfits | hlater
  · simp only [decide_eq_true_eq]
    omega
  · simp only [decide_eq_true_eq]
    omega

/-- All answers have the same rows before a clean cut. -/
theorem Answers.take_perm (hle : KeyOrder le) (h : Answers le rows answer)
    (h' : Answers le rows answer') {cut : Nat} (hcut : CleanCut le rows cut) :
    (answer.take cut).Perm (answer'.take cut) := by
  rw [h.take_of_cleanCut hle hcut, h'.take_of_cleanCut hle hcut]
  exact (h.perm.trans h'.perm.symm).filter _

/-- At a cut that is not clean, two rows with equal keys may change places. -/
theorem exists_answers_of_not_cleanCut (hle : KeyOrder le) (hrows : rows.Nodup) {cut : Nat}
    (hcut : ¬ CleanCut le rows cut) : ∃ answer answer', Answers le rows answer ∧
      Answers le rows answer' ∧ ¬ (answer.take cut).Perm (answer'.take cut) := by
  unfold CleanCut at hcut
  push Not at hcut
  obtain ⟨r, -, hupto, hbefore⟩ := hcut
  have hanswer : Answers le rows (rows.mergeSort le) := by
    refine ⟨List.mergeSort_perm _ _, ?_⟩
    refine List.pairwise_mergeSort hle.trans ?_ rows
    intro a b
    rcases hle.total a b with h | h <;> simp [h]
  generalize rows.mergeSort le = answer at hanswer
  have hlength : countUpTo le rows r ≤ answer.length := by
    rw [hanswer.perm.length_eq]
    exact List.countP_le_length
  obtain ⟨cut, rfl⟩ : ∃ n, cut = n + 1 := ⟨cut - 1, by omega⟩
  have hx : cut < answer.length := by omega
  have hy : cut + 1 < answer.length := by omega
  -- both rows at the cut have the key of `r`
  have hyr : le answer[cut + 1] r = true := (hanswer.lt_countUpTo hle hy).mpr hupto
  have hrx : le r answer[cut] = true := by
    by_contra hnot
    have := (hanswer.lt_countBefore hle hx (r := r)).mp (by simpa using hnot)
    omega
  have hyx := hle.trans _ _ _ hyr hrx
  have hsplit : answer = answer.take cut ++ answer[cut] :: answer[cut + 1] ::
      answer.drop (cut + 2) := by
    rw [← List.drop_eq_getElem_cons hy, ← List.drop_eq_getElem_cons hx, List.take_append_drop]
  generalize hfront : answer.take cut = front at hsplit
  generalize answer.drop (cut + 2) = back at hsplit
  generalize answer[cut] = x at hsplit hyx
  generalize answer[cut + 1] = y at hsplit hyx
  have hfrontLength : front.length = cut := by
    rw [← hfront, List.length_take]
    omega
  have hswap : Answers le rows (front ++ y :: x :: back) := by
    constructor
    · refine List.Perm.trans ?_ hanswer.perm
      rw [hsplit]
      exact (List.Perm.swap x y back).append_left front
    · have hsorted := hanswer.sorted
      rw [hsplit] at hsorted
      simp only [List.pairwise_append, List.pairwise_cons, List.mem_cons, forall_eq_or_imp]
        at hsorted ⊢
      obtain ⟨hfront, ⟨⟨-, hxback⟩, hyback, hback⟩, hmix⟩ := hsorted
      refine ⟨hfront, ⟨⟨hyx, hyback⟩, hxback, hback⟩, ?_⟩
      intro a ha
      exact ⟨(hmix a ha).2.1, (hmix a ha).1, (hmix a ha).2.2⟩
  refine ⟨answer, _, hanswer, hswap, ?_⟩
  have hdistinct := (hanswer.perm.nodup_iff).mpr hrows
  rw [hsplit] at hdistinct ⊢
  rw [List.take_append, List.take_append, hfrontLength, List.take_of_length_le (by omega)]
  simp only [Nat.add_sub_cancel_left, List.take_succ_cons, List.take_zero]
  intro hperm
  have hsame := (List.perm_append_left_iff front).mp hperm
  rw [List.singleton_perm_singleton] at hsame
  rw [hsame] at hdistinct
  simp [List.nodup_append] at hdistinct

end Sorted

/-! ## Pages -/

section Pages

variable {le : R → R → Bool} {rows : List R} {limit : Nat}

/-- The first `n` pages, each from the answer to its own query. -/
def pagesTo (answers : Nat → List R) (limit : Nat) : Nat → List R
  | 0 => []
  | n + 1 => pagesTo answers limit n ++ page limit (n * limit) (answers n)

theorem take_append_page (l : List R) (limit n : Nat) :
    l.take (n * limit) ++ page limit (n * limit) l = l.take ((n + 1) * limit) := by
  rw [page, Nat.succ_mul, List.take_add]

/-- Across clean cuts, the pages are a prefix of every answer. -/
theorem pagesTo_perm (hle : KeyOrder le) {answers : Nat → List R}
    (hanswers : ∀ k, Answers le rows (answers k)) :
    ∀ n, (∀ m, m ≤ n → CleanCut le rows (m * limit)) → ∀ answer, Answers le rows answer →
      (pagesTo answers limit n).Perm (answer.take (n * limit)) := by
  intro n
  induction n with
  | zero =>
      intro _ answer _
      simp [pagesTo]
  | succ n ih =>
      intro hclean answer hanswer
      have hprefix := ih (fun m hm => hclean m (by omega)) (answers n) (hanswers n)
      have hpages := hprefix.append_right (page limit (n * limit) (answers n))
      rw [take_append_page] at hpages
      exact hpages.trans ((hanswers n).take_perm hle hanswer (hclean (n + 1) le_rfl))

/-- Pages of one answer, up to a query from which on another one is given. -/
theorem pagesTo_switch (answer answer' : List R) (limit m : Nat) :
    ∀ n, m ≤ n → pagesTo (fun k => if k < m then answer else answer') limit n =
      answer.take (m * limit) ++ (answer'.take (n * limit)).drop (m * limit) := by
  have hsame : ∀ n, n ≤ m → pagesTo (fun k => if k < m then answer else answer') limit n =
      answer.take (n * limit) := by
    intro n
    induction n with
    | zero => simp [pagesTo]
    | succ n ih =>
        intro hn
        rw [pagesTo, ih (by omega), if_pos (by omega), take_append_page]
  intro n hmn
  induction n, hmn using Nat.le_induction with
  | base =>
      rw [hsame m le_rfl, List.drop_eq_nil_of_le (List.length_take_le _ _), List.append_nil]
  | succ n hmn ih =>
      rw [pagesTo, ih, if_neg (by omega), List.append_assoc, ← take_append_page answer' limit n,
        List.drop_append]
      congr 2
      rw [List.length_take]
      by_cases hlong : n * limit ≤ answer'.length
      · have hle := Nat.mul_le_mul_right limit hmn
        rw [show m * limit - min (n * limit) answer'.length = 0 by omega, List.drop_zero]
      · rw [page, List.drop_eq_nil_of_le (by omega)]
        simp

/-- The number of the last page of an answer, starting from one. -/
def pageCount (total limit : Nat) : Nat := (total - 1) / limit + 1

theorem le_pageCount_mul {total limit : Nat} (hlimit : 1 ≤ limit) :
    total ≤ pageCount total limit * limit := by
  unfold pageCount
  have hdiv := Nat.lt_div_mul_add (a := total - 1) hlimit
  rw [Nat.succ_mul]
  omega

/-- There is a page after page `k` when a row comes after its end. -/
theorem succ_lt_pageCount {total limit : Nat} (hlimit : 1 ≤ limit) (k : Nat) :
    k + 1 < pageCount total limit ↔ (k + 1) * limit < total := by
  unfold pageCount
  rw [Nat.succ_lt_succ_iff, ← Nat.succ_le_iff, Nat.le_div_iff_mul_le hlimit, Nat.succ_mul]
  omega

theorem pageCount_le {total limit : Nat} : pageCount total limit ≤ total + 1 := by
  have hdiv := Nat.div_le_self (total - 1) limit
  unfold pageCount
  omega

/-- The pages have every row exactly once, whatever the answers, exactly when all cuts between
    them are clean. -/
theorem pages_perm_iff (hle : KeyOrder le) (hrows : rows.Nodup) (hlimit : 1 ≤ limit) :
    (∀ answers : Nat → List R, (∀ k, Answers le rows (answers k)) →
      (pagesTo answers limit (pageCount rows.length limit)).Perm rows) ↔
    ∀ m, CleanCut le rows (m * limit) := by
  have hlast := @le_pageCount_mul rows.length limit hlimit
  have hall : ∀ answer, Answers le rows answer →
      answer.take (pageCount rows.length limit * limit) = answer := by
    intro answer hanswer
    refine List.take_of_length_le ?_
    rw [hanswer.perm.length_eq]
    exact hlast
  constructor
  · intro hpages m
    by_contra hcut
    obtain ⟨answer, answer', hanswer, hanswer', hdiffer⟩ :=
      exists_answers_of_not_cleanCut hle hrows hcut
    have hm : m ≤ pageCount rows.length limit := by
      unfold CleanCut at hcut
      push Not at hcut
      obtain ⟨r, -, hupto, -⟩ := hcut
      have hcount : countUpTo le rows r ≤ rows.length := List.countP_le_length
      refine Nat.le_of_mul_le_mul_right ?_ hlimit
      omega
    refine hdiffer ?_
    have hperm := hpages (fun k => if k < m then answer else answer') fun k => by
      split
      · exact hanswer
      · exact hanswer'
    rw [pagesTo_switch answer answer' limit m _ hm, hall answer' hanswer'] at hperm
    have hcancel : (answer.take (m * limit) ++ answer'.drop (m * limit)).Perm
        (answer'.take (m * limit) ++ answer'.drop (m * limit)) := by
      rw [List.take_append_drop]
      exact hperm.trans hanswer'.perm.symm
    exact (List.perm_append_right_iff _).mp hcancel
  · intro hclean answers hanswers
    have hperm := pagesTo_perm hle hanswers (pageCount rows.length limit) (fun m _ => hclean m)
      (answers 0) (hanswers 0)
    rw [hall (answers 0) (hanswers 0)] at hperm
    exact hperm.trans (hanswers 0).perm

end Pages

/-! ## The answers of a server -/

section Server

variable {le : R → R → Bool} {p : R → Bool} {rows : List R}

theorem select_answers (hle : KeyOrder le) (ties : Arrangement R) :
    Answers le (rows.filter p) (select ties p le rows) := by
  refine ⟨select_perm ties p le rows, List.pairwise_mergeSort hle.trans ?_ _⟩
  intro a b
  rcases hle.total a b with h | h <;> simp [h]

/-- Every answer is that of some arrangement. -/
theorem exists_select_eq {answer : List R} (h : Answers le (rows.filter p) answer) :
    ∃ ties : Arrangement R, select ties p le rows = answer := by
  classical
  let ties : Arrangement R := {
    order := fun rows => if rows.Perm answer then answer else (Arrangement.some R).order rows
    perm := by
      intro rows
      split
      · next hperm => exact hperm.symm
      · exact (Arrangement.some R).perm rows
    canonical := by
      intro rows rows' hperm
      by_cases hrows : rows.Perm answer
      · rw [if_pos hrows, if_pos (hperm.symm.trans hrows)]
      · rw [if_neg hrows, if_neg fun h => hrows (hperm.trans h)]
        exact (Arrangement.some R).canonical rows rows' hperm }
  refine ⟨ties, ?_⟩
  show (if (rows.filter p).Perm answer then answer else _).mergeSort le = answer
  rw [if_pos h.perm.symm]
  exact List.mergeSort_of_pairwise h.sorted

end Server

end Relational
