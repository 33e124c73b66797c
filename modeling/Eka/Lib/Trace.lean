import Mathlib.Data.Nat.Init
import Eka.Lib.Transition

/-!
# Runs without an end

A run that goes on for ever is the sequence of its states and labels. That something happens
in it sooner or later is shown with a measure: until it happens no step brings the measure up,
and there is always a step to come that brings it down.
-/

namespace Transition

universe u v

/-- A run that never ends. -/
structure Trace {S : Type u} {L : Type v} (step : S → L → Option S) (init : S) where
  state : Nat → S
  label : Nat → L
  start : state 0 = init
  next : ∀ n, step (state n) (label n) = some (state (n + 1))

/-! ## Sooner or later -/

section Eventually

variable {P Q : Nat → Prop} {n m : Nat}

/-- What stays until it leads on is still there, or has led on by then. -/
theorem stays_until (keep : ∀ n, P n → Q (n + 1) ∨ P (n + 1)) (h : P n) (hnm : n ≤ m) :
    (∃ k, n ≤ k ∧ Q k) ∨ P m := by
  induction m, hnm using Nat.le_induction with
  | base => exact .inr h
  | succ m hnm ih =>
      rcases ih with hled | hm
      · exact .inl hled
      · exact (keep m hm).imp_left fun hq => ⟨m + 1, Nat.le_succ_of_le hnm, hq⟩

/-- The rule of progress. -/
theorem eventually_of_measure {helps : Nat → Prop} {μ : Nat → Nat}
    (keep : ∀ n, P n → Q (n + 1) ∨ P (n + 1) ∧ μ (n + 1) ≤ μ n)
    (help : ∀ n, P n → helps n → Q (n + 1) ∨ μ (n + 1) < μ n)
    (fair : ∀ n, P n → ∃ m, n ≤ m ∧ helps m) (h : P n) : ∃ m, n ≤ m ∧ Q m := by
  induction hμ : μ n using Nat.strong_induction_on generalizing n with
  | _ k ih =>
      obtain ⟨m, hnm, hhelps⟩ := fair n h
      rcases stays_until (P := fun i => P i ∧ μ i ≤ k)
        (fun i hi => (keep i hi.1).imp_right fun hkeep => ⟨hkeep.1, Nat.le_trans hkeep.2 hi.2⟩)
        ⟨h, Nat.le_of_eq hμ⟩ hnm with hled | ⟨hm, hle⟩
      · exact hled
      · have hsucc : n ≤ m + 1 := Nat.le_succ_of_le hnm
        rcases keep m hm with hq | ⟨hm', -⟩
        · exact ⟨m + 1, hsucc, hq⟩
        · rcases help m hm hhelps with hq | hlt
          · exact ⟨m + 1, hsucc, hq⟩
          · obtain ⟨j, hj, hq⟩ := ih (μ (m + 1)) (Nat.lt_of_lt_of_le hlt hle) hm' rfl
            exact ⟨j, Nat.le_trans hsucc hj, hq⟩

end Eventually

namespace Trace

variable {S : Type u} {L : Type v} {step : S → L → Option S} {init : S}

/-- Every state of a run is reachable. -/
theorem reachable (t : Trace step init) (n : Nat) : Reachable step init (t.state n) := by
  induction n with
  | zero =>
      rw [t.start]
      exact .refl
  | succ n ih => exact ih.tail (t.next n)

/-! ## A run that ends in a loop -/

variable {s : S} {labels : List L}

/-- The run takes the labels, and from then on steps that lead nowhere else. -/
def idling (hrun : run step init labels = some s) (idle : Nat → L)
    (hidle : ∀ n, step s (idle n) = some s) : Trace step init where
  state n := (run step init (labels.take n)).getD s
  label n := labels[n]?.getD (idle n)
  start := rfl
  next n := by
    by_cases hn : n < labels.length
    · have hsplit : run step init (labels.take n ++ labels.drop n) = some s := by
        rw [List.take_append_drop, hrun]
      obtain ⟨s₁, hfirst, hrest⟩ := run_append.mp hsplit
      rw [List.drop_eq_getElem_cons hn] at hrest
      obtain ⟨s₂, hstep, -⟩ := run_cons.mp hrest
      have hsecond : run step init (labels.take (n + 1)) = some s₂ := by
        rw [List.take_succ_eq_append_getElem hn]
        exact run_concat.mpr ⟨s₁, hfirst, hstep⟩
      rw [hfirst, hsecond, List.getElem?_eq_getElem hn]
      exact hstep
    · have hle : labels.length ≤ n := Nat.le_of_not_lt hn
      rw [List.take_of_length_le hle, List.take_of_length_le (Nat.le_succ_of_le hle), hrun,
        List.getElem?_eq_none hle]
      exact hidle n

variable {hrun : run step init labels = some s} {idle : Nat → L}
  {hidle : ∀ n, step s (idle n) = some s} {n : Nat}

/-- Its states are those of the run. -/
theorem idling_run (n : Nat) :
    run step init (labels.take n) = some ((idling hrun idle hidle).state n) := by
  have hsplit : run step init (labels.take n ++ labels.drop n) = some s := by
    rw [List.take_append_drop, hrun]
  obtain ⟨s₁, hfirst, -⟩ := run_append.mp hsplit
  show _ = some ((run step init (labels.take n)).getD s)
  rw [hfirst]
  rfl

theorem idling_state (hn : labels.length ≤ n) : (idling hrun idle hidle).state n = s := by
  show (run step init (labels.take n)).getD s = s
  rw [List.take_of_length_le hn, hrun]
  rfl

theorem idling_label (hn : labels.length ≤ n) : (idling hrun idle hidle).label n = idle n := by
  show labels[n]?.getD (idle n) = idle n
  rw [List.getElem?_eq_none hn]
  rfl

/-- Every label is one of the run, of those that are still to come, or one of the loop. -/
theorem idling_label_cases {k : Nat} (hk : k ≤ n) :
    (idling hrun idle hidle).label n ∈ labels.drop k ∨
      (idling hrun idle hidle).label n = idle n := by
  by_cases hn : n < labels.length
  · left
    show labels[n]?.getD (idle n) ∈ labels.drop k
    rw [List.getElem?_eq_getElem hn]
    exact List.mem_drop_iff_getElem.mpr ⟨n - k, by omega, getElem_congr_idx (by omega)⟩
  · exact .inr (idling_label (Nat.le_of_not_lt hn))

end Trace

end Transition
