import Mathlib.Data.List.Induction

/-!
# Labelled transition systems given by a step function

A system is a partial step function: `step s l` is the state after the action
`l`, or `none` when `l` is not enabled in `s`. All nondeterminism (which party
moves, what the environment answers) is in the labels, so a run is the list of
its labels and every state a run visits is computed.

`run_induction` is the one induction over runs; invariants, properties along a
run and simulations are instances of it.
-/

namespace Transition

universe u v w x

variable {S : Type u} {L : Type v}

/-- The state after the labels, in order. -/
def run (step : S → L → Option S) : S → List L → Option S
  | s, [] => some s
  | s, l :: ls => (step s l).bind (run step · ls)

/-- The states that some run from `init` ends in. -/
def Reachable (step : S → L → Option S) (init s : S) : Prop :=
  ∃ labels, run step init labels = some s

/-- Every step that the run takes satisfies `P` in the state it is taken from. -/
def Along (step : S → L → Option S) (P : S → L → Prop) : S → List L → Prop
  | _, [] => True
  | s, l :: ls => P s l ∧ ∀ s', step s l = some s' → Along step P s' ls

variable {step : S → L → Option S}

@[simp] theorem run_nil (s : S) : run step s [] = some s := rfl

theorem run_cons {s s' : S} {l : L} {ls : List L} :
    run step s (l :: ls) = some s' ↔ ∃ s₁, step s l = some s₁ ∧ run step s₁ ls = some s' :=
  Option.bind_eq_some_iff

theorem run_append {s : S} {xs ys : List L} {s' : S} :
    run step s (xs ++ ys) = some s' ↔
      ∃ s₁, run step s xs = some s₁ ∧ run step s₁ ys = some s' := by
  induction xs generalizing s with
  | nil => simp
  | cons l ls ih =>
      simp only [List.cons_append, run_cons, ih]
      constructor
      · rintro ⟨s₁, h₁, s₂, h₂, h₃⟩
        exact ⟨s₂, ⟨s₁, h₁, h₂⟩, h₃⟩
      · rintro ⟨s₂, ⟨s₁, h₁, h₂⟩, h₃⟩
        exact ⟨s₁, h₁, s₂, h₂, h₃⟩

theorem run_concat {s s' : S} {ls : List L} {l : L} :
    run step s (ls ++ [l]) = some s' ↔ ∃ s₁, run step s ls = some s₁ ∧ step s₁ l = some s' := by
  simp [run_append, run_cons]

/-- Induction over a run, on a property of the labels taken and the state reached. -/
theorem run_induction {J : List L → S → Prop} {init : S} (start : J [] init)
    (next : ∀ ls s l s', J ls s → step s l = some s' → J (ls ++ [l]) s') {labels : List L} :
    ∀ {s : S}, run step init labels = some s → J labels s := by
  induction labels using List.reverseRecOn with
  | nil => intro s h; cases h; exact start
  | append_singleton ls l ih =>
      intro s h
      obtain ⟨s₁, h₁, h₂⟩ := run_concat.mp h
      exact next ls s₁ l s (ih h₁) h₂

namespace Reachable

variable {init s s' : S}

theorem refl : Reachable step init init := ⟨[], rfl⟩

theorem trans_run {labels : List L} (h : Reachable step init s)
    (hrun : run step s labels = some s') : Reachable step init s' := by
  obtain ⟨ls, hls⟩ := h
  exact ⟨ls ++ labels, run_append.mpr ⟨s, hls, hrun⟩⟩

theorem tail {l : L} (h : Reachable step init s) (hstep : step s l = some s') :
    Reachable step init s' :=
  h.trans_run (run_cons.mpr ⟨s', hstep, run_nil s'⟩)

/-- An invariant of the step function holds in every reachable state. -/
theorem invariant {I : S → Prop} (h : Reachable step init s) (start : I init)
    (next : ∀ s l s', I s → step s l = some s' → I s') : I s := by
  obtain ⟨labels, hrun⟩ := h
  exact run_induction (J := fun _ s => I s) start (fun _ s l s' => next s l s') hrun

/-- An invariant whose preservation uses facts about the reachable states. -/
theorem invariant' {I : S → Prop} (h : Reachable step init s) (start : I init)
    (next : ∀ s l s', Reachable step init s → I s → step s l = some s' → I s') : I s := by
  have both : Reachable step init s ∧ I s := by
    refine h.invariant (I := fun s => Reachable step init s ∧ I s) ⟨refl, start⟩ ?_
    rintro s l s' ⟨hs, hi⟩ hstep
    exact ⟨hs.tail hstep, next s l s' hs hi hstep⟩
  exact both.2

end Reachable

/-! ## Runs whose steps all satisfy a condition -/

theorem along_append {P : S → L → Prop} {s : S} {xs ys : List L} :
    Along step P s (xs ++ ys) ↔
      Along step P s xs ∧ ∀ s', run step s xs = some s' → Along step P s' ys := by
  induction xs generalizing s with
  | nil => simp [Along]
  | cons l ls ih =>
      simp only [List.cons_append, Along, ih, run_cons]
      constructor
      · rintro ⟨hp, h⟩
        refine ⟨⟨hp, fun s' hs' => (h s' hs').1⟩, ?_⟩
        rintro s' ⟨s₁, h₁, h₂⟩
        exact (h s₁ h₁).2 s' h₂
      · rintro ⟨⟨hp, h⟩, h'⟩
        exact ⟨hp, fun s' hs' => ⟨h s' hs', fun s₂ hs₂ => h' s₂ ⟨s', hs', hs₂⟩⟩⟩

/-- Along a run, `P` holds exactly when it holds at each step taken. -/
theorem along_iff {P : S → L → Prop} {s s' : S} {labels : List L}
    (hrun : run step s labels = some s') :
    Along step P s labels ↔
      ∀ xs l ys s₁, labels = xs ++ l :: ys → run step s xs = some s₁ → P s₁ l := by
  constructor
  · rintro h xs l ys s₁ rfl h₁
    exact ((along_append.mp h).2 s₁ h₁).1
  · intro h
    induction labels generalizing s with
    | nil => trivial
    | cons l ls ih =>
        obtain ⟨s₁, h₁, h₂⟩ := run_cons.mp hrun
        refine ⟨h [] l ls s rfl rfl, ?_⟩
        intro s₂ hs₂
        obtain rfl : s₁ = s₂ := Option.some.inj (h₁.symm.trans hs₂)
        refine ih h₂ ?_
        intro xs l' ys s₃ heq hxs
        exact h (l :: xs) l' ys s₃ (by rw [heq, List.cons_append])
          (run_cons.mpr ⟨s₁, h₁, hxs⟩)

/-- An invariant kept by the steps that satisfy `P` holds after every run along `P`. -/
theorem Along.invariant {P : S → L → Prop} {I : S → Prop} {s s' : S} {labels : List L}
    (h : Along step P s labels) (hrun : run step s labels = some s') (start : I s)
    (next : ∀ s l s', I s → P s l → step s l = some s' → I s') : I s' := by
  induction labels generalizing s with
  | nil => cases hrun; exact start
  | cons l ls ih =>
      obtain ⟨s₁, h₁, h₂⟩ := run_cons.mp hrun
      exact ih (h.2 s₁ h₁) h₂ (next s l s₁ start h.1 h₁)

/-! ## Counting the steps of a run -/

/-- How often a run takes a step that satisfies `P` in the state it is taken from. -/
def countAlong (step : S → L → Option S) (P : S → L → Bool) : S → List L → Nat
  | _, [] => 0
  | s, l :: ls => (P s l).toNat +
      match step s l with
      | some s' => countAlong step P s' ls
      | none => 0

theorem countAlong_append {P : S → L → Bool} {s s' : S} {xs : List L} (ys : List L)
    (hrun : run step s xs = some s') :
    countAlong step P s (xs ++ ys) = countAlong step P s xs + countAlong step P s' ys := by
  induction xs generalizing s with
  | nil =>
      cases hrun
      exact (Nat.zero_add _).symm
  | cons l ls ih =>
      obtain ⟨s₁, h₁, h₂⟩ := run_cons.mp hrun
      simp only [List.cons_append, countAlong, h₁, ih h₂]
      exact (Nat.add_assoc _ _ _).symm

theorem countAlong_concat {P : S → L → Bool} {s s' : S} {ls : List L} {l : L}
    (hrun : run step s ls = some s') :
    countAlong step P s (ls ++ [l]) = countAlong step P s ls + (P s' l).toNat := by
  rw [countAlong_append [l] hrun]
  unfold countAlong
  cases step s' l <;> rfl

/-- A measure that the steps with `p` bring down and no step raises bounds how many of them a
    run takes. -/
theorem countP_add_le {p : L → Bool} {I : S → Prop} {μ : S → Nat}
    (keep : ∀ s l s', I s → step s l = some s' → I s' ∧ μ s' + (p l).toNat ≤ μ s)
    {labels : List L} : ∀ {s s' : S}, run step s labels = some s' → I s →
      labels.countP p + μ s' ≤ μ s := by
  induction labels with
  | nil =>
      intro s s' hrun _
      cases hrun
      exact Nat.le_of_eq (Nat.zero_add _)
  | cons l ls ih =>
      intro s s' hrun hI
      obtain ⟨s₁, hstep, hrun⟩ := run_cons.mp hrun
      obtain ⟨hI₁, hle⟩ := keep s l s₁ hI hstep
      have hrest := ih hrun hI₁
      rw [List.countP_cons]
      cases hp : p l <;> simp only [hp, Bool.toNat_false, Bool.toNat_true] at hle <;>
        simp only [if_true, Bool.false_eq_true, if_false] <;> omega

/-! ## Simulation -/

/-- `view` maps every step of the concrete system to a step of the abstract one, or to
none at all. -/
def Simulates {T : Type w} {M : Type x} (step : S → L → Option S) (abstract : T → M → Option T)
    (view : S → T) : Prop :=
  ∀ s l s', step s l = some s' →
    view s' = view s ∨ ∃ m, abstract (view s) m = some (view s')

theorem Reachable.simulate {T : Type w} {M : Type x} {abstract : T → M → Option T} {view : S → T}
    {init s : S} (h : Reachable step init s) (sim : Simulates step abstract view) :
    Reachable abstract (view init) (view s) := by
  refine h.invariant (I := fun s => Reachable abstract (view init) (view s)) .refl ?_
  intro s l s' hs hstep
  rcases sim s l s' hstep with same | ⟨m, hm⟩
  · rw [same]; exact hs
  · exact hs.tail hm

end Transition
