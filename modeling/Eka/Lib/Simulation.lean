import Mathlib.Data.List.Basic

/-!
# Machines that answer alike

A machine takes one input after the other and answers each. Two machines whose states are related
answer the inputs to come alike, when each input is answered alike and leaves related states.
-/

namespace Simulation

universe u v w x

variable {S : Type u} {S' : Type v} {I : Type w} {O : Type x}

/-- The answers to the inputs, in order. -/
def answers (step : S → I → O × S) : S → List I → List O
  | _, [] => []
  | s, i :: is => (step s i).1 :: answers step (step s i).2 is

/-- `related` may look at the inputs that are still to come. -/
def Simulates (step : S → I → O × S) (step' : S' → I → O × S')
    (related : S → S' → List I → Prop) : Prop :=
  ∀ s s' i is, related s s' (i :: is) →
    (step s i).1 = (step' s' i).1 ∧ related (step s i).2 (step' s' i).2 is

theorem Simulates.answers_eq {step : S → I → O × S} {step' : S' → I → O × S'}
    {related : S → S' → List I → Prop} (h : Simulates step step' related) {is : List I} :
    ∀ {s : S} {s' : S'}, related s s' is → answers step s is = answers step' s' is := by
  induction is with
  | nil => exact fun _ => rfl
  | cons i is ih =>
      intro s s' hrelated
      obtain ⟨hanswer, hnext⟩ := h s s' i is hrelated
      rw [answers, answers, hanswer, ih hnext]

end Simulation
