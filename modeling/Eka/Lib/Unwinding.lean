import Mathlib.Data.List.Basic

/-!
# Purging a history

A machine takes one input after the other and answers each. A viewer sees the answers to its own
inputs. When two states that agree for the viewer answer an input of its own alike and agree again,
and every other input leaves a state that agrees with the one before, the viewer cannot tell a
history from the one without the inputs of others.
-/

namespace Transition

universe u v w

variable {S : Type u} {I : Type v} {O : Type w}

/-- The answers to the inputs of `own`, in order. -/
def seen (step : S → I → O × S) (own : I → Bool) : S → List I → List O
  | _, [] => []
  | s, i :: is =>
      if own i then (step s i).1 :: seen step own (step s i).2 is
      else seen step own (step s i).2 is

/-- The state after all inputs. -/
def after (step : S → I → O × S) (s : S) (is : List I) : S := is.foldl (fun s i => (step s i).2) s

/-- What the viewer needs of the machine; `fits` is what is asked of a state and the inputs that
    are still to come. -/
structure Unwinds (step : S → I → O × S) (own : I → Bool) (agrees : S → S → Prop)
    (fits : S → List I → Prop) : Prop where
  next : ∀ s i is, fits s (i :: is) → fits (step s i).2 is
  trans : ∀ s₁ s₂ s₃, agrees s₁ s₂ → agrees s₂ s₃ → agrees s₁ s₃
  symm : ∀ s₁ s₂, agrees s₁ s₂ → agrees s₂ s₁
  others : ∀ s i is, fits s (i :: is) → own i = false → agrees s (step s i).2
  same : ∀ s₁ s₂ i is is', agrees s₁ s₂ → fits s₁ (i :: is) → fits s₂ (i :: is') → own i = true →
    (step s₁ i).1 = (step s₂ i).1 ∧ agrees (step s₁ i).2 (step s₂ i).2

variable {step : S → I → O × S} {own : I → Bool} {agrees : S → S → Prop}
  {fits : S → List I → Prop}

/-- By induction on the history: the two runs agree as long as the shorter one waits for the
    inputs of others to pass. -/
theorem Unwinds.purge (h : Unwinds step own agrees fits) {is : List I} : ∀ {s₁ s₂ : S},
    agrees s₁ s₂ → fits s₁ is → fits s₂ (is.filter own) →
      seen step own s₁ is = seen step own s₂ (is.filter own) ∧
        agrees (after step s₁ is) (after step s₂ (is.filter own)) := by
  induction is with
  | nil => exact fun hagrees _ _ => ⟨rfl, hagrees⟩
  | cons i is ih =>
      intro s₁ s₂ hagrees hfits₁ hfits₂
      cases hown : own i with
      | false =>
          rw [List.filter_cons_of_neg (Bool.not_eq_true _ ▸ hown)] at hfits₂ ⊢
          have hother := h.symm _ _ (h.others s₁ i is hfits₁ hown)
          obtain ⟨hseen, hafter⟩ :=
            ih (h.trans _ _ _ hother hagrees) (h.next s₁ i is hfits₁) hfits₂
          refine ⟨?_, hafter⟩
          rw [← hseen, seen, hown]
          rfl
      | true =>
          rw [List.filter_cons_of_pos hown] at hfits₂ ⊢
          obtain ⟨hanswer, hagrees'⟩ := h.same s₁ s₂ i is _ hagrees hfits₁ hfits₂ hown
          obtain ⟨hseen, hafter⟩ :=
            ih hagrees' (h.next s₁ i is hfits₁) (h.next s₂ i _ hfits₂)
          refine ⟨?_, hafter⟩
          rw [seen, seen, if_pos hown, if_pos hown, hanswer, hseen]

end Transition
