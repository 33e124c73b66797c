import Mathlib.Data.List.Basic

/-!
# Sagas

A computation over a shared state that may raise. What it wrote before it raised
stays: every write is a transaction of its own that has been committed, and nothing
rolls the earlier ones back. That is a state under an exception, in this order.
-/

universe u v

/-- A computation on a state `σ` that returns an `α` or raises an `ε`. -/
def Saga (σ : Type u) (ε : Type v) (α : Type v) := σ → Except ε α × σ

namespace Saga

variable {σ : Type u} {ε α β : Type v}

instance : Monad (Saga σ ε) where
  pure a := fun s => (.ok a, s)
  bind x f := fun s =>
    match x s with
    | (.ok a, s') => f a s'
    | (.error e, s') => (.error e, s')

/-- Raise, with the state as it is. -/
def raise (e : ε) : Saga σ ε α := fun s => (.error e, s)

/-- Read something off the state, or raise. -/
def query (f : σ → Except ε α) : Saga σ ε α := fun s => (f s, s)

/-- Read something off the state. -/
def read (f : σ → α) : Saga σ ε α := fun s => (.ok (f s), s)

/-- Assign to the state. -/
def modify (f : σ → σ) : Saga σ ε PUnit := fun s => (.ok ⟨⟩, f s)

/-- Commit a change of the state, or raise and leave it. -/
def transact (f : σ → Except ε σ) : Saga σ ε PUnit := fun s =>
  match f s with
  | .ok s' => (.ok ⟨⟩, s')
  | .error e => (.error e, s)

/-- Answer and change the state at once, or raise and leave it. -/
def perform (f : σ → Except ε (α × σ)) : Saga σ ε α := fun s =>
  match f s with
  | .ok (a, s') => (.ok a, s')
  | .error e => (.error e, s)

/-- `try`: the answer or the exception, as a value. -/
def attempt (x : Saga σ ε α) : Saga σ ε (Except ε α) := fun s => (.ok (x s).1, (x s).2)

instance : LawfulMonad (Saga σ ε) := LawfulMonad.mk' _
  (fun x => by
    funext s
    show (match x s with
      | (.ok a, s') => (.ok a, s')
      | (.error e, s') => (.error e, s')) = x s
    rcases x s with ⟨_ | _, _⟩ <;> rfl)
  (fun _ _ => rfl)
  (fun x f g => by
    funext s
    show (match (match x s with
        | (.ok a, s') => f a s'
        | (.error e, s') => (.error e, s')) with
      | (.ok b, s') => g b s'
      | (.error e, s') => (.error e, s')) =
      match x s with
      | (.ok a, s') => (f a >>= g) s'
      | (.error e, s') => (.error e, s')
    rcases x s with ⟨_ | _, _⟩ <;> rfl)

theorem bind_apply (x : Saga σ ε α) (f : α → Saga σ ε β) (s : σ) : (x >>= f) s =
    match x s with
    | (.ok a, s') => f a s'
    | (.error e, s') => (.error e, s') := rfl

theorem bind_of_ok {x : Saga σ ε α} {f : α → Saga σ ε β} {s s' : σ} {a : α}
    (h : x s = (.ok a, s')) : (x >>= f) s = f a s' := by
  rw [bind_apply, h]

theorem bind_of_error {x : Saga σ ε α} {f : α → Saga σ ε β} {s s' : σ} {e : ε}
    (h : x s = (.error e, s')) : (x >>= f) s = (.error e, s') := by
  rw [bind_apply, h]

/-- A sequence ends where its first part raised, or where its second part ends. -/
theorem bind_cases {x : Saga σ ε α} {f : α → Saga σ ε β} {s : σ} {p : Except ε β × σ → Prop}
    (raised : ∀ e s₁, x s = (.error e, s₁) → p (.error e, s₁))
    (went : ∀ a s₁, x s = (.ok a, s₁) → p (f a s₁)) : p ((x >>= f) s) := by
  rcases hx : x s with ⟨e | a, s₁⟩
  · rw [bind_of_error hx]
    exact raised e s₁ hx
  · rw [bind_of_ok hx]
    exact went a s₁ hx

/-- A sequence that returned has returned twice. -/
theorem bind_ok {x : Saga σ ε α} {f : α → Saga σ ε β} {s s' : σ} {b : β} :
    (x >>= f) s = (.ok b, s') ↔ ∃ a s₁, x s = (.ok a, s₁) ∧ f a s₁ = (.ok b, s') := by
  rw [bind_apply]
  rcases hx : x s with ⟨_ | a, s₁⟩
  · simp
  · simp

/-- A continuation that only answers leaves the state of what it continues. -/
theorem bind_snd {x : Saga σ ε α} {f : α → Saga σ ε β} (hf : ∀ a s, (f a s).2 = s) (s : σ) :
    ((x >>= f) s).2 = (x s).2 := by
  rw [bind_apply]
  rcases x s with ⟨_ | a, s₁⟩
  · rfl
  · exact hf a s₁

theorem read_bind (f : σ → α) (g : α → Saga σ ε β) (s : σ) : (read f >>= g) s = g (f s) s := rfl

theorem transact_of_ok {f : σ → Except ε σ} {s s' : σ} (h : f s = .ok s') :
    transact f s = (.ok ⟨⟩, s') := by
  unfold transact
  rw [h]

theorem query_ok {f : σ → Except ε α} {s s' : σ} {a : α} (h : query f s = (.ok a, s')) :
    f s = .ok a ∧ s' = s := by
  obtain ⟨h₁, h₂⟩ := Prod.mk.injEq .. ▸ h
  exact ⟨h₁, h₂.symm⟩

theorem transact_ok {f : σ → Except ε σ} {s s' : σ} {u : PUnit}
    (h : transact f s = (.ok u, s')) : f s = .ok s' := by
  unfold transact at h
  cases hf : f s with
  | ok s₁ =>
      rw [hf] at h
      cases h
      rfl
  | error e =>
      rw [hf] at h
      cases h

theorem transact_of_error {f : σ → Except ε σ} {s : σ} {e : ε} (h : f s = .error e) :
    transact f s = (.error e, s) := by
  unfold transact
  rw [h]

theorem perform_error {f : σ → Except ε (α × σ)} {s s' : σ} {e : ε}
    (h : perform f s = (.error e, s')) : s' = s := by
  unfold perform at h
  cases hf : f s with
  | ok p =>
      rw [hf] at h
      cases h
  | error e' =>
      rw [hf] at h
      cases h
      rfl

theorem transact_bind_pure (f : σ → Except ε σ) (a : α) :
    (transact f >>= fun _ => pure a) = perform fun s => (f s).map fun s' => (a, s') := by
  funext s
  unfold perform
  cases hf : f s with
  | ok s' =>
      rw [bind_of_ok (transact_of_ok hf)]
      simp only [hf]
      rfl
  | error e =>
      rw [bind_of_error (transact_of_error hf)]
      simp only [hf]
      rfl

/-! ## What may be raised -/

/-- Every exception that leaves the computation has the property. -/
def Raises (p : ε → Prop) (x : Saga σ ε α) : Prop := ∀ s e, (x s).1 = .error e → p e

namespace Raises

variable {p : ε → Prop}

theorem pure (a : α) : Raises p (pure a : Saga σ ε α) := by
  intro s e h
  cases h

theorem raise {e : ε} (h : p e) : Raises p (raise e : Saga σ ε α) := by
  intro s e' he
  cases he
  exact h

theorem query {f : σ → Except ε α} (h : ∀ s e, f s = .error e → p e) : Raises p (query f) := h

theorem transact {f : σ → Except ε σ} (h : ∀ s e, f s = .error e → p e) :
    Raises p (transact f) := by
  intro s e he
  unfold Saga.transact at he
  cases hf : f s with
  | ok s' =>
      rw [hf] at he
      cases he
  | error e' =>
      rw [hf] at he
      cases he
      exact h s _ hf

theorem bind {x : Saga σ ε α} {f : α → Saga σ ε β} (hx : Raises p x) (hf : ∀ a, Raises p (f a)) :
    Raises p (x >>= f) := by
  intro s e he
  rw [bind_apply] at he
  rcases hrun : x s with ⟨e' | a, s'⟩
  · rw [hrun] at he
    cases he
    exact hx s e (by rw [hrun])
  · rw [hrun] at he
    exact hf a s' e he

end Raises

end Saga
