import Mathlib.Data.List.Forall2

/-!
# Computations that may raise

Inversion of `Except` computations: what a computation that returned must have done
on the way. With `bind_ok` a `do` block is taken apart without unfolding it, and with
`mapM_ok` a loop over a list is the list of its results.
-/

namespace Fallible

universe u v w

variable {ε : Type u} {α β : Type v} {γ : Type w}

theorem bind_ok {x : Except ε α} {f : α → Except ε β} {b : β} :
    (x >>= f) = .ok b ↔ ∃ a, x = .ok a ∧ f a = .ok b := by
  cases x with
  | error e =>
      constructor
      · intro h; cases h
      · rintro ⟨_, h, _⟩; cases h
  | ok a =>
      constructor
      · intro h; exact ⟨a, rfl, h⟩
      · rintro ⟨_, h, hf⟩; cases h; exact hf

theorem map_ok {x : Except ε α} {f : α → β} {b : β} :
    x.map f = .ok b ↔ ∃ a, x = .ok a ∧ f a = b := by
  cases x with
  | error e =>
      constructor
      · intro h; cases h
      · rintro ⟨_, h, _⟩; cases h
  | ok a =>
      constructor
      · intro h; exact ⟨a, rfl, Except.ok.inj h⟩
      · rintro ⟨_, h, hf⟩; cases h; rw [← hf]; rfl

/-- A loop that returned has run its body on every element. -/
theorem mapM_ok {f : γ → Except ε α} {xs : List γ} {ys : List α} :
    xs.mapM f = .ok ys ↔ List.Forall₂ (fun x y => f x = .ok y) xs ys := by
  induction xs generalizing ys with
  | nil =>
      rw [List.mapM_nil, List.forall₂_nil_left_iff]
      exact ⟨fun h => (Except.ok.inj h).symm, fun h => by rw [h]; rfl⟩
  | cons x xs ih =>
      rw [List.mapM_cons, bind_ok, List.forall₂_cons_left_iff]
      constructor
      · rintro ⟨y, hy, h⟩
        obtain ⟨ys', hys, h⟩ := bind_ok.mp h
        cases h
        exact ⟨y, ys', hy, ih.mp hys, rfl⟩
      · rintro ⟨y, ys', hy, hys, rfl⟩
        exact ⟨y, hy, bind_ok.mpr ⟨ys', ih.mpr hys, rfl⟩⟩

/-- A column of the results that each element determines. -/
theorem map_of_mapM_ok {δ : Type*} {f : γ → Except ε α} {xs : List γ} {ys : List α}
    (h : xs.mapM f = .ok ys) {g : α → δ} {k : γ → δ} (hfg : ∀ x y, f x = .ok y → g y = k x) :
    ys.map g = xs.map k := by
  have hall := mapM_ok.mp h
  clear h
  induction hall with
  | nil => rfl
  | cons hxy _ ih => rw [List.map_cons, List.map_cons, hfg _ _ hxy, ih]

/-- Every result of a loop is the result of its body on some element. -/
theorem mem_of_mapM_ok {f : γ → Except ε α} {xs : List γ} {ys : List α} (h : xs.mapM f = .ok ys)
    {y : α} (hy : y ∈ ys) : ∃ x ∈ xs, f x = .ok y := by
  have hall := mapM_ok.mp h
  clear h
  induction hall with
  | nil => cases hy
  | @cons x _ xs _ hxy _ ih =>
      rcases List.mem_cons.mp hy with rfl | hy
      · exact ⟨x, List.mem_cons_self, hxy⟩
      · obtain ⟨x', hx', hf⟩ := ih hy
        exact ⟨x', List.mem_cons_of_mem _ hx', hf⟩

/-- Every element of a loop has its result. -/
theorem exists_of_mapM_ok {f : γ → Except ε α} {xs : List γ} {ys : List α} (h : xs.mapM f = .ok ys)
    {x : γ} (hx : x ∈ xs) : ∃ y ∈ ys, f x = .ok y := by
  have hall := mapM_ok.mp h
  clear h
  induction hall with
  | nil => cases hx
  | @cons x' y xs ys hxy _ ih =>
      rcases List.mem_cons.mp hx with rfl | hx
      · exact ⟨y, List.mem_cons_self, hxy⟩
      · obtain ⟨y', hy', hf⟩ := ih hx
        exact ⟨y', List.mem_cons_of_mem _ hy', hf⟩

/-- A loop whose body returns on every element returns. -/
theorem exists_mapM_ok {f : γ → Except ε α} {xs : List γ} (h : ∀ x ∈ xs, ∃ y, f x = .ok y) :
    ∃ ys, xs.mapM f = .ok ys := by
  induction xs with
  | nil => exact ⟨[], rfl⟩
  | cons x xs ih =>
      obtain ⟨y, hy⟩ := h x List.mem_cons_self
      obtain ⟨ys, hys⟩ := ih fun x' hx' => h x' (List.mem_cons_of_mem _ hx')
      exact ⟨y :: ys, mapM_ok.mpr (.cons hy (mapM_ok.mp hys))⟩

theorem map_error {x : Except ε α} {f : α → β} {e : ε} : x.map f = .error e ↔ x = .error e := by
  cases x with
  | error e' =>
      constructor
      · intro h; cases h; rfl
      · intro h; cases h; rfl
  | ok a =>
      constructor
      · intro h; cases h
      · intro h; cases h

/-- A sequence raises what one of its parts raises. -/
theorem bind_error {x : Except ε α} {f : α → Except ε β} {e : ε} (h : (x >>= f) = .error e) :
    x = .error e ∨ ∃ a, x = .ok a ∧ f a = .error e := by
  cases x with
  | error e' =>
      cases h
      exact .inl rfl
  | ok a => exact .inr ⟨a, rfl, h⟩

/-- A loop raises what its body raises on an element. -/
theorem mapM_error {f : γ → Except ε α} {xs : List γ} {e : ε} (h : xs.mapM f = .error e) :
    ∃ x ∈ xs, f x = .error e := by
  induction xs with
  | nil => cases h
  | cons x xs ih =>
      rw [List.mapM_cons] at h
      rcases bind_error h with h | ⟨y, -, h⟩
      · exact ⟨x, List.mem_cons_self, h⟩
      · rcases bind_error h with h | ⟨ys, -, h⟩
        · obtain ⟨x', hx', hf⟩ := ih h
          exact ⟨x', List.mem_cons_of_mem _ hx', hf⟩
        · cases h

/-- Both raise the same or return related values. -/
inductive Both {β' : Type v} (related : β → β' → Prop) : Except ε β → Except ε β' → Prop
  | error (e : ε) : Both related (.error e) (.error e)
  | ok {b : β} {b' : β'} (h : related b b') : Both related (.ok b) (.ok b')

namespace Both

theorem refl (x : Except ε β) : Both (· = ·) x x := by
  cases x with
  | error e => exact .error e
  | ok b => exact .ok rfl

theorem bind {α' β' : Type v} {related : α → α' → Prop} {related' : β → β' → Prop}
    {x : Except ε α} {x' : Except ε α'} {f : α → Except ε β} {f' : α' → Except ε β'}
    (h : Both related x x') (hf : ∀ a a', related a a' → Both related' (f a) (f' a')) :
    Both related' (x >>= f) (x' >>= f') := by
  cases h with
  | error e => exact .error e
  | ok h => exact hf _ _ h

end Both

end Fallible
