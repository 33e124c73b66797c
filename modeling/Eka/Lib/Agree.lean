import Mathlib.Logic.Equiv.Basic
import Eka.Lib.Select
import Eka.Lib.Table

/-!
# Relations that agree on the rows of one owner

Two relations agree when the rows that `own` selects are the same in both. A statement
that touches no such row leaves a relation that agrees with the one before, and a query
that looks at such rows alone cannot tell two relations that agree apart.
-/

namespace Relational

universe u

variable {R : Type u} {clash : R → R → Prop}

namespace Table

/-- The rows of `own` are the same in both. -/
def Agree (own : R → Prop) (t₁ t₂ : Table R clash) : Prop :=
  ∀ r, own r → (r ∈ t₁.rows ↔ r ∈ t₂.rows)

/-- The rows of `own` in `t₂` are those of `t₁`, renamed. -/
def AgreeUpTo (rename : R → R) (own : R → Prop) (t₁ t₂ : Table R clash) : Prop :=
  ∀ r, own r → (r ∈ t₁.rows ↔ rename r ∈ t₂.rows)

variable {own : R → Prop} {t t' t₁ t₂ t₃ t₁' t₂' : Table R clash} {p : R → Bool} {f : R → R}
  {r : R}

namespace Agree

theorem refl (own : R → Prop) (t : Table R clash) : Agree own t t := fun _ _ => Iff.rfl

theorem symm (h : Agree own t₁ t₂) : Agree own t₂ t₁ := fun r hr => (h r hr).symm

theorem trans (h : Agree own t₁ t₂) (h' : Agree own t₂ t₃) : Agree own t₁ t₃ :=
  fun r hr => (h r hr).trans (h' r hr)

end Agree

/-! ## Statements on the rows of others -/

theorem agree_update (keep : KeepsKeys clash f) (hf : ∀ r, own (f r) ↔ own r)
    (hp : ∀ r ∈ t.rows, p r = true → ¬ own r) : Agree own t (t.update p f keep) := by
  intro r hr
  rw [mem_update]
  constructor
  · intro hmem
    exact ⟨r, hmem, patch_of_neg (Bool.eq_false_iff.mpr fun hsel => hp r hmem hsel hr)⟩
  · rintro ⟨a, ha, rfl⟩
    by_cases hsel : p a = true
    · rw [patch_of_pos hsel, hf] at hr
      exact absurd hr (hp a ha hsel)
    · rw [patch_of_neg (Bool.eq_false_iff.mpr hsel)]
      exact ha

variable [DecidableRel clash]

theorem agree_insert (h : t.insert r = some t') (hr : ¬ own r) : Agree own t t' := by
  intro x hx
  rw [mem_insert h]
  refine ⟨.inl, fun hmem => hmem.resolve_right ?_⟩
  rintro rfl
  exact hr hx

/-! ## The same statement on both -/

theorem Agree.insert (h : Agree own t₁ t₂) (h₁ : t₁.insert r = some t₁')
    (h₂ : t₂.insert r = some t₂') : Agree own t₁' t₂' := by
  intro x hx
  rw [mem_insert h₁, mem_insert h₂, h x hx]

/-- Rows that clash with the same rows of `own`, and with no others, are refused together. -/
theorem Agree.insert_eq_none (h : Agree own t₁ t₂) {r₁ r₂ : R}
    (h₁ : ∀ a ∈ t₁.rows, clash a r₁ → own a ∧ clash a r₂)
    (h₂ : ∀ a ∈ t₂.rows, clash a r₂ → own a ∧ clash a r₁) :
    t₁.insert r₁ = none ↔ t₂.insert r₂ = none := by
  rw [Table.insert_eq_none, Table.insert_eq_none]
  constructor
  · rintro ⟨a, ha, hclash⟩
    obtain ⟨hown, hclash'⟩ := h₁ a ha hclash
    exact ⟨a, (h a hown).mp ha, hclash'⟩
  · rintro ⟨a, ha, hclash⟩
    obtain ⟨hown, hclash'⟩ := h₂ a ha hclash
    exact ⟨a, (h a hown).mpr ha, hclash'⟩

omit [DecidableRel clash]

theorem Agree.update (h : Agree own t₁ t₂) (keep : KeepsKeys clash f)
    (hf : ∀ r, own (f r) ↔ own r) : Agree own (t₁.update p f keep) (t₂.update p f keep) := by
  have hpatch : ∀ r, own (patch p f r) ↔ own r := by
    intro r
    unfold patch
    split
    · exact hf r
    · rfl
  intro r hr
  simp only [mem_update]
  constructor
  · rintro ⟨a, ha, rfl⟩
    exact ⟨a, (h a ((hpatch a).mp hr)).mp ha, rfl⟩
  · rintro ⟨a, ha, rfl⟩
    exact ⟨a, (h a ((hpatch a).mp hr)).mpr ha, rfl⟩

/-! ## Two new keys -/

section Keys

variable {K : Type*} [DecidableEq K] {key : R → K} {k₁ k₂ : K} {rename : R → R}

/-- Exchanging two keys does nothing to rows that have neither. -/
theorem Agree.upTo (h : Agree own t₁ t₂) (hkey : ∀ r, key (rename r) = Equiv.swap k₁ k₂ (key r))
    (hfix : ∀ r, key r ≠ k₁ → key r ≠ k₂ → rename r = r) (hown : ∀ r, own (rename r) ↔ own r)
    (h₁ : ∀ r ∈ t₁.rows, key r ≠ k₁) (h₂ : ∀ r ∈ t₂.rows, key r ≠ k₂) :
    AgreeUpTo rename own t₁ t₂ := by
  intro r hr
  have hrename : own (rename r) := (hown r).mpr hr
  by_cases hk₁ : key r = k₁
  · -- neither `r` nor its image is stored
    refine iff_of_false (fun hmem => h₁ r hmem hk₁) fun hmem => h₂ _ hmem ?_
    rw [hkey, hk₁, Equiv.swap_apply_left]
  · by_cases hk₂ : key r = k₂
    · refine iff_of_false (fun hmem => h₂ r ((h r hr).mp hmem) hk₂) fun hmem =>
        h₁ _ ((h _ hrename).mpr hmem) ?_
      rw [hkey, hk₂, Equiv.swap_apply_right]
    · rw [hfix r hk₁ hk₂]
      exact h r hr

theorem AgreeUpTo.insert [DecidableRel clash] (h : AgreeUpTo rename own t₁ t₂)
    (hinjective : Function.Injective rename) (h₁ : t₁.insert r = some t₁')
    (h₂ : t₂.insert (rename r) = some t₂') : AgreeUpTo rename own t₁' t₂' := by
  intro x hx
  rw [mem_insert h₁, mem_insert h₂, h x hx, hinjective.eq_iff]

end Keys

/-! ## Queries -/

theorem Agree.find? (h : Agree own t₁ t₂) (hown : ∀ r, p r = true → own r)
    (unique : ∀ a b, p a = true → p b = true → clash a b) : t₁.find? p = t₂.find? p := by
  ext r
  rw [find?_eq_some_iff unique, find?_eq_some_iff unique]
  exact and_congr_left fun hsel => h r (hown r hsel)

theorem nodup_rows (t : Table R clash) (hrefl : ∀ r, clash r r) : t.rows.Nodup := by
  refine t.distinct.imp ?_
  rintro a b hab rfl
  exact hab (hrefl a)

theorem Agree.filter_perm (h : Agree own t₁ t₂) (hrefl : ∀ r, clash r r)
    (hown : ∀ r, p r = true → own r) : (t₁.rows.filter p).Perm (t₂.rows.filter p) := by
  rw [List.perm_ext_iff_of_nodup ((t₁.nodup_rows hrefl).filter p)
    ((t₂.nodup_rows hrefl).filter p)]
  intro r
  rw [List.mem_filter, List.mem_filter]
  exact and_congr_left fun hsel => h r (hown r hsel)

theorem Agree.select (h : Agree own t₁ t₂) (hrefl : ∀ r, clash r r)
    (hown : ∀ r, p r = true → own r) (ties : Arrangement R) (le : R → R → Bool) :
    Relational.select ties p le t₁.rows = Relational.select ties p le t₂.rows :=
  select_congr (h.filter_perm hrefl hown)

end Table

end Relational
