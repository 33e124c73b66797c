import Mathlib.Data.List.Basic
import Mathlib.Data.List.Nodup

/-!
# Tables under uniqueness constraints

A relation as the list of its rows, with the primary key and the `UNIQUE`
constraints folded into one relation `clash`: two rows clash when they may not
both be stored. The invariant is a field, so a table that breaks a constraint
cannot be built; a statement that would break it returns `none`, the
integrity error of the database.

`update` is an `UPDATE` whose assignments leave the constrained columns alone,
`update?` one that may touch them.
-/

namespace Relational

universe u

/-- The rows of a relation, no two of which `clash`. -/
structure Table (R : Type u) (clash : R → R → Prop) where
  rows : List R
  distinct : rows.Pairwise fun a b => ¬ clash a b

/-- The assignments `f` of an `UPDATE` leave the constrained columns unchanged. -/
structure KeepsKeys {R : Type u} (clash : R → R → Prop) (f : R → R) : Prop where
  left : ∀ a b, clash (f a) b ↔ clash a b
  right : ∀ a b, clash a (f b) ↔ clash a b

/-- One row under `UPDATE ... SET f WHERE p`. -/
def patch {R : Type u} (p : R → Bool) (f : R → R) (r : R) : R := if p r then f r else r

namespace Table

variable {R : Type u} {clash : R → R → Prop}

/-- The relation without rows. -/
def empty : Table R clash := ⟨[], .nil⟩

/-- `SELECT ... WHERE p`, read as its first row. -/
def find? (t : Table R clash) (p : R → Bool) : Option R := t.rows.find? p

/-- `INSERT`. -/
def insert [DecidableRel clash] (t : Table R clash) (r : R) : Option (Table R clash) :=
  if h : ∀ a ∈ t.rows, ¬ clash a r then
    some ⟨t.rows ++ [r], by
      refine List.pairwise_append.mpr ⟨t.distinct, List.pairwise_singleton _ _, ?_⟩
      intro a ha b hb
      rw [List.mem_singleton.mp hb]
      exact h a ha⟩
  else none

/-- `INSERT` of several rows, in order; the first clash fails the whole. -/
def insertAll [DecidableRel clash] : Table R clash → List R → Option (Table R clash)
  | t, [] => some t
  | t, r :: rs => (t.insert r).bind (insertAll · rs)

/-- `DELETE ... WHERE p`. -/
def deleteWhere (t : Table R clash) (p : R → Bool) : Table R clash :=
  ⟨t.rows.filter fun r => !p r, t.distinct.filter _⟩

/-- `UPDATE ... SET f WHERE p` on columns without a constraint. -/
def update (t : Table R clash) (p : R → Bool) (f : R → R) (keep : KeepsKeys clash f) :
    Table R clash :=
  ⟨t.rows.map (patch p f), by
    refine List.pairwise_map.mpr (t.distinct.imp ?_)
    intro a b hab
    unfold patch
    split <;> split <;> simpa only [keep.left, keep.right] using hab⟩

/-- `UPDATE ... SET f WHERE p`, checked against the constraints. -/
def update? [DecidableRel clash] (t : Table R clash) (p : R → Bool) (f : R → R) :
    Option (Table R clash) :=
  if h : (t.rows.map (patch p f)).Pairwise fun a b => ¬ clash a b then some ⟨_, h⟩ else none

theorem ext {t t' : Table R clash} (h : t.rows = t'.rows) : t = t' := by
  cases t; cases t'; cases h; rfl

@[simp] theorem rows_empty : (empty : Table R clash).rows = [] := rfl

@[simp] theorem rows_deleteWhere (t : Table R clash) (p : R → Bool) :
    (t.deleteWhere p).rows = t.rows.filter fun r => !p r := rfl

@[simp] theorem rows_update (t : Table R clash) (p : R → Bool) (f : R → R)
    (keep : KeepsKeys clash f) : (t.update p f keep).rows = t.rows.map (patch p f) := rfl

theorem mem_update {t : Table R clash} {p : R → Bool} {f : R → R} {keep : KeepsKeys clash f}
    {r : R} : r ∈ (t.update p f keep).rows ↔ ∃ a ∈ t.rows, patch p f a = r :=
  List.mem_map

theorem mem_deleteWhere {t : Table R clash} {p : R → Bool} {r : R} :
    r ∈ (t.deleteWhere p).rows ↔ r ∈ t.rows ∧ p r = false := by
  simp

theorem update?_eq_update [DecidableRel clash] {t : Table R clash} {p : R → Bool} {f : R → R}
    (keep : KeepsKeys clash f) : t.update? p f = some (t.update p f keep) :=
  dif_pos (t.update p f keep).distinct

/-! ## Insertion -/

variable [DecidableRel clash]

theorem insert_rows {t t' : Table R clash} {r : R} (h : t.insert r = some t') :
    t'.rows = t.rows ++ [r] := by
  unfold insert at h
  split at h
  · cases h; rfl
  · cases h

theorem mem_insert {t t' : Table R clash} {r x : R} (h : t.insert r = some t') :
    x ∈ t'.rows ↔ x ∈ t.rows ∨ x = r := by
  rw [insert_rows h, List.mem_append, List.mem_singleton]

theorem not_clash_of_insert {t t' : Table R clash} {r : R} (h : t.insert r = some t') :
    ∀ a ∈ t.rows, ¬ clash a r := by
  unfold insert at h
  split at h
  · assumption
  · cases h

theorem exists_insert {t : Table R clash} {r : R} (h : ∀ a ∈ t.rows, ¬ clash a r) :
    ∃ t', t.insert r = some t' := by
  unfold insert
  exact ⟨_, dif_pos h⟩

theorem insert_eq_none {t : Table R clash} {r : R} :
    t.insert r = none ↔ ∃ a ∈ t.rows, clash a r := by
  unfold insert
  split
  · next h =>
      constructor
      · intro h'; cases h'
      · rintro ⟨a, ha, hc⟩; exact absurd hc (h a ha)
  · next h =>
      refine ⟨fun _ => ?_, fun _ => rfl⟩
      simpa only [not_forall, not_not, exists_prop] using h

theorem insertAll_rows {t t' : Table R clash} {rs : List R} (h : t.insertAll rs = some t') :
    t'.rows = t.rows ++ rs := by
  induction rs generalizing t with
  | nil => cases h; exact (List.append_nil _).symm
  | cons r rs ih =>
      obtain ⟨t₁, h₁, h₂⟩ := Option.bind_eq_some_iff.mp h
      rw [ih h₂, insert_rows h₁, List.append_assoc, List.singleton_append]

theorem exists_insertAll {t : Table R clash} {rs : List R}
    (hnew : rs.Pairwise fun a b => ¬ clash a b) (hold : ∀ a ∈ t.rows, ∀ r ∈ rs, ¬ clash a r) :
    ∃ t', t.insertAll rs = some t' := by
  induction rs generalizing t with
  | nil => exact ⟨t, rfl⟩
  | cons r rs ih =>
      obtain ⟨hr, hrs⟩ := List.pairwise_cons.mp hnew
      obtain ⟨t₁, h₁⟩ := exists_insert fun a ha => hold a ha r List.mem_cons_self
      have hold₁ : ∀ a ∈ t₁.rows, ∀ x ∈ rs, ¬ clash a x := by
        intro a ha x hx
        rcases (mem_insert h₁).mp ha with ha | rfl
        · exact hold a ha x (List.mem_cons_of_mem _ hx)
        · exact hr x hx
      obtain ⟨t', h'⟩ := ih hrs hold₁
      exact ⟨t', Option.bind_eq_some_iff.mpr ⟨t₁, h₁, h'⟩⟩

/-! ## Rows that a constraint makes unique -/

omit [DecidableRel clash] in
theorem eq_of_clash (t : Table R clash) {a b : R} (ha : a ∈ t.rows) (hb : b ∈ t.rows)
    (hab : clash a b) (hba : clash b a) : a = b := by
  obtain ⟨rows, distinct⟩ := t
  simp only at ha hb
  induction distinct with
  | nil => cases ha
  | cons hhead _ ih =>
      rcases List.mem_cons.mp ha with rfl | hta <;> rcases List.mem_cons.mp hb with rfl | htb
      · rfl
      · exact absurd hab (hhead b htb)
      · exact absurd hba (hhead a hta)
      · exact ih hta htb

omit [DecidableRel clash] in
/-- A condition that at most one stored row meets selects exactly that row. -/
theorem find?_eq_some_iff {t : Table R clash} {p : R → Bool}
    (unique : ∀ a b, p a = true → p b = true → clash a b) {r : R} :
    t.find? p = some r ↔ r ∈ t.rows ∧ p r = true := by
  constructor
  · intro h
    exact ⟨List.mem_of_find?_eq_some h, List.find?_some h⟩
  · rintro ⟨hr, hp⟩
    cases hf : t.find? p with
    | none => exact absurd hp (List.find?_eq_none.mp hf r hr)
    | some x =>
        have hx : p x = true := List.find?_some hf
        have hmem : x ∈ t.rows := List.mem_of_find?_eq_some hf
        rw [t.eq_of_clash hmem hr (unique _ _ hx hp) (unique _ _ hp hx)]

omit [DecidableRel clash] in
theorem find?_eq_none_iff {t : Table R clash} {p : R → Bool} :
    t.find? p = none ↔ ∀ r ∈ t.rows, p r = false := by
  simp [find?]

/-! ## Lookup by a unique column -/

section Lookup

variable {K : Type*} [DecidableEq K] (key : R → K)

/-- The row whose column `key` has the value `k`. -/
def lookup (t : Table R clash) (k : K) : Option R := t.find? fun r => key r == k

omit [DecidableRel clash]

variable {key} {t : Table R clash} {k : K} {r : R}

theorem lookup_eq_some (unique : ∀ a b, key a = key b → clash a b) :
    t.lookup key k = some r ↔ r ∈ t.rows ∧ key r = k := by
  unfold lookup
  rw [find?_eq_some_iff]
  · simp
  · intro a b ha hb
    exact unique a b ((beq_iff_eq.mp ha).trans (beq_iff_eq.mp hb).symm)

theorem lookup_eq_none : t.lookup key k = none ↔ ∀ r ∈ t.rows, key r ≠ k := by
  unfold lookup
  rw [find?_eq_none_iff]
  simp

theorem mem_of_lookup (h : t.lookup key k = some r) : r ∈ t.rows ∧ key r = k :=
  ⟨List.mem_of_find?_eq_some h, by simpa using List.find?_some h⟩

@[simp] theorem lookup_empty : (empty : Table R clash).lookup key k = none := rfl

theorem lookup_update {p : R → Bool} {f : R → R} {keep : KeepsKeys clash f}
    (hf : ∀ r, key (f r) = key r) :
    (t.update p f keep).lookup key k = (t.lookup key k).map (patch p f) := by
  have hcond : (fun r => key r == k) ∘ patch p f = fun r => key r == k := by
    funext r
    simp only [Function.comp_apply, patch]
    split
    · rw [hf]
    · rfl
  unfold lookup find?
  rw [rows_update, List.find?_map, hcond]

/-- An update that selects its rows by the key leaves or patches the row under a key. -/
theorem lookup_update_key (key : R → K) {q : K → Bool} {f : R → R} (keep : KeepsKeys clash f)
    (hf : ∀ r, key (f r) = key r) :
    (t.update (fun r => q (key r)) f keep).lookup key k =
      if q k then (t.lookup key k).map f else t.lookup key k := by
  rw [lookup_update hf]
  cases hrow : t.lookup key k with
  | none => simp
  | some row =>
      have hkey : key row = k := (mem_of_lookup hrow).2
      by_cases hq : q k = true
      · simp [patch, hkey, hq]
      · simp [patch, hkey, hq]

theorem lookup_insert [DecidableRel clash] {t' : Table R clash}
    (unique : ∀ a b, key a = key b → clash a b) (h : t.insert r = some t') :
    t'.lookup key k = if key r = k then some r else t.lookup key k := by
  unfold lookup find?
  rw [insert_rows h, List.find?_append]
  by_cases hk : key r = k
  · have hnone : t.rows.find? (fun a => key a == k) = none := by
      refine List.find?_eq_none.mpr ?_
      intro a ha hak
      exact not_clash_of_insert h a ha (unique a r ((beq_iff_eq.mp hak).trans hk.symm))
    simp [hnone, hk]
  · simp [hk]

end Lookup

end Table

theorem patch_of_pos {R : Type u} {p : R → Bool} {f : R → R} {r : R} (h : p r = true) :
    patch p f r = f r := if_pos h

theorem patch_of_neg {R : Type u} {p : R → Bool} {f : R → R} {r : R} (h : p r = false) :
    patch p f r = r := by simp [patch, h]

/-- A column that the assignments do not touch keeps its value. -/
theorem patch_column {R : Type u} {α : Type*} {p : R → Bool} {f : R → R} (column : R → α)
    (h : ∀ r, column (f r) = column r) (r : R) : column (patch p f r) = column r := by
  unfold patch
  split
  · exact h r
  · rfl

end Relational
