import Mathlib.Data.Multiset.Basic
import Eka.Lib.Ahead

/-!
# Ordered queries

`SELECT ... WHERE ... ORDER BY ... LIMIT ... OFFSET ...` over the rows of a relation.
`ORDER BY` leaves rows with equal keys in an order of the server's choosing; an
`Arrangement` is a server whose choice depends on the matching rows alone, not on
where they lie in the table or on the rows next to them.
-/

namespace Relational

universe u

variable {R : Type u}

/-- An order for the rows that a query leaves unordered. -/
structure Arrangement (R : Type u) where
  order : List R → List R
  perm : ∀ rows, (order rows).Perm rows
  canonical : ∀ rows rows', rows.Perm rows' → order rows = order rows'

/-- There are arrangements: every set of rows has some order. -/
noncomputable def Arrangement.some (R : Type u) : Arrangement R where
  order rows := (rows : Multiset R).toList
  perm _ := Multiset.coe_eq_coe.mp (Multiset.coe_toList _)
  canonical _ _ h := congrArg Multiset.toList (Multiset.coe_eq_coe.mpr h)

/-- `SELECT ... WHERE p ORDER BY le`. -/
def select (ties : Arrangement R) (p : R → Bool) (le : R → R → Bool) (rows : List R) : List R :=
  (ties.order (rows.filter p)).mergeSort le

/-- `LIMIT limit OFFSET offset`. -/
def page {α : Type u} (limit offset : Nat) (rows : List α) : List α := (rows.drop offset).take limit

theorem select_perm (ties : Arrangement R) (p : R → Bool) (le : R → R → Bool) (rows : List R) :
    (select ties p le rows).Perm (rows.filter p) :=
  (List.mergeSort_perm _ _).trans (ties.perm _)

theorem mem_select {ties : Arrangement R} {p : R → Bool} {le : R → R → Bool} {rows : List R}
    {r : R} : r ∈ select ties p le rows ↔ r ∈ rows ∧ p r = true := by
  rw [(select_perm ties p le rows).mem_iff, List.mem_filter]

theorem pairwise_select (ties : Arrangement R) (p : R → Bool) {le : R → R → Bool}
    (trans : ∀ a b c, le a b = true → le b c = true → le a c = true)
    (total : ∀ a b, (le a b || le b a) = true) (rows : List R) :
    (select ties p le rows).Pairwise fun a b => le a b = true :=
  List.pairwise_mergeSort trans total _

/-- Of two rows that match, the one that is asked for first stands ahead. -/
theorem pair_sublist_select {ties : Arrangement R} {p : R → Bool} {le : R → R → Bool}
    {rows : List R} (trans : ∀ a b c, le a b = true → le b c = true → le a c = true)
    (total : ∀ a b, (le a b || le b a) = true) {x y : R} (hx : x ∈ rows) (hpx : p x = true)
    (hy : y ∈ rows) (hpy : p y = true) (hlt : le y x = false) :
    [x, y].Sublist (select ties p le rows) := by
  have hmem : ∀ r ∈ rows, p r = true → r ∈ ties.order (rows.filter p) := fun r hr hp =>
    (ties.perm _).mem_iff.mpr (List.mem_filter.mpr ⟨hr, hp⟩)
  exact Ahead.mergeSort_of_lt trans total (hmem x hx hpx) (hmem y hy hpy) hlt

/-- Rows that lie in the order that is asked for, with no two alike, are returned as they lie. -/
theorem select_of_sorted {ties : Arrangement R} {p : R → Bool} {le : R → R → Bool} {rows : List R}
    (trans : ∀ a b c, le a b = true → le b c = true → le a c = true)
    (total : ∀ a b, (le a b || le b a) = true)
    (apart : ∀ a ∈ rows.filter p, ∀ b ∈ rows.filter p, le a b = true → le b a = true → a = b)
    (sorted : (rows.filter p).Pairwise fun a b => le a b = true) :
    select ties p le rows = rows.filter p := by
  have hperm := select_perm ties p le rows
  refine List.Perm.eq_of_pairwise ?_ (pairwise_select ties p trans total rows) sorted hperm
  intro a b ha hb
  exact apart a (hperm.subset ha) b hb

/-- A query sees the rows that match it and nothing else. -/
theorem select_congr {ties : Arrangement R} {p : R → Bool} {le : R → R → Bool}
    {rows rows' : List R} (h : (rows.filter p).Perm (rows'.filter p)) :
    select ties p le rows = select ties p le rows' := by
  unfold select
  rw [ties.canonical _ _ h]

theorem mem_of_mem_page {α : Type u} {limit offset : Nat} {rows : List α} {r : α}
    (h : r ∈ page limit offset rows) : r ∈ rows :=
  List.mem_of_mem_drop (List.mem_of_mem_take h)

/-- A page that has room for every row is the whole answer. -/
theorem page_of_length_le {α : Type u} {limit : Nat} {rows : List α} (h : rows.length ≤ limit) :
    page limit 0 rows = rows := List.take_of_length_le h

theorem length_select (ties : Arrangement R) (p : R → Bool) (le : R → R → Bool) (rows : List R) :
    (select ties p le rows).length = (rows.filter p).length :=
  (select_perm ties p le rows).length_eq

end Relational
