import Mathlib.Data.List.Nodup

/-!
# Python's `dict`

Pairs in the order in which their keys were first set, no key twice. Setting a key that
is there changes its value and not its place.
-/

namespace Py

universe u v

/-- A `dict`. -/
structure Dict (κ : Type u) (ν : Type v) where
  items : List (κ × ν)
  nodup : (items.map Prod.fst).Nodup

namespace Dict

variable {κ : Type u} {ν : Type v}

def empty : Dict κ ν := ⟨[], .nil⟩

def keys (d : Dict κ ν) : List κ := d.items.map Prod.fst

@[simp] theorem keys_empty : (empty : Dict κ ν).keys = [] := rfl

theorem nodup_keys (d : Dict κ ν) : d.keys.Nodup := d.nodup

variable [DecidableEq κ]

/-- `d.get(k)`. -/
def get? (d : Dict κ ν) (k : κ) : Option ν := (d.items.find? fun p => p.1 == k).map Prod.snd

/-- One item under `d[k] = v`, where `k` is there. -/
def assign (k : κ) (v : ν) (p : κ × ν) : κ × ν := if p.1 = k then (p.1, v) else p

@[simp] theorem assign_fst (k : κ) (v : ν) (p : κ × ν) : (assign k v p).1 = p.1 := by
  unfold assign
  split <;> rfl

/-- `d[k] = v`. -/
def set (d : Dict κ ν) (k : κ) (v : ν) : Dict κ ν :=
  if h : k ∈ d.keys then
    ⟨d.items.map (assign k v), by
      rw [List.map_map, show Prod.fst ∘ assign k v = Prod.fst from funext (assign_fst k v)]
      exact d.nodup⟩
  else
    ⟨d.items ++ [(k, v)], by
      rw [List.map_append]
      refine List.nodup_append.mpr ⟨d.nodup, List.nodup_singleton _, ?_⟩
      intro a ha b hb hab
      have hk : a = k := hab.trans (List.mem_singleton.mp hb)
      exact h (hk ▸ ha)⟩

variable {d : Dict κ ν} {k k' : κ} {v w : ν}

theorem keys_set (d : Dict κ ν) (k : κ) (v : ν) :
    (d.set k v).keys = if k ∈ d.keys then d.keys else d.keys ++ [k] := by
  unfold set
  split
  · show (d.items.map (assign k v)).map Prod.fst = _
    rw [List.map_map, show Prod.fst ∘ assign k v = Prod.fst from funext (assign_fst k v)]
    rfl
  · show (d.items ++ [(k, v)]).map Prod.fst = _
    rw [List.map_append]
    rfl

theorem mem_keys_set : k' ∈ (d.set k v).keys ↔ k' ∈ d.keys ∨ k' = k := by
  rw [keys_set]
  split
  · next h =>
      constructor
      · exact .inl
      · rintro (h' | rfl)
        · exact h'
        · exact h
  · rw [List.mem_append, List.mem_singleton]

/-- A key is there with its one value. -/
theorem get?_eq_some : d.get? k = some v ↔ (k, v) ∈ d.items := by
  unfold get?
  rw [Option.map_eq_some_iff]
  constructor
  · rintro ⟨⟨k', v'⟩, hfind, rfl⟩
    have hk : k' = k := by simpa using List.find?_some hfind
    exact hk ▸ List.mem_of_find?_eq_some hfind
  · intro hmem
    cases hfind : d.items.find? (fun p => p.1 == k) with
    | none => exact absurd (List.find?_eq_none.mp hfind _ hmem) (by simp)
    | some p =>
        have hk : p.1 = k := by simpa using List.find?_some hfind
        have hsame : p = (k, v) :=
          List.inj_on_of_nodup_map d.nodup (List.mem_of_find?_eq_some hfind) hmem hk
        exact ⟨p, rfl, by rw [hsame]⟩

theorem mem_keys : k ∈ d.keys ↔ ∃ v, d.get? k = some v := by
  constructor
  · intro h
    obtain ⟨⟨k', v⟩, hmem, rfl⟩ := List.mem_map.mp h
    exact ⟨v, get?_eq_some.mpr hmem⟩
  · rintro ⟨v, h⟩
    exact List.mem_map_of_mem (get?_eq_some.mp h)

theorem get?_set (d : Dict κ ν) (k : κ) (v : ν) (k' : κ) :
    (d.set k v).get? k' = if k' = k then some v else d.get? k' := by
  unfold set
  by_cases hk' : k' = k
  · subst hk'
    rw [if_pos rfl, get?_eq_some]
    split
    · next h =>
        obtain ⟨p, hmem, hp⟩ := List.mem_map.mp h
        refine List.mem_map.mpr ⟨p, hmem, ?_⟩
        unfold assign
        rw [if_pos hp, hp]
    · exact List.mem_append_right _ List.mem_cons_self
  · rw [if_neg hk']
    split
    · unfold get?
      rw [List.find?_map]
      have hcond : (fun p : κ × ν => p.1 == k') ∘ assign k v = fun p => p.1 == k' := by
        funext p
        rw [Function.comp_apply, assign_fst]
      rw [hcond]
      cases hfind : d.items.find? (fun p => p.1 == k') with
      | none => rfl
      | some p =>
          have hp : p.1 = k' := by simpa using List.find?_some hfind
          have hne : p.1 ≠ k := hp.trans_ne hk'
          simp [assign, hne]
    · unfold get?
      rw [List.find?_append]
      have hnone : [(k, v)].find? (fun p => p.1 == k') = none := by simp [Ne.symm hk']
      rw [hnone, Option.or_none]

/-- `del d[k]`, where `k` is there. -/
def del (d : Dict κ ν) (k : κ) : Dict κ ν :=
  ⟨d.items.filter fun p => p.1 ≠ k, (List.filter_sublist.map Prod.fst).nodup d.nodup⟩

theorem get?_del (d : Dict κ ν) (k k' : κ) :
    (d.del k).get? k' = if k' = k then none else d.get? k' := by
  refine Option.ext fun v => ?_
  rw [get?_eq_some, del, List.mem_filter, ← get?_eq_some, decide_eq_true_eq]
  split
  · next heq =>
      constructor
      · rintro ⟨-, hne⟩
        exact absurd heq hne
      · intro hnone
        cases hnone
  · next hne => exact ⟨And.left, fun h => ⟨h, hne⟩⟩

/-- Setting several keys, in order. -/
def setAll (d : Dict κ ν) (items : List (κ × ν)) : Dict κ ν :=
  items.foldl (fun d p => d.set p.1 p.2) d

theorem get?_setAll {items : List (κ × ν)} (h : (d.setAll items).get? k = some v) :
    (k, v) ∈ items ∨ d.get? k = some v := by
  induction items generalizing d with
  | nil => exact .inr h
  | cons p items ih =>
      rcases ih h with hmem | hget
      · exact .inl (List.mem_cons_of_mem _ hmem)
      · rw [get?_set] at hget
        split at hget
        · next hk =>
            cases hget
            rw [hk]
            exact .inl List.mem_cons_self
        · exact .inr hget

theorem mem_keys_setAll {items : List (κ × ν)} :
    k ∈ (d.setAll items).keys ↔ k ∈ d.keys ∨ ∃ p ∈ items, p.1 = k := by
  induction items generalizing d with
  | nil => simp [setAll]
  | cons p items ih =>
      rw [setAll, List.foldl_cons, ← setAll, ih, mem_keys_set, or_assoc, List.exists_mem_cons_iff]
      exact or_congr_right (or_congr_left eq_comm)

/-- A key that is only ever set to one value has that value. -/
theorem get?_setAll_of_mem {items : List (κ × ν)} (hmem : (k, v) ∈ items)
    (hone : ∀ w, (k, w) ∈ items → w = v) : (d.setAll items).get? k = some v := by
  have hkeep : ∀ (items : List (κ × ν)) (d : Dict κ ν), (∀ w, (k, w) ∈ items → w = v) →
      d.get? k = some v → (d.setAll items).get? k = some v := by
    intro items
    induction items with
    | nil => intro d _ hd; exact hd
    | cons p items ih =>
        intro d hone hd
        refine ih _ (fun w hw => hone w (List.mem_cons_of_mem _ hw)) ?_
        rw [get?_set]
        split
        · next hk => rw [hone p.2 (hk ▸ List.mem_cons_self)]
        · exact hd
  induction items generalizing d with
  | nil => cases hmem
  | cons p items ih =>
      have hrest : ∀ w, (k, w) ∈ items → w = v := fun w hw => hone w (List.mem_cons_of_mem _ hw)
      rcases List.mem_cons.mp hmem with rfl | hmem
      · exact hkeep items _ hrest (by rw [get?_set, if_pos rfl])
      · exact ih hmem hrest

end Dict

end Py
