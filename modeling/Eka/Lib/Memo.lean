/-!
# Read-through caches

A call looks its key up and computes only on a miss; what it computes it stores. The environment
decides whether a lookup finds an entry that is there and whether a store is kept. Such a cache
is transparent as soon as equal keys mean equal results.
-/

namespace Memo

universe u

/-- A read-through cache in front of `compute`: what the state `S` shows under a key and what
    storing a result makes of it, in an environment `E`. -/
structure Cache (Q K R E S ε : Type u) where
  key : Q → K
  compute : Q → Except ε R
  lookup : E → K → S → Option R
  store : E → K → R → S → S

variable {Q K R E S ε : Type u}

namespace Cache

/-- One call: its answer and the state after it. -/
def call (c : Cache Q K R E S ε) (env : E) (q : Q) (s : S) : Except ε R × S :=
  match c.lookup env (c.key q) s with
  | some r => (.ok r, s)
  | none =>
      match c.compute q with
      | .error e => (.error e, s)
      | .ok r => (.ok r, c.store env (c.key q) r s)

/-- The answers to calls that follow each other. -/
def calls (c : Cache Q K R E S ε) : List (E × Q) → S → List (Except ε R)
  | [], _ => []
  | (env, q) :: rest, s => (c.call env q s).1 :: c.calls rest (c.call env q s).2

/-- Equal keys mean equal results, and a store shows under its own key only, with what was
    stored. -/
structure Lawful (c : Cache Q K R E S ε) : Prop where
  keyed : ∀ q q', c.key q = c.key q' → c.compute q = c.compute q'
  lookup_store : ∀ env env' k k' r r' s, c.lookup env' k' (c.store env k r s) = some r' →
    k' = k ∧ r' = r ∨ ∃ env'', c.lookup env'' k' s = some r'

/-- Whatever the state shows is what computing would give. -/
def Sound (c : Cache Q K R E S ε) (s : S) : Prop :=
  ∀ env q r, c.lookup env (c.key q) s = some r → c.compute q = .ok r

variable {c : Cache Q K R E S ε} {s : S}

theorem Sound.store (h : c.Sound s) (hc : c.Lawful) {q : Q} {r : R} (hr : c.compute q = .ok r)
    (env : E) : c.Sound (c.store env (c.key q) r s) := by
  intro env' q' r' hlookup
  rcases hc.lookup_store env env' _ _ r r' s hlookup with ⟨hkey, hr'⟩ | ⟨env'', hold⟩
  · rw [hc.keyed q' q hkey, hr, hr']
  · exact h env'' q' r' hold

theorem Sound.call (h : c.Sound s) (hc : c.Lawful) (env : E) (q : Q) :
    (c.call env q s).1 = c.compute q ∧ c.Sound (c.call env q s).2 := by
  unfold Cache.call
  cases hlookup : c.lookup env (c.key q) s with
  | some r => exact ⟨(h env q r hlookup).symm, h⟩
  | none =>
      cases hr : c.compute q with
      | error e => exact ⟨rfl, h⟩
      | ok r => exact ⟨rfl, h.store hc hr env⟩

/-- Every call of a run is answered as if there were no cache. -/
theorem Sound.calls (h : c.Sound s) (hc : c.Lawful) (qs : List (E × Q)) :
    c.calls qs s = qs.map fun q => c.compute q.2 := by
  induction qs generalizing s with
  | nil => rfl
  | cons q qs ih =>
      obtain ⟨hanswer, hsound⟩ := h.call hc q.1 q.2
      unfold Cache.calls
      rw [hanswer, ih hsound]
      rfl

end Cache

end Memo
