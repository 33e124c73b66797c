import Mathlib.Data.List.Infix
import Mathlib.Logic.Function.Basic
import Eka.Lib.Transition

/-!
# Read-through caches over a source that changes

Calls run concurrently with each other and with the changes of the source. A call looks its key
up; on a miss it reads the source, once or several times, and stores what it has computed. So an
answer may be out of several states of the source, and an entry may outlive them all. What holds
is that every answer has been computed, read after read, from states that the run went through:
since the call was made, or before a store that is recent enough to show.
-/

namespace Stale

open Transition

universe u

/-- A store with entries that age: what it shows under a key in an environment `E`, what looking a
    key up leaves of it, what storing makes of it, and which environments an entry lives to. -/
structure Entries (K R E S : Type u) where
  lookup : E → K → S → Option R
  settle : E → K → S → S
  store : E → K → R → S → S
  within : E → E → Prop

/-- Looking up shows nothing new, and storing shows under its own key only, with what was stored,
    as long as it lives. -/
structure Entries.Lawful {K R E S : Type u} (m : Entries K R E S) : Prop where
  lookup_settle : ∀ env env' k k' r s, m.lookup env' k' (m.settle env k s) = some r →
    m.lookup env' k' s = some r
  lookup_store : ∀ env env' k k' r r' s, m.lookup env' k' (m.store env k r s) = some r' →
    k' = k ∧ r' = r ∧ m.within env env' ∨ m.lookup env' k' s = some r'

/-- What the cache stands in front of: keys for the requests, and computations that start from a
    request and read the source until they have a result. -/
structure Source (W Q K P R ε : Type u) where
  key : Q → K
  start : Q → P
  read : W → P → Except ε (P ⊕ R)

/-- A call between its lookup and its answer. -/
inductive Call (Q P R : Type u) where
  | idle
  | reading (q : Q) (p : P)
  | found (q : Q) (r : R)

structure State (W Q P R S : Type u) where
  source : W
  entries : S
  calls : Nat → Call Q P R

/-- A change of the source, or a step of a call: its lookup, a read, the store, or its end at any
    point in between. -/
inductive Label (L Q E : Type u) where
  | change (l : L)
  | ask (c : Nat) (env : E) (q : Q)
  | read (c : Nat)
  | keep (c : Nat) (env : E)
  | abandon (c : Nat)

section System

variable {W Q K P R E S ε L : Type u}

/-- The lookup of call `c`. -/
def Label.Asks (c : Nat) : Label L Q E → Prop
  | .ask c' _ _ => c' = c
  | _ => False

/-- Where a read leads. -/
def Call.afterRead (q : Q) : Except ε (P ⊕ R) → Call Q P R
  | .error _ => .idle
  | .ok (.inl p) => .reading q p
  | .ok (.inr r) => .found q r

/-- Where a lookup leads. -/
def Call.afterLookup (q : Q) (p : P) : Option R → Call Q P R
  | some _ => .idle
  | none => .reading q p

def step (src : Source W Q K P R ε) (m : Entries K R E S) (change : W → L → Option W)
    (s : State W Q P R S) : Label L Q E → Option (State W Q P R S)
  | .change l => (change s.source l).map fun w => { s with source := w }
  | .ask c env q =>
      match s.calls c with
      | .idle => some { s with
          entries := m.settle env (src.key q) s.entries
          calls := Function.update s.calls c
            (.afterLookup q (src.start q) (m.lookup env (src.key q) s.entries)) }
      | _ => none
  | .read c =>
      match s.calls c with
      | .reading q p => some { s with
          calls := Function.update s.calls c (.afterRead q (src.read s.source p)) }
      | _ => none
  | .keep c env =>
      match s.calls c with
      | .found q r => some { s with
          entries := m.store env (src.key q) r s.entries
          calls := Function.update s.calls c .idle }
      | _ => none
  | .abandon c => some { s with calls := Function.update s.calls c .idle }

/-- The answer that a step gives, with its request. -/
def answer (src : Source W Q K P R ε) (m : Entries K R E S) (s : State W Q P R S) :
    Label L Q E → Option (Q × Except ε R)
  | .ask c env q =>
      match s.calls c with
      | .idle => (m.lookup env (src.key q) s.entries).map fun r => (q, .ok r)
      | _ => none
  | .read c =>
      match s.calls c with
      | .reading q p =>
          match src.read s.source p with
          | .error e => some (q, .error e)
          | .ok _ => none
      | _ => none
  | .keep c _ =>
      match s.calls c with
      | .found q r => some (q, .ok r)
      | _ => none
  | _ => none

variable (src : Source W Q K P R ε) (m : Entries K R E S) (change : W → L → Option W)
  (init : State W Q P R S)

/-- A computation of the request made after `asked` has come to `p` after `past`, each read from
    the state that the run had then come to. -/
inductive Reads (asked : List (Label L Q E)) (q : Q) : List (Label L Q E) → P → Prop
  | start : Reads asked q asked (src.start q)
  | read {past past' : List (Label L Q E)} {p p' : P} {s : State W Q P R S}
      (reads : Reads asked q past p) (later : past <+: past')
      (state : run (step src m change) init past' = some s)
      (leads : src.read s.source p = .ok (.inl p')) : Reads asked q past' p'

/-- `r` has been computed for a request `q` that was made after `asked`, all before `past`. -/
def Computed (asked past : List (Label L Q E)) (q : Q) (r : R) : Prop :=
  ∃ before during p s, Reads src m change init asked q before p ∧ before <+: during ∧
    during <+: past ∧ run (step src m change) init during = some s ∧
    src.read s.source p = .ok (.inr r)

/-- The last lookup of call `c` in `past` was for `q`, after `asked`. -/
def Asked (past asked : List (Label L Q E)) (c : Nat) (q : Q) : Prop :=
  ∃ front env rest, asked = front ++ [.ask c env q] ∧ past = asked ++ rest ∧
    ∀ l ∈ rest, ¬ l.Asks c

/-- `r` has been computed for `q` since call `c` has asked for it. -/
def ComputedBy (past : List (Label L Q E)) (c : Nat) (q : Q) (r : R) : Prop :=
  ∃ asked, Asked past asked c q ∧ Computed src m change init asked past q r

/-- `r` was stored under the key of `q` so recently that it shows in `env`, by a call that had
    computed it for a request with the same key. -/
def KeptFor (past : List (Label L Q E)) (env : E) (q : Q) (r : R) : Prop :=
  ∃ kept c env' q', kept ++ [.keep c env'] <+: past ∧ m.within env' env ∧
    src.key q' = src.key q ∧ ComputedBy src m change init kept c q' r

/-! ## What a run keeps -/

variable {src m change init} {past past' asked : List (Label L Q E)} {l : Label L Q E} {c : Nat}
  {q : Q} {r : R}

theorem Asked.start (past : List (Label L Q E)) (c : Nat) (env : E) (q : Q) :
    Asked (past ++ [.ask c env q]) (past ++ [.ask c env q]) c q :=
  ⟨past, env, [], rfl, (List.append_nil _).symm, fun _ h => (List.not_mem_nil h).elim⟩

theorem Asked.step (h : Asked past asked c q) (hl : ¬ l.Asks c) :
    Asked (past ++ [l]) asked c q := by
  obtain ⟨front, env, rest, hasked, rfl, hrest⟩ := h
  refine ⟨front, env, rest ++ [l], hasked, List.append_assoc .., ?_⟩
  intro l' hl'
  rcases List.mem_append.mp hl' with hl' | hl'
  · exact hrest l' hl'
  · rw [List.mem_singleton.mp hl']
    exact hl

theorem Reads.before {p : P} (h : Reads src m change init asked q past p) : asked <+: past := by
  induction h with
  | start => exact List.prefix_refl asked
  | read _ later _ _ ih => exact ih.trans later

theorem Computed.mono (h : Computed src m change init asked past q r) (hpast : past <+: past') :
    Computed src m change init asked past' q r := by
  obtain ⟨before, during, p, s, hreads, hlater, hbefore, hrest⟩ := h
  exact ⟨before, during, p, s, hreads, hlater, hbefore.trans hpast, hrest⟩

theorem KeptFor.mono {env : E} (h : KeptFor src m change init past env q r)
    (hpast : past <+: past') : KeptFor src m change init past' env q r := by
  obtain ⟨kept, c, env', q', hkept, hrest⟩ := h
  exact ⟨kept, c, env', q', hkept.trans hpast, hrest⟩

/-- A call holds what it has read since it asked. -/
def Call.Honest (src : Source W Q K P R ε) (m : Entries K R E S) (change : W → L → Option W)
    (init : State W Q P R S) (past : List (Label L Q E)) (c : Nat) : Call Q P R → Prop
  | .idle => True
  | .reading q p => ∃ asked before, Asked past asked c q ∧ before <+: past ∧
      Reads src m change init asked q before p
  | .found q r => ComputedBy src m change init past c q r

theorem Call.Honest.step {call : Call Q P R} (h : call.Honest src m change init past c)
    (hl : ¬ l.Asks c) : call.Honest src m change init (past ++ [l]) c := by
  have hpast : past <+: past ++ [l] := List.prefix_append past [l]
  cases call with
  | idle => trivial
  | reading q p =>
      obtain ⟨asked, before, hasked, hbefore, hreads⟩ := h
      exact ⟨asked, before, hasked.step hl, hbefore.trans hpast, hreads⟩
  | found q r =>
      obtain ⟨asked, hasked, hcomputed⟩ := h
      exact ⟨asked, hasked.step hl, hcomputed.mono hpast⟩

/-- What the calls hold and what the entries show has been computed. -/
structure Honest (src : Source W Q K P R ε) (m : Entries K R E S) (change : W → L → Option W)
    (init : State W Q P R S) (past : List (Label L Q E)) (s : State W Q P R S) : Prop where
  calls : ∀ c, (s.calls c).Honest src m change init past c
  entries : ∀ env q r, m.lookup env (src.key q) s.entries = some r →
    KeptFor src m change init past env q r

variable {s s' : State W Q P R S}

theorem Honest.entries_step (h : Honest src m change init past s) {env : E}
    (hl : m.lookup env (src.key q) s.entries = some r) (l : Label L Q E) :
    KeptFor src m change init (past ++ [l]) env q r :=
  (h.entries env q r hl).mono (List.prefix_append past [l])

/-- A step of call `c` leaves the other calls alone. -/
theorem Honest.calls_update (h : Honest src m change init past s)
    (hl : ∀ c', c' ≠ c → ¬ l.Asks c') {call : Call Q P R}
    (hcall : call.Honest src m change init (past ++ [l]) c) (c' : Nat) :
    (Function.update s.calls c call c').Honest src m change init (past ++ [l]) c' := by
  by_cases hc : c' = c
  · subst hc
    rw [Function.update_self]
    exact hcall
  · rw [Function.update_of_ne hc]
    exact (h.calls c').step (hl c' hc)

/-- What a call holds after a read was read from the state that it was taken in. -/
theorem Honest.afterRead (h : Honest src m change init past s)
    (hrun : run (step src m change) init past = some s) {p : P}
    (hcall : s.calls c = .reading q p) (hl : ¬ l.Asks c) :
    (Call.afterRead q (src.read s.source p)).Honest src m change init (past ++ [l]) c := by
  have hpast : past <+: past ++ [l] := List.prefix_append past [l]
  have hreading := h.calls c
  rw [hcall] at hreading
  obtain ⟨asked, before, hasked, hbefore, hreads⟩ := hreading
  cases hread : src.read s.source p with
  | error e => trivial
  | ok next =>
      cases next with
      | inl p' => exact ⟨asked, past, hasked.step hl, hpast, hreads.read hbefore hrun hread⟩
      | inr r =>
          exact ⟨asked, hasked.step hl, before, past, p, s, hreads, hbefore, hpast, hrun, hread⟩

theorem Honest.step (hlawful : m.Lawful) (h : Honest src m change init past s)
    (hrun : run (Stale.step src m change) init past = some s)
    (hstep : Stale.step src m change s l = some s') :
    Honest src m change init (past ++ [l]) s' := by
  cases l with
  | change l =>
      obtain ⟨w, -, rfl⟩ := Option.map_eq_some_iff.mp hstep
      exact ⟨fun c => (h.calls c).step id, fun env q r hl => h.entries_step hl _⟩
  | ask c env q =>
      simp only [Stale.step] at hstep
      split at hstep
      · cases hstep
        refine ⟨h.calls_update ?_ ?_, ?_⟩
        · intro c' hc' hasks
          exact hc' (Eq.symm hasks)
        · cases m.lookup env (src.key q) s.entries with
          | some r => trivial
          | none => exact ⟨_, _, .start past c env q, List.prefix_refl _, .start⟩
        · intro env' q' r' hl
          exact h.entries_step (hlawful.lookup_settle _ _ _ _ _ _ hl) _
      · cases hstep
  | read c =>
      simp only [Stale.step] at hstep
      split at hstep
      · next hcall =>
          cases hstep
          exact ⟨h.calls_update (fun _ _ => id) (h.afterRead hrun hcall id),
            fun env q r hl => h.entries_step hl _⟩
      · cases hstep
  | keep c env =>
      simp only [Stale.step] at hstep
      split at hstep
      · next q r hcall =>
          cases hstep
          have hfound := h.calls c
          rw [hcall] at hfound
          refine ⟨h.calls_update (fun _ _ => id) trivial, ?_⟩
          intro env' q' r' hl
          rcases hlawful.lookup_store _ _ _ _ _ _ _ hl with ⟨hkey, rfl, hwithin⟩ | hold
          · exact ⟨past, c, env, q, List.prefix_refl _, hwithin, hkey.symm, hfound⟩
          · exact h.entries_step hold _
      · cases hstep
  | abandon c =>
      cases hstep
      exact ⟨h.calls_update (fun _ _ => id) trivial, fun env q r hl => h.entries_step hl _⟩

/-- From a state with no calls and no entries, every state of a run is honest. -/
theorem run_honest (hlawful : m.Lawful) (hcalls : ∀ c, init.calls c = .idle)
    (hentries : ∀ env k, m.lookup env k init.entries = none) {labels : List (Label L Q E)}
    (hrun : run (step src m change) init labels = some s) :
    Honest src m change init labels s := by
  refine (run_induction (J := fun past s => run (step src m change) init past = some s ∧
    Honest src m change init past s) ⟨rfl, ?_, ?_⟩ ?_ hrun).2
  · intro c
    rw [hcalls]
    trivial
  · intro env q r hl
    cases (hentries env (src.key q)).symm.trans hl
  · rintro past s l s' ⟨hpast, hhonest⟩ hstep
    exact ⟨run_concat.mpr ⟨s, hpast, hstep⟩, hhonest.step hlawful hpast hstep⟩

/-- A result that is answered has been computed since its call has asked, or a call has computed
    and stored it that had the same key, so recently that it shows. -/
theorem Honest.answer (h : Honest src m change init past s)
    (hanswer : Stale.answer src m s l = some (q, .ok r)) :
    (∃ c env, l = .keep c env ∧ ComputedBy src m change init past c q r) ∨
      ∃ c env, l = .ask c env q ∧ KeptFor src m change init past env q r := by
  cases l with
  | change l => cases hanswer
  | ask c env q' =>
      simp only [Stale.answer] at hanswer
      split at hanswer
      · obtain ⟨r', hl, heq⟩ := Option.map_eq_some_iff.mp hanswer
        cases heq
        exact .inr ⟨c, env, rfl, h.entries env _ _ hl⟩
      · cases hanswer
  | read c =>
      simp only [Stale.answer] at hanswer
      split at hanswer
      · split at hanswer <;> cases hanswer
      · cases hanswer
  | keep c env =>
      simp only [Stale.answer] at hanswer
      split at hanswer
      · next hcall =>
          cases hanswer
          have hfound := h.calls c
          rw [hcall] at hfound
          exact .inl ⟨c, env, rfl, hfound⟩
      · cases hanswer
  | abandon c => cases hanswer

/-- An exception that is answered is one of a read. -/
theorem answer_error {e : ε} (hanswer : answer src m s l = some (q, .error e)) :
    ∃ c p, s.calls c = .reading q p ∧ src.read s.source p = .error e := by
  cases l with
  | change l => cases hanswer
  | ask c env q' =>
      simp only [answer] at hanswer
      split at hanswer
      · obtain ⟨r, -, heq⟩ := Option.map_eq_some_iff.mp hanswer
        cases heq
      · cases hanswer
  | read c =>
      simp only [answer] at hanswer
      split at hanswer
      · next p hcall =>
          split at hanswer
          · next hread =>
              cases hanswer
              exact ⟨c, p, hcall, hread⟩
          · cases hanswer
      · cases hanswer
  | keep c env =>
      simp only [answer] at hanswer
      split at hanswer <;> cases hanswer
  | abandon c => cases hanswer

/-! ## Undisturbed calls -/

theorem step_ask {env : E} (hidle : s.calls c = .idle)
    (hmiss : m.lookup env (src.key q) s.entries = none) :
    step src m change s (.ask c env q) = some { s with
      entries := m.settle env (src.key q) s.entries
      calls := Function.update s.calls c (.reading q (src.start q)) } := by
  simp only [step, hidle, hmiss, Call.afterLookup]

theorem step_read {p : P} {next : P ⊕ R} (hcall : s.calls c = .reading q p)
    (hread : src.read s.source p = .ok next) :
    step src m change s (.read c) = some { s with
      calls := Function.update s.calls c (next.elim (.reading q) (.found q)) } := by
  simp only [step, hcall, hread]
  cases next <;> rfl

theorem step_keep {env : E} (hcall : s.calls c = .found q r) :
    step src m change s (.keep c env) = some { s with
      entries := m.store env (src.key q) r s.entries
      calls := Function.update s.calls c .idle } := by
  simp only [step, hcall]

theorem answer_ask {env : E} (hidle : s.calls c = .idle)
    (hhit : m.lookup env (src.key q) s.entries = some r) :
    answer src m s (.ask c env q : Label L Q E) = some (q, .ok r) := by
  simp only [answer, hidle, hhit, Option.map_some]

/-- The source moves on while no call does. -/
theorem run_change {ls : List L} {w w' : W} (h : run change w ls = some w') (entries : S)
    (calls : Nat → Call Q P R) :
    run (step src m change) ⟨w, entries, calls⟩ (ls.map Label.change) =
      some ⟨w', entries, calls⟩ := by
  induction ls generalizing w with
  | nil =>
      cases h
      rfl
  | cons l ls ih =>
      obtain ⟨w₁, hw₁, hrest⟩ := run_cons.mp h
      exact run_cons.mpr ⟨⟨w₁, entries, calls⟩, by simp only [step, hw₁, Option.map_some],
        ih hrest⟩

/-! ## The source goes its own way -/

/-- Whatever the calls do, the states of the source are those of a run of its own. -/
theorem simulates_source : Simulates (step src m change) change State.source := by
  intro s l s' hstep
  cases l with
  | change l =>
      obtain ⟨w, hw, rfl⟩ := Option.map_eq_some_iff.mp hstep
      exact .inr ⟨l, hw⟩
  | ask c env q =>
      simp only [step] at hstep
      split at hstep
      · cases hstep
        exact .inl rfl
      · cases hstep
  | read c =>
      simp only [step] at hstep
      split at hstep
      · cases hstep
        exact .inl rfl
      · cases hstep
  | keep c env =>
      simp only [step] at hstep
      split at hstep
      · cases hstep
        exact .inl rfl
      · cases hstep
  | abandon c =>
      cases hstep
      exact .inl rfl

theorem run_source {labels : List (Label L Q E)}
    (hrun : run (step src m change) init labels = some s) :
    Reachable change init.source s.source := by
  have hreachable : Reachable (step src m change) init s := ⟨labels, hrun⟩
  exact hreachable.simulate simulates_source

end System

end Stale
