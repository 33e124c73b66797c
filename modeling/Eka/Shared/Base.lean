import Eka.Lib.PyString

/-!
# Shared kernel

Identifiers, instants and errors (`shared/domain/base.py`,
`shared/domain/errors.py`). `new_uuid` and `utcnow` read the environment, so the
functions that call them take the fresh id and the current instant as arguments.
-/

namespace Eka

open Py

/-- `uuid.UUID`, by its `int`. -/
structure UUID where
  int : BitVec 128
  deriving DecidableEq, Repr

/-- `str(u)`: 32 hexadecimal digits in groups of 8, 4, 4, 4 and 12. -/
def UUID.str (u : UUID) : Str :=
  let hex := hex 32 u.int.toNat
  hex.take 8 ++ '-' :: (hex.drop 8).take 4 ++ '-' :: (hex.drop 12).take 4 ++
    '-' :: (hex.drop 16).take 4 ++ '-' :: hex.drop 20

/-- `datetime` in UTC, in microseconds. -/
abbrev Instant := Nat

/-- `timedelta(seconds=n)`. -/
def seconds (n : Nat) : Nat := n * 1000000

/-- The exceptions of the modelled code. The first four are `DomainError`s
    (`shared/domain/errors.py`, `ingestion/application/pipeline.py:25-26`), `valueError` and
    `keyError` are Python's, `integrityError` and `dataError` are the database's, and
    `infrastructure` is whatever else an awaited call raises. -/
inductive Error where
  | validationError (message : Str)
  | stateTransitionError (message : Str)
  | notFoundError (message : Str)
  | contentMissingError (message : Str)
  | valueError (message : Str)
  | keyError
  | integrityError
  | dataError
  | infrastructure
  deriving DecidableEq, Repr

/-- What one awaited call did: it returned, it raised without an effect, or it raised after
    its commit had taken effect (the answer was lost). -/
inductive Outcome where
  | returns
  | raises
  | raisesAfter
  deriving DecidableEq, Repr

/-- Whether the call's writes are in the database afterwards. -/
def Outcome.takesEffect : Outcome → Bool
  | .returns => true
  | .raises => false
  | .raisesAfter => true

/-! ## Identifiers as strings -/

namespace UUID

theorem length_str (u : UUID) : u.str.length = 36 := by
  simp [str, length_hex]

/-- Without its dashes, the string is the digits. -/
theorem filter_str (u : UUID) : u.str.filter (· ≠ '-') = hex 32 u.int.toNat := by
  have hdigits : ∀ c ∈ hex 32 u.int.toNat, decide (c ≠ '-') = true := by
    intro c hc
    rw [decide_eq_true_iff]
    rintro rfl
    exact not_mem_hex _ _ hc
  unfold str
  generalize hex 32 u.int.toNat = digits at hdigits
  have htake : ∀ n k, ((digits.drop n).take k).filter (· ≠ '-') = (digits.drop n).take k :=
    fun n k => List.filter_eq_self.mpr fun c hc =>
      hdigits c (List.mem_of_mem_drop (List.mem_of_mem_take hc))
  have hdrop : ∀ n, (digits.drop n).filter (· ≠ '-') = digits.drop n :=
    fun n => List.filter_eq_self.mpr fun c hc => hdigits c (List.mem_of_mem_drop hc)
  have hsplit : ∀ n, (digits.drop n).take 4 ++ digits.drop (n + 4) = digits.drop n := by
    intro n
    rw [← List.drop_drop, List.take_append_drop]
  have hhead := htake 0 8
  rw [List.drop_zero] at hhead
  simp only [List.filter_append, List.filter_cons_of_neg, ne_eq, not_true_eq_false, decide_false,
    Bool.false_eq_true, not_false_eq_true, List.append_assoc, List.cons_append] at *
  rw [hhead, htake, htake, htake, hdrop, hsplit 16, hsplit 12, hsplit 8, List.take_append_drop]

theorem str_injective {u v : UUID} (h : u.str = v.str) : u = v := by
  have hhex : hex 32 u.int.toNat = hex 32 v.int.toNat := by
    rw [← filter_str, ← filter_str, h]
  have hbound : ∀ w : UUID, w.int.toNat < 16 ^ 32 := fun w => by
    have := w.int.isLt
    omega
  cases u
  cases v
  exact congrArg UUID.mk (BitVec.eq_of_toNat_eq (hex_injective (hbound _) (hbound _) hhex))

end UUID

end Eka
