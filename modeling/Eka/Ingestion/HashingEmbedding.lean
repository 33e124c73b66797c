import Mathlib.Algebra.Ring.Int.Defs
import Eka.Ingestion.Repository
import Eka.Lib.Runs

/-!
# The hashing embedder

`ingestion/infrastructure/embedding.py`. The vector counts token hashes with a sign, so its
entries before the division are integers, which floating point adds exactly. `str.lower`,
the digest of a token and the division by the norm are left to the interpreter.
-/

namespace Eka

open Py

/-- `[a-z0-9]`. -/
def isTokenChar (c : Char) : Bool :=
  (48 ≤ c.toNat && c.toNat ≤ 57) || (97 ≤ c.toNat && c.toNat ≤ 122)

theorem isTokenChar_of_isSpace {c : Char} (h : isSpace c = true) : isTokenChar c = false := by
  simp only [isSpace, Bool.or_eq_true, Bool.and_eq_true, decide_eq_true_eq, beq_iff_eq] at h
  simp only [isTokenChar, Bool.or_eq_false_iff, Bool.and_eq_false_iff, decide_eq_false_iff_not]
  omega

/-- `_TOKEN_RE.findall` for `[a-z0-9]+` (`embedding.py:18`, `reranker.py:15`,
    `local_llm.py:18`). -/
def findTokens (s : Str) : List Str := runs isTokenChar s

namespace HashingEmbeddingModel

/-- What `_embed_one` takes from the interpreter, over numbers `K`: `str.lower`, the first four
    bytes of the SHA-1 digest of a token, whether its fifth byte is odd, and
    `v / math.sqrt(n)`. -/
structure Primitives (K : Type) where
  lower : Str → Str
  index : Str → Nat
  odd : Str → Bool
  quotient : ℤ → ℤ → K

variable {K : Type}

/-- One iteration of the loop over the tokens (`embedding.py:37-41`). -/
def count (primitives : Primitives K) (dimension : Nat) (vector : List ℤ) (token : Str) :
    List ℤ :=
  vector.modify (primitives.index token % dimension)
    fun v => v + if primitives.odd token then 1 else -1

/-- `_embed_one` up to the norm (`embedding.py:36-41`). -/
def counts (primitives : Primitives K) (dimension : Nat) (text : Str) : List ℤ :=
  (findTokens (primitives.lower text)).foldl (count primitives dimension)
    (List.replicate dimension 0)

/-- `_embed_one` (`embedding.py:35-46`); a vector of norm 0 is replaced by the first unit
    vector. -/
def embedOne (primitives : Primitives K) (dimension : Nat) (text : Str) : List K :=
  let vector := counts primitives dimension text
  let square := (vector.map fun v => v * v).sum
  if square = 0 then (vector.set 0 1).map fun v => primitives.quotient v 1
  else vector.map fun v => primitives.quotient v square

theorem length_counts (primitives : Primitives K) (dimension : Nat) (text : Str) :
    (counts primitives dimension text).length = dimension := by
  unfold counts
  generalize findTokens (primitives.lower text) = tokens
  induction tokens using List.reverseRecOn with
  | nil => exact List.length_replicate
  | append_singleton tokens token ih =>
      rw [List.foldl_concat, count, List.length_modify, ih]

theorem length_embedOne (primitives : Primitives K) (dimension : Nat) (text : Str) :
    (embedOne primitives dimension text).length = dimension := by
  unfold embedOne
  simp only
  split
  · rw [List.length_map, List.length_set, length_counts]
  · rw [List.length_map, length_counts]

/-- Texts with the same tokens have the same vector. -/
theorem embedOne_congr {primitives : Primitives K} {dimension : Nat} {text text' : Str}
    (h : findTokens (primitives.lower text) = findTokens (primitives.lower text')) :
    embedOne primitives dimension text = embedOne primitives dimension text' := by
  unfold embedOne counts
  rw [h]

/-- `HashingEmbeddingModel(dimension)` (`embedding.py:22-33`). -/
def make (primitives : Primitives ℚ) (dimension : Int) : Except Error EmbeddingModel :=
  if h : dimension ≤ 0 then .error (.valueError "dimension must be positive".toList)
  else .ok {
    dimension := dimension.toNat
    embedOne := fun text => ⟨embedOne primitives dimension.toNat text, by
      rw [← List.length_pos_iff, length_embedOne]
      omega⟩
    sized := fun text => length_embedOne primitives dimension.toNat text }

theorem make_ok {primitives : Primitives ℚ} {dimension : Int} {model : EmbeddingModel}
    (h : make primitives dimension = .ok model) :
    0 < dimension ∧ model.dimension = dimension.toNat ∧
      ∀ text, (model.embedOne text).values = embedOne primitives dimension.toNat text := by
  unfold make at h
  split at h
  · cases h
  · next hpos =>
      cases h
      exact ⟨by omega, rfl, fun _ => rfl⟩

end HashingEmbeddingModel

end Eka
