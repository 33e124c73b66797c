import Eka.Shared.Base

/-!
# Pagination

`shared/domain/pagination.py`.
-/

namespace Eka

open Py

/-- `DEFAULT_LIMIT` and `MAX_LIMIT` (`pagination.py:10-11`). -/
def defaultLimit : Nat := 20

def maxLimit : Nat := 100

inductive SortDirection where
  | asc
  | desc
  deriving DecidableEq, Repr

/-- `Sort` (`pagination.py:21-24`). -/
structure PageSort where
  field : Str
  direction : SortDirection := .desc
  deriving DecidableEq, Repr

/-- `PageRequest` (`pagination.py:27-37`), with what its `__post_init__` checks. -/
structure PageRequest where
  limit : Nat
  offset : Nat
  sort : Option PageSort
  limitPos : 1 ≤ limit
  limitMax : limit ≤ maxLimit
  deriving DecidableEq, Repr

def PageRequest.make (limit offset : Int) (sort : Option PageSort) : Except Error PageRequest :=
  if h : 1 ≤ limit ∧ limit ≤ maxLimit then
    if offset < 0 then .error (.validationError "offset must be non-negative".toList)
    else .ok ⟨limit.toNat, offset.toNat, sort, by omega, by omega⟩
  else .error (.validationError "limit must be between 1 and 100".toList)

/-- The page that is asked for when the request names none. -/
def PageRequest.default : PageRequest := ⟨defaultLimit, 0, none, by decide, by decide⟩

/-- `Page` (`pagination.py:40-49`). -/
structure Page (α : Type) where
  items : List α
  total : Nat
  limit : Nat
  offset : Nat
  deriving DecidableEq, Repr

def Page.hasMore {α : Type} (page : Page α) : Bool := page.offset + page.items.length < page.total

/-- What a page has to say about the rows that match, `count` of them: how many they are, no more
    than `limit` of them, and whether any are left behind it. -/
structure Page.Honours {α : Type} (page : Page α) (request : PageRequest) (count : Nat) : Prop where
  total : page.total = count
  short : page.items.length ≤ request.limit
  more : page.hasMore = true ↔ request.offset + page.items.length < count

/-- The page at another offset. -/
def PageRequest.at (request : PageRequest) (offset : Nat) : PageRequest :=
  { request with offset := offset }

/-! ## Asking for one page after the other -/

namespace Page

variable {α : Type}

/-- The items of page `k` and of those after it, asked for while `has_more` is true; `none` when
    `fuel` pages were not enough. -/
def fetchAll (fetch : Nat → Page α) : Nat → Nat → Option (List α)
  | 0, _ => none
  | fuel + 1, k =>
      if (fetch k).hasMore then
        (fetchAll fetch fuel (k + 1)).map fun items => (fetch k).items ++ items
      else some (fetch k).items

/-- The items of the pages up to `n`. -/
def itemsTo (fetch : Nat → Page α) : Nat → List α
  | 0 => []
  | n + 1 => itemsTo fetch n ++ (fetch n).items

/-- When `has_more` says that page `count - 1` is the last one, the client has asked for all the
    pages up to there, and no others. -/
theorem fetchAll_eq_itemsTo {fetch : Nat → Page α} {count : Nat}
    (hmore : ∀ k, (fetch k).hasMore = true ↔ k + 1 < count) :
    ∀ fuel k, k < count → count ≤ k + fuel → ∃ items, fetchAll fetch fuel k = some items ∧
      itemsTo fetch k ++ items = itemsTo fetch count := by
  intro fuel
  induction fuel with
  | zero =>
      intro k hk hfuel
      omega
  | succ fuel ih =>
      intro k hk hfuel
      unfold fetchAll
      by_cases hlast : k + 1 < count
      · obtain ⟨items, hitems, hall⟩ := ih (k + 1) hlast (by omega)
        rw [if_pos ((hmore k).mpr hlast), hitems]
        refine ⟨_, rfl, ?_⟩
        rw [← hall, itemsTo, List.append_assoc]
      · rw [if_neg fun h => hlast ((hmore k).mp h)]
        refine ⟨_, rfl, ?_⟩
        rw [show count = k + 1 by omega, itemsTo]

/-- The rows on page `k`, with nothing else on it, and whether more remain. -/
theorem hasMore_iff {page : Page α} {k : Nat} (hoffset : page.offset = k * page.limit)
    (hlength : page.items.length = min page.limit (page.total - page.offset)) :
    page.hasMore = true ↔ (k + 1) * page.limit < page.total := by
  unfold hasMore
  rw [decide_eq_true_eq, hlength, Nat.succ_mul, hoffset]
  omega

end Page

end Eka
