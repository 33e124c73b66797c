import Eka.Lib.Simulation
import Eka.Retrieval.Contract

/-!
# The cache of the tests

`retrieval/infrastructure/memory_cache.py` next to Redis. It keeps what has expired until it is
asked for it, counts the instant of expiry as before it where Redis counts it as after, and takes
a time to live of 0, which Redis refuses. A handler does not notice, unless it asks at the very
instant at which something expires.
-/

namespace Eka

open Py

/-- The `SearchCache` port (`search.py:60-63`), at a time. -/
structure SearchCachePort (S : Type) where
  get : Str → Instant → S → Option (List ScoredChunk) × S
  set : Str → List ScoredChunk → Nat → Instant → S → S

/-- `RedisSearchCache`, with a server that does not fail. -/
def redisPort : SearchCachePort SearchCache where
  get key now cache := (RedisSearchCache.get key now .returns cache, cache)
  set key results ttlSeconds now cache :=
    RedisSearchCache.set key results ttlSeconds now .returns cache

namespace InMemorySearchCache

/-- `_store` (`memory_cache.py:11`). -/
abbrev Entries := Dict Str (Instant × List ScoredChunk)

/-- `get` (`memory_cache.py:13-21`). -/
def get (key : Str) (now : Instant) (store : Entries) : Option (List ScoredChunk) × Entries :=
  match store.get? key with
  | none => (none, store)
  | some (expiresAt, results) =>
      if expiresAt < now then (none, store.del key) else (some results, store)

/-- `set` (`memory_cache.py:23-24`). -/
def set (key : Str) (results : List ScoredChunk) (ttlSeconds : Nat) (now : Instant)
    (store : Entries) : Entries := store.set key (now + seconds ttlSeconds, results)

def port : SearchCachePort Entries := ⟨get, set⟩

end InMemorySearchCache

/-- A search: when it asks the cache, when it stores its result, and what it finds the index
    like. -/
structure CachedSearch where
  getAt : Instant
  setAt : Instant
  tenantId : UUID
  query : SearchQuery
  index : Chunks

namespace SearchHandler

/-- `handle` (`search.py:46-75`) over any cache. -/
def handleOver {S : Type} (cache : SearchCachePort S) (handler : SearchHandler) (s : S)
    (search : CachedSearch) : Except Error (List ScoredChunk) × S :=
  match cache.get (handler.key search.tenantId search.query) search.getAt s with
  | (some cached, s) => (.ok cached, s)
  | (none, s) =>
      match PgVectorHybridRetriever.retrieve handler.server search.tenantId search.query
        (handler.embedder.embedOne search.query.text) handler.poolSize search.index with
      | .error e => (.error e, s)
      | .ok candidates =>
          let ranked := LexicalReranker.rerank handler.lower search.query.text candidates
            search.query.topK
          (.ok ranked, cache.set (handler.key search.tenantId search.query) ranked
            handler.cacheTtlSeconds search.setAt s)

/-- Over Redis it is `handle`. -/
theorem handleOver_redis (handler : SearchHandler) (now : Instant) (tenantId : UUID)
    (query : SearchQuery) (t : Chunks) (cache : SearchCache) :
    handler.handleOver redisPort cache ⟨now, now, tenantId, query, t⟩ =
      handler.handle ⟨now, .returns, .returns⟩ tenantId query t cache := by
  unfold handleOver handle redisPort
  simp only
  cases RedisSearchCache.get (handler.key tenantId query) now .returns cache with
  | none => rfl
  | some cached => rfl

end SearchHandler

/-! ## At one instant -/

namespace InMemorySearchCache

variable {key other : Str} {now t : Instant} {ttlSeconds : Nat} {results : List ScoredChunk}
  {store : Entries}

/-- What an entry shows. -/
def shows (t : Instant) (entry : Instant × List ScoredChunk) : Option (List ScoredChunk) :=
  if entry.1 < t then none else some entry.2

theorem get_fst (key : Str) (t : Instant) (store : Entries) :
    (get key t store).1 = (store.get? key).bind (shows t) := by
  unfold get
  cases store.get? key with
  | none => rfl
  | some entry =>
      unfold shows
      simp only [Option.bind_some]
      split
      · rfl
      · rfl

/-- What `get` drops had expired, and shows at no later time. -/
theorem get_get (h : now ≤ t) : (get other t (get key now store).2).1 = (get other t store).1 := by
  rw [get_fst, get_fst]
  unfold get
  cases hkey : store.get? key with
  | none => rfl
  | some entry =>
      simp only
      split
      · next hexpired =>
          rw [Dict.get?_del]
          split
          · next hother => rw [hother, hkey, Option.bind_some, shows, if_pos (hexpired.trans_le h)]
                           rfl
          · rfl
      · rfl

/-- What shows after a `set`. -/
theorem get_set : (get other t (set key results ttlSeconds now store)).1 =
    if other = key then shows t (now + seconds ttlSeconds, results)
    else (get other t store).1 := by
  rw [get_fst, get_fst, set, Dict.get?_set]
  split
  · rw [Option.bind_some]
  · rfl

end InMemorySearchCache

namespace RedisSearchCache

variable {key other : Str} {now t : Instant} {ttlSeconds : Nat}

/-- What shows in Redis after a `set`. -/
theorem get_set_returns (hpos : 0 < ttlSeconds) (results : List ScoredChunk)
    (cache : SearchCache) :
    get other t .returns (set key results ttlSeconds now .returns cache) =
      if other = key then (if t < now + seconds ttlSeconds then some results else none)
      else get other t .returns cache := by
  unfold get set
  rw [if_pos (⟨rfl, hpos⟩ : Outcome.returns.takesEffect = true ∧ 0 < ttlSeconds), if_pos rfl,
    if_pos rfl, Dict.get?_set]
  by_cases hother : other = key
  · rw [if_pos hother, if_pos hother]
  · rw [if_neg hother, if_neg hother]

theorem set_zero (results : List ScoredChunk) (cache : SearchCache) :
    set key results 0 now .returns cache = cache := if_neg fun h => Nat.lt_irrefl 0 h.2

end RedisSearchCache

/-! ## Over a history -/

/-- Searches that come one after the other, none of which asks at the instant at which the result
    of an earlier one expires. -/
structure InOrder (ttlSeconds : Nat) (searches : List CachedSearch) : Prop where
  within : ∀ search ∈ searches, search.getAt ≤ search.setAt
  between : searches.Pairwise fun a b => a.setAt ≤ b.getAt ∧ b.getAt ≠ a.setAt + seconds ttlSeconds

/-- Both show the same to the searches that are still to come. -/
structure AlikeFor (ttlSeconds : Nat) (store : InMemorySearchCache.Entries) (cache : SearchCache)
    (searches : List CachedSearch) : Prop where
  inOrder : InOrder ttlSeconds searches
  alike : ∀ search ∈ searches, ∀ key, (InMemorySearchCache.get key search.getAt store).1 =
    RedisSearchCache.get key search.getAt .returns cache
  refused : ttlSeconds = 0 → ∀ key t, RedisSearchCache.get key t .returns cache = none

namespace AlikeFor

variable {ttlSeconds : Nat} {store : InMemorySearchCache.Entries} {cache : SearchCache}
  {search : CachedSearch} {searches : List CachedSearch} {key : Str}

theorem later (h : InOrder ttlSeconds (search :: searches)) {other : CachedSearch}
    (hother : other ∈ searches) :
    search.setAt ≤ other.getAt ∧ other.getAt ≠ search.setAt + seconds ttlSeconds :=
  (List.pairwise_cons.mp h.between).1 other hother

/-- A `get` leaves them alike. -/
theorem get (h : AlikeFor ttlSeconds store cache (search :: searches)) (key : Str) :
    AlikeFor ttlSeconds (InMemorySearchCache.get key search.getAt store).2 cache searches where
  inOrder := ⟨fun other hother => h.inOrder.within other (List.mem_cons_of_mem _ hother),
    (List.pairwise_cons.mp h.inOrder.between).2⟩
  alike other hother key' := by
    have hle := (h.inOrder.within search List.mem_cons_self).trans (later h.inOrder hother).1
    rw [InMemorySearchCache.get_get hle]
    exact h.alike other (List.mem_cons_of_mem _ hother) key'
  refused := h.refused

/-- So does a `set`, for whoever does not ask at the instant of expiry. -/
theorem set (h : AlikeFor ttlSeconds store cache searches) {now : Instant}
    (hlater : ∀ other ∈ searches,
      now ≤ other.getAt ∧ other.getAt ≠ now + seconds ttlSeconds)
    (key : Str) (results : List ScoredChunk) :
    AlikeFor ttlSeconds (InMemorySearchCache.set key results ttlSeconds now store)
      (RedisSearchCache.set key results ttlSeconds now .returns cache) searches where
  inOrder := h.inOrder
  alike other hother key' := by
    obtain ⟨hle, hne⟩ := hlater other hother
    rw [InMemorySearchCache.get_set]
    rcases Nat.eq_zero_or_pos ttlSeconds with rfl | hpos
    · -- what Redis refuses has expired by the next search
      rw [RedisSearchCache.set_zero, h.refused rfl]
      split
      · have hexpired : now + seconds 0 < other.getAt := lt_of_le_of_ne hle hne.symm
        exact if_pos hexpired
      · rw [h.alike other hother, h.refused rfl]
    · rw [RedisSearchCache.get_set_returns hpos, h.alike other hother]
      split
      · unfold InMemorySearchCache.shows
        simp only
        split
        · next hexpired => rw [if_neg hexpired.not_gt]
        · next hlive => rw [if_pos (lt_of_le_of_ne (not_lt.mp hlive) hne)]
      · rfl
  refused hzero key' t := by
    rw [hzero, RedisSearchCache.set_zero]
    exact h.refused hzero key' t

end AlikeFor

namespace SearchHandler

open Simulation

/-- One search. -/
theorem handleOver_simulates (handler : SearchHandler) :
    Simulates (handler.handleOver InMemorySearchCache.port) (handler.handleOver redisPort)
      (AlikeFor handler.cacheTtlSeconds) := by
  intro store cache search searches h
  have hget := h.alike search List.mem_cons_self (handler.key search.tenantId search.query)
  have hnext := h.get (handler.key search.tenantId search.query)
  unfold handleOver InMemorySearchCache.port redisPort
  simp only
  rcases hmemory : InMemorySearchCache.get (handler.key search.tenantId search.query)
    search.getAt store with ⟨answer, store'⟩
  rw [hmemory] at hget hnext
  rw [← show answer = _ from hget]
  cases answer with
  | some cached => exact ⟨rfl, hnext⟩
  | none =>
      simp only
      split
      · exact ⟨rfl, hnext⟩
      · exact ⟨rfl, hnext.set (fun other hother => AlikeFor.later h.inOrder hother) _ _⟩

/-- Whatever is searched for, whatever becomes of the index in between and whatever the time to
    live is: with the cache of the tests a handler answers as it does with Redis, as long as none
    of the searches asks at an instant of expiry. -/
theorem answers_memory_eq_redis (handler : SearchHandler) {searches : List CachedSearch}
    (h : InOrder handler.cacheTtlSeconds searches) :
    answers (handler.handleOver InMemorySearchCache.port) .empty searches =
      answers (handler.handleOver redisPort) .empty searches :=
  handler.handleOver_simulates.answers_eq ⟨h, fun _ _ _ => rfl, fun _ _ _ => rfl⟩

/-- A search, and another spelling of it after a deletion. -/
def helloAsked : List CachedSearch :=
  [⟨1, 2, ⟨1⟩, ⟨"hello?".toList, 11, none, by decide, by decide, by decide⟩, helloIndex⟩,
    ⟨3, 4, ⟨1⟩, ⟨"Hello?".toList, 11, none, by decide, by decide, by decide⟩, ⟨[], .nil⟩⟩]

theorem answers_memory_eq_redis_hello :
    answers (helloHandler.handleOver InMemorySearchCache.port) .empty helloAsked =
      answers (helloHandler.handleOver redisPort) .empty helloAsked := by
  refine answers_memory_eq_redis helloHandler ⟨?_, ?_⟩
  · intro search hsearch
    simp only [helloAsked, List.mem_cons, List.not_mem_nil, or_false] at hsearch
    rcases hsearch with rfl | rfl
    · exact Nat.le_succ 1
    · exact Nat.le_succ 3
  · refine List.pairwise_pair.mpr ⟨Nat.le_succ 2, ?_⟩
    have hseconds : seconds helloHandler.cacheTtlSeconds = 300 * 1000000 := rfl
    rw [hseconds]
    show (3 : Nat) ≠ 2 + 300 * 1000000
    omega

end SearchHandler

end Eka
