import Mathlib.Data.List.Infix
import Eka.Ingestion.HashingEmbedding
import Eka.Retrieval.Retriever

/-!
# Search

`retrieval/application/search.py`, `retrieval/application/cache_key.py`,
`retrieval/infrastructure/redis_cache.py` and `retrieval/infrastructure/reranker.py`, with
scores in exact arithmetic. `str.lower` is left to the interpreter's Unicode tables.
-/

namespace Eka

open Py Relational

/-! ## The cache -/

/-- `_normalize` (`cache_key.py:13-14`). -/
def normalize (lower : Str → Str) (text : Str) : Str := join " ".toList (words (lower text))

/-- `build_cache_key` (`cache_key.py:17-26`). -/
def buildCacheKey (lower sha256 : Str → Str) (tenantId : UUID) (collectionId : Option UUID)
    (queryText : Str) (topK : Nat) : Str :=
  let collection := (collectionId.map UUID.str).getD "*".toList
  let material := tenantId.str ++ '|' :: collection ++ '|' :: (toString topK).toList ++
    '|' :: normalize lower queryText
  "search:".toList ++ tenantId.str ++ ':' :: sha256 material

/-- The keys in Redis, with the results and the end of their time to live. -/
abbrev SearchCache := Dict Str (List ScoredChunk × Instant)

namespace RedisSearchCache

/-- `get` (`redis_cache.py:51-59`): a failure of Redis is a miss. -/
def get (key : Str) (now : Instant) (outcome : Outcome) (cache : SearchCache) :
    Option (List ScoredChunk) :=
  if outcome = .returns then
    match cache.get? key with
    | none => none
    | some (results, expiresAt) => if now < expiresAt then some results else none
  else none

/-- `set` (`redis_cache.py:61-65`): Redis refuses an expiry of 0 seconds, and that is a failure
    as any other. -/
def set (key : Str) (results : List ScoredChunk) (ttlSeconds : Nat) (now : Instant)
    (outcome : Outcome) (cache : SearchCache) : SearchCache :=
  if outcome.takesEffect ∧ 0 < ttlSeconds then cache.set key (results, now + seconds ttlSeconds)
  else cache

end RedisSearchCache

/-! ## The reranker -/

namespace LexicalReranker

/-- `_tokens` (`reranker.py:20-21`), each token once. -/
def tokens (lower : Str → Str) (text : Str) : List Str := (findTokens (lower text)).dedup

/-- The new score of a candidate (`reranker.py:39-47`). -/
def final (lower : Str → Str) (queryText : Str) (low span : ℚ) (candidate : ScoredChunk) : ℚ :=
  let queryTokens := tokens lower queryText
  let base := if span ≠ 0 then (candidate.score - low) / span else 0
  let chunkTokens := tokens lower candidate.text
  let coverage : ℚ :=
    if queryTokens ≠ [] then
      (queryTokens.filter (· ∈ chunkTokens)).length / queryTokens.length
    else 0
  let phrase : ℚ := if normalize lower queryText <:+: lower candidate.text then 1 else 0
  3 / 10 * base + 6 / 10 * coverage + 1 / 10 * phrase

/-- The share of the query's tokens that a text has (`reranker.py:41-45`). -/
def coverage (lower : Str → Str) (queryText text : Str) : ℚ :=
  ((tokens lower queryText).filter (· ∈ tokens lower text)).length /
    (tokens lower queryText).length

/-- `rerank` (`reranker.py:25-58`). -/
def rerank (lower : Str → Str) (queryText : Str) (candidates : List ScoredChunk) (topK : Nat) :
    List ScoredChunk :=
  match (candidates.map (·.score)).min?, (candidates.map (·.score)).max? with
  | some low, some high =>
      let reranked := candidates.map fun candidate =>
        { candidate with score := final lower queryText low (high - low) candidate }
      (reranked.mergeSort fun a b => decide (b.score ≤ a.score)).take topK
  | _, _ => []

end LexicalReranker

/-! ## The handler -/

/-- `SearchHandler` (`search.py:28-44`), as it is wired (`api/dependencies.py:164-178`): the
    embedder, the retriever's server, `str.lower`, `hashlib.sha256(s.encode()).hexdigest()` and
    the two settings. -/
structure SearchHandler where
  embedder : EmbeddingModel
  server : SearchServer
  lower : Str → Str
  sha256 : Str → Str
  poolSize : Nat
  cacheTtlSeconds : Nat

/-- What the two calls of the cache meet. -/
structure SearchEnv where
  now : Instant
  get : Outcome
  set : Outcome

namespace SearchHandler

/-- `build_cache_key` on a query. -/
def key (handler : SearchHandler) (tenantId : UUID) (query : SearchQuery) : Str :=
  buildCacheKey handler.lower handler.sha256 tenantId query.collectionId query.text query.topK

/-- `handle` (`search.py:46-75`). -/
def handle (handler : SearchHandler) (env : SearchEnv) (tenantId : UUID) (query : SearchQuery)
    (t : Chunks) (cache : SearchCache) : Except Error (List ScoredChunk) × SearchCache :=
  match RedisSearchCache.get (handler.key tenantId query) env.now env.get cache with
  | some cached => (.ok cached, cache)
  | none =>
      match PgVectorHybridRetriever.retrieve handler.server tenantId query
        (handler.embedder.embedOne query.text) handler.poolSize t with
      | .error e => (.error e, cache)
      | .ok candidates =>
          let ranked := LexicalReranker.rerank handler.lower query.text candidates query.topK
          (.ok ranked, RedisSearchCache.set (handler.key tenantId query) ranked
            handler.cacheTtlSeconds env.now env.set cache)

end SearchHandler

/-! ## Keys and tenants -/

/-- A cache key names its tenant. -/
theorem tenant_of_buildCacheKey {lower sha256 : Str → Str} {a b : UUID}
    {collection collection' : Option UUID} {text text' : Str} {topK topK' : Nat}
    (h : buildCacheKey lower sha256 a collection text topK =
      buildCacheKey lower sha256 b collection' text' topK') : a = b := by
  unfold buildCacheKey at h
  simp only [List.append_assoc] at h
  have hrest := List.append_cancel_left h
  have hlength : a.str.length = b.str.length := by rw [UUID.length_str, UUID.length_str]
  exact UUID.str_injective (List.append_inj hrest hlength).1

namespace RedisSearchCache

/-- A write shows under its own key only. -/
theorem get?_set {key other : Str} (h : other ≠ key) (results : List ScoredChunk)
    (ttlSeconds : Nat) (now : Instant) (outcome : Outcome) (cache : SearchCache) :
    (set key results ttlSeconds now outcome cache).get? other = cache.get? other := by
  unfold set
  split
  · rw [Dict.get?_set, if_neg h]
  · rfl

/-- What shows under a key after a write of it is what was written or was there before. -/
theorem get_set {key : Str} {results results' : List ScoredChunk} {ttlSeconds : Nat}
    {now now' : Instant} {outcome outcome' : Outcome} {cache : SearchCache}
    (h : get key now' outcome' (set key results ttlSeconds now outcome cache) = some results') :
    results' = results ∨ get key now' outcome' cache = some results' := by
  unfold set at h
  split at h
  · unfold get at h
    split at h
    · rw [Dict.get?_set, if_pos rfl] at h
      simp only at h
      split at h
      · exact .inl (Option.some.inj h).symm
      · cases h
    · cases h
  · exact .inr h

theorem get_congr {key : Str} {cache cache' : SearchCache}
    (h : cache.get? key = cache'.get? key) (now : Instant) (outcome : Outcome) :
    get key now outcome cache = get key now outcome cache' := by
  unfold get
  rw [h]

theorem set_congr {key other : Str} {cache cache' : SearchCache}
    (h : cache.get? other = cache'.get? other) (results : List ScoredChunk) (ttlSeconds : Nat)
    (now : Instant) (outcome : Outcome) :
    (set key results ttlSeconds now outcome cache).get? other =
      (set key results ttlSeconds now outcome cache').get? other := by
  unfold set
  split
  · rw [Dict.get?_set, Dict.get?_set, h]
  · exact h

end RedisSearchCache

end Eka
