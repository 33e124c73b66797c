import Eka.Lib.PyParse
import Eka.Retrieval.Search

/-!
# The payloads in Redis

`retrieval/infrastructure/redis_cache.py` down to the texts that Redis keeps: `serialize`,
`deserialize` and the cache over them. `json.dumps` and `json.loads` are the interpreter's, with
numbers in exact arithmetic.
-/

namespace Eka

open Py Relational

/-- What `json.loads` returns; an object is a `dict`, in its order. -/
inductive Json where
  | null
  | bool (b : Bool)
  | number (q : ℚ)
  | string (s : Str)
  | array (items : List Json)
  | object (items : List (Str × Json))

/-- What the payloads take from the interpreter: `json.dumps`, `json.loads`, `float(s)`,
    `repr(s)` and the decimal digits outside ASCII. -/
structure JsonCodec where
  dumps : Json → Str
  loads : Str → Except Error Json
  float : Str → Option ℚ
  repr : Str → Str
  decimal : Char → Option Nat

/-! ## Identifiers out of strings -/

namespace UUID

/-- `uuid.UUID(hex)` of a string. -/
def ofStr (codec : JsonCodec) (s : Str) : Except Error UUID :=
  let hex := replace "uuid:".toList [] (replace "urn:".toList [] s)
  let hex := replace "-".toList [] (stripChars "\x7b\x7d".toList hex)
  if hex.length ≠ 32 then
    .error (.valueError "badly formed hexadecimal UUID string".toList)
  else
    match int16 codec.decimal hex with
    | none =>
        .error (.valueError ("invalid literal for int() with base 16: ".toList ++ codec.repr hex))
    | some n =>
        if 0 ≤ n ∧ n < 2 ^ 128 then .ok ⟨.ofNat 128 n.toNat⟩
        else .error (.valueError "int is out of range (need a 128-bit value)".toList)

theorem notMem_str {c : Char} (hc : c ∈ "_xX-+u\x7b\x7d|".toList) (hdash : c ≠ '-') (u : UUID) :
    c ∉ u.str := by
  intro h
  have hmem : c ∈ u.str.filter (· ≠ '-') := List.mem_filter.mpr ⟨h, by simpa using hdash⟩
  rw [filter_str] at hmem
  exact notMem_hex hc 32 _ hmem

/-- `uuid.UUID(str(u)) == u`. -/
theorem ofStr_str (codec : JsonCodec) (u : UUID) : ofStr codec u.str = .ok u := by
  have hu : 'u' ∉ u.str := notMem_str (by decide) (by decide) u
  have hbraces : ∀ c ∈ u.str, c ∉ "\x7b\x7d".toList := by
    intro c hc hbrace
    refine notMem_str ?_ ?_ u hc
    · exact List.mem_of_mem_dropLast (List.mem_of_mem_drop (i := 6) hbrace)
    · rintro rfl
      exact absurd hbrace (by decide)
  have hlt : u.int.toNat < 16 ^ 32 := by
    have := u.int.isLt
    omega
  unfold ofStr
  simp only
  rw [show "urn:".toList = 'u' :: "rn:".toList from rfl, replace_of_notMem hu,
    show "uuid:".toList = 'u' :: "uid:".toList from rfl, replace_of_notMem hu,
    stripChars_of_notMem hbraces, show "-".toList = ['-'] from rfl, replace_char, filter_str,
    int16_hex (by decide) hlt]
  simp only [length_hex, ne_eq, not_true_eq_false, if_false]
  have hrange : 0 ≤ Int.ofNat u.int.toNat ∧ Int.ofNat u.int.toNat < 2 ^ 128 := by
    rw [Int.ofNat_eq_natCast]
    omega
  rw [if_pos hrange]
  simp

end UUID

/-! ## Results as texts -/

/-- What `deserialize` builds. No type is checked there, so the text is what the JSON has. -/
structure LoadedChunk where
  chunkId : UUID
  documentId : UUID
  text : Json
  score : ℚ

namespace ScoredChunk

/-- A result, as it comes back from Redis. -/
def loaded (result : ScoredChunk) : LoadedChunk :=
  ⟨result.chunkId, result.documentId, .string result.text, result.score⟩

/-- The dictionary of a result (`redis_cache.py:23-28`). -/
def json (result : ScoredChunk) : Json :=
  .object [("chunk_id".toList, .string result.chunkId.str),
    ("document_id".toList, .string result.documentId.str),
    ("text".toList, .string result.text),
    ("score".toList, .number result.score)]

/-- No two results look alike in Redis. -/
theorem json_injective : Function.Injective json := by
  intro a b h
  simp only [json, Json.object.injEq, List.cons.injEq, Prod.mk.injEq, Json.string.injEq,
    Json.number.injEq, true_and, and_true] at h
  obtain ⟨hid, hdocument, htext, hscore⟩ := h
  have hid := UUID.str_injective hid
  have hdocument := UUID.str_injective hdocument
  cases a
  cases b
  simp only at *
  rw [hid, hdocument, htext, hscore]

end ScoredChunk

/-- `serialize` (`redis_cache.py:20-31`). -/
def serialize (codec : JsonCodec) (results : List ScoredChunk) : Str :=
  codec.dumps (.array (results.map ScoredChunk.json))

namespace Json

def isString : Json → Bool
  | .string _ => true
  | _ => false

/-- `for item in value`; a number, a bool and `None` raise a `TypeError`. -/
def iterate : Json → Except Error (List Json)
  | .array items => .ok items
  | .object items => .ok (items.map fun item => .string item.1)
  | .string s => .ok (s.map fun c => .string [c])
  | _ => .error .infrastructure

/-- `value[key]`; only an object takes a string. -/
def getItem (key : Str) : Json → Except Error Json
  | .object items =>
      match items.find? fun item => item.1 == key with
      | none => .error .keyError
      | some item => .ok item.2
  | _ => .error .infrastructure

/-- `uuid.UUID(value)`. -/
def toUuid (codec : JsonCodec) : Json → Except Error UUID
  | .string s => UUID.ofStr codec s
  | _ => .error .infrastructure

/-- `float(value)`. -/
def toFloat (codec : JsonCodec) : Json → Except Error ℚ
  | .number q => .ok q
  | .bool b => .ok (if b then 1 else 0)
  | .string s =>
      match codec.float s with
      | none => .error (.valueError ("could not convert string to float: ".toList ++ codec.repr s))
      | some q => .ok q
  | _ => .error .infrastructure

/-- One element of the list in `deserialize` (`redis_cache.py:37-42`). -/
def toChunk (codec : JsonCodec) (item : Json) : Except Error LoadedChunk := do
  let chunkId ← (← item.getItem "chunk_id".toList).toUuid codec
  let documentId ← (← item.getItem "document_id".toList).toUuid codec
  let text ← item.getItem "text".toList
  let score ← (← item.getItem "score".toList).toFloat codec
  .ok ⟨chunkId, documentId, text, score⟩

end Json

/-- `deserialize` (`redis_cache.py:34-44`). -/
def deserialize (codec : JsonCodec) (payload : Str) : Except Error (List LoadedChunk) := do
  let items ← (← codec.loads payload).iterate
  items.mapM (Json.toChunk codec)

/-- `json.loads` reads back the lists of results that `json.dumps` writes. -/
def JsonCodec.Faithful (codec : JsonCodec) : Prop :=
  ∀ results : List ScoredChunk,
    codec.loads (serialize codec results) = .ok (.array (results.map ScoredChunk.json))

variable {codec : JsonCodec}

theorem Json.toChunk_json (codec : JsonCodec) (result : ScoredChunk) :
    Json.toChunk codec result.json = .ok result.loaded := by
  have hid := UUID.ofStr_str codec result.chunkId
  have hdocument := UUID.ofStr_str codec result.documentId
  refine Fallible.bind_ok.mpr ⟨.string result.chunkId.str, rfl, ?_⟩
  refine Fallible.bind_ok.mpr ⟨_, hid, ?_⟩
  refine Fallible.bind_ok.mpr ⟨.string result.documentId.str, rfl, ?_⟩
  refine Fallible.bind_ok.mpr ⟨_, hdocument, ?_⟩
  refine Fallible.bind_ok.mpr ⟨.string result.text, rfl, ?_⟩
  refine Fallible.bind_ok.mpr ⟨.number result.score, rfl, ?_⟩
  rfl

/-- Every list of results survives the way through a payload. -/
theorem deserialize_serialize (hcodec : codec.Faithful) (results : List ScoredChunk) :
    deserialize codec (serialize codec results) = .ok (results.map ScoredChunk.loaded) := by
  have hitems : (results.map ScoredChunk.json).mapM (Json.toChunk codec) =
      .ok (results.map ScoredChunk.loaded) := by
    induction results with
    | nil => rfl
    | cons result results ih =>
        refine Fallible.mapM_ok.mpr (.cons (Json.toChunk_json codec result) ?_)
        exact Fallible.mapM_ok.mp ih
  refine Fallible.bind_ok.mpr ⟨_, hcodec results, ?_⟩
  exact Fallible.bind_ok.mpr ⟨_, rfl, hitems⟩

/-! ## The cache over payloads -/

/-- The keys in Redis, with their payloads and the end of their time to live. -/
abbrev Redis := Dict Str (Str × Instant)

namespace Redis

/-- `get` (`redis_cache.py:51-59`): a payload that does not parse raises. -/
def get (codec : JsonCodec) (key : Str) (now : Instant) (outcome : Outcome) (redis : Redis) :
    Except Error (Option (List LoadedChunk)) :=
  if outcome = .returns then
    match redis.get? key with
    | none => .ok none
    | some (payload, expiresAt) =>
        if now < expiresAt then (deserialize codec payload).map some else .ok none
  else .ok none

/-- `set` (`redis_cache.py:61-65`). -/
def set (codec : JsonCodec) (key : Str) (results : List ScoredChunk) (ttlSeconds : Nat)
    (now : Instant) (outcome : Outcome) (redis : Redis) : Redis :=
  if outcome.takesEffect ∧ 0 < ttlSeconds then
    Dict.set redis key (serialize codec results, now + seconds ttlSeconds)
  else redis

/-- The payloads are those of a cache of results. -/
def Holds (codec : JsonCodec) (redis : Redis) (cache : SearchCache) : Prop :=
  ∀ key, redis.get? key = (cache.get? key).map fun entry => (serialize codec entry.1, entry.2)

theorem Holds.get {redis : Redis} {cache : SearchCache} (h : redis.Holds codec cache)
    (hcodec : codec.Faithful) (key : Str) (now : Instant) (outcome : Outcome) :
    redis.get codec key now outcome =
      .ok ((RedisSearchCache.get key now outcome cache).map (·.map ScoredChunk.loaded)) := by
  unfold Redis.get RedisSearchCache.get
  rw [h key]
  split
  · cases cache.get? key with
    | none => rfl
    | some entry =>
        simp only [Option.map_some]
        split
        · rw [deserialize_serialize hcodec]
          rfl
        · rfl
  · rfl

theorem Holds.set {redis : Redis} {cache : SearchCache} (h : redis.Holds codec cache)
    (key : Str) (results : List ScoredChunk) (ttlSeconds : Nat) (now : Instant)
    (outcome : Outcome) :
    (redis.set codec key results ttlSeconds now outcome).Holds codec
      (RedisSearchCache.set key results ttlSeconds now outcome cache) := by
  unfold Redis.set RedisSearchCache.set
  split
  · intro other
    rw [Dict.get?_set, Dict.get?_set]
    split
    · rfl
    · exact h other
  · exact h

end Redis

namespace SearchHandler

/-- `handle` (`search.py:46-75`) over the payloads. -/
def handlePayload (handler : SearchHandler) (codec : JsonCodec) (env : SearchEnv) (tenantId : UUID)
    (query : SearchQuery) (t : Chunks) (redis : Redis) :
    Except Error (List LoadedChunk) × Redis :=
  match redis.get codec (handler.key tenantId query) env.now env.get with
  | .error e => (.error e, redis)
  | .ok (some cached) => (.ok cached, redis)
  | .ok none =>
      match PgVectorHybridRetriever.retrieve handler.server tenantId query
        (handler.embedder.embedOne query.text) handler.poolSize t with
      | .error e => (.error e, redis)
      | .ok candidates =>
          let ranked := LexicalReranker.rerank handler.lower query.text candidates query.topK
          (.ok (ranked.map ScoredChunk.loaded), redis.set codec (handler.key tenantId query)
            ranked handler.cacheTtlSeconds env.now env.set)

/-- Over payloads the handler does what it does over results. -/
theorem handlePayload_eq {handler : SearchHandler} {redis : Redis} {cache : SearchCache}
    (h : redis.Holds codec cache) (hcodec : codec.Faithful) (env : SearchEnv) (tenantId : UUID)
    (query : SearchQuery) (t : Chunks) :
    (handler.handlePayload codec env tenantId query t redis).1 =
        (handler.handle env tenantId query t cache).1.map (·.map ScoredChunk.loaded) ∧
      (handler.handlePayload codec env tenantId query t redis).2.Holds codec
        (handler.handle env tenantId query t cache).2 := by
  unfold handlePayload handle
  rw [h.get hcodec]
  cases RedisSearchCache.get (handler.key tenantId query) env.now env.get cache with
  | some cached => exact ⟨rfl, h⟩
  | none =>
      simp only [Option.map_none]
      cases PgVectorHybridRetriever.retrieve handler.server tenantId query
        (handler.embedder.embedOne query.text) handler.poolSize t with
      | error e => exact ⟨rfl, h⟩
      | ok candidates => exact ⟨rfl, h.set _ _ _ _ _⟩

end SearchHandler

end Eka
