import Eka.Retrieval.Transparency

/-!
# Failures of the cache

`redis_cache.py` against a Redis that answers anything. A miss and a `RedisError` fall back to the
live search, and so does a failing write; whatever bytes are stored are decoded outside of the
`try`.
-/

namespace Eka

open Py Relational Fallible

/-- What `await self._redis.get(key)` does: it returns `None`, raises a `RedisError`, or returns
    what is stored, as bytes (`Redis.from_url` without `decode_responses`, `api/app.py:62`). -/
inductive RedisReply where
  | missing
  | redisError
  | bytes (raw : List UInt8)
  deriving DecidableEq, Repr

/-- `json.loads` of bytes decodes them first. -/
structure BytesCodec extends JsonCodec where
  decode : List UInt8 → Except Error Str

/-- `deserialize` (`redis_cache.py:34-44`) of bytes. -/
def deserializeBytes (codec : BytesCodec) (raw : List UInt8) :
    Except Error (List LoadedChunk) := do
  let payload ← codec.decode raw
  deserialize codec.toJsonCodec payload

/-- `RedisSearchCache.get` (`redis_cache.py:51-59`) after what Redis did. -/
def RedisReply.receive (codec : BytesCodec) :
    RedisReply → Except Error (Option (List LoadedChunk))
  | .missing | .redisError => .ok none
  | .bytes raw => (deserializeBytes codec raw).map some

/-- `handle` (`search.py:46-75`) with what Redis does on `get` and `set`. -/
def SearchHandler.handleReply (handler : SearchHandler) (codec : BytesCodec) (get : RedisReply)
    (set : Outcome) (now : Instant) (tenantId : UUID) (query : SearchQuery) (t : Chunks)
    (redis : Redis) : Except Error (List LoadedChunk) × Redis :=
  match get.receive codec with
  | .error e => (.error e, redis)
  | .ok (some cached) => (.ok cached, redis)
  | .ok none =>
      match handler.live tenantId query t with
      | .error e => (.error e, redis)
      | .ok ranked =>
          (.ok (ranked.map ScoredChunk.loaded), redis.set codec.toJsonCodec
            (handler.key tenantId query) ranked handler.cacheTtlSeconds now set)

/-- What a Redis with these payloads replies. -/
def Redis.reply (encode : Str → List UInt8) (key : Str) (now : Instant) (outcome : Outcome)
    (redis : Redis) : RedisReply :=
  if outcome = .returns then
    match redis.get? key with
    | none => .missing
    | some (payload, expiresAt) => if now < expiresAt then .bytes (encode payload) else .missing
  else .redisError

/-- Where the bytes of every payload decode to the payload, the handler does what it does over
    payloads. -/
theorem SearchHandler.handlePayload_eq_handleReply (handler : SearchHandler) (codec : BytesCodec)
    (encode : Str → List UInt8) (hdecode : ∀ payload, codec.decode (encode payload) = .ok payload)
    (env : SearchEnv) (tenantId : UUID) (query : SearchQuery) (t : Chunks) (redis : Redis) :
    handler.handlePayload codec.toJsonCodec env tenantId query t redis =
      handler.handleReply codec (redis.reply encode (handler.key tenantId query) env.now env.get)
        env.set env.now tenantId query t redis := by
  have hget : redis.get codec.toJsonCodec (handler.key tenantId query) env.now env.get =
      (redis.reply encode (handler.key tenantId query) env.now env.get).receive codec := by
    unfold Redis.get Redis.reply
    split
    · cases redis.get? (handler.key tenantId query) with
      | none => rfl
      | some entry =>
          simp only
          split
          · show _ = (codec.decode (encode entry.1) >>= deserialize codec.toJsonCodec).map some
            rw [hdecode]
            rfl
          · rfl
    · rfl
  unfold handlePayload handleReply live
  rw [hget]
  cases (redis.reply encode (handler.key tenantId query) env.now env.get).receive codec with
  | error e => rfl
  | ok cached =>
      cases cached with
      | some results => rfl
      | none =>
          simp only
          cases PgVectorHybridRetriever.retrieve handler.server tenantId query
            (handler.embedder.embedOne query.text) handler.poolSize t <;> rfl

/-! ## What is stored -/

/-- An object with the four fields of a result: two UUIDs, a text and a number. -/
structure Json.IsResult (codec : JsonCodec) (item : Json) : Prop where
  chunkId : ∃ s u, item.getItem "chunk_id".toList = .ok (.string s) ∧ UUID.ofStr codec s = .ok u
  documentId : ∃ s u, item.getItem "document_id".toList = .ok (.string s) ∧
    UUID.ofStr codec s = .ok u
  text : ∃ s, item.getItem "text".toList = .ok (.string s)
  score : ∃ v q, item.getItem "score".toList = .ok v ∧ v.toFloat codec = .ok q

/-- The bytes are the JSON text of a value. -/
def IsJson (codec : BytesCodec) (raw : List UInt8) (value : Json) : Prop :=
  ∃ payload, codec.decode raw = .ok payload ∧ codec.loads payload = .ok value

/-- The bytes are a serialized list of results. -/
def IsResultList (codec : BytesCodec) (raw : List UInt8) : Prop :=
  ∃ items, IsJson codec raw (.array items) ∧ ∀ item ∈ items, item.IsResult codec.toJsonCodec

/-- The bytes are an empty JSON object or string, over which the loop makes no step. -/
def IsEmptyValue (codec : BytesCodec) (raw : List UInt8) : Prop :=
  IsJson codec raw (.object []) ∨ IsJson codec raw (.string [])

variable {codec : BytesCodec} {raw : List UInt8} {value value' : Json}

theorem IsJson.unique (h : IsJson codec raw value) (h' : IsJson codec raw value') :
    value = value' := by
  obtain ⟨payload, hdecode, hloads⟩ := h
  obtain ⟨payload', hdecode', hloads'⟩ := h'
  rw [hdecode] at hdecode'
  cases hdecode'
  rw [hloads] at hloads'
  exact Except.ok.inj hloads'

theorem deserializeBytes_ok {results : List LoadedChunk} :
    deserializeBytes codec raw = .ok results ↔ ∃ value items, IsJson codec raw value ∧
      value.iterate = .ok items ∧ items.mapM (Json.toChunk codec.toJsonCodec) = .ok results := by
  constructor
  · intro h
    obtain ⟨payload, hdecode, h⟩ := bind_ok.mp h
    obtain ⟨value, hloads, h⟩ := bind_ok.mp h
    obtain ⟨items, hiterate, hchunks⟩ := bind_ok.mp h
    exact ⟨value, items, ⟨payload, hdecode, hloads⟩, hiterate, hchunks⟩
  · rintro ⟨value, items, ⟨payload, hdecode, hloads⟩, hiterate, hchunks⟩
    refine bind_ok.mpr ⟨payload, hdecode, bind_ok.mpr ⟨value, hloads, ?_⟩⟩
    exact bind_ok.mpr ⟨items, hiterate, hchunks⟩

/-- What the loop of `deserialize` makes a result of; the text may be any value. -/
theorem Json.toChunk_ok {codec : JsonCodec} {item : Json} {chunk : LoadedChunk} :
    item.toChunk codec = .ok chunk ↔
      (∃ s, item.getItem "chunk_id".toList = .ok (.string s) ∧
        UUID.ofStr codec s = .ok chunk.chunkId) ∧
      (∃ s, item.getItem "document_id".toList = .ok (.string s) ∧
        UUID.ofStr codec s = .ok chunk.documentId) ∧
      item.getItem "text".toList = .ok chunk.text ∧
      ∃ v, item.getItem "score".toList = .ok v ∧ v.toFloat codec = .ok chunk.score := by
  have huuid : ∀ {value : Json} {u : UUID}, value.toUuid codec = .ok u ↔
      ∃ s, value = .string s ∧ UUID.ofStr codec s = .ok u := by
    intro value u
    cases value <;> simp [Json.toUuid]
  constructor
  · intro h
    obtain ⟨id, hid, h⟩ := bind_ok.mp h
    obtain ⟨u, hu, h⟩ := bind_ok.mp h
    obtain ⟨document, hdocument, h⟩ := bind_ok.mp h
    obtain ⟨v, hv, h⟩ := bind_ok.mp h
    obtain ⟨text, htext, h⟩ := bind_ok.mp h
    obtain ⟨score, hscore, h⟩ := bind_ok.mp h
    obtain ⟨q, hq, h⟩ := bind_ok.mp h
    cases h
    obtain ⟨s, rfl, hs⟩ := huuid.mp hu
    obtain ⟨s', rfl, hs'⟩ := huuid.mp hv
    exact ⟨⟨s, hid, hs⟩, ⟨s', hdocument, hs'⟩, htext, score, hscore, hq⟩
  · rintro ⟨⟨s, hid, hs⟩, ⟨s', hdocument, hs'⟩, htext, score, hscore, hq⟩
    refine bind_ok.mpr ⟨_, hid, bind_ok.mpr ⟨_, hs, ?_⟩⟩
    refine bind_ok.mpr ⟨_, hdocument, bind_ok.mpr ⟨_, hs', ?_⟩⟩
    refine bind_ok.mpr ⟨_, htext, ?_⟩
    exact bind_ok.mpr ⟨_, hscore, bind_ok.mpr ⟨_, hq, rfl⟩⟩

theorem Json.IsResult.exists_toChunk {codec : JsonCodec} {item : Json} (h : item.IsResult codec) :
    ∃ chunk, item.toChunk codec = .ok chunk := by
  obtain ⟨s, u, hid, hu⟩ := h.chunkId
  obtain ⟨s', u', hdocument, hu'⟩ := h.documentId
  obtain ⟨text, htext⟩ := h.text
  obtain ⟨v, q, hscore, hq⟩ := h.score
  exact ⟨⟨u, u', .string text, q⟩,
    Json.toChunk_ok.mpr ⟨⟨s, hid, hu⟩, ⟨s', hdocument, hu'⟩, htext, v, hscore, hq⟩⟩

/-- A chunk with a string for its text comes from a result. -/
theorem Json.isResult_of_toChunk {codec : JsonCodec} {item : Json} {chunk : LoadedChunk}
    (h : item.toChunk codec = .ok chunk) {text : Str} (htext : chunk.text = .string text) :
    item.IsResult codec := by
  obtain ⟨⟨s, hid, hu⟩, ⟨s', hdocument, hu'⟩, hitem, v, hscore, hq⟩ := Json.toChunk_ok.mp h
  rw [htext] at hitem
  exact ⟨⟨s, _, hid, hu⟩, ⟨s', _, hdocument, hu'⟩, ⟨text, hitem⟩, v, _, hscore, hq⟩

/-- A serialized list of results is decoded. -/
theorem IsResultList.exists_deserializeBytes (h : IsResultList codec raw) :
    ∃ results, deserializeBytes codec raw = .ok results := by
  obtain ⟨items, hjson, hitems⟩ := h
  obtain ⟨results, hresults⟩ := exists_mapM_ok fun item hitem => (hitems item hitem).exists_toChunk
  exact ⟨results, deserializeBytes_ok.mpr ⟨_, items, hjson, rfl, hresults⟩⟩

/-- What is decoded to results of a search is a serialized list of results, or it has no elements
    and neither have the results. -/
theorem isResultList_of_deserializeBytes {ranked : List ScoredChunk}
    (h : deserializeBytes codec raw = .ok (ranked.map ScoredChunk.loaded)) :
    IsResultList codec raw ∨ IsEmptyValue codec raw ∧ ranked = [] := by
  obtain ⟨value, items, hjson, hiterate, hchunks⟩ := deserializeBytes_ok.mp h
  have hstrings : (∀ item ∈ items, ∃ s, item = .string s) → items = [] := by
    intro hall
    cases items with
    | nil => rfl
    | cons item rest =>
        obtain ⟨s, rfl⟩ := hall item List.mem_cons_self
        obtain ⟨chunk, -, hchunk⟩ := exists_of_mapM_ok hchunks List.mem_cons_self
        obtain ⟨⟨s', hget, -⟩, -⟩ := Json.toChunk_ok.mp hchunk
        cases hget
  have hnone : items = [] → ranked = [] := by
    rintro rfl
    exact List.map_eq_nil_iff.mp (Except.ok.inj hchunks).symm
  cases value with
  | null | bool b | number q => cases hiterate
  | array elements =>
      cases hiterate
      refine .inl ⟨items, hjson, ?_⟩
      intro item hitem
      obtain ⟨chunk, hchunk, htoChunk⟩ := exists_of_mapM_ok hchunks hitem
      obtain ⟨result, -, rfl⟩ := List.mem_map.mp hchunk
      exact Json.isResult_of_toChunk htoChunk rfl
  | object fields =>
      cases hiterate
      have hnil := hstrings fun item hitem => by
        obtain ⟨field, -, rfl⟩ := List.mem_map.mp hitem
        exact ⟨_, rfl⟩
      rw [List.map_eq_nil_iff] at hnil
      subst hnil
      exact .inr ⟨.inl hjson, hnone rfl⟩
  | string s =>
      cases hiterate
      have hnil := hstrings fun item hitem => by
        obtain ⟨c, -, rfl⟩ := List.mem_map.mp hitem
        exact ⟨_, rfl⟩
      rw [List.map_eq_nil_iff] at hnil
      subst hnil
      exact .inr ⟨.inr hjson, hnone rfl⟩

theorem IsEmptyValue.deserializeBytes (h : IsEmptyValue codec raw) :
    Eka.deserializeBytes codec raw = .ok [] := by
  rcases h with hjson | hjson
  · exact deserializeBytes_ok.mpr ⟨_, [], hjson, rfl, rfl⟩
  · exact deserializeBytes_ok.mpr ⟨_, [], hjson, rfl, rfl⟩

namespace SearchHandler

variable {handler : SearchHandler} {tenantId : UUID} {query : SearchQuery} {t : Chunks}
  {get : RedisReply}

/-- The search does not depend on the cache: `RedisSearchCache.get` raises nothing, and where
    Redis has no serialized list of results the answer is the one of the live search, whatever
    becomes of the write. -/
structure CacheIndependent (handler : SearchHandler) (codec : BytesCodec) (tenantId : UUID)
    (query : SearchQuery) (t : Chunks) (get : RedisReply) : Prop where
  quiet : ∃ cached, get.receive codec = .ok cached
  live : (∀ raw, get = .bytes raw → ¬ IsResultList codec raw) →
    ∀ (set : Outcome) (now : Instant) (redis : Redis),
      (handler.handleReply codec get set now tenantId query t redis).1 =
        (handler.live tenantId query t).map (·.map ScoredChunk.loaded)

/-- Without stored bytes the answer is the one of the live search. -/
theorem handleReply_live (h : get.receive codec = .ok none) (set : Outcome) (now : Instant)
    (redis : Redis) : (handler.handleReply codec get set now tenantId query t redis).1 =
      (handler.live tenantId query t).map (·.map ScoredChunk.loaded) := by
  unfold handleReply
  rw [h]
  simp only
  cases handler.live tenantId query t <;> rfl

/-- With bytes that are decoded it is what they are decoded to. -/
theorem handleReply_cached {results : List LoadedChunk}
    (h : get.receive codec = .ok (some results)) (set : Outcome) (now : Instant) (redis : Redis) :
    (handler.handleReply codec get set now tenantId query t redis).1 = .ok results := by
  unfold handleReply
  rw [h]

theorem cacheIndependent_of_none (h : get.receive codec = .ok none) :
    handler.CacheIndependent codec tenantId query t get :=
  ⟨⟨none, h⟩, fun _ => handleReply_live h⟩

theorem cacheIndependent_bytes_iff : handler.CacheIndependent codec tenantId query t (.bytes raw) ↔
    IsResultList codec raw ∨
      IsEmptyValue codec raw ∧ handler.live tenantId query t = .ok [] := by
  constructor
  · intro hindependent
    obtain ⟨cached, hcached⟩ := hindependent.quiet
    obtain ⟨results, hresults, rfl⟩ := map_ok.mp hcached
    by_contra hneither
    have hnot : ¬ IsResultList codec raw := fun h => hneither (.inl h)
    have hlive := hindependent.live (fun raw' heq => by cases heq; exact hnot) .returns 0 Dict.empty
    rw [handleReply_cached hcached] at hlive
    obtain ⟨ranked, hranked, hmap⟩ := map_ok.mp hlive.symm
    rw [← hmap] at hresults
    rcases isResultList_of_deserializeBytes hresults with hlist | ⟨hempty, rfl⟩
    · exact hnot hlist
    · exact hneither (.inr ⟨hempty, hranked⟩)
  · rintro (hlist | ⟨hempty, hnothing⟩)
    · obtain ⟨results, hresults⟩ := hlist.exists_deserializeBytes
      refine ⟨⟨some results, map_ok.mpr ⟨results, hresults, rfl⟩⟩, fun hnot => ?_⟩
      exact absurd hlist (hnot raw rfl)
    · have hreceive : (RedisReply.bytes raw).receive codec = .ok (some []) :=
        map_ok.mpr ⟨[], hempty.deserializeBytes, rfl⟩
      refine ⟨⟨some [], hreceive⟩, fun _ set now redis => ?_⟩
      rw [handleReply_cached hreceive, hnothing]
      rfl

end SearchHandler

/-- For every query and everything that Redis does, the search does not depend on the cache if and
    only if what Redis has stored, should it return anything, is a serialized list of results, or
    an empty object or string where the live search finds nothing. -/
theorem search_cacheIndependent_iff (handler : SearchHandler) (codec : BytesCodec)
    (tenantId : UUID) (query : SearchQuery) (t : Chunks) (get : RedisReply) :
    handler.CacheIndependent codec tenantId query t get ↔ ∀ raw, get = .bytes raw →
      IsResultList codec raw ∨
        IsEmptyValue codec raw ∧ handler.live tenantId query t = .ok [] := by
  cases get with
  | missing =>
      exact iff_of_true (SearchHandler.cacheIndependent_of_none rfl) fun raw h => nomatch h
  | redisError =>
      exact iff_of_true (SearchHandler.cacheIndependent_of_none rfl) fun raw h => nomatch h
  | bytes raw =>
      rw [SearchHandler.cacheIndependent_bytes_iff]
      constructor
      · intro h raw' heq
        cases heq
        exact h
      · intro h
        exact h raw rfl

/-! ### An empty value -/

/-- A codec that reads nothing out of an empty text. -/
def emptyCodec : BytesCodec where
  dumps _ := []
  loads _ := .error (.valueError "Expecting value: line 1 column 1 (char 0)".toList)
  float _ := none
  repr s := s
  decimal _ := none
  decode _ := .ok []

/-- The `JSONDecodeError` of an empty value goes through to the caller. -/
theorem emptyValue_escapes : ¬ ∀ (handler : SearchHandler) (codec : BytesCodec) (tenantId : UUID)
    (query : SearchQuery) (t : Chunks) (get : RedisReply),
    handler.CacheIndependent codec tenantId query t get := by
  intro hall
  obtain ⟨cached, hcached⟩ := (hall helloHandler emptyCodec ⟨1⟩
    ⟨"hello".toList, 7, none, by decide, by decide, by decide⟩ helloIndex (.bytes [])).quiet
  cases hcached

end Eka
