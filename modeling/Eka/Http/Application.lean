import Eka.Http.Requests
import Eka.Retrieval.CacheFailures

/-!
# The application

What `create_app` builds (`api/app.py`): the API, where a search meets whatever bytes Redis has
for its key, and the token endpoint of `identity/presentation`, which needs no token itself.
-/

namespace Eka

open Py Relational Fallible

/-- The API, what reads a stored value, and the two settings of the token endpoint
    (`config.py:48-49`). Nothing maps what `json.loads` raises. -/
structure App extends HttpApi where
  codec : BytesCodec
  decode : ∀ {raw e}, codec.decode raw = .error e → HttpResponse.ofError e = .unhandled
  loads : ∀ {payload e}, codec.loads payload = .error e → HttpResponse.ofError e = .unhandled
  authDevTokenEnabled : Bool
  jwtAccessTtlSeconds : Nat

/-- The database and Redis. -/
structure Backend where
  store : Store
  redis : Redis

/-- What one request meets. What Redis does on a `get` of a key is `reply` here, in the place of
    `search.get`; `encode` is `jwt.encode` of the claims, the secret and the algorithm, `none`
    where it raises. -/
structure AppEnv (F : Type) extends HttpEnv F where
  reply : Str → RedisReply
  encode : Claims F → Str → Str → Option Str

/-! ## Results out of Redis -/

/-- What becomes of a result whose text is no string: `SearchResultItem` refuses it with a
    `ValidationError` of pydantic's, `scan` of the guard with a `TypeError`. -/
def LoadedChunk.toScored (chunk : LoadedChunk) : Except Error ScoredChunk :=
  match chunk.text with
  | .string text => .ok ⟨chunk.chunkId, chunk.documentId, text, chunk.score⟩
  | _ => .error .infrastructure

theorem LoadedChunk.toScored_ok {chunk : LoadedChunk} {result : ScoredChunk} :
    chunk.toScored = .ok result ↔ chunk = result.loaded := by
  obtain ⟨chunkId, documentId, text, score⟩ := chunk
  constructor
  · intro h
    unfold toScored at h
    cases text with
    | string s =>
        cases h
        rfl
    | _ => cases h
  · intro h
    rw [h]
    rfl

theorem mapM_toScored {chunks : List LoadedChunk} {results : List ScoredChunk} :
    chunks.mapM LoadedChunk.toScored = .ok results ↔ chunks = results.map ScoredChunk.loaded := by
  rw [mapM_ok]
  simp only [LoadedChunk.toScored_ok]
  constructor
  · intro h
    induction h with
    | nil => rfl
    | cons hchunk _ ih => rw [hchunk, ih, List.map_cons]
  · rintro rfl
    exact List.forall₂_map_left_iff.mpr (List.forall₂_same.mpr fun _ _ => rfl)

/-- Results are used if each has a string for its text. -/
theorem all_isString {chunks : List LoadedChunk} : chunks.all (·.text.isString) = true ↔
    ∃ results, chunks.mapM LoadedChunk.toScored = .ok results := by
  constructor
  · intro hall
    refine exists_mapM_ok fun chunk hchunk => ?_
    have hstring := List.all_eq_true.mp hall chunk hchunk
    unfold LoadedChunk.toScored
    cases htext : chunk.text with
    | string text => exact ⟨_, rfl⟩
    | _ =>
        rw [htext] at hstring
        cases hstring
  · rintro ⟨results, hresults⟩
    refine List.all_eq_true.mpr fun chunk hchunk => ?_
    rw [mapM_toScored.mp hresults] at hchunk
    obtain ⟨result, -, rfl⟩ := List.mem_map.mp hchunk
    rfl

theorem mapM_toScored_error {chunks : List LoadedChunk} {e : Error}
    (h : chunks.mapM LoadedChunk.toScored = .error e) : HttpResponse.ofError e = .unhandled := by
  obtain ⟨chunk, -, herror⟩ := mapM_error h
  unfold LoadedChunk.toScored at herror
  split at herror
  · cases herror
  · cases herror
    rfl

/-- `value["…"]` raises a `KeyError` or a `TypeError`. -/
theorem Json.getItem_error {key : Str} {item : Json} {e : Error}
    (h : item.getItem key = .error e) : HttpResponse.ofError e = .unhandled := by
  unfold getItem at h
  split at h
  · split at h
    · cases h
      rfl
    · cases h
  · cases h
    rfl

theorem Json.toUuid_error {codec : JsonCodec} {item : Json} {e : Error}
    (h : item.toUuid codec = .error e) : HttpResponse.ofError e = .unhandled := by
  unfold toUuid at h
  split at h
  · obtain ⟨message, rfl⟩ := UUID.ofStr_error h
    rfl
  · cases h
    rfl

theorem Json.toFloat_error {codec : JsonCodec} {item : Json} {e : Error}
    (h : item.toFloat codec = .error e) : HttpResponse.ofError e = .unhandled := by
  unfold toFloat at h
  split at h
  · cases h
  · cases h
  · split at h
    · cases h
      rfl
    · cases h
  · cases h
    rfl

theorem Json.toChunk_error {codec : JsonCodec} {item : Json} {e : Error}
    (h : item.toChunk codec = .error e) : HttpResponse.ofError e = .unhandled := by
  rcases bind_error h with h | ⟨id, -, h⟩
  · exact getItem_error h
  rcases bind_error h with h | ⟨chunkId, -, h⟩
  · exact toUuid_error h
  rcases bind_error h with h | ⟨document, -, h⟩
  · exact getItem_error h
  rcases bind_error h with h | ⟨documentId, -, h⟩
  · exact toUuid_error h
  rcases bind_error h with h | ⟨text, -, h⟩
  · exact getItem_error h
  rcases bind_error h with h | ⟨score, -, h⟩
  · exact getItem_error h
  rcases bind_error h with h | ⟨q, -, h⟩
  · exact toFloat_error h
  · cases h

/-- Nothing maps what `RedisSearchCache.get` raises. -/
theorem App.receive_error (app : App) {reply : RedisReply} {e : Error}
    (h : reply.receive app.codec = .error e) : HttpResponse.ofError e = .unhandled := by
  unfold RedisReply.receive at h
  cases reply with
  | missing => cases h
  | redisError => cases h
  | bytes raw =>
      rcases bind_error (map_error.mp h) with h | ⟨payload, -, h⟩
      · exact app.decode h
      rcases bind_error h with h | ⟨value, -, h⟩
      · exact app.loads h
      rcases bind_error h with h | ⟨items, -, h⟩
      · cases value with
        | null | bool b | number q =>
            cases h
            rfl
        | string s | array items | object items => cases h
      · obtain ⟨item, -, h⟩ := mapM_error h
        exact Json.toChunk_error h

/-- `Operation.perform` with Redis for the cache, which only a search looks at. -/
def Operation.performReply {F : Type} (app : App) (env : AppEnv F) (id tenantId : UUID)
    (s : Backend) : Operation → Except Error Answer × Backend
  | .search query =>
      let (result, redis) := app.api.search.handleReply app.codec
        (env.reply (app.api.search.key tenantId query)) env.search.set env.search.now tenantId
        query s.store.chunks s.redis
      ((result.bind (·.mapM LoadedChunk.toScored)).map .results, { s with redis := redis })
  | operation =>
      let (result, s') := operation.perform app.api env.toApiEnv id tenantId ⟨s.store, .empty⟩
      (result, { s with store := s'.store })

/-! ## Requests -/

/-- `TokenRequest` (`identity/presentation/schemas.py:9-14`). -/
structure TokenRequest where
  tenantId : UUID
  subject : Str
  roles : List Str

def TokenRequest.conforms (body : TokenRequest) : Bool := 1 ≤ body.subject.length

/-- The requests to the routes under `/v1`. -/
inductive AppRequest where
  | issueToken (body : TokenRequest)
  | call (request : HttpRequest)

namespace App

variable {F : Type}

/-- `get_token_issuer` (`api/security.py:34-40`). -/
def issuer (app : App) : JwtTokenIssuer :=
  ⟨app.verifier.secret, app.verifier.algorithm, app.verifier.issuer⟩

/-- `issue_token` (`identity/presentation/router.py:20-36`). -/
def issueToken (app : App) (env : AppEnv F) (body : TokenRequest) : HttpResponse :=
  if body.conforms then
    if app.authDevTokenEnabled then
      match app.issuer.issue env.encode body.tenantId body.subject body.roles.toFinset
        app.jwtAccessTtlSeconds env.now with
      | none => .unhandled
      | some token => ⟨200, .token ⟨token, "bearer".toList, app.jwtAccessTtlSeconds⟩⟩
    else .ofError (.notFoundError "token endpoint is not available".toList)
  else .requestValidation

/-- `HttpApi.answered` over Redis. -/
def answered (app : App) (env : AppEnv F) (id tenantId : UUID) (s : Backend)
    (endpoint : Endpoint) : HttpResponse × Backend :=
  match HttpApi.operation endpoint with
  | .error e => (.ofError e, s)
  | .ok operation =>
      let (result, s') := operation.performReply app env id tenantId s
      (app.respond tenantId result endpoint, s')

/-- One request, with nobody in between. -/
def serve (app : App) (env : AppEnv F) (id : UUID) (s : Backend) :
    AppRequest → HttpResponse × Backend
  | .issueToken body => (app.issueToken env body, s)
  | .call request =>
      match getCurrentIdentity app.verifier env.jwt request.bearer request.header with
      | .error e => (.ofVerifyError e, s)
      | .ok identity =>
          if request.endpoint.conforms then
            app.answered env id identity.tenantId s request.endpoint
          else (.requestValidation, s)

/-! ## Over a cache of results -/

variable {app : App} {env : AppEnv F} {id tenantId : UUID} {s : Service} {redis : Redis}

/-- Redis replies what it has. -/
structure Replies (env : AppEnv F) (codec : BytesCodec) (redis : Redis) (cache : SearchCache) :
    Prop where
  faithful : codec.Faithful
  holds : redis.Holds codec.toJsonCodec cache
  reply : ∃ encode : Str → List UInt8, (∀ payload, codec.decode (encode payload) = .ok payload) ∧
    ∀ key, env.reply key = redis.reply encode key env.search.now env.search.get

theorem performReply_eq (h : Replies env app.codec redis s.cache) (operation : Operation) :
    (operation.performReply app env id tenantId ⟨s.store, redis⟩).1 =
        (operation.perform app.api env.toApiEnv id tenantId s).1 ∧
      (operation.performReply app env id tenantId ⟨s.store, redis⟩).2.store =
        (operation.perform app.api env.toApiEnv id tenantId s).2.store ∧
      (operation.performReply app env id tenantId ⟨s.store, redis⟩).2.redis.Holds
        app.codec.toJsonCodec (operation.perform app.api env.toApiEnv id tenantId s).2.cache := by
  cases operation with
  | search query =>
      obtain ⟨encode, hdecode, hreply⟩ := h.reply
      obtain ⟨hresult, hholds⟩ := @SearchHandler.handlePayload_eq app.codec.toJsonCodec
        app.api.search redis s.cache h.holds h.faithful env.search tenantId query s.store.chunks
      rw [app.api.search.handlePayload_eq_handleReply app.codec encode hdecode, ← hreply]
        at hresult hholds
      refine ⟨?_, rfl, hholds⟩
      show ((app.api.search.handleReply _ _ _ _ _ _ _ _).1.bind _).map Answer.results = _
      rw [hresult]
      cases hhandle : (app.api.search.handle env.search tenantId query s.store.chunks s.cache).1 with
      | error e =>
          show _ = (app.api.search.handle _ _ _ _ _).1.map Answer.results
          rw [hhandle]
          rfl
      | ok results =>
          show (List.mapM LoadedChunk.toScored (results.map ScoredChunk.loaded)).map
            Answer.results = (app.api.search.handle _ _ _ _ _).1.map Answer.results
          rw [hhandle, mapM_toScored.mpr rfl]
  | _ => exact ⟨rfl, rfl, h.holds⟩

/-- With a cache of results in Redis, a request is answered as over the cache itself. -/
theorem serve_call (h : Replies env app.codec redis s.cache) (request : HttpRequest) :
    (app.serve env id ⟨s.store, redis⟩ (.call request)).1 =
        (app.toHttpApi.serve env.toHttpEnv id s request).1 ∧
      (app.serve env id ⟨s.store, redis⟩ (.call request)).2.store =
        (app.toHttpApi.serve env.toHttpEnv id s request).2.store ∧
      (app.serve env id ⟨s.store, redis⟩ (.call request)).2.redis.Holds app.codec.toJsonCodec
        (app.toHttpApi.serve env.toHttpEnv id s request).2.cache := by
  unfold serve HttpApi.serve
  simp only
  cases getCurrentIdentity app.verifier env.jwt request.bearer request.header with
  | error e => exact ⟨rfl, rfl, h.holds⟩
  | ok identity =>
      simp only
      by_cases hconforms : request.endpoint.conforms = true
      · rw [if_pos hconforms, if_pos hconforms]
        unfold answered HttpApi.answered
        cases HttpApi.operation request.endpoint with
        | error e => exact ⟨rfl, rfl, h.holds⟩
        | ok operation =>
            obtain ⟨hresult, hkept⟩ :=
              @performReply_eq F app env id identity.tenantId s redis h operation
            exact ⟨congrArg (app.respond identity.tenantId · request.endpoint) hresult, hkept⟩
      · rw [if_neg hconforms, if_neg hconforms]
        exact ⟨rfl, rfl, h.holds⟩

end App

end Eka
