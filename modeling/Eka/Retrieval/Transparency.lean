import Mathlib.Data.Rat.Encodable
import Mathlib.Logic.Equiv.List
import Eka.Ingestion.HashingEmbedding
import Eka.Lib.Memo
import Eka.Lib.PyCase
import Eka.Retrieval.Payload

/-!
# The search cache is transparent

`handle` answers from the cache or from embedding, retrieving and reranking. A key determines
everything of a request that the other path looks at, so on a fixed index nobody can tell the
two apart.
-/

namespace Eka

open Py Relational

/-! ## What a key determines -/

theorem collection_spec (collectionId : Option UUID) :
    '|' ∉ (collectionId.map UUID.str).getD "*".toList := by
  cases collectionId with
  | none => decide
  | some collectionId => exact UUID.notMem_str (by decide) (by decide) collectionId

theorem collection_injective {a b : Option UUID}
    (h : (a.map UUID.str).getD "*".toList = (b.map UUID.str).getD "*".toList) : a = b := by
  have hlength : ∀ u : UUID, u.str ≠ "*".toList := by
    intro u hu
    have := congrArg List.length hu
    rw [UUID.length_str] at this
    cases this
  cases a with
  | none =>
      cases b with
      | none => rfl
      | some b => exact absurd h.symm (hlength b)
  | some a =>
      cases b with
      | none => exact absurd h (hlength a)
      | some b => exact congrArg some (UUID.str_injective h)

/-- Under an injective digest, equal keys come from the same tenant, filter and limit, and from
    texts with one normal form. -/
theorem buildCacheKey_inj {lower sha256 : Str → Str} (hsha : Function.Injective sha256)
    {a b : UUID} {collection collection' : Option UUID} {text text' : Str} {topK topK' : Nat} :
    buildCacheKey lower sha256 a collection text topK =
        buildCacheKey lower sha256 b collection' text' topK' ↔
      a = b ∧ collection = collection' ∧ topK = topK' ∧
        normalize lower text = normalize lower text' := by
  constructor
  · intro h
    obtain rfl := tenant_of_buildCacheKey h
    unfold buildCacheKey at h
    simp only [List.append_assoc, List.append_cancel_left_eq, List.cons_append,
      List.cons.injEq, true_and] at h
    have hmaterial := hsha h
    simp only [List.append_cancel_left_eq, List.cons.injEq, true_and] at hmaterial
    obtain ⟨hcollection, hrest⟩ := append_cons_inj (collection_spec collection)
      (collection_spec collection') hmaterial
    have hbar : ∀ n : Nat, '|' ∉ (toString n).toList := by
      intro n hn
      have := isDigit_of_mem_toString hn
      revert this
      decide
    obtain ⟨htopK, htext⟩ := append_cons_inj (hbar topK) (hbar topK') hrest
    exact ⟨rfl, collection_injective hcollection, toString_toList_injective htopK, htext⟩
  · rintro ⟨rfl, rfl, rfl, htext⟩
    unfold buildCacheKey
    rw [htext]

/-! ## What the live path looks at -/

section Normalized

variable {lower : Str → Str} {text text' : Str}

theorem findTokens_congr (h : normalize lower text = normalize lower text') :
    findTokens (lower text) = findTokens (lower text') := by
  have hspace : ∀ c, isSpace c = true → isTokenChar c = false := fun c => isTokenChar_of_isSpace
  unfold findTokens
  rw [← runs_join_words hspace (lower text), ← runs_join_words hspace (lower text')]
  exact congrArg _ h

/-- Texts with one normal form have one embedding. -/
theorem HashingEmbeddingModel.embedOne_normalized {primitives : Primitives ℚ} {dimension : Int}
    {model : EmbeddingModel} (hmake : make { primitives with lower := lower } dimension = .ok model)
    (h : normalize lower text = normalize lower text') :
    model.embedOne text = model.embedOne text' := by
  obtain ⟨-, -, hvalues⟩ := make_ok hmake
  have hsame : (model.embedOne text).values = (model.embedOne text').values := by
    rw [hvalues, hvalues]
    exact embedOne_congr (findTokens_congr h)
  cases htext : model.embedOne text
  cases htext' : model.embedOne text'
  rw [htext, htext'] at hsame
  cases hsame
  rfl

theorem LexicalReranker.tokens_normalized (h : normalize lower text = normalize lower text') :
    tokens lower text = tokens lower text' := by
  unfold tokens
  rw [findTokens_congr h]

/-- Texts with one normal form rank alike. -/
theorem LexicalReranker.rerank_normalized (h : normalize lower text = normalize lower text')
    (candidates : List ScoredChunk) (topK : Nat) :
    rerank lower text candidates topK = rerank lower text' candidates topK := by
  have hfinal : final lower text = final lower text' := by
    unfold final
    rw [tokens_normalized h, h]
  unfold rerank
  rw [hfinal]

theorem nul_mem_normalized (hnul : ∀ s, '\x00' ∈ lower s ↔ '\x00' ∈ s)
    (h : normalize lower text = normalize lower text') : '\x00' ∈ text ↔ '\x00' ∈ text' := by
  have hmem : ∀ s, '\x00' ∈ normalize lower s ↔ '\x00' ∈ s := by
    intro s
    unfold normalize
    rw [mem_join_words (by decide), hnul]
  rw [← hmem text, h, hmem]

end Normalized

/-- What `plainto_tsquery` does with a query depends on its normal form. -/
structure SearchServer.Insensitive (server : SearchServer) (lower : Str → Str) : Prop where
  tsMatches : ∀ text text', normalize lower text = normalize lower text' →
    server.tsMatches text = server.tsMatches text'
  tsRanks : ∀ text text', normalize lower text = normalize lower text' →
    server.tsRanks text = server.tsRanks text'

theorem PgVectorHybridRetriever.retrieve_congr {server : SearchServer} {tenantId : UUID}
    {query query' : SearchQuery} {embedding : Embedding} {poolSize : Nat} {t : Chunks}
    (hcollection : query.collectionId = query'.collectionId)
    (hnul : '\x00' ∈ query.text ↔ '\x00' ∈ query'.text)
    (hmatches : server.tsMatches query.text = server.tsMatches query'.text)
    (hranks : server.tsRanks query.text = server.tsRanks query'.text) :
    retrieve server tenantId query embedding poolSize t =
      retrieve server tenantId query' embedding poolSize t := by
  have hvector : vectorRows server tenantId query embedding poolSize t =
      vectorRows server tenantId query' embedding poolSize t := by
    unfold vectorRows
    rw [hcollection]
  have hkeyword : keywordRows server tenantId query poolSize t =
      keywordRows server tenantId query' poolSize t := by
    unfold keywordRows
    rw [hcollection, hmatches, hranks, if_congr hnul rfl rfl]
  unfold retrieve
  rw [hvector, hkeyword]

namespace SearchHandler

/-- Embedding, retrieving and reranking (`search.py:63-67`). -/
def live (handler : SearchHandler) (tenantId : UUID) (query : SearchQuery) (t : Chunks) :
    Except Error (List ScoredChunk) :=
  (PgVectorHybridRetriever.retrieve handler.server tenantId query
    (handler.embedder.embedOne query.text) handler.poolSize t).map fun candidates =>
      LexicalReranker.rerank handler.lower query.text candidates query.topK

/-- The searches that follow each other on an index, with what each meets, and what `handle`
    answers to them. -/
def searches (handler : SearchHandler) (codec : JsonCodec) (t : Chunks) :
    List (SearchEnv × UUID × SearchQuery) → Redis → List (Except Error (List LoadedChunk))
  | [], _ => []
  | (env, tenantId, query) :: rest, redis =>
      (handler.handlePayload codec env tenantId query t redis).1 ::
        handler.searches codec t rest (handler.handlePayload codec env tenantId query t redis).2

/-- The handler as a read-through cache. -/
def memo (handler : SearchHandler) (t : Chunks) :
    Memo.Cache (UUID × SearchQuery) Str (List ScoredChunk) SearchEnv SearchCache Error where
  key q := handler.key q.1 q.2
  compute q := handler.live q.1 q.2 t
  lookup env key cache := RedisSearchCache.get key env.now env.get cache
  store env key results cache :=
    RedisSearchCache.set key results handler.cacheTtlSeconds env.now env.set cache

theorem handle_eq_call (handler : SearchHandler) (env : SearchEnv) (tenantId : UUID)
    (query : SearchQuery) (t : Chunks) (cache : SearchCache) :
    handler.handle env tenantId query t cache =
      (handler.memo t).call env (tenantId, query) cache := by
  have hlookup : (handler.memo t).lookup env ((handler.memo t).key (tenantId, query)) cache =
      RedisSearchCache.get (handler.key tenantId query) env.now env.get cache := rfl
  have hcompute : (handler.memo t).compute (tenantId, query) = handler.live tenantId query t := rfl
  unfold handle Memo.Cache.call
  rw [hlookup, hcompute, live]
  cases RedisSearchCache.get (handler.key tenantId query) env.now env.get cache with
  | some cached => rfl
  | none =>
      cases PgVectorHybridRetriever.retrieve handler.server tenantId query
        (handler.embedder.embedOne query.text) handler.poolSize t with
      | error e => rfl
      | ok candidates => rfl

/-- Over payloads the searches are those over results. -/
theorem searches_eq {handler : SearchHandler} {codec : JsonCodec} (hcodec : codec.Faithful)
    (t : Chunks) {redis : Redis} {cache : SearchCache} (h : redis.Holds codec cache)
    (calls : List (SearchEnv × UUID × SearchQuery)) :
    handler.searches codec t calls redis =
      ((handler.memo t).calls calls cache).map (·.map (·.map ScoredChunk.loaded)) := by
  induction calls generalizing redis cache with
  | nil => rfl
  | cons call calls ih =>
      obtain ⟨env, tenantId, query⟩ := call
      obtain ⟨hanswer, hholds⟩ := handlePayload_eq h hcodec env tenantId query t
      unfold searches Memo.Cache.calls
      rw [hanswer, ih hholds, handle_eq_call, List.map_cons]

variable {handler : SearchHandler} {primitives : HashingEmbeddingModel.Primitives ℚ}
  {dimension : Int}

/-- Requests with one key have one live answer. -/
theorem live_congr (hmake : HashingEmbeddingModel.make { primitives with lower := handler.lower }
      dimension = .ok handler.embedder)
    (hnul : ∀ s, '\x00' ∈ handler.lower s ↔ '\x00' ∈ s)
    (hserver : handler.server.Insensitive handler.lower)
    (hsha : Function.Injective handler.sha256) {tenantId tenantId' : UUID}
    {query query' : SearchQuery} (h : handler.key tenantId query = handler.key tenantId' query')
    (t : Chunks) : handler.live tenantId query t = handler.live tenantId' query' t := by
  obtain ⟨rfl, hcollection, htopK, htext⟩ := (buildCacheKey_inj hsha).mp h
  unfold live
  rw [HashingEmbeddingModel.embedOne_normalized hmake htext,
    PgVectorHybridRetriever.retrieve_congr hcollection (nul_mem_normalized hnul htext)
      (hserver.tsMatches _ _ htext) (hserver.tsRanks _ _ htext), htopK]
  congr 1
  funext candidates
  exact LexicalReranker.rerank_normalized htext candidates query'.topK

theorem memo_lawful (hmake : HashingEmbeddingModel.make { primitives with lower := handler.lower }
      dimension = .ok handler.embedder)
    (hnul : ∀ s, '\x00' ∈ handler.lower s ↔ '\x00' ∈ s)
    (hserver : handler.server.Insensitive handler.lower)
    (hsha : Function.Injective handler.sha256) (t : Chunks) : (handler.memo t).Lawful where
  keyed q q' h := live_congr hmake hnul hserver hsha h t
  lookup_store := by
    intro env env' key key' results results' cache h
    change RedisSearchCache.get key' env'.now env'.get
      (RedisSearchCache.set key results handler.cacheTtlSeconds env.now env.set cache) =
        some results' at h
    by_cases hkey : key' = key
    · subst hkey
      rcases RedisSearchCache.get_set h with hnew | hold
      · exact .inl ⟨rfl, hnew⟩
      · exact .inr ⟨env', hold⟩
    · refine .inr ⟨env', ?_⟩
      rw [← h]
      exact (RedisSearchCache.get_congr (RedisSearchCache.get?_set hkey ..) _ _).symm

theorem memo_sound_empty (handler : SearchHandler) (t : Chunks) :
    (handler.memo t).Sound Dict.empty := by
  intro env q results hlookup
  have hmiss : RedisSearchCache.get (handler.key q.1 q.2) env.now env.get Dict.empty = none := by
    unfold RedisSearchCache.get
    split <;> rfl
  cases hmiss.symm.trans hlookup

/-- No search shows whether the cache answered it: from an empty cache, on a fixed index, every
    answer is the one of the live path. Equal keys come from requests that differ in the layout
    of the text at most, the embedder and the reranker do not see that layout, and a payload
    gives back the results that were put into it. -/
theorem searches_transparent {codec : JsonCodec}
    (hmake : HashingEmbeddingModel.make { primitives with lower := handler.lower } dimension =
      .ok handler.embedder)
    (hnul : ∀ s, '\x00' ∈ handler.lower s ↔ '\x00' ∈ s)
    (hserver : handler.server.Insensitive handler.lower)
    (hsha : Function.Injective handler.sha256) (hcodec : codec.Faithful) (t : Chunks) :
    (∀ calls, handler.searches codec t calls Dict.empty = calls.map fun call =>
      (handler.live call.2.1 call.2.2 t).map (·.map ScoredChunk.loaded)) ∧
    (∀ tenantId tenantId' query query', handler.key tenantId query = handler.key tenantId' query' →
      tenantId = tenantId' ∧ query.collectionId = query'.collectionId ∧
        query.topK = query'.topK ∧
        normalize handler.lower query.text = normalize handler.lower query'.text) ∧
    (∀ text text', normalize handler.lower text = normalize handler.lower text' →
      handler.embedder.embedOne text = handler.embedder.embedOne text' ∧
        ∀ candidates topK, LexicalReranker.rerank handler.lower text candidates topK =
          LexicalReranker.rerank handler.lower text' candidates topK) ∧
    ∀ results, deserialize codec (serialize codec results) =
      .ok (results.map ScoredChunk.loaded) := by
  refine ⟨?_, ?_, ?_, deserialize_serialize hcodec⟩
  · intro calls
    have hholds : Redis.Holds codec Dict.empty Dict.empty := fun _ => rfl
    have hlawful := memo_lawful hmake hnul hserver hsha t
    rw [searches_eq hcodec t hholds, (memo_sound_empty handler t).calls hlawful, List.map_map]
    rfl
  · intro tenantId tenantId' query query' h
    exact (buildCacheKey_inj hsha).mp h
  · intro text text' h
    exact ⟨HashingEmbeddingModel.embedOne_normalized hmake h,
      LexicalReranker.rerank_normalized h⟩

end SearchHandler

/-! ### An index with `hello` in it -/

/-- The one result for `hello`. -/
def helloResult : ScoredChunk := ⟨⟨10⟩, ⟨11⟩, "hello".toList, 7 / 10⟩

/-- Its payload. -/
def helloPayload : Str :=
  '[' :: "\x7b\"chunk_id\": \"00000000-0000-0000-0000-00000000000a\", ".toList ++
    "\"document_id\": \"00000000-0000-0000-0000-00000000000b\", ".toList ++
    "\"text\": \"hello\", \"score\": 0.7\x7d]".toList

/-- A list of results as a number. -/
def ScoredChunk.code (results : List ScoredChunk) : ℕ :=
  Encodable.encode (results.map fun result => (result.chunkId.int.toNat,
    result.documentId.int.toNat, result.text.map Char.toNat, result.score))

theorem ScoredChunk.code_injective : Function.Injective ScoredChunk.code := by
  intro results results' h
  refine List.map_injective_iff.mpr ?_ (Encodable.encode_injective h)
  intro a b hab
  simp only [Prod.mk.injEq] at hab
  obtain ⟨hid, hdocument, htext, hscore⟩ := hab
  have htext := List.map_injective_iff.mpr (fun _ _ => Char.toNat_inj.mp) htext
  have huuid : ∀ u v : UUID, u.int.toNat = v.int.toNat → u = v :=
    fun u v huv => congrArg UUID.mk (BitVec.eq_of_toNat_eq huv)
  have hid := huuid _ _ hid
  have hdocument := huuid _ _ hdocument
  cases a
  cases b
  simp only at *
  rw [hid, hdocument, htext, hscore]

open Classical in
/-- A codec that writes `helloResult` as `json.dumps` does, and other results as a number of
    marks. -/
noncomputable def helloCodec : JsonCodec where
  dumps value :=
    if value = .array [helloResult.json] then helloPayload
    else
      List.replicate (ScoredChunk.code (Function.invFun
        (fun results => Json.array (results.map ScoredChunk.json)) value)) '#'
  loads payload :=
    if payload = helloPayload then .ok (.array [helloResult.json])
    else
      .ok (.array ((Function.invFun ScoredChunk.code payload.length).map ScoredChunk.json))
  float _ := none
  repr s := s
  decimal _ := none

theorem helloCodec_faithful : helloCodec.Faithful := by
  intro results
  have hjson : Function.Injective fun results : List ScoredChunk =>
      Json.array (results.map ScoredChunk.json) := by
    intro a b h
    exact List.map_injective_iff.mpr ScoredChunk.json_injective (Json.array.inj h)
  unfold serialize helloCodec
  simp only
  by_cases hresults : Json.array (results.map ScoredChunk.json) = .array [helloResult.json]
  · rw [if_pos hresults, if_pos rfl, hresults]
  · have hmarks : ∀ n, List.replicate n '#' ≠ helloPayload := by
      intro n hn
      have hbracket : '[' ∈ List.replicate n '#' := by
        rw [hn]
        exact List.mem_cons_self
      exact absurd (List.eq_of_mem_replicate hbracket) (by decide)
    rw [if_neg hresults, if_neg (hmarks _), List.length_replicate,
      Function.leftInverse_invFun hjson results,
      Function.leftInverse_invFun ScoredChunk.code_injective]

/-- `hashlib.sha256(s.encode()).hexdigest()` of the material for `hello`. -/
def helloKeyDigest (s : Str) : Str :=
  if s = "00000000-0000-0000-0000-000000000001|*|7|hello".toList then
    "8c31ae1431692138c29c362a80dd11f8be0559a162a27df4304812ddc5ca29c9".toList
  else '#' :: s

theorem helloKeyDigest_injective : Function.Injective helloKeyDigest := by
  intro s s' h
  unfold helloKeyDigest at h
  split at h
  · next hs =>
      split at h
      · next hs' => rw [hs, hs']
      · cases h
  · split at h
    · cases h
    · exact (List.cons.inj h).2

theorem nul_mem_asciiLower (s : Str) : '\x00' ∈ s.map asciiLower ↔ '\x00' ∈ s := by
  rw [List.mem_map]
  constructor
  · rintro ⟨c, hc, hnul⟩
    rw [← asciiLower_eq_nul.mp hnul]
    exact hc
  · intro h
    exact ⟨_, h, rfl⟩

/-- A server that looks for the query as a phrase. -/
noncomputable def helloServer : SearchServer where
  nearer _ _ _ := true
  tsMatches text row :=
    normalize (List.map asciiLower) text <:+: normalize (List.map asciiLower) row.value
  tsRanks _ _ _ := true
  vectorTies := .some _
  keywordTies := .some _

theorem helloServer_insensitive : helloServer.Insensitive (List.map asciiLower) where
  tsMatches text text' h := by
    unfold helloServer
    simp only
    rw [h]
  tsRanks _ _ _ := rfl

/-- The SHA-1 digest of `hello` starts with `aaf4c61ddc`. -/
def helloPrimitives : HashingEmbeddingModel.Primitives ℚ :=
  ⟨List.map asciiLower, fun _ => 0xaaf4c61d, fun _ => false, fun v _ => v⟩

def helloEmbedder : EmbeddingModel where
  dimension := 384
  embedOne text := ⟨HashingEmbeddingModel.embedOne helloPrimitives 384 text, by
    rw [← List.length_pos_iff, HashingEmbeddingModel.length_embedOne]
    decide⟩
  sized text := HashingEmbeddingModel.length_embedOne helloPrimitives 384 text

noncomputable def helloHandler : SearchHandler where
  embedder := helloEmbedder
  server := helloServer
  lower := List.map asciiLower
  sha256 := helloKeyDigest
  poolSize := 50
  cacheTtlSeconds := 300

/-- The chunk of `helloResult`. -/
def helloIndex : Chunks :=
  ⟨[⟨⟨10⟩, ⟨1⟩, ⟨11⟩, ⟨2⟩, 1, 0, ⟨"hello".toList, by decide⟩,
    ⟨helloEmbedder.embedOne "hello".toList, helloEmbedder.sized _⟩, 1⟩],
    List.pairwise_singleton _ _⟩

/-- Two spellings of one query; the second is answered from the cache. -/
def helloSearches : List (SearchEnv × UUID × SearchQuery) :=
  [(⟨1, .returns, .returns⟩, ⟨1⟩, ⟨"Hello".toList, 7, none, by decide, by decide, by decide⟩),
    (⟨2, .returns, .returns⟩, ⟨1⟩, ⟨" hello ".toList, 7, none, by decide, by decide, by decide⟩)]

theorem searches_transparent_hello :
    helloHandler.searches helloCodec helloIndex helloSearches Dict.empty =
      helloSearches.map fun call =>
        (helloHandler.live call.2.1 call.2.2 helloIndex).map (·.map ScoredChunk.loaded) :=
  (@SearchHandler.searches_transparent helloHandler helloPrimitives 384 helloCodec rfl
    nul_mem_asciiLower helloServer_insensitive helloKeyDigest_injective helloCodec_faithful
    helloIndex).1 helloSearches

end Eka
