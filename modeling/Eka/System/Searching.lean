import Eka.Lib.Stale
import Eka.Retrieval.Snapshots
import Eka.System.Indexed
import Eka.System.Provenance

/-!
# Searches while the system runs

Any number of searches beside the API calls and the workers, over one cache in Redis. A search
awaits the lookup, the statement of each arm and the write of the cache, and anything may be
committed in between. So an answer need not be one of any single state of the index; but nothing
in it comes from anywhere else than the states that the run went through, and for how long an
answer may come out of the cache is bounded by the time to live.
-/

namespace Eka

open Py Relational Transition PgVectorHybridRetriever

/-- Where a search stands after its lookup (`search.py:63-67`): before the statement of the
    vector arm, or of the keyword arm with the rows of the first. -/
inductive SearchPhase where
  | vector (tenantId : UUID) (query : SearchQuery)
  | keyword (tenantId : UUID) (query : SearchQuery) (rows : List ChunkModel)

/-- The system with its searches and their cache. -/
abbrev Searching :=
  Stale.State System (UUID × SearchQuery) SearchPhase (List ScoredChunk) SearchCache

/-- A step of the system, or one awaited call of a search. -/
abbrev SearchLabel := Stale.Label Label (UUID × SearchQuery) SearchEnv

def Searching.init : Searching := ⟨System.init, Dict.empty, fun _ => .idle⟩

namespace SearchHandler

/-- What is cached, statement by statement. -/
def source (handler : SearchHandler) :
    Stale.Source System (UUID × SearchQuery) Str SearchPhase (List ScoredChunk) Error where
  key q := handler.key q.1 q.2
  start q := .vector q.1 q.2
  read s
    | .vector tenantId query =>
        (vectorRows handler.server tenantId query (handler.embedder.embedOne query.text)
          handler.poolSize s.store.chunks).map fun rows => .inl (.keyword tenantId query rows)
    | .keyword tenantId query vector => do
        let keyword ← keywordRows handler.server tenantId query handler.poolSize s.store.chunks
        let candidates ← fuse handler.poolSize vector keyword
        return .inr (LexicalReranker.rerank handler.lower query.text candidates query.topK)

/-- The cache in Redis. -/
def entries (handler : SearchHandler) :
    Stale.Entries Str (List ScoredChunk) SearchEnv SearchCache where
  lookup env key cache := RedisSearchCache.get key env.now env.get cache
  settle _ _ cache := cache
  store env key results cache :=
    RedisSearchCache.set key results handler.cacheTtlSeconds env.now env.set cache
  within env env' := env'.now < env.now + seconds handler.cacheTtlSeconds

/-- One step of the system or of a search. -/
def step (handler : SearchHandler) (config : Config) : Searching → SearchLabel → Option Searching :=
  Stale.step handler.source handler.entries (System.step config)

/-- The answer that a step gives, with its tenant and query. -/
def answer (handler : SearchHandler) :
    Searching → SearchLabel → Option ((UUID × SearchQuery) × Except Error (List ScoredChunk)) :=
  Stale.answer handler.source handler.entries

/-- The results are those of a search whose two statements have run after `since` and before
    `past`, one after the other. -/
def ReadWithin (handler : SearchHandler) (config : Config) (since past : List SearchLabel)
    (tenantId : UUID) (query : SearchQuery) (results : List ScoredChunk) : Prop :=
  ∃ during during' s s', since <+: during ∧ during <+: during' ∧ during' <+: past ∧
    run (handler.step config) Searching.init during = some s ∧
    run (handler.step config) Searching.init during' = some s' ∧
    handler.liveAcross tenantId query s.source.store.chunks s'.source.store.chunks = .ok results

variable {handler : SearchHandler} {config : Config}

/-! ## One search -/

theorem entries_lawful (handler : SearchHandler) : handler.entries.Lawful where
  lookup_settle _ _ _ _ _ _ h := h
  lookup_store := by
    intro env env' key key' results results' cache h
    change RedisSearchCache.get key' env'.now env'.get
      (RedisSearchCache.set key results handler.cacheTtlSeconds env.now env.set cache) =
        some results' at h
    by_cases hkey : key' = key
    · subst hkey
      unfold RedisSearchCache.set at h
      split at h
      · unfold RedisSearchCache.get at h
        rw [Dict.get?_set, if_pos rfl] at h
        simp only at h
        split at h
        · split at h
          · next htime => exact .inl ⟨rfl, (Option.some.inj h).symm, htime⟩
          · cases h
        · cases h
      · exact .inr h
    · right
      rw [← h]
      exact (RedisSearchCache.get_congr (RedisSearchCache.get?_set hkey ..) _ _).symm

/-- What a search has in its hands, it has read since it asked. -/
theorem reads_spec {asked past : List SearchLabel} {q : UUID × SearchQuery} {p : SearchPhase}
    (h : Stale.Reads handler.source handler.entries (System.step config) Searching.init asked q
      past p) :
    p = .vector q.1 q.2 ∨ ∃ rows during s, p = .keyword q.1 q.2 rows ∧ asked <+: during ∧
      during <+: past ∧ run (handler.step config) Searching.init during = some s ∧
      vectorRows handler.server q.1 q.2 (handler.embedder.embedOne q.2.text) handler.poolSize
        s.source.store.chunks = .ok rows := by
  induction h with
  | start => exact .inl rfl
  | @read past past' p p' s reads later state leads ih =>
      rcases ih with rfl | ⟨rows, during, s₁, rfl, -⟩
      · obtain ⟨rows, hrows, hp⟩ := Fallible.map_ok.mp leads
        cases hp
        exact .inr ⟨rows, past', s, rfl, reads.before.trans later, List.prefix_refl _, state,
          hrows⟩
      · obtain ⟨keyword, -, h⟩ := Fallible.bind_ok.mp leads
        obtain ⟨candidates, -, h⟩ := Fallible.bind_ok.mp h
        cases h

/-- What a search has computed, it has read with two statements since it asked. -/
theorem readWithin_of_computed {asked past : List SearchLabel} {tenantId : UUID}
    {query : SearchQuery} {results : List ScoredChunk}
    (h : Stale.Computed handler.source handler.entries (System.step config) Searching.init asked
      past (tenantId, query) results) :
    handler.ReadWithin config asked past tenantId query results := by
  obtain ⟨before, during', p, s', hreads, hlater, hpast, hrun', hread⟩ := h
  rcases reads_spec hreads with rfl | ⟨vector, during, s, rfl, hasked, hbefore, hrun, hvector⟩
  · obtain ⟨rows, -, hp⟩ := Fallible.map_ok.mp hread
    cases hp
  · refine ⟨during, during', s, s', hasked, hbefore.trans hlater, hpast, hrun, hrun', ?_⟩
    obtain ⟨keyword, hkeyword, h⟩ := Fallible.bind_ok.mp hread
    obtain ⟨candidates, hcandidates, h⟩ := Fallible.bind_ok.mp h
    cases h
    exact Fallible.bind_ok.mpr ⟨vector, hvector, Fallible.bind_ok.mpr ⟨keyword, hkeyword,
      Fallible.bind_ok.mpr ⟨candidates, hcandidates, rfl⟩⟩⟩

theorem get_empty (key : Str) (now : Instant) (outcome : Outcome) :
    RedisSearchCache.get key now outcome Dict.empty = none := by
  unfold RedisSearchCache.get
  split <;> rfl

theorem run_honest {labels : List SearchLabel} {s : Searching}
    (hrun : run (handler.step config) Searching.init labels = some s) :
    Stale.Honest handler.source handler.entries (System.step config) Searching.init labels s := by
  refine Stale.run_honest handler.entries_lawful (fun _ => rfl) ?_ hrun
  exact fun env key => get_empty key env.now env.get

/-- Where an answer comes from: two statements of its own search, or those of another search with
    the same key, whose result was stored less than the time to live before the lookup. -/
theorem answer_source {labels : List SearchLabel} {s : Searching}
    (hrun : run (handler.step config) Searching.init labels = some s) {label : SearchLabel}
    {tenantId : UUID} {query : SearchQuery} {results : List ScoredChunk}
    (hanswer : handler.answer s label = some ((tenantId, query), .ok results)) :
    (∃ c env asked, label = .keep c env ∧ Stale.Asked labels asked c (tenantId, query) ∧
      handler.ReadWithin config asked labels tenantId query results) ∨
    ∃ c env kept c' env' asked query', label = .ask c env (tenantId, query) ∧
      kept ++ [.keep c' env'] <+: labels ∧
      env.now < env'.now + seconds handler.cacheTtlSeconds ∧
      handler.key tenantId query' = handler.key tenantId query ∧
      Stale.Asked kept asked c' (tenantId, query') ∧
      handler.ReadWithin config asked kept tenantId query' results := by
  rcases (run_honest hrun).answer hanswer with
    ⟨c, env, hlabel, asked, hasked, hcomputed⟩ |
      ⟨c, env, hlabel, kept, c', env', ⟨tenantId', query'⟩, hkept, hwithin, hkey, asked, hasked,
        hcomputed⟩
  · exact .inl ⟨c, env, asked, hlabel, hasked, readWithin_of_computed hcomputed⟩
  · obtain rfl : tenantId' = tenantId := tenant_of_buildCacheKey hkey
    exact .inr ⟨c, env, kept, c', env', asked, query', hlabel, hkept, hwithin, hkey, hasked,
      readWithin_of_computed hcomputed⟩

/-- However the steps interleave, an answer is what a search would return whose first statement
    runs in one state of the run and whose second one in that or a later state: both since the
    search itself has asked, or both before another search of the tenant, with the same filter and
    limit and the same text up to layout, has stored the result, less than the time to live ago. -/
theorem answer_boundedlyStale {primitives : HashingEmbeddingModel.Primitives ℚ} {dimension : Int}
    (hmake : HashingEmbeddingModel.make { primitives with lower := handler.lower } dimension =
      .ok handler.embedder)
    (hnul : ∀ s, '\x00' ∈ handler.lower s ↔ '\x00' ∈ s)
    (hserver : handler.server.Insensitive handler.lower)
    (hsha : Function.Injective handler.sha256) {labels : List SearchLabel} {s : Searching}
    (hrun : run (handler.step config) Searching.init labels = some s) {label : SearchLabel}
    {tenantId : UUID} {query : SearchQuery} {results : List ScoredChunk}
    (hanswer : handler.answer s label = some ((tenantId, query), .ok results)) :
    (∃ c env asked, label = .keep c env ∧ Stale.Asked labels asked c (tenantId, query) ∧
      handler.ReadWithin config asked labels tenantId query results) ∨
    ∃ c env kept c' env' asked query', label = .ask c env (tenantId, query) ∧
      kept ++ [.keep c' env'] <+: labels ∧
      env.now < env'.now + seconds handler.cacheTtlSeconds ∧
      Stale.Asked kept asked c' (tenantId, query') ∧
      query'.collectionId = query.collectionId ∧ query'.topK = query.topK ∧
      normalize handler.lower query'.text = normalize handler.lower query.text ∧
      handler.ReadWithin config asked kept tenantId query results := by
  rcases answer_source hrun hanswer with hown |
    ⟨c, env, kept, c', env', asked, query', hlabel, hkept, htime, hkey, hasked, during, during',
      s₁, s₂, hsince, hlater, hpast, h₁, h₂, hlive⟩
  · exact .inl hown
  · obtain ⟨-, hcollection, htopK, htext⟩ := (buildCacheKey_inj hsha).mp hkey
    rw [liveAcross_congr hmake hnul hserver hsha hkey] at hlive
    exact .inr ⟨c, env, kept, c', env', asked, query', hlabel, hkept, htime, hasked, hcollection,
      htopK, htext, during, during', s₁, s₂, hsince, hlater, hpast, h₁, h₂, hlive⟩

/-! ## Where results come from -/

/-- The documents of the system while it is searched. -/
theorem run_source {labels : List SearchLabel} {s : Searching}
    (hrun : run (handler.step config) Searching.init labels = some s) :
    Reachable (System.step config) System.init s.source :=
  Stale.run_source hrun

/-- A document of a state of the run is there in every later one. -/
theorem run_prefix_grows {past labels : List SearchLabel} {s₁ s : Searching}
    (hpast : past <+: labels) (h₁ : run (handler.step config) Searching.init past = some s₁)
    (hrun : run (handler.step config) Searching.init labels = some s) :
    s₁.source.store.documents.Grows s.source.store.documents := by
  obtain ⟨rest, rfl⟩ := hpast
  obtain ⟨s₂, h₂, hrest⟩ := run_append.mp hrun
  obtain rfl : s₁ = s₂ := Option.some.inj (h₁.symm.trans h₂)
  exact System.run_grows (run_source h₁) (Stale.run_source hrest)

/-- The result was a row of the tenant in some state of the run. -/
def RowOf (handler : SearchHandler) (config : Config) (labels : List SearchLabel)
    (tenantId : UUID) (result : ScoredChunk) : Prop :=
  ∃ past s row, past <+: labels ∧ run (handler.step config) Searching.init past = some s ∧
    row ∈ s.source.store.chunks.rows ∧ row.tenantId = tenantId ∧ row.id = result.chunkId ∧
    row.documentId = result.documentId ∧ row.text.value = result.text

theorem ReadWithin.rowOf {since past labels : List SearchLabel} {tenantId : UUID}
    {query : SearchQuery} {results : List ScoredChunk}
    (h : handler.ReadWithin config since past tenantId query results) (hpast : past <+: labels)
    {result : ScoredChunk} (hresult : result ∈ results) :
    handler.RowOf config labels tenantId result := by
  obtain ⟨during, during', s₁, s₂, -, hlater, hduring, h₁, h₂, hlive⟩ := h
  obtain ⟨row, hrow, hscope, hid, hdocument, htext⟩ := liveAcross_ok hlive hresult
  have htenant : row.tenantId = tenantId := by
    have := (Bool.and_eq_true_iff.mp hscope).1
    exact beq_iff_eq.mp this
  rcases hrow with hrow | hrow
  · exact ⟨during, s₁, row, (hlater.trans hduring).trans hpast, h₁, hrow, htenant, hid, hdocument,
      htext⟩
  · exact ⟨during', s₂, row, hduring.trans hpast, h₂, hrow, htenant, hid, hdocument, htext⟩

/-- A row of some state of the run is a piece of what its document was registered with. -/
theorem RowOf.quotes {labels : List SearchLabel} {s : Searching} {tenantId : UUID}
    {result : ScoredChunk} (h : handler.RowOf config labels tenantId result)
    (hrun : run (handler.step config) Searching.init labels = some s) :
    s.source.store.documents.Quotes config result.documentId tenantId result.text := by
  obtain ⟨past, s₁, row, hpast, h₁, hrow, rfl, -, hdocument, htext⟩ := h
  rw [← hdocument, ← htext]
  exact ((System.reachable_quoted (run_source h₁)).chunks row hrow).grow
    (run_prefix_grows hpast h₁ hrun)

/-- A statement raises what the server raises, and what follows the statements raises nothing. -/
theorem source_read_error {s : System} {q : UUID × SearchQuery} {p : SearchPhase}
    (hp : p = .vector q.1 q.2 ∨ ∃ rows, p = .keyword q.1 q.2 rows) {e : Error}
    (h : handler.source.read s p = .error e) :
    e = .dataError ∧ (handler.embedder.dimension ≠ embeddingDim ∨ '\x00' ∈ q.2.text) := by
  rcases hp with rfl | ⟨rows, rfl⟩
  · obtain ⟨rfl, hdimension⟩ := vectorRows_error (Fallible.map_error.mp h)
    exact ⟨rfl, .inl fun h => hdimension ((handler.embedder.sized q.2.text).trans h)⟩
  · rcases Fallible.bind_error h with hkeyword | ⟨keyword, -, h⟩
    · obtain ⟨rfl, hnul⟩ := keywordRows_error hkeyword
      exact ⟨rfl, .inr hnul⟩
    · obtain ⟨candidates, hcandidates⟩ := exists_fuse handler.poolSize rows keyword
      rw [hcandidates] at h
      cases h

/-- Every result of an answer was a chunk row of its tenant in a state of the run. -/
theorem answer_rowOf {labels : List SearchLabel} {s : Searching} {label : SearchLabel}
    {tenantId : UUID} {query : SearchQuery} {results : List ScoredChunk}
    (hrun : run (handler.step config) Searching.init labels = some s)
    (hanswer : handler.answer s label = some ((tenantId, query), .ok results))
    {result : ScoredChunk} (hresult : result ∈ results) :
    handler.RowOf config labels tenantId result := by
  rcases answer_source hrun hanswer with ⟨c, env, asked, -, -, hread⟩ |
    ⟨c, env, kept, c', env', asked, query', -, hkept, -, -, -, hread⟩
  · exact hread.rowOf (List.prefix_refl _) hresult
  · exact hread.rowOf ((List.prefix_append _ _).trans hkept) hresult

/-- Whatever the digest of the cache keys does and however the steps interleave, every result of
    an answer to a tenant was a chunk row of that tenant in a state of the run, and its text is a
    piece of a text that a document of the tenant was registered with, which is still there; and
    where an answer is an exception, it is the server's refusal of a parameter. -/
theorem answer_ownText {labels : List SearchLabel} {s : Searching}
    (hrun : run (handler.step config) Searching.init labels = some s) (label : SearchLabel)
    (tenantId : UUID) (query : SearchQuery) :
    (∀ results, handler.answer s label = some ((tenantId, query), .ok results) →
      ∀ result ∈ results, handler.RowOf config labels tenantId result ∧
        s.source.store.documents.Quotes config result.documentId tenantId result.text) ∧
    ∀ e, handler.answer s label = some ((tenantId, query), .error e) → e = .dataError ∧
      (handler.embedder.dimension ≠ embeddingDim ∨ '\x00' ∈ query.text) := by
  constructor
  · intro results hanswer result hresult
    have hrow := answer_rowOf hrun hanswer hresult
    exact ⟨hrow, hrow.quotes hrun⟩
  · intro e hanswer
    obtain ⟨c, p, hcall, hread⟩ := Stale.answer_error hanswer
    have hheld := (run_honest hrun).calls c
    rw [hcall] at hheld
    obtain ⟨asked, before, -, -, hreads⟩ := hheld
    refine source_read_error (q := (tenantId, query)) ?_ hread
    exact (reads_spec hreads).imp_right fun ⟨rows, _, _, hp, _⟩ => ⟨rows, hp⟩

/-! ### Two searches for one text -/

/-- A search that misses and that nobody disturbs has its result after two statements. -/
theorem exists_run_found {s : Searching} {c : Nat} {env : SearchEnv} {tenantId : UUID}
    {query : SearchQuery} (hidle : s.calls c = .idle)
    (hmiss : RedisSearchCache.get (handler.key tenantId query) env.now env.get s.entries = none)
    (hdimension : handler.embedder.dimension = embeddingDim) (hnul : '\x00' ∉ query.text) :
    ∃ results, run (handler.step config) s
      [.ask c env (tenantId, query), .read c, .read c] =
        some { s with calls := Function.update s.calls c (.found (tenantId, query) results) } := by
  have hsized : (handler.embedder.embedOne query.text).dimension = embeddingDim :=
    (handler.embedder.sized query.text).trans hdimension
  obtain ⟨vector, hvector⟩ : ∃ rows, vectorRows handler.server tenantId query
      (handler.embedder.embedOne query.text) handler.poolSize s.source.store.chunks = .ok rows :=
    ⟨_, if_neg fun h => h.1 hsized⟩
  obtain ⟨keyword, hkeyword⟩ : ∃ rows, keywordRows handler.server tenantId query handler.poolSize
      s.source.store.chunks = .ok rows := ⟨_, if_neg hnul⟩
  obtain ⟨candidates, hcandidates⟩ := exists_fuse handler.poolSize vector keyword
  have hfirst : handler.source.read s.source (.vector tenantId query) =
      .ok (.inl (.keyword tenantId query vector)) := Fallible.map_ok.mpr ⟨vector, hvector, rfl⟩
  have hsecond : handler.source.read s.source (.keyword tenantId query vector) =
      .ok (.inr (LexicalReranker.rerank handler.lower query.text candidates query.topK)) :=
    Fallible.bind_ok.mpr ⟨keyword, hkeyword,
      Fallible.bind_ok.mpr ⟨candidates, hcandidates, rfl⟩⟩
  have hlookup : handler.entries.lookup env (handler.source.key (tenantId, query)) s.entries =
      none := hmiss
  refine ⟨LexicalReranker.rerank handler.lower query.text candidates query.topK, ?_⟩
  unfold step
  refine run_cons.mpr ⟨_, Stale.step_ask hidle hlookup, ?_⟩
  refine run_cons.mpr ⟨_, Stale.step_read (Function.update_self ..) hfirst, ?_⟩
  refine run_cons.mpr ⟨_, Stale.step_read (Function.update_self ..) hsecond, ?_⟩
  simp only [Function.update_idem, run_nil]
  rfl

/-- What has been stored is found within the time to live. -/
theorem lookup_store_self {env env' : SearchEnv} (hset : env.set.takesEffect = true)
    (hget : env'.get = .returns) (httl : 0 < handler.cacheTtlSeconds)
    (hwithin : handler.entries.within env env') (key : Str) (results : List ScoredChunk)
    (cache : SearchCache) :
    handler.entries.lookup env' key (handler.entries.store env key results cache) =
      some results := by
  change RedisSearchCache.get key env'.now env'.get
    (RedisSearchCache.set key results handler.cacheTtlSeconds env.now env.set cache) =
      some results
  unfold RedisSearchCache.get RedisSearchCache.set
  rw [if_pos hget, if_pos ⟨hset, httl⟩, Dict.get?_set, if_pos rfl]
  exact if_pos hwithin

/-- A query for the text of document 10. -/
def helloQuery : SearchQuery := ⟨"HELLO".toList, 9, none, by decide, by decide, by decide⟩

/-- The same in another spelling. -/
def helloAgain : SearchQuery := ⟨"  hello".toList, 9, none, by decide, by decide, by decide⟩

/-- Document 10 is indexed, and search 0 looks for its text and stores what it finds. -/
def helloSearching : List SearchLabel :=
  (uploadHello ++ indexHello).map .change ++
    ([.ask 0 ⟨5, .returns, .returns⟩ (⟨1⟩, helloQuery), .read 0, .read 0] ++
      [.keep 0 ⟨6, .returns, .returns⟩])

/-- Search 1 looks for the other spelling. -/
def askAgain : SearchLabel := .ask 1 ⟨7, .returns, .returns⟩ (⟨1⟩, helloAgain)

/-- It is answered from the cache. -/
theorem helloSearching_answer : ∃ s results,
    run (helloHandler.step helloConfig) Searching.init helloSearching = some s ∧
    helloHandler.answer s askAgain = some ((⟨1⟩, helloAgain), .ok results) := by
  obtain ⟨s₀, h₀, -⟩ := Option.map_eq_some_iff.mp System.indexHello_statuses
  let asking : Searching := ⟨s₀, Dict.empty, fun _ => .idle⟩
  obtain ⟨results, hfound⟩ := @exists_run_found helloHandler helloConfig asking 0
    ⟨5, .returns, .returns⟩ ⟨1⟩ helloQuery rfl (get_empty ..) rfl (by decide)
  let found : Searching :=
    { asking with calls := Function.update asking.calls 0 (.found (⟨1⟩, helloQuery) results) }
  have hcall : found.calls 0 = .found (⟨1⟩, helloQuery) results := rfl
  have hkept : helloHandler.step helloConfig found (.keep 0 ⟨6, .returns, .returns⟩) = some _ :=
    Stale.step_keep hcall
  refine ⟨_, results, run_append.mpr ⟨_, Stale.run_change h₀ _ _, run_append.mpr ⟨_, hfound,
    run_cons.mpr ⟨_, hkept, rfl⟩⟩⟩, ?_⟩
  have hkey : helloHandler.key ⟨1⟩ helloAgain = helloHandler.key ⟨1⟩ helloQuery :=
    (buildCacheKey_inj helloKeyDigest_injective).mpr ⟨rfl, rfl, rfl, by decide⟩
  have hlookup : helloHandler.entries.lookup ⟨7, .returns, .returns⟩
      (helloHandler.key ⟨1⟩ helloAgain)
      (helloHandler.entries.store ⟨6, .returns, .returns⟩ (helloHandler.key ⟨1⟩ helloQuery)
        results Dict.empty) = some results := by
    have httl : helloHandler.cacheTtlSeconds = 300 := rfl
    have hwithin : helloHandler.entries.within ⟨6, .returns, .returns⟩ ⟨7, .returns, .returns⟩ := by
      change 7 < 6 + seconds helloHandler.cacheTtlSeconds
      rw [httl]
      decide
    rw [hkey]
    exact lookup_store_self rfl rfl (by rw [httl]; decide) hwithin _ _ _
  exact Stale.answer_ask rfl hlookup

theorem answer_boundedlyStale_hello : ∃ s results during during' s₁ s₂,
    run (helloHandler.step helloConfig) Searching.init helloSearching = some s ∧
    helloHandler.answer s askAgain = some ((⟨1⟩, helloAgain), .ok results) ∧
    during <+: during' ∧ during' <+: helloSearching ∧
    run (helloHandler.step helloConfig) Searching.init during = some s₁ ∧
    run (helloHandler.step helloConfig) Searching.init during' = some s₂ ∧
    helloHandler.liveAcross ⟨1⟩ helloAgain s₁.source.store.chunks s₂.source.store.chunks =
      .ok results := by
  obtain ⟨s, results, hrun, hanswer⟩ := helloSearching_answer
  rcases @answer_boundedlyStale helloHandler helloConfig helloPrimitives 384 rfl nul_mem_asciiLower
      helloServer_insensitive helloKeyDigest_injective helloSearching s hrun askAgain ⟨1⟩ helloAgain
      results hanswer with
    ⟨c, env, asked, hlabel, -⟩ | ⟨c, env, kept, c', env', asked, query', -, hkept, -, -, -, -, -,
      during, during', s₁, s₂, -, hlater, hpast, h₁, h₂, hlive⟩
  · cases hlabel
  · exact ⟨s, results, during, during', s₁, s₂, hrun, hanswer, hlater,
      hpast.trans ((List.prefix_append _ _).trans hkept), h₁, h₂, hlive⟩

theorem answer_ownText_hello : ∃ s results,
    run (helloHandler.step helloConfig) Searching.init helloSearching = some s ∧
    helloHandler.answer s askAgain = some ((⟨1⟩, helloAgain), .ok results) ∧
    ∀ result ∈ results, helloHandler.RowOf helloConfig helloSearching ⟨1⟩ result ∧
      s.source.store.documents.Quotes helloConfig result.documentId ⟨1⟩ result.text := by
  obtain ⟨s, results, hrun, hanswer⟩ := helloSearching_answer
  exact ⟨s, results, hrun, hanswer,
    (answer_ownText hrun askAgain ⟨1⟩ helloAgain).1 results hanswer⟩

end SearchHandler

end Eka
