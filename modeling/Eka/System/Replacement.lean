import Eka.System.Configuration

/-!
# The chunks of a document are replaced as a set

What `handle` does to a database on its own, whatever the database holds: the chunk
transaction deletes the document's rows and adds those of the stored text, and the two
lifecycle transactions around it write the document alone. A fault at any call leaves
the chunks of the document as they were or as they will be, and running the handler
again writes the same rows under other ids and timestamps.
-/

namespace Eka

open Py Relational
open RecursiveCharacterChunker (split)

/-! ## The rows of a text -/

/-- A chunk row but for its id and its timestamp. -/
structure ChunkColumns where
  tenantId : UUID
  documentId : UUID
  collectionId : UUID
  documentVersion : Nat
  ordinal : Nat
  text : Str
  embedding : Embedding
  deriving DecidableEq

def Chunk.columns (chunk : Chunk) : ChunkColumns where
  tenantId := chunk.tenantId
  documentId := chunk.documentId
  collectionId := chunk.collectionId
  documentVersion := chunk.documentVersion
  ordinal := chunk.ordinal
  text := chunk.text.value
  embedding := chunk.embedding

def ChunkModel.columns (row : ChunkModel) : ChunkColumns where
  tenantId := row.tenantId
  documentId := row.documentId
  collectionId := row.collectionId
  documentVersion := row.documentVersion
  ordinal := row.ordinal
  text := row.text.value
  embedding := row.embedding.embedding

namespace Chunks

variable {t : Chunks} {tenantId documentId : UUID}

/-- The rows that the repository finds for a document of a tenant. -/
def ownRows (t : Chunks) (tenantId documentId : UUID) : List ChunkModel :=
  t.rows.filter (SqlAlchemyChunkRepository.ofDocument tenantId documentId)

/-- All the other rows. -/
def otherRows (t : Chunks) (tenantId documentId : UUID) : List ChunkModel :=
  t.rows.filter fun row => !SqlAlchemyChunkRepository.ofDocument tenantId documentId row

/-- The rows of the document are all of its tenant. -/
def OfTenant (t : Chunks) (tenantId documentId : UUID) : Prop :=
  ∀ row ∈ t.rows, row.documentId = documentId → row.tenantId = tenantId

/-- No two rows have one document and one ordinal. -/
def UniqueOrdinals (t : Chunks) : Prop :=
  ∀ a ∈ t.rows, ∀ b ∈ t.rows, a.documentId = b.documentId → a.ordinal = b.ordinal → a = b

theorem uniqueOrdinals (t : Chunks) : t.UniqueOrdinals := by
  intro a ha b hb hdoc hordinal
  exact t.eq_of_clash ha hb (.inr ⟨hdoc, hordinal⟩) (.inr ⟨hdoc.symm, hordinal.symm⟩)

/-- In every reachable database they are. -/
theorem ofTenant_of_linked {config : Config} {s : Store} (h : s.Linked config)
    (howned : s.documents.Owned documentId tenantId) : s.chunks.OfTenant tenantId documentId :=
  h.chunks_tenant howned

theorem ownRows_eq_ofDocument (h : t.OfTenant tenantId documentId) :
    t.ownRows tenantId documentId = t.ofDocument documentId := by
  refine List.filter_congr ?_
  intro row hrow
  by_cases hdoc : row.documentId = documentId
  · simp [SqlAlchemyChunkRepository.ofDocument, hdoc, h row hrow hdoc]
  · simp [SqlAlchemyChunkRepository.ofDocument, hdoc]

theorem ofTenant_iff : t.OfTenant tenantId documentId ↔
    ∀ row ∈ t.otherRows tenantId documentId, row.documentId ≠ documentId := by
  unfold OfTenant otherRows
  simp only [List.mem_filter, SqlAlchemyChunkRepository.ofDocument, Bool.not_eq_true',
    Bool.and_eq_false_iff, beq_eq_false_iff_ne, and_imp, ne_eq]
  refine forall₂_congr fun row _ => ?_
  tauto

end Chunks

namespace IngestDocumentHandler

/-- One row per piece of a text, under the job's tenant, document, collection and version. -/
def splitColumns (config : Config) (job : IngestionJob) (text : Str) : List ChunkColumns :=
  (split config.chunking text).map fun piece =>
    { tenantId := job.tenantId
      documentId := job.documentId
      collectionId := job.collectionId
      documentVersion := job.documentVersion
      ordinal := piece.ordinal
      text := piece.text
      embedding := config.embedder.embedOne piece.text }

/-- The rows of the job's document are those of a text, the other rows are what they were. -/
structure Replaced (config : Config) (job : IngestionJob) (text : Str) (t t' : Chunks) : Prop where
  own : (t'.ownRows job.tenantId job.documentId).map ChunkModel.columns =
    splitColumns config job text
  others : t'.otherRows job.tenantId job.documentId = t.otherRows job.tenantId job.documentId

variable {config : Config} {job : IngestionJob} {newUuid : Nat → UUID} {text : Str}
  {now : Instant} {t t' : Chunks}

theorem createChunks_columns {chunks : List Chunk}
    (h : createChunks config job newUuid text = .ok chunks) :
    chunks.map Chunk.columns = splitColumns config job text := by
  rw [Fallible.map_of_mapM_ok h (k := fun pair => ChunkColumns.mk job.tenantId job.documentId
    job.collectionId job.documentVersion pair.1.ordinal pair.1.text pair.2)]
  · rw [zip_embed, List.map_map]
    rfl
  · rintro ⟨piece, embedding⟩ chunk hcreate
    obtain ⟨-, ht, hd, hc, hv, hordinal, htext, hembedding⟩ := Chunk.create_ok hcreate
    simp only [Chunk.columns, ht, hd, hc, hv, hordinal, htext, hembedding]

theorem ofChunk_columns {chunk : Chunk} {row : ChunkModel}
    (h : ChunkModel.ofChunk chunk now = .ok row) : row.columns = chunk.columns := by
  obtain ⟨-, ht, hd, hc, hv, hordinal, htext, hembedding⟩ := ChunkModel.ofChunk_ok h
  simp only [Chunk.columns, ChunkModel.columns, ht, hd, hc, hv, hordinal, htext, hembedding]

/-- The chunk transaction replaces the rows, whatever they were. -/
theorem storeChunks_replaced (h : storeChunks config job newUuid text now t = .ok t') :
    Replaced config job text t t' := by
  obtain ⟨chunks, hchunks, h⟩ := Fallible.bind_ok.mp h
  obtain ⟨rows, hrows, ht'⟩ := SqlAlchemyChunkRepository.replaceForDocument_ok h
  have hcolumns : rows.map ChunkModel.columns = splitColumns config job text := by
    rw [← createChunks_columns hchunks]
    exact Fallible.map_of_mapM_ok hrows fun _ _ hrow => ofChunk_columns hrow
  have hown : ∀ row ∈ rows,
      SqlAlchemyChunkRepository.ofDocument job.tenantId job.documentId row = true := by
    intro row hrow
    have hmem := List.mem_map_of_mem (f := ChunkModel.columns) hrow
    rw [hcolumns] at hmem
    obtain ⟨piece, -, hpiece⟩ := List.mem_map.mp hmem
    have ht := congrArg ChunkColumns.tenantId hpiece
    have hd := congrArg ChunkColumns.documentId hpiece
    simp [SqlAlchemyChunkRepository.ofDocument, ← show job.tenantId = row.tenantId from ht,
      ← show job.documentId = row.documentId from hd]
  have hnew : rows.filter (fun row =>
      !SqlAlchemyChunkRepository.ofDocument job.tenantId job.documentId row) = [] := by
    refine List.filter_eq_nil_iff.mpr ?_
    intro row hrow
    simp [hown row hrow]
  constructor
  · rw [Chunks.ownRows, ht', List.filter_append, List.filter_eq_self.mpr hown]
    simpa using hcolumns
  · rw [Chunks.otherRows, ht', List.filter_append, hnew]
    simp [Chunks.otherRows]

namespace Replaced

theorem ofTenant (h : Replaced config job text t t')
    (htenant : t.OfTenant job.tenantId job.documentId) :
    t'.OfTenant job.tenantId job.documentId := by
  rw [Chunks.ofTenant_iff, h.others]
  exact Chunks.ofTenant_iff.mp htenant

theorem ofDocument (h : Replaced config job text t t')
    (htenant : t.OfTenant job.tenantId job.documentId) :
    (t'.ofDocument job.documentId).map ChunkModel.columns = splitColumns config job text := by
  rw [← Chunks.ownRows_eq_ofDocument (h.ofTenant htenant)]
  exact h.own

end Replaced

/-! ## However a call ends -/

/-- Nothing is written but chunks, and of the documents the job's. -/
structure Framed (job : IngestionJob) (s s' : Store) : Prop where
  contents : s'.contents = s.contents
  jobs : s'.jobs = s.jobs
  documents : ∀ id, id ≠ job.documentId → s'.documents.byId id = s.documents.byId id

/-- The chunks are those of the stored content of the job's document. -/
def ReplacedByContent (config : Config) (job : IngestionJob) (s s' : Store) : Prop :=
  ∃ text, SqlAlchemyContentStore.get job.tenantId job.documentId s.contents = some text ∧
    Replaced config job text.value s.chunks s'.chunks

/-- All or nothing: the chunks are replaced, if the call returned, and are replaced or as they
    were, if it raised. -/
structure Ends (config : Config) (job : IngestionJob) (s : Store)
    (result : Except Error PUnit × Store) : Prop where
  framed : Framed job s result.2
  chunks : result.2.chunks = s.chunks ∨ ReplacedByContent config job s result.2
  returned : result.1 = .ok ⟨⟩ → ReplacedByContent config job s result.2

variable {env : HandleEnv} {s s₁ : Store}

theorem Framed.refl (job : IngestionJob) (s : Store) : Framed job s s := ⟨rfl, rfl, fun _ _ => rfl⟩

/-- A lifecycle transaction writes the document's row, or nothing. -/
theorem transition_framed (h : Framed job s s₁) (action : LifecycleAction) (now : Instant)
    (read commit : Outcome) :
    Framed job s (DocumentLifecycleService.transition action job.tenantId job.documentId now read
        commit s₁).2 ∧
      (DocumentLifecycleService.transition action job.tenantId job.documentId now read
        commit s₁).2.chunks = s₁.chunks := by
  unfold DocumentLifecycleService.transition
  refine Saga.bind_cases (p := fun r => Framed job s r.2 ∧ r.2.chunks = s₁.chunks) ?_ ?_
  · intro e s₂ hraised
    have hsame := await_query_snd read (fun s => DocumentLifecycleService.read action job.tenantId
      job.documentId now s.documents) s₁
    rw [hraised] at hsame
    obtain rfl : s₂ = s₁ := hsame
    exact ⟨h, rfl⟩
  · rintro ⟨loaded, document⟩ s₂ hread
    obtain ⟨-, hread, rfl⟩ := await_query_ok hread
    obtain ⟨-, hid, -, hsaves⟩ := DocumentLifecycleService.read_saves hread
    rcases await_transact_snd commit (Store.onDocuments (Documents.saveCommit loaded document))
      s₂ with hsame | ⟨hcommit, -⟩
    · simp only [hsame]
      exact ⟨h, trivial⟩
    · obtain ⟨t, ht, hstore⟩ := Fallible.map_ok.mp hcommit
      obtain ⟨_, t₁, ht₁, hrows⟩ := hsaves.saveCommit s₂.documents
      obtain rfl : t₁ = t := Except.ok.inj (ht₁.symm.trans ht)
      simp only [← hstore]
      refine ⟨⟨h.contents, h.jobs, ?_⟩, trivial⟩
      intro id hother
      rw [← h.documents id hother]
      exact (hrows id).trans (if_neg (hid ▸ hother))

theorem chunkAndIndex_ends (h : Framed job s s₁) (hchunks : s₁.chunks = s.chunks) {text : Text}
    (htext : SqlAlchemyContentStore.get job.tenantId job.documentId s.contents = some text) :
    Ends config job s (chunkAndIndex config env job text.value s₁) := by
  have hcommitted : ∀ s₂, Store.onChunks (storeChunks config job env.newUuid text.value
      (env.clock .chunkCommit)) s₁ = .ok s₂ →
      Framed job s s₂ ∧ ReplacedByContent config job s s₂ := by
    intro s₂ hcommit
    obtain ⟨t, ht, rfl⟩ := Fallible.map_ok.mp hcommit
    rw [hchunks] at ht
    exact ⟨⟨h.contents, h.jobs, h.documents⟩, text, htext, storeChunks_replaced ht⟩
  rw [chunkAndIndex_eq]
  apply Saga.bind_cases
  · intro e s₂ hraised
    have hsnd := await_transact_snd (chunkOutcome config env text.value) (Store.onChunks
      (storeChunks config job env.newUuid text.value (env.clock .chunkCommit))) s₁
    rw [hraised] at hsnd
    rcases hsnd with rfl | ⟨hcommit, -⟩
    · exact ⟨h, .inl hchunks, fun hreturned => nomatch hreturned⟩
    · obtain ⟨hframed, hreplaced⟩ := hcommitted s₂ hcommit
      exact ⟨hframed, .inr hreplaced, fun hreturned => nomatch hreturned⟩
  · intro _ s₂ hwent
    obtain ⟨hframed, text', htext', hreplaced⟩ := hcommitted s₂ (await_transact_ok hwent).2
    obtain ⟨hframed, hkept⟩ := transition_framed hframed .markIndexed (env.clock .indexedCommit)
      (env.faults .indexedRead) (env.faults .indexedCommit)
    rw [← hkept] at hreplaced
    exact ⟨hframed, .inr ⟨text', htext', hreplaced⟩, fun _ => ⟨text', htext', hreplaced⟩⟩

theorem ingest_ends (h : Framed job s s₁) (hchunks : s₁.chunks = s.chunks) :
    Ends config job s (ingest config env job s₁) := by
  unfold ingest
  apply Saga.bind_cases
  · intro e s₂ hraised
    have hsame := await_query_snd (env.faults .contentGet) (fun s =>
      .ok (SqlAlchemyContentStore.get job.tenantId job.documentId s.contents)) s₁
    rw [hraised] at hsame
    obtain rfl : s₂ = s₁ := hsame
    exact ⟨h, .inl hchunks, fun hreturned => nomatch hreturned⟩
  · intro text s₂ hread
    obtain ⟨-, hget, rfl⟩ := await_query_ok hread
    have htext := Except.ok.inj hget
    cases text with
    | none => exact ⟨h, .inl hchunks, fun hreturned => nomatch hreturned⟩
    | some text =>
        rw [h.contents] at htext
        exact chunkAndIndex_ends h hchunks htext

/-- A call of `handle`, whichever of its calls fault. -/
theorem handle_ends (config : Config) (env : HandleEnv) (job : IngestionJob) (s : Store) :
    Ends config job s (handle config env job s) := by
  obtain ⟨hframed, hchunks⟩ := transition_framed (Framed.refl job s) .markIngesting
    (env.clock .ingestingCommit) (env.faults .ingestingRead) (env.faults .ingestingCommit)
  unfold handle
  apply Saga.bind_cases
  · intro e s₁ hraised
    rw [hraised] at hframed hchunks
    exact ⟨hframed, .inl hchunks, fun hreturned => nomatch hreturned⟩
  · intro _ s₁ hwent
    rw [hwent] at hframed hchunks
    exact ingest_ends hframed hchunks

/-! ## That it returns -/

/-- The state machine accepts an action on the job's document. -/
def Accepts (job : IngestionJob) (action : LifecycleAction) (s : Store) : Prop :=
  ∃ row, s.documents.byId job.documentId = some row ∧ row.tenantId = job.tenantId ∧
    action.target ∈ allowedTransitions row.status

theorem transition_returns {action : LifecycleAction} (h : Accepts job action s) (now : Instant) :
    ∃ t, DocumentLifecycleService.transition action job.tenantId job.documentId now .returns
        .returns s = (.ok ⟨⟩, { s with documents := t }) ∧
      ∀ next : LifecycleAction, next.target ∈ allowedTransitions action.target →
        Accepts job next { s with documents := t } := by
  obtain ⟨row, hrow, htenant, hallowed⟩ := h
  obtain ⟨document, t, hsaves, hsave, heq⟩ := DocumentLifecycleService.transition_of_mem hrow
    htenant hallowed now .returns .returns
  refine ⟨t, heq, ?_⟩
  intro next hnext
  obtain ⟨row', hrow', hsame⟩ := hsaves.grows hsave job.documentId row hrow
  obtain ⟨_, -, hstatus⟩ := hsaves.status hsave hrow'
  rw [if_pos (Documents.byId_eq_some.mp hrow).2.symm] at hstatus
  exact ⟨row', hrow', hsame.tenantId.symm.trans htenant, hstatus ▸ hnext⟩

/-- Without a fault, from a status that `mark_ingesting` accepts, a content that fits is
    ingested. -/
theorem handle_returns (hlegal : Accepts job .markIngesting s)
    (htenant : s.chunks.OfTenant job.tenantId job.documentId) {text : Text}
    (htext : SqlAlchemyContentStore.get job.tenantId job.documentId s.contents = some text)
    (hstorable : config.Storable text.value) (hfaultless : env.Faultless)
    (hfresh : env.Fresh job.documentId (split config.chunking text.value).length s.chunks) :
    ∃ s', handle config env job s = (.ok ⟨⟩, s') ∧ Accepts job .markIngesting s' := by
  obtain ⟨t₁, hingesting, hlegal⟩ := transition_returns hlegal (env.clock .ingestingCommit)
  obtain ⟨chunks, hstore⟩ := exists_storeChunks (env.clock .chunkCommit) hfresh htenant hstorable
  have hstored : Accepts job .markIndexed { s with documents := t₁, chunks := chunks } := by
    obtain ⟨row, hrow, hrest⟩ := hlegal .markIndexed (by decide)
    exact ⟨row, hrow, hrest⟩
  obtain ⟨t₂, hindexed, hlegal⟩ := transition_returns hstored (env.clock .indexedCommit)
  have houtcome : chunkOutcome config env text.value = .returns := by
    simp [chunkOutcome, hfaultless _]
  have hget : await .returns (.query fun s => .ok (SqlAlchemyContentStore.get job.tenantId
      job.documentId s.contents)) { s with documents := t₁ } =
      (.ok (some text), { s with documents := t₁ }) := by
    rw [← htext]
    rfl
  refine ⟨_, ?_, hlegal .markIngesting (by decide)⟩
  unfold handle ingest
  rw [hfaultless, hfaultless, Saga.bind_of_ok hingesting, hfaultless, Saga.bind_of_ok hget]
  show chunkAndIndex config env job text.value _ = _
  rw [chunkAndIndex_eq, houtcome, Saga.bind_of_ok (await_transact_returns
    (Fallible.map_ok.mpr ⟨chunks, hstore, rfl⟩)), hfaultless, hfaultless]
  exact hindexed

/-! ## Replacement -/

/-- Every call of `handle` leaves the chunks of the job's document as they were or replaces
    them by those of its content, and leaves all else; a call that returns has replaced them,
    and the next one that does writes the same rows again. Without faults, from a status that
    `mark_ingesting` accepts, both calls do return: no row is left to clash with. -/
theorem handle_replaces (config : Config) (job : IngestionJob) (s : Store) :
    (∀ env, Ends config job s (handle config env job s) ∧
      (handle config env job s).2.chunks.UniqueOrdinals) ∧
    (∀ env s', handle config env job s = (.ok ⟨⟩, s') →
      (∃ text, SqlAlchemyContentStore.get job.tenantId job.documentId s.contents = some text ∧
        Replaced config job text.value s.chunks s'.chunks ∧
        (s.chunks.OfTenant job.tenantId job.documentId →
          (s'.chunks.ofDocument job.documentId).map ChunkModel.columns =
            splitColumns config job text.value)) ∧
      ∀ env' s'', handle config env' job s' = (.ok ⟨⟩, s'') →
        (s''.chunks.ownRows job.tenantId job.documentId).map ChunkModel.columns =
            (s'.chunks.ownRows job.tenantId job.documentId).map ChunkModel.columns ∧
          s''.chunks.otherRows job.tenantId job.documentId =
            s'.chunks.otherRows job.tenantId job.documentId) ∧
    (Accepts job .markIngesting s → s.chunks.OfTenant job.tenantId job.documentId →
      ∀ text, SqlAlchemyContentStore.get job.tenantId job.documentId s.contents = some text →
      config.Storable text.value → ∀ env : HandleEnv, env.Faultless →
      env.Fresh job.documentId (split config.chunking text.value).length s.chunks →
      ∃ s', handle config env job s = (.ok ⟨⟩, s') ∧ ∀ env' : HandleEnv, env'.Faultless →
        env'.Fresh job.documentId (split config.chunking text.value).length s'.chunks →
        ∃ s'', handle config env' job s' = (.ok ⟨⟩, s'')) := by
  have hreplaced : ∀ {env : HandleEnv} {s s' : Store},
      handle config env job s = (.ok ⟨⟩, s') → ReplacedByContent config job s s' ∧
        s'.contents = s.contents := by
    intro env s s' h
    have hends := handle_ends config env job s
    rw [h] at hends
    exact ⟨hends.returned rfl, hends.framed.contents⟩
  refine ⟨?_, ?_, ?_⟩
  · intro env
    exact ⟨handle_ends config env job s, Chunks.uniqueOrdinals _⟩
  · intro env s' h
    obtain ⟨⟨text, htext, hfirst⟩, hcontents⟩ := hreplaced h
    refine ⟨⟨text, htext, hfirst, hfirst.ofDocument⟩, ?_⟩
    intro env' s'' h'
    obtain ⟨⟨text', htext', hsecond⟩, -⟩ := hreplaced h'
    rw [hcontents, htext] at htext'
    obtain rfl : text = text' := Option.some.inj htext'
    exact ⟨hsecond.own.trans hfirst.own.symm, hsecond.others⟩
  · intro hlegal htenant text htext hstorable env hfaultless hfresh
    obtain ⟨s', heq, hlegal'⟩ := handle_returns hlegal htenant htext hstorable hfaultless hfresh
    obtain ⟨⟨text', -, hfirst⟩, hcontents⟩ := hreplaced heq
    refine ⟨s', heq, ?_⟩
    intro env' hfaultless' hfresh'
    obtain ⟨s'', heq', -⟩ := handle_returns hlegal' (hfirst.ofTenant htenant)
      ((congrArg _ hcontents).trans htext) hstorable hfaultless' hfresh'
    exact ⟨s'', heq'⟩

/-- A chunk of document 10 from before its content was replaced. -/
def staleChunk (id : UUID) (ordinal : Nat) : ChunkModel where
  id := id
  tenantId := ⟨1⟩
  documentId := ⟨10⟩
  collectionId := ⟨2⟩
  documentVersion := 1
  ordinal := ordinal
  text := ⟨"old".toList, by decide⟩
  embedding := ⟨helloConfig.embedder.embedOne [], helloConfig.embedder.sized []⟩
  createdAt := 1

/-- One chunk more than `hello` has pieces. -/
def staleChunks : Chunks where
  rows := [staleChunk ⟨40⟩ 0, staleChunk ⟨41⟩ 1]
  distinct := by
    simp [ChunkModel.Clash, staleChunk]

theorem handle_replaces_stale : ∃ s s' s'', s.chunks = staleChunks ∧
    handle helloConfig faultless System.helloJob s = (.ok ⟨⟩, s') ∧
    (s'.chunks.ofDocument ⟨10⟩).map ChunkModel.columns =
      splitColumns helloConfig System.helloJob "hello".toList ∧
    handle helloConfig faultless System.helloJob s' = (.ok ⟨⟩, s'') ∧
    (s''.chunks.ownRows ⟨1⟩ ⟨10⟩).map ChunkModel.columns =
      (s'.chunks.ownRows ⟨1⟩ ⟨10⟩).map ChunkModel.columns := by
  obtain ⟨s₀, row, text, -, -, hjob, hrow, hstatus, htext, hvalue, hids⟩ :=
    @System.uploadHello_waits helloConfig rfl rfl
  obtain ⟨row', hrow', htenantId, -⟩ := hjob
  obtain rfl : row = row' := Option.some.inj (hrow.symm.trans hrow')
  have hlegal : Accepts System.helloJob .markIngesting { s₀.store with chunks := staleChunks } :=
    ⟨row, hrow, htenantId, by rw [hstatus]; decide⟩
  have htenant : staleChunks.OfTenant System.helloJob.tenantId System.helloJob.documentId := by
    intro chunk hchunk _
    rcases List.mem_pair.mp hchunk with rfl | rfl
    · rfl
    · rfl
  have hothers : staleChunks.otherRows System.helloJob.tenantId System.helloJob.documentId =
      [] := rfl
  have hfresh : ∀ t : Chunks, t.otherRows System.helloJob.tenantId System.helloJob.documentId = [] →
      faultless.Fresh System.helloJob.documentId (split helloConfig.chunking text.value).length
        t := by
    intro t hnone
    refine ⟨hids.distinct, ?_⟩
    intro i _ chunk hchunk hother
    have hmem : chunk ∈ t.otherRows System.helloJob.tenantId System.helloJob.documentId :=
      List.mem_filter.mpr ⟨hchunk, by simp [SqlAlchemyChunkRepository.ofDocument, hother]⟩
    rw [hnone] at hmem
    cases hmem
  obtain ⟨-, hreturned, hreturns⟩ := handle_replaces helloConfig System.helloJob
    { s₀.store with chunks := staleChunks }
  obtain ⟨s', hfirst, hagain⟩ := hreturns hlegal htenant text htext
    (.inr rfl) faultless (fun _ => rfl) (hfresh _ hothers)
  obtain ⟨⟨text', htext', hreplaced, hrows⟩, hsame⟩ := hreturned faultless s' hfirst
  obtain rfl : text = text' := Option.some.inj (htext.symm.trans htext')
  obtain ⟨s'', hsecond⟩ :=
    hagain faultless (fun _ => rfl) (hfresh _ (hreplaced.others.trans hothers))
  rw [hvalue] at hrows
  exact ⟨_, s', s'', rfl, hfirst, hrows htenant, hsecond, (hsame faultless s'' hsecond).1⟩

end IngestDocumentHandler

end Eka
