import Eka.System.Indexed
import Eka.System.Sequential

/-!
# One attempt at a job

What `handle` on its own does to the status of its document, from any status and under
any pattern of faults. It takes the document to INGESTING in a transaction of its own;
from there every fault before the last commit leaves it INGESTING, and that is a status
that `mark_ingesting` does not accept.
-/

namespace Eka

open Py Relational
open RecursiveCharacterChunker (split)

/-! ## When the chunk transaction commits -/

/-- The ids drawn for the pieces are different from one another and from those of the other
    documents' chunks. -/
structure HandleEnv.Fresh (env : HandleEnv) (documentId : UUID) (n : Nat) (t : Chunks) : Prop where
  distinct : ∀ i j, i < n → j < n → env.newUuid i = env.newUuid j → i = j
  unused : ∀ i, i < n → ∀ row ∈ t.rows, row.documentId ≠ documentId → row.id ≠ env.newUuid i

/-- The column takes the vectors of the pieces of a text. -/
def Config.Storable (config : Config) (text : Str) : Prop :=
  split config.chunking text = [] ∨ config.embedder.dimension = embeddingDim

namespace IngestDocumentHandler

variable {config : Config} {job : IngestionJob} {newUuid : Nat → UUID} {now : Instant}
  {t : Chunks}

/-- Each piece goes with its own embedding. -/
theorem zip_embed (model : EmbeddingModel) (pieces : List TextPiece) :
    pieces.zip (model.embed (pieces.map (·.text))) =
      pieces.map fun piece => (piece, model.embedOne piece.text) := by
  rw [EmbeddingModel.embed, List.map_map]
  exact List.map_prod_left_eq_zip.symm

/-- What each chunk is made of. -/
theorem createChunks_mem {text : Str} {chunks : List Chunk}
    (h : createChunks config job newUuid text = .ok chunks) {chunk : Chunk}
    (hchunk : chunk ∈ chunks) : ∃ piece ∈ split config.chunking text,
      chunk.id = newUuid piece.ordinal ∧ chunk.documentId = job.documentId ∧
      chunk.ordinal = piece.ordinal ∧ chunk.text.value = piece.text ∧
      chunk.embedding = config.embedder.embedOne piece.text := by
  obtain ⟨pair, hpair, hcreate⟩ := Fallible.mem_of_mapM_ok h hchunk
  rw [zip_embed] at hpair
  obtain ⟨piece, hpiece, rfl⟩ := List.mem_map.mp hpair
  obtain ⟨hid, -, hdoc, -, -, hordinal, htext, hembedding⟩ := Chunk.create_ok hcreate
  exact ⟨piece, hpiece, hid, hdoc, hordinal, htext, hembedding⟩

/-- A text that does not fit the column is refused. -/
theorem storeChunks_storable {text : Str} {t' : Chunks}
    (h : storeChunks config job newUuid text now t = .ok t') : config.Storable text := by
  obtain ⟨chunks, hchunks, h⟩ := Fallible.bind_ok.mp h
  obtain ⟨rows, hrows, -⟩ := SqlAlchemyChunkRepository.replaceForDocument_ok h
  by_cases hsplit : split config.chunking text = []
  · exact .inl hsplit
  · right
    obtain ⟨hpieces, -⟩ := createChunks_ok hchunks
    obtain ⟨chunk, hchunk⟩ : ∃ chunk, chunk ∈ chunks := by
      refine List.exists_mem_of_ne_nil chunks ?_
      rintro rfl
      exact hsplit hpieces.symm
    obtain ⟨piece, -, -, -, -, -, hembedding⟩ := createChunks_mem hchunks hchunk
    obtain ⟨row, -, hrow⟩ := Fallible.exists_of_mapM_ok hrows hchunk
    obtain ⟨-, -, -, -, -, -, -, hvector⟩ := ChunkModel.ofChunk_ok hrow
    have hsized := row.embedding.sized
    rw [hvector, hembedding, config.embedder.sized] at hsized
    exact hsized

/-- The rows that a text is stored in. -/
theorem createChunks_rows {text : Str} {chunks : List Chunk} {rows : List ChunkModel}
    (hchunks : createChunks config job newUuid text = .ok chunks)
    (hrows : chunks.mapM (fun chunk => ChunkModel.ofChunk chunk now) = .ok rows) :
    rows.map (·.ordinal) = List.range (split config.chunking text).length ∧
      ∀ row ∈ rows, row.id = newUuid row.ordinal ∧ row.documentId = job.documentId ∧
        row.ordinal < (split config.chunking text).length := by
  have hordinals : rows.map (·.ordinal) = List.range (split config.chunking text).length := by
    rw [← RecursiveCharacterChunker.split_ordinals, ← (createChunks_ok hchunks).1, List.map_map]
    refine Fallible.map_of_mapM_ok hrows ?_
    intro chunk row hrow
    exact (ChunkModel.ofChunk_ok hrow).2.2.2.2.2.1
  refine ⟨hordinals, ?_⟩
  intro row hrow
  obtain ⟨chunk, hchunk, hof⟩ := Fallible.mem_of_mapM_ok hrows hrow
  obtain ⟨piece, -, hid, hdoc, hordinal, -⟩ := createChunks_mem hchunks hchunk
  obtain ⟨hid', -, hdoc', -, -, hordinal', -⟩ := ChunkModel.ofChunk_ok hof
  refine ⟨by rw [hid', hid, hordinal', hordinal], hdoc'.trans hdoc, ?_⟩
  rw [← List.mem_range, ← hordinals]
  exact List.mem_map_of_mem hrow

/-- With fresh ids, a stored text that fits is always taken: its pieces are not blank and carry
    no NUL, and no row of the document is left for a new one to clash with. -/
theorem exists_storeChunks {env : HandleEnv} {text : Text} (now : Instant)
    (hfresh : env.Fresh job.documentId (split config.chunking text.value).length t)
    (htenant : ∀ row ∈ t.rows, row.documentId = job.documentId → row.tenantId = job.tenantId)
    (hstorable : config.Storable text.value) :
    ∃ t', storeChunks config job env.newUuid text.value now t = .ok t' := by
  obtain ⟨chunks, hchunks⟩ := exists_createChunks config job env.newUuid text.value
  obtain ⟨rows, hrows⟩ : ∃ rows, chunks.mapM (fun chunk => ChunkModel.ofChunk chunk now) =
      .ok rows := by
    refine Fallible.exists_mapM_ok ?_
    intro chunk hchunk
    obtain ⟨piece, hpiece, -, -, -, htext, hembedding⟩ := createChunks_mem hchunks hchunk
    refine ChunkModel.exists_ofChunk now ?_ ?_
    · rw [htext]
      intro hnul
      refine RecursiveCharacterChunker.split_chars (P := fun c => c ≠ '\x00') ?_ ?_ piece hpiece _
        hnul rfl
      · intro separator hsep c hc hnul
        rw [hnul] at hc
        have hmem := List.mem_flatten_of_mem hsep hc
        exact absurd hmem (by decide)
      · rintro c hc rfl
        exact text.noNul hc
    · rw [hembedding, config.embedder.sized]
      exact hstorable.resolve_left (List.ne_nil_of_mem hpiece)
  obtain ⟨hordinals, hrow⟩ := createChunks_rows hchunks hrows
  obtain ⟨t', ht'⟩ : ∃ t', (t.deleteWhere (SqlAlchemyChunkRepository.ofDocument job.tenantId
      job.documentId)).insertAll rows = some t' := by
    refine Table.exists_insertAll ?_ ?_
    · have hdistinct : rows.Pairwise fun a b => a.ordinal ≠ b.ordinal := by
        rw [← List.pairwise_map, hordinals]
        exact List.nodup_range
      refine hdistinct.imp_of_mem ?_
      rintro a b ha hb hne (hid | ⟨-, hordinal⟩)
      · rw [(hrow a ha).1, (hrow b hb).1] at hid
        exact hne (hfresh.distinct _ _ (hrow a ha).2.2 (hrow b hb).2.2 hid)
      · exact hne hordinal
    · intro a ha r hr
      obtain ⟨hmem, hkept⟩ := Table.mem_deleteWhere.mp ha
      have hother : a.documentId ≠ job.documentId := by
        intro hdoc
        simp [SqlAlchemyChunkRepository.ofDocument, hdoc, htenant a hmem hdoc] at hkept
      rintro (hid | ⟨hdoc, -⟩)
      · rw [(hrow r hr).1] at hid
        exact hfresh.unused _ (hrow r hr).2.2 a hmem hother hid
      · exact hother (hdoc.trans (hrow r hr).2.1)
  refine ⟨t', Fallible.bind_ok.mpr ⟨chunks, hchunks, Fallible.bind_ok.mpr ⟨rows, hrows, ?_⟩⟩⟩
  rw [ht']

/-- Ids that are not fresh are refused by the primary key. -/
theorem storeChunks_fresh {env : HandleEnv} {text : Str} {t' : Chunks}
    (h : storeChunks config job env.newUuid text now t = .ok t') :
    env.Fresh job.documentId (split config.chunking text).length t := by
  obtain ⟨chunks, hchunks, h⟩ := Fallible.bind_ok.mp h
  obtain ⟨rows, hrows, ht'⟩ := SqlAlchemyChunkRepository.replaceForDocument_ok h
  obtain ⟨hordinals, hrow⟩ := createChunks_rows hchunks hrows
  have hpiece : ∀ i, i < (split config.chunking text).length →
      ∃ row ∈ t'.rows, row.id = env.newUuid i ∧ row.documentId = job.documentId ∧
        row.ordinal = i := by
    intro i hi
    rw [← List.mem_range, ← hordinals] at hi
    obtain ⟨row, hmem, rfl⟩ := List.mem_map.mp hi
    refine ⟨row, ?_, (hrow row hmem).1, (hrow row hmem).2.1, rfl⟩
    rw [ht']
    exact List.mem_append_right _ hmem
  -- two stored rows with one id are one row
  have hunique : ∀ a ∈ t'.rows, ∀ b ∈ t'.rows, a.id = b.id → a = b :=
    fun a ha b hb hid => t'.eq_of_clash ha hb (.inl hid) (.inl hid.symm)
  constructor
  · intro i j hi hj hid
    obtain ⟨a, ha, haId, -, rfl⟩ := hpiece i hi
    obtain ⟨b, hb, hbId, -, rfl⟩ := hpiece j hj
    rw [hunique a ha b hb (haId.trans (hid.trans hbId.symm))]
  · intro i hi row hmem hother hid
    obtain ⟨a, ha, haId, haDoc, -⟩ := hpiece i hi
    have hkept : row ∈ t'.rows := by
      rw [ht']
      refine List.mem_append_left _ (List.mem_filter.mpr ⟨hmem, ?_⟩)
      simp [SqlAlchemyChunkRepository.ofDocument, hother]
    rw [hunique row hkept a ha (hid.trans haId.symm)] at hother
    exact hother haDoc

end IngestDocumentHandler

/-! ## What a lifecycle transaction does -/

namespace DocumentLifecycleService

variable {s : Store} {tenantId documentId : UUID} {row : DocumentModel} {action : LifecycleAction}

/-- A transaction that the state machine allows: it commits, unless a call faults. -/
theorem transition_of_mem (hrow : s.documents.byId documentId = some row)
    (htenant : row.tenantId = tenantId)
    (hallowed : action.target ∈ allowedTransitions row.status) (now : Instant)
    (read commit : Outcome) :
    ∃ document t, Documents.Saves row document action.target ∧
      Documents.saveCommit row document s.documents = .ok t ∧
      transition action tenantId documentId now read commit s =
        if read = .returns then
          (if commit = .returns then .ok ⟨⟩ else .error .infrastructure,
            if commit.takesEffect then { s with documents := t } else s)
        else (.error .infrastructure, s) := by
  obtain ⟨hmem, rfl⟩ := Documents.byId_eq_some.mp hrow
  subst htenant
  have hread : DocumentLifecycleService.read action row.tenantId row.id now s.documents =
      .ok (row, { row.toDomain with status := action.target, updatedAt := now }) :=
    read_of_mem hmem hallowed
  have hsaves : Documents.Saves row { row.toDomain with
      status := action.target, updatedAt := now } action.target :=
    ⟨hallowed, now, [], rfl⟩
  obtain ⟨savedAt, t, ht, -⟩ := hsaves.saveCommit s.documents
  refine ⟨_, t, hsaves, ht, ?_⟩
  have hcommit : Store.onDocuments (Documents.saveCommit row { row.toDomain with
      status := action.target, updatedAt := now }) s = .ok { s with documents := t } :=
    Fallible.map_ok.mpr ⟨t, ht, rfl⟩
  unfold transition
  by_cases hreturns : read = .returns
  · rw [if_pos hreturns, Saga.bind_of_ok (by rw [await_query_of_ok hread, if_pos hreturns])]
    exact await_transact_of_ok hcommit
  · rw [if_neg hreturns]
    exact Saga.bind_of_error (by rw [await_query_of_ok hread, if_neg hreturns])

/-- One that it does not allow raises, whatever else faults. -/
theorem transition_of_not_mem (hrow : s.documents.byId documentId = some row)
    (htenant : row.tenantId = tenantId)
    (hallowed : action.target ∉ allowedTransitions row.status) (now : Instant)
    (read commit : Outcome) :
    ∃ e, transition action tenantId documentId now read commit s = (.error e, s) := by
  obtain ⟨hmem, rfl⟩ := Documents.byId_eq_some.mp hrow
  subst htenant
  obtain ⟨e, hread⟩ : ∃ e, DocumentLifecycleService.read action row.tenantId row.id now
      s.documents = .error e := read_of_not_mem hmem hallowed
  obtain ⟨e', hawait⟩ := await_query_of_error read (s := s) (f := fun s =>
    DocumentLifecycleService.read action row.tenantId row.id now s.documents) hread
  exact ⟨e', Saga.bind_of_error hawait⟩

end DocumentLifecycleService

/-! ## What is left of the database -/

/-- What an attempt at a job leaves alone, and the status it leaves its document in. -/
structure Attempted (config : Config) (job : IngestionJob) (s s' : Store)
    (status : DocumentStatus) : Prop where
  contents : s'.contents = s.contents
  jobs : s'.jobs = s.jobs
  linked : s'.Linked config
  describes : s'.documents.Describes job.documentId job.tenantId job.collectionId
    job.documentVersion
  status : ∃ row, s'.documents.byId job.documentId = some row ∧ row.status = status
  others : ∀ chunk : ChunkModel, chunk.documentId ≠ job.documentId →
    (chunk ∈ s'.chunks.rows ↔ chunk ∈ s.chunks.rows)

namespace Attempted

variable {config : Config} {job : IngestionJob} {s s₁ : Store} {status : DocumentStatus}

theorem refl (hlinked : s.Linked config)
    (hjob : s.documents.Describes job.documentId job.tenantId job.collectionId job.documentVersion)
    {row : DocumentModel} (hrow : s.documents.byId job.documentId = some row) :
    Attempted config job s s row.status :=
  ⟨rfl, rfl, hlinked, hjob, ⟨row, hrow, rfl⟩, fun _ _ => Iff.rfl⟩

theorem save (h : Attempted config job s s₁ status) {loaded : DocumentModel} {document : Document}
    {target : DocumentStatus} (hsaves : Documents.Saves loaded document target)
    (hid : loaded.id = job.documentId) {t : Documents}
    (hsave : Documents.saveCommit loaded document s₁.documents = .ok t) :
    Attempted config job s { s₁ with documents := t } target := by
  obtain ⟨row, hrow, -⟩ := h.status
  obtain ⟨row', hrow', -⟩ := hsaves.grows hsave job.documentId row hrow
  obtain ⟨_, -, hstatus⟩ := hsaves.status hsave hrow'
  rw [if_pos hid.symm] at hstatus
  exact ⟨h.contents, h.jobs, h.linked.grow (hsaves.grows hsave),
    (hsaves.grows hsave).describes h.describes, ⟨row', hrow', hstatus⟩, h.others⟩

theorem storeChunks (h : Attempted config job s s₁ status) {newUuid : Nat → UUID} {text : Str}
    {now : Instant} {t : Chunks}
    (hstore : IngestDocumentHandler.storeChunks config job newUuid text now s₁.chunks = .ok t) :
    Attempted config job s { s₁ with chunks := t } status := by
  refine ⟨h.contents, h.jobs, h.linked.storeChunks hstore h.describes, h.describes, h.status, ?_⟩
  obtain ⟨rows, hrows, -, hcolumns⟩ := IngestDocumentHandler.storeChunks_ok hstore
  intro chunk hother
  rw [← h.others chunk hother]
  show chunk ∈ t.rows ↔ _
  rw [hrows, List.mem_append, List.mem_filter]
  constructor
  · rintro (hold | hnew)
    · exact hold.1
    · exact absurd (hcolumns chunk hnew).2.1 hother
  · intro hold
    exact .inl ⟨hold, by simp [SqlAlchemyChunkRepository.ofDocument, hother]⟩

/-- Ids are fresh after the attempt if they were before. -/
theorem fresh_iff (h : Attempted config job s s₁ status) {env : HandleEnv} {n : Nat} :
    env.Fresh job.documentId n s₁.chunks ↔ env.Fresh job.documentId n s.chunks := by
  constructor
  · intro hfresh
    exact ⟨hfresh.distinct, fun i hi row hrow hother =>
      hfresh.unused i hi row ((h.others row hother).mpr hrow) hother⟩
  · intro hfresh
    exact ⟨hfresh.distinct, fun i hi row hrow hother =>
      hfresh.unused i hi row ((h.others row hother).mp hrow) hother⟩

/-- The row of the document, for the lifecycle service. -/
theorem row (h : Attempted config job s s₁ status) :
    ∃ row, s₁.documents.byId job.documentId = some row ∧ row.tenantId = job.tenantId ∧
      row.status = status := by
  obtain ⟨row, hrow, hstatus⟩ := h.status
  obtain ⟨row', hrow', htenant, -⟩ := h.describes
  obtain rfl : row = row' := Option.some.inj (hrow.symm.trans hrow')
  exact ⟨row, hrow, htenant, hstatus⟩

end Attempted

/-! ## The handler, stage by stage -/

namespace HandleEnv

/-- `mark_ingesting` takes effect, if the state machine allows it. -/
def Marks (env : HandleEnv) : Prop :=
  env.faults .ingestingRead = .returns ∧ (env.faults .ingestingCommit).takesEffect = true

/-- From the split on, everything up to the commit of `mark_indexed` takes effect. -/
def Indexes (env : HandleEnv) (config : Config) (text : Str) : Prop :=
  config.Storable text ∧ IngestDocumentHandler.chunkOutcome config env text = .returns ∧
    env.faults .indexedRead = .returns ∧ (env.faults .indexedCommit).takesEffect = true

/-- From `mark_ingesting` on, everything up to the commit of `mark_indexed` takes effect. -/
def Finishes (env : HandleEnv) (config : Config) (content : Option Text) : Prop :=
  env.faults .ingestingCommit = .returns ∧ env.faults .contentGet = .returns ∧
    ∃ text, content = some text ∧ env.Indexes config text.value

/-- The same over the chunks there are: the ids drawn for the pieces are fresh, too. -/
def IndexesOver (env : HandleEnv) (config : Config) (documentId : UUID) (t : Chunks)
    (text : Str) : Prop :=
  env.Indexes config text ∧ env.Fresh documentId (split config.chunking text).length t

/-- An attempt at this job over this database that marks its document also indexes it. -/
def Completes (env : HandleEnv) (config : Config) (job : IngestionJob) (s : Store) : Prop :=
  env.faults .ingestingCommit = .returns ∧ env.faults .contentGet = .returns ∧
    ∃ text, SqlAlchemyContentStore.get job.tenantId job.documentId s.contents = some text ∧
      env.IndexesOver config job.documentId s.chunks text.value

theorem completes_iff {env : HandleEnv} {config : Config} {job : IngestionJob} {s : Store}
    (hfresh : ∀ text,
      SqlAlchemyContentStore.get job.tenantId job.documentId s.contents = some text →
      env.Fresh job.documentId (split config.chunking text.value).length s.chunks) :
    env.Completes config job s ↔
      env.Finishes config (SqlAlchemyContentStore.get job.tenantId job.documentId s.contents) := by
  refine and_congr_right fun _ => and_congr_right fun _ => exists_congr fun text => ?_
  exact and_congr_right fun htext => and_iff_left (hfresh text htext)

end HandleEnv

namespace IngestDocumentHandler

variable {config : Config} {env : HandleEnv} {job : IngestionJob} {s s₁ : Store}

/-- The answer of a call that took effect. -/
def answer (outcome : Outcome) : Except Error PUnit :=
  if outcome = .returns then .ok ⟨⟩ else .error .infrastructure

/-- A lifecycle transaction of an attempt, from a status that allows it, takes effect or raises
    and leaves everything as it was. -/
theorem transition_attempted {status : DocumentStatus} (h : Attempted config job s s₁ status)
    {action : LifecycleAction} (hallowed : action.target ∈ allowedTransitions status)
    (now : Instant) (read commit : Outcome) :
    ((read = .returns ∧ commit.takesEffect = true) ∧ ∃ s₂,
      DocumentLifecycleService.transition action job.tenantId job.documentId now read commit s₁ =
        (answer commit, s₂) ∧
      Attempted config job s s₂ action.target ∧ s₂.chunks = s₁.chunks) ∨
      (¬ (read = .returns ∧ commit.takesEffect = true) ∧ ∃ e,
        DocumentLifecycleService.transition action job.tenantId job.documentId now read commit s₁ =
          (.error e, s₁)) := by
  obtain ⟨row, hrow, htenant, rfl⟩ := h.row
  obtain ⟨document, t, hsaves, hsave, heq⟩ := DocumentLifecycleService.transition_of_mem hrow
    htenant hallowed now read commit
  have hid : row.id = job.documentId := (Documents.byId_eq_some.mp hrow).2
  by_cases hread : read = .returns
  · rw [if_pos hread] at heq
    cases commit with
    | returns => exact .inl ⟨⟨hread, rfl⟩, _, heq, h.save hsaves hid hsave, rfl⟩
    | raisesAfter => exact .inl ⟨⟨hread, rfl⟩, _, heq, h.save hsaves hid hsave, rfl⟩
    | raises => exact .inr ⟨(fun htakes => nomatch htakes.2), _, heq⟩
  · rw [if_neg hread] at heq
    exact .inr ⟨fun htakes => hread htakes.1, _, heq⟩

/-- From an INGESTING document, the chunk transaction and `mark_indexed` leave it INDEXED with
    the chunks of the text, or INGESTING and an exception. -/
theorem chunkAndIndex_spec {text : Text} (h : Attempted config job s s₁ .ingesting) :
    (env.IndexesOver config job.documentId s.chunks text.value ∧ ∃ s₂,
      chunkAndIndex config env job text.value s₁ = (answer (env.faults .indexedCommit), s₂) ∧
        Attempted config job s s₂ .indexed ∧
        (s₂.chunks.ofDocument job.documentId).map ChunkModel.piece =
          split config.chunking text.value) ∨
      (¬ env.IndexesOver config job.documentId s.chunks text.value ∧ ∃ e s₂,
        chunkAndIndex config env job text.value s₁ = (.error e, s₂) ∧
          Attempted config job s s₂ .ingesting) := by
  rw [chunkAndIndex_eq]
  cases hstore : storeChunks config job env.newUuid text.value (env.clock .chunkCommit)
      s₁.chunks with
  | ok t =>
      have hstorable := storeChunks_storable hstore
      have hfresh := h.fresh_iff.mp (storeChunks_fresh hstore)
      have hcommit : Store.onChunks (storeChunks config job env.newUuid text.value
          (env.clock .chunkCommit)) s₁ = .ok { s₁ with chunks := t } :=
        Fallible.map_ok.mpr ⟨t, hstore, rfl⟩
      have hchunked := h.storeChunks hstore
      have hpieces : (t.ofDocument job.documentId).map ChunkModel.piece =
          split config.chunking text.value := by
        rcases h.linked.ofDocument_storeChunks h.describes hstore job.documentId with
          ⟨hne, -⟩ | ⟨-, hpieces⟩
        · exact absurd rfl hne
        · exact hpieces
      cases houtcome : chunkOutcome config env text.value with
      | returns =>
          rw [Saga.bind_of_ok (await_transact_returns hcommit)]
          rcases transition_attempted hchunked
            (show LifecycleAction.markIndexed.target ∈ allowedTransitions .ingesting by decide)
            (env.clock .indexedCommit) (env.faults .indexedRead) (env.faults .indexedCommit) with
            ⟨htakes, s₂, heq, hindexed, hchunks⟩ | ⟨hnot, e, heq⟩
          · left
            refine ⟨⟨⟨hstorable, houtcome, htakes⟩, hfresh⟩, s₂, heq, hindexed, ?_⟩
            rw [hchunks]
            exact hpieces
          · right
            exact ⟨fun hindexes => hnot hindexes.1.2.2, e, _, heq, hchunked⟩
      | raises =>
          right
          refine ⟨fun hindexes => ?_, .infrastructure, s₁, rfl, h⟩
          cases houtcome.symm.trans hindexes.1.2.1
      | raisesAfter =>
          right
          rw [Saga.bind_of_error (await_transact_raisesAfter hcommit)]
          refine ⟨fun hindexes => ?_, _, _, rfl, hchunked⟩
          cases houtcome.symm.trans hindexes.1.2.1
  | error e =>
      right
      have hcommit : Store.onChunks (storeChunks config job env.newUuid text.value
          (env.clock .chunkCommit)) s₁ = .error e := by
        rw [Store.onChunks, hstore]
        rfl
      obtain ⟨e', hawait⟩ := await_transact_of_error (chunkOutcome config env text.value) hcommit
      refine ⟨?_, e', s₁, Saga.bind_of_error hawait, h⟩
      rintro ⟨⟨hstorable, -⟩, hfresh⟩
      obtain ⟨t, ht⟩ := exists_storeChunks (env.clock .chunkCommit) (h.fresh_iff.mpr hfresh)
        (h.linked.chunks_tenant h.describes.owned) hstorable
      rw [ht] at hstore
      cases hstore

/-- The same from `content.get` on. -/
theorem ingest_spec (h : Attempted config job s s₁ .ingesting) :
    (∃ text s₂, (env.faults .contentGet = .returns ∧
      SqlAlchemyContentStore.get job.tenantId job.documentId s.contents = some text ∧
      env.IndexesOver config job.documentId s.chunks text.value) ∧
        ingest config env job s₁ = (answer (env.faults .indexedCommit), s₂) ∧
        Attempted config job s s₂ .indexed ∧
        (s₂.chunks.ofDocument job.documentId).map ChunkModel.piece =
          split config.chunking text.value) ∨
      (¬ (env.faults .contentGet = .returns ∧ ∃ text,
        SqlAlchemyContentStore.get job.tenantId job.documentId s.contents = some text ∧
        env.IndexesOver config job.documentId s.chunks text.value) ∧ ∃ e s₂,
        ingest config env job s₁ = (.error e, s₂) ∧ Attempted config job s s₂ .ingesting) := by
  have hquery : ∀ outcome, await outcome (.query fun s =>
      .ok (SqlAlchemyContentStore.get job.tenantId job.documentId s.contents)) s₁ =
      (if outcome = .returns then
        .ok (SqlAlchemyContentStore.get job.tenantId job.documentId s.contents)
        else .error .infrastructure, s₁) := by
    intro outcome
    exact await_query_of_ok (by rw [h.contents])
  unfold ingest
  by_cases hget : env.faults .contentGet = .returns
  · rw [Saga.bind_of_ok ((hquery _).trans (by rw [if_pos hget]))]
    cases htext : SqlAlchemyContentStore.get job.tenantId job.documentId s.contents with
    | none =>
        right
        refine ⟨?_, _, s₁, rfl, h⟩
        rintro ⟨-, text, hsome, -⟩
        cases hsome
    | some text =>
        rcases chunkAndIndex_spec h with
          ⟨hindexes, s₂, heq, hindexed, hpieces⟩ | ⟨hnot, e, s₂, heq, hingesting⟩
        · exact .inl ⟨text, s₂, ⟨hget, rfl, hindexes⟩, heq, hindexed, hpieces⟩
        · right
          refine ⟨?_, e, s₂, heq, hingesting⟩
          rintro ⟨-, text', hsome, hindexes⟩
          cases hsome
          exact hnot hindexes
  · right
    rw [Saga.bind_of_error ((hquery _).trans (by rw [if_neg hget]))]
    exact ⟨fun hcond => hget hcond.1, _, s₁, rfl, h⟩

variable {row : DocumentModel}

/-- An attempt that does not mark its document raises and leaves everything as it was. -/
theorem handle_unmarked (env : HandleEnv) (hlinked : s.Linked config)
    (hjob : s.documents.Describes job.documentId job.tenantId job.collectionId job.documentVersion)
    (hrow : s.documents.byId job.documentId = some row)
    (hnot : ¬ (DocumentStatus.ingesting ∈ allowedTransitions row.status ∧ env.Marks)) :
    ∃ e, handle config env job s = (.error e, s) := by
  have h := Attempted.refl hlinked hjob hrow
  unfold handle
  by_cases hallowed : DocumentStatus.ingesting ∈ allowedTransitions row.status
  · rcases transition_attempted h
      (show LifecycleAction.markIngesting.target ∈ allowedTransitions row.status from hallowed)
      (env.clock .ingestingCommit) (env.faults .ingestingRead) (env.faults .ingestingCommit) with
      ⟨hmarks, -⟩ | ⟨-, e, heq⟩
    · exact absurd ⟨hallowed, hmarks⟩ hnot
    · exact ⟨e, Saga.bind_of_error heq⟩
  · obtain ⟨row', hrow', htenant, -⟩ := h.row
    obtain rfl : row = row' := Option.some.inj (hrow.symm.trans hrow')
    obtain ⟨e, heq⟩ := DocumentLifecycleService.transition_of_not_mem hrow htenant
      (show LifecycleAction.markIngesting.target ∉ allowedTransitions row.status from hallowed)
      (env.clock .ingestingCommit) (env.faults .ingestingRead) (env.faults .ingestingCommit)
    exact ⟨e, Saga.bind_of_error heq⟩

/-- An attempt that marks its document leaves it INDEXED with the chunks of its content, or
    INGESTING and raises. -/
theorem handle_marked (env : HandleEnv) (hlinked : s.Linked config)
    (hjob : s.documents.Describes job.documentId job.tenantId job.collectionId job.documentVersion)
    (hrow : s.documents.byId job.documentId = some row)
    (hallowed : DocumentStatus.ingesting ∈ allowedTransitions row.status) (hmarks : env.Marks) :
    (env.Completes config job s ∧
      ∃ text s', SqlAlchemyContentStore.get job.tenantId job.documentId s.contents = some text ∧
        handle config env job s = (answer (env.faults .indexedCommit), s') ∧
        Attempted config job s s' .indexed ∧
        (s'.chunks.ofDocument job.documentId).map ChunkModel.piece =
          split config.chunking text.value) ∨
      (¬ env.Completes config job s ∧
        ∃ e s', handle config env job s = (.error e, s') ∧
          Attempted config job s s' .ingesting) := by
  obtain ⟨-, s₁, heq, hmarked, -⟩ := (transition_attempted (Attempted.refl hlinked hjob hrow)
    (show LifecycleAction.markIngesting.target ∈ allowedTransitions row.status from hallowed)
    (env.clock .ingestingCommit) (env.faults .ingestingRead)
    (env.faults .ingestingCommit)).resolve_right fun hunmarked => hunmarked.1 hmarks
  unfold handle
  by_cases hcommit : env.faults .ingestingCommit = .returns
  · rw [Saga.bind_of_ok (heq.trans (by rw [answer, if_pos hcommit]))]
    rcases ingest_spec hmarked with
      ⟨text, s₂, ⟨hget, htext, hindexes⟩, heq, hindexed, hpieces⟩ | ⟨hnot, e, s₂, heq, hingesting⟩
    · exact .inl ⟨⟨hcommit, hget, text, htext, hindexes⟩, text, s₂, htext, heq, hindexed, hpieces⟩
    · exact .inr ⟨fun hcompletes => hnot hcompletes.2, e, s₂, heq, hingesting⟩
  · right
    rw [Saga.bind_of_error (heq.trans (by rw [answer, if_neg hcommit]))]
    exact ⟨fun hcompletes => hcommit hcompletes.1, _, s₁, rfl, hmarked⟩

end IngestDocumentHandler

end Eka
