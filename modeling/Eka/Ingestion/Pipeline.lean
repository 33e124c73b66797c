import Eka.Documents.Commands
import Eka.Ingestion.Repository
import Eka.Lib.Saga

/-!
# The ingestion pipeline

`ingestion/application/pipeline.py`, `ingestion/application/content.py` and
`worker.py:73-90` over the database. A handler is a saga of transactions that commit
one by one. Every awaited call may fault, with or without having taken effect; which
ones do is an input (`faults`), so that one function covers every pattern of
exceptions. The concurrent system takes the same transactions apart again.
-/

namespace Eka

open Py Relational

/-- What the composition roots wire in (`worker.py:93-120`, `api/dependencies.py:113-121`): the
    chunker's and the embedder's settings, `hashlib.sha256(s.encode("utf-8")).hexdigest()`,
    `ingestion_max_attempts`, which is at least 1, and `repr` of an exception. -/
structure Config where
  chunking : ChunkingConfig
  embedder : EmbeddingModel
  sha256 : Str → Str
  maxAttempts : Nat
  maxAttemptsPos : 1 ≤ maxAttempts
  repr : Error → Str

/-- The database. -/
structure Store where
  documents : Documents
  contents : Contents
  chunks : Chunks
  jobs : Jobs

namespace Store

def empty : Store := ⟨Table.empty, Table.empty, Table.empty, Table.empty⟩

def onDocuments (f : Documents → Except Error Documents) (s : Store) : Except Error Store :=
  (f s.documents).map fun t => { s with documents := t }

def onContents (f : Contents → Except Error Contents) (s : Store) : Except Error Store :=
  (f s.contents).map fun t => { s with contents := t }

def onChunks (f : Chunks → Except Error Chunks) (s : Store) : Except Error Store :=
  (f s.chunks).map fun t => { s with chunks := t }

def onJobs (f : Jobs → Except Error Jobs) (s : Store) : Except Error Store :=
  (f s.jobs).map fun t => { s with jobs := t }

theorem onDocuments_of_ok {f : Documents → Except Error Documents} {s : Store} {t : Documents}
    (h : f s.documents = .ok t) : s.onDocuments f = .ok { s with documents := t } := by
  rw [onDocuments, h]
  rfl

theorem onContents_of_ok {f : Contents → Except Error Contents} {s : Store} {t : Contents}
    (h : f s.contents = .ok t) : s.onContents f = .ok { s with contents := t } := by
  rw [onContents, h]
  rfl

theorem onJobs_of_ok {f : Jobs → Except Error Jobs} {s : Store} {t : Jobs}
    (h : f s.jobs = .ok t) : s.onJobs f = .ok { s with jobs := t } := by
  rw [onJobs, h]
  rfl

end Store

/-- An awaited call. -/
def await {α : Type} (outcome : Outcome) (call : Saga Store Error α) : Saga Store Error α :=
  match outcome with
  | .returns => call
  | .raises => .raise .infrastructure
  | .raisesAfter => do
      let _ ← call
      .raise .infrastructure

/-- `_transition` (`lifecycle.py:19-28`): one read, one commit. -/
def DocumentLifecycleService.transition (action : LifecycleAction) (tenantId documentId : UUID)
    (now : Instant) (read commit : Outcome) : Saga Store Error PUnit := do
  let (loaded, document) ← await read
    (.query fun s => DocumentLifecycleService.read action tenantId documentId now s.documents)
  await commit (.transact (Store.onDocuments (Documents.saveCommit loaded document)))

/-! ## The handler -/

/-- The awaited calls of `IngestDocumentHandler.handle` (`pipeline.py:41-75`). -/
inductive HandleCall where
  | ingestingRead
  | ingestingCommit
  | contentGet
  | embed
  | replace
  | chunkCommit
  | indexedRead
  | indexedCommit
  deriving DecidableEq, Repr

/-- What one call of `handle` meets: the faults, the clock, and the ids that `new_uuid` draws
    for the pieces. -/
structure HandleEnv where
  faults : HandleCall → Outcome
  clock : HandleCall → Instant
  newUuid : Nat → UUID

namespace IngestDocumentHandler

open RecursiveCharacterChunker (split)

/-- The chunks of the pieces of a text (`pipeline.py:50-70`). -/
def createChunks (config : Config) (job : IngestionJob) (newUuid : Nat → UUID) (text : Str) :
    Except Error (List Chunk) :=
  let pieces := split config.chunking text
  let embeddings := config.embedder.embed (pieces.map (·.text))
  (pieces.zip embeddings).mapM fun (piece, embedding) =>
    Chunk.create (newUuid piece.ordinal) job.tenantId job.documentId job.collectionId
      job.documentVersion piece.ordinal piece.text embedding

/-- The chunk transaction (`pipeline.py:50-72`), from the text that was read. -/
def storeChunks (config : Config) (job : IngestionJob) (newUuid : Nat → UUID) (text : Str)
    (now : Instant) (t : Chunks) : Except Error Chunks := do
  let chunks ← createChunks config job newUuid text
  SqlAlchemyChunkRepository.replaceForDocument job.tenantId job.documentId chunks now t

/-- From the split on (`pipeline.py:50-75`). Without pieces nothing is embedded. -/
def chunkAndIndex (config : Config) (env : HandleEnv) (job : IngestionJob) (text : Str) :
    Saga Store Error PUnit := do
  if split config.chunking text ≠ [] then
    await (env.faults .embed) (pure ⟨⟩)
  -- the DELETE stays in the open transaction until the commit
  await (env.faults .replace) (pure ⟨⟩)
  await (env.faults .chunkCommit) (.transact (Store.onChunks
    (storeChunks config job env.newUuid text (env.clock .chunkCommit))))
  DocumentLifecycleService.transition .markIndexed job.tenantId job.documentId
    (env.clock .indexedCommit) (env.faults .indexedRead) (env.faults .indexedCommit)

/-- After `mark_ingesting` (`pipeline.py:45-75`). -/
def ingest (config : Config) (env : HandleEnv) (job : IngestionJob) : Saga Store Error PUnit := do
  let text ← await (env.faults .contentGet) (.query fun s =>
    .ok (SqlAlchemyContentStore.get job.tenantId job.documentId s.contents))
  match text with
  | none => .raise (.contentMissingError "no stored content for document".toList)
  | some text => chunkAndIndex config env job text.value

/-- `handle` (`pipeline.py:41-75`). -/
def handle (config : Config) (env : HandleEnv) (job : IngestionJob) : Saga Store Error PUnit := do
  DocumentLifecycleService.transition .markIngesting job.tenantId job.documentId
    (env.clock .ingestingCommit) (env.faults .ingestingRead) (env.faults .ingestingCommit)
  ingest config env job

end IngestDocumentHandler

/-! ## One job in the worker -/

/-- The awaited calls of `_process` besides those of `handle`. -/
structure ProcessEnv extends HandleEnv where
  complete : Outcome
  fail : Outcome
  failedRead : Outcome
  failedCommit : Outcome
  settledAt : Instant

/-- How `_process` ended: the job was completed, `fail` answered `False` or `True`. -/
inductive Verdict where
  | completed
  | retry
  | deadLettered
  deriving DecidableEq, Repr

namespace IngestionWorker

/-- The `except` block of `_process` (`worker.py:77-90`); an exception of `fail` leaves it. -/
def handleFailure (config : Config) (env : ProcessEnv) (job : IngestionJob) (exc : Error) :
    Saga Store Error Verdict := do
  await env.fail (.transact (Store.onJobs fun t =>
    .ok (SqlAlchemyJobQueue.fail job (config.repr exc) env.settledAt t).2))
  if SqlAlchemyJobQueue.deadLettered job then
    let _ ← Saga.attempt (DocumentLifecycleService.transition .markFailed job.tenantId
      job.documentId env.settledAt env.failedRead env.failedCommit)
    return .deadLettered
  else
    return .retry

/-- The `try` block of `_process` (`worker.py:74-76`). -/
def handleAndComplete (config : Config) (env : ProcessEnv) (job : IngestionJob) :
    Saga Store Error PUnit := do
  IngestDocumentHandler.handle config env.toHandleEnv job
  await env.complete (.transact (Store.onJobs fun t =>
    .ok (SqlAlchemyJobQueue.complete job env.settledAt t)))

/-- `_process` (`worker.py:73-90`). -/
def process (config : Config) (env : ProcessEnv) (job : IngestionJob) :
    Saga Store Error Verdict := do
  let result ← Saga.attempt (handleAndComplete config env job)
  match result with
  | .ok _ => return .completed
  | .error exc => handleFailure config env job exc

end IngestionWorker

/-! ## Uploading content -/

namespace UploadDocumentContentHandler

/-- `handle` up to the content transaction (`content.py:36-42`): the document, checked against
    the digest of the content. -/
def check (config : Config) (tenantId documentId : UUID) (content : Str) (t : Documents) :
    Except Error DocumentDTO :=
  match Documents.get tenantId documentId t with
  | none => .error (.notFoundError "document not found".toList)
  | some document =>
      let dto := DocumentDTO.fromAggregate document
      if config.sha256 content ≠ dto.contentHash then
        .error (.validationError "content does not match the registered content_hash".toList)
      else .ok dto

/-- The `enqueue` at the end (`content.py:47-53`). -/
def enqueue (config : Config) (id tenantId documentId : UUID) (document : DocumentDTO)
    (now : Instant) (t : Jobs) : Except Error Jobs :=
  SqlAlchemyJobQueue.enqueue id tenantId documentId document.collectionId document.version
    config.maxAttempts now t

/-- `handle` (`content.py:33-53`) when nothing faults. -/
def handle (config : Config) (tenantId documentId : UUID) (content : Str) (id : UUID)
    (now : Instant) : Saga Store Error PUnit := do
  let document ← .query fun s => check config tenantId documentId content s.documents
  Saga.transact (Store.onContents (SqlAlchemyContentStore.put tenantId documentId content now))
  Saga.transact (Store.onJobs (enqueue config id tenantId documentId document now))

end UploadDocumentContentHandler

/-- An upload, transaction by transaction. -/
theorem UploadDocumentContentHandler.handle_eq (config : Config) (tenantId documentId : UUID)
    (content : Str) (id : UUID) (now : Instant) (s : Store) :
    handle config tenantId documentId content id now s =
      match check config tenantId documentId content s.documents with
      | .error e => (.error e, s)
      | .ok document =>
          match SqlAlchemyContentStore.put tenantId documentId content now s.contents with
          | .error e => (.error e, s)
          | .ok contents =>
              match enqueue config id tenantId documentId document now s.jobs with
              | .error e => (.error e, { s with contents := contents })
              | .ok jobs => (.ok ⟨⟩, { s with contents := contents, jobs := jobs }) := by
  unfold handle
  cases hcheck : check config tenantId documentId content s.documents with
  | error e => exact Saga.bind_of_error (by rw [Saga.query, hcheck])
  | ok document =>
      rw [Saga.bind_of_ok (show Saga.query _ s = (.ok document, s) by rw [Saga.query, hcheck])]
      cases hput : SqlAlchemyContentStore.put tenantId documentId content now s.contents with
      | error e =>
          have hcommit : Store.onContents (SqlAlchemyContentStore.put tenantId documentId content
              now) s = .error e := by
            rw [Store.onContents, hput]
            rfl
          exact Saga.bind_of_error (Saga.transact_of_error hcommit)
      | ok contents =>
          rw [Saga.bind_of_ok (Saga.transact_of_ok (Store.onContents_of_ok hput)), Saga.transact,
            Store.onJobs]
          simp only
          cases enqueue config id tenantId documentId document now s.jobs with
          | error e => rfl
          | ok jobs => rfl

/-! ## The chunk transaction -/

namespace IngestDocumentHandler

open RecursiveCharacterChunker (split)

variable {config : Config} {job : IngestionJob} {newUuid : Nat → UUID} {text : Str}
  {now : Instant}

theorem embed_length (config : Config) (pieces : List TextPiece) :
    (config.embedder.embed (pieces.map (·.text))).length = pieces.length := by
  simp [EmbeddingModel.embed]

theorem createChunks_ok {chunks : List Chunk}
    (h : createChunks config job newUuid text = .ok chunks) :
    chunks.map (fun c => (⟨c.ordinal, c.text.value⟩ : TextPiece)) = split config.chunking text ∧
      ∀ c ∈ chunks, c.tenantId = job.tenantId ∧ c.documentId = job.documentId ∧
        c.collectionId = job.collectionId ∧ c.documentVersion = job.documentVersion := by
  constructor
  · rw [Fallible.map_of_mapM_ok h (k := Prod.fst)]
    · exact List.map_fst_zip (embed_length config _).ge
    · rintro ⟨piece, embedding⟩ chunk hcreate
      obtain ⟨-, -, -, -, -, hordinal, htext, -⟩ := Chunk.create_ok hcreate
      rw [hordinal, htext]
  · intro c hc
    obtain ⟨p, -, hcreate⟩ := Fallible.mem_of_mapM_ok h hc
    obtain ⟨-, ht, hd, hcol, hv, -⟩ := Chunk.create_ok hcreate
    exact ⟨ht, hd, hcol, hv⟩

/-- No piece is refused. -/
theorem exists_createChunks (config : Config) (job : IngestionJob) (newUuid : Nat → UUID)
    (text : Str) : ∃ chunks, createChunks config job newUuid text = .ok chunks := by
  refine Fallible.exists_mapM_ok ?_
  rintro ⟨piece, embedding⟩ hmem
  have hpiece : piece ∈ split config.chunking text := (List.of_mem_zip hmem).1
  exact Chunk.exists_create (RecursiveCharacterChunker.split_not_blank config.chunking text piece
    hpiece) _ _ _ _ _ _ _

/-- The spec of the chunk transaction: the tenant's rows of the document are replaced by one
    row per piece, under the job's tenant, document, collection and version. -/
theorem storeChunks_ok {t t' : Chunks}
    (h : storeChunks config job newUuid text now t = .ok t') :
    ∃ rows, t'.rows = (t.rows.filter fun r =>
        !SqlAlchemyChunkRepository.ofDocument job.tenantId job.documentId r) ++ rows ∧
      rows.map ChunkModel.piece = split config.chunking text ∧
      ∀ r ∈ rows, r.tenantId = job.tenantId ∧ r.documentId = job.documentId ∧
        r.collectionId = job.collectionId ∧ r.documentVersion = job.documentVersion := by
  obtain ⟨chunks, hchunks, h⟩ := Fallible.bind_ok.mp h
  obtain ⟨rows, hrows, ht'⟩ := SqlAlchemyChunkRepository.replaceForDocument_ok h
  obtain ⟨hpieces, hcolumns⟩ := createChunks_ok hchunks
  refine ⟨rows, ht', ?_, ?_⟩
  · rw [← hpieces]
    refine Fallible.map_of_mapM_ok hrows ?_
    intro chunk row hrow
    obtain ⟨-, -, -, -, -, hordinal, htext, -⟩ := ChunkModel.ofChunk_ok hrow
    rw [ChunkModel.piece, hordinal, htext]
  · intro r hr
    obtain ⟨chunk, hchunk, hrow⟩ := Fallible.mem_of_mapM_ok hrows hr
    obtain ⟨-, ht, hd, hcol, hv, -⟩ := ChunkModel.ofChunk_ok hrow
    rw [ht, hd, hcol, hv]
    exact hcolumns chunk hchunk

end IngestDocumentHandler

namespace IngestionWorker

variable {config : Config} {env : ProcessEnv} {job : IngestionJob} {s s' : Store}

/-- What `process` is, from how the `try` block ended. -/
theorem process_of_ok {u : PUnit} (h : handleAndComplete config env job s = (.ok u, s')) :
    process config env job s = (.ok .completed, s') := by
  unfold process
  rw [Saga.bind_apply, Saga.attempt, h]
  rfl

theorem process_of_error {exc : Error}
    (h : handleAndComplete config env job s = (.error exc, s')) :
    process config env job s = handleFailure config env job exc s' := by
  unfold process
  rw [Saga.bind_apply, Saga.attempt, h]

end IngestionWorker

/-! ## What an awaited call does -/

section Await

variable {α : Type} {outcome : Outcome} {s s' : Store}

theorem await_query_snd (outcome : Outcome) (f : Store → Except Error α) (s : Store) :
    (await outcome (.query f) s).2 = s := by
  cases outcome with
  | returns => rfl
  | raises => rfl
  | raisesAfter =>
      show ((Saga.query f >>= fun _ => Saga.raise .infrastructure) s).2 = s
      rw [Saga.bind_apply]
      cases h : f s <;> simp [Saga.query, Saga.raise, h]

theorem await_query_ok {f : Store → Except Error α} {a : α}
    (h : await outcome (.query f) s = (.ok a, s')) : outcome = .returns ∧ f s = .ok a ∧ s' = s := by
  cases outcome with
  | returns =>
      obtain ⟨h₁, h₂⟩ := Prod.mk.injEq .. ▸ h
      exact ⟨rfl, h₁, h₂.symm⟩
  | raises => cases h
  | raisesAfter =>
      obtain ⟨_, _, _, h⟩ := Saga.bind_ok.mp h
      cases h

theorem await_query_of_ok {f : Store → Except Error α} {a : α} (h : f s = .ok a) :
    await outcome (.query f) s =
      (if outcome = .returns then .ok a else .error .infrastructure, s) := by
  have hquery : Saga.query f s = (.ok a, s) := by rw [Saga.query, h]
  cases outcome with
  | returns => exact hquery
  | raises => rfl
  | raisesAfter => exact Saga.bind_of_ok hquery

theorem await_query_of_error (outcome : Outcome) {f : Store → Except Error α} {e : Error}
    (h : f s = .error e) : ∃ e', await outcome (.query f) s = (.error e', s) := by
  have hquery : Saga.query f s = (.error e, s) := by rw [Saga.query, h]
  cases outcome with
  | returns => exact ⟨e, hquery⟩
  | raises => exact ⟨_, rfl⟩
  | raisesAfter => exact ⟨e, Saga.bind_of_error hquery⟩

theorem await_transact_returns {f : Store → Except Error Store} (h : f s = .ok s') :
    await .returns (.transact f) s = (.ok ⟨⟩, s') := Saga.transact_of_ok h

theorem await_transact_raisesAfter {f : Store → Except Error Store} (h : f s = .ok s') :
    await .raisesAfter (.transact f) s = (.error .infrastructure, s') :=
  Saga.bind_of_ok (Saga.transact_of_ok h)

/-- An awaited commit: what it writes if it takes effect, and that it returned only if it
    was to return. -/
theorem await_transact_of_ok {f : Store → Except Error Store} (h : f s = .ok s') :
    await outcome (.transact f) s =
      (if outcome = .returns then .ok ⟨⟩ else .error .infrastructure,
        if outcome.takesEffect then s' else s) := by
  cases outcome with
  | returns => exact await_transact_returns h
  | raises => rfl
  | raisesAfter => exact await_transact_raisesAfter h

theorem await_transact_of_error (outcome : Outcome) {f : Store → Except Error Store} {e : Error}
    (h : f s = .error e) : ∃ e', await outcome (.transact f) s = (.error e', s) := by
  cases outcome with
  | returns => exact ⟨e, Saga.transact_of_error h⟩
  | raises => exact ⟨_, rfl⟩
  | raisesAfter => exact ⟨e, Saga.bind_of_error (Saga.transact_of_error h)⟩

theorem await_transact_ok {f : Store → Except Error Store} {u : PUnit}
    (h : await outcome (.transact f) s = (.ok u, s')) : outcome = .returns ∧ f s = .ok s' := by
  cases hf : f s with
  | error e =>
      obtain ⟨e', he⟩ := await_transact_of_error outcome hf
      rw [he] at h
      cases h
  | ok s₁ =>
      rw [await_transact_of_ok hf] at h
      cases outcome <;> cases h
      exact ⟨rfl, rfl⟩

/-- Either the commit took effect or nothing changed. -/
theorem await_transact_snd (outcome : Outcome) (f : Store → Except Error Store) (s : Store) :
    (await outcome (.transact f) s).2 = s ∨
      f s = .ok (await outcome (.transact f) s).2 ∧ outcome.takesEffect = true := by
  cases hf : f s with
  | error e =>
      obtain ⟨e', he⟩ := await_transact_of_error outcome hf
      rw [he]
      exact .inl rfl
  | ok s₁ =>
      rw [await_transact_of_ok hf]
      by_cases heffect : outcome.takesEffect = true
      · simp [heffect]
      · simp [heffect]

end Await

/-! ## The chunk transaction as one call -/

namespace IngestDocumentHandler

open RecursiveCharacterChunker (split)

/-- The chunk transaction faults as a whole when `embed` or the `DELETE` does. -/
def chunkOutcome (config : Config) (env : HandleEnv) (text : Str) : Outcome :=
  if (split config.chunking text ≠ [] ∧ env.faults .embed ≠ .returns) ∨
      env.faults .replace ≠ .returns then .raises
  else env.faults .chunkCommit

theorem await_pure_bind (outcome : Outcome) (k : PUnit → Saga Store Error PUnit) :
    (await outcome (pure ⟨⟩) >>= k) =
      if outcome = .returns then k ⟨⟩ else .raise .infrastructure := by
  cases outcome <;> rfl

/-- The calls up to the commit of the chunk transaction are the commit under that outcome. -/
theorem chunkAndIndex_eq (config : Config) (env : HandleEnv) (job : IngestionJob) (text : Str) :
    chunkAndIndex config env job text = (do
      await (chunkOutcome config env text) (.transact (Store.onChunks
        (storeChunks config job env.newUuid text (env.clock .chunkCommit))))
      DocumentLifecycleService.transition .markIndexed job.tenantId job.documentId
        (env.clock .indexedCommit) (env.faults .indexedRead) (env.faults .indexedCommit)) := by
  unfold chunkAndIndex chunkOutcome
  by_cases hpieces : split config.chunking text = []
  · simp only [hpieces, ne_eq, not_true_eq_false, if_false, false_and, false_or, await_pure_bind,
      ite_not]
    by_cases hreplace : env.faults .replace = .returns
    · simp only [hreplace, if_true]
    · simp only [hreplace, if_false]
      rfl
  · simp only [hpieces, ne_eq, not_false_eq_true, if_true, true_and, await_pure_bind]
    by_cases hembed : env.faults .embed = .returns
    · by_cases hreplace : env.faults .replace = .returns
      · simp only [hembed, hreplace, not_true_eq_false, or_self, if_true, if_false]
      · simp only [hembed, hreplace, not_true_eq_false, not_false_eq_true, or_true, if_true,
          if_false]
        rfl
    · simp only [hembed, not_false_eq_true, true_or, if_true, if_false]
      rfl

end IngestDocumentHandler

end Eka
