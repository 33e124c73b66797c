import Eka.Ingestion.Coverage
import Eka.Ingestion.HashingEmbedding
import Eka.System.Recovery

/-!
# Which configurations can ingest

`config.py` and `worker.py:93-115`. The settings bound the embedding dimension by 8 and 4096,
and the constructors of `build_worker` bound the overlap; the column of the vectors has its
dimension from a constant in `ingestion/infrastructure/models.py` that neither looks at.
-/

namespace Eka

open Py Relational Transition
open RecursiveCharacterChunker (split)

/-- `Settings` (`config.py:14-40`), the fields that the pipeline is built from, with what
    pydantic checks of them. -/
structure Settings where
  embeddingDimension : Int
  chunkSize : Int
  chunkOverlap : Int
  ingestionMaxAttempts : Int
  embeddingDimensionMin : 8 ≤ embeddingDimension
  embeddingDimensionMax : embeddingDimension ≤ 4096
  chunkSizeMin : 64 ≤ chunkSize
  chunkOverlapMin : 0 ≤ chunkOverlap
  ingestionMaxAttemptsMin : 1 ≤ ingestionMaxAttempts
  ingestionMaxAttemptsMax : ingestionMaxAttempts ≤ 20

/-- `Settings()`: the defaults. -/
def Settings.default : Settings :=
  ⟨384, 800, 120, 5, by decide, by decide, by decide, by decide, by decide, by decide⟩

/-- What the interpreter and its library provide. -/
structure Platform where
  primitives : HashingEmbeddingModel.Primitives ℚ
  sha256 : Str → Str
  repr : Error → Str

/-- `build_worker` (`worker.py:93-115`), with the settings that the API wires in
    (`api/dependencies.py:113-121`). -/
def buildWorker (platform : Platform) (settings : Settings) : Except Error Config := do
  let chunking ← ChunkingConfig.make settings.chunkSize settings.chunkOverlap
  let embedder ← HashingEmbeddingModel.make platform.primitives settings.embeddingDimension
  return {
    chunking := chunking
    embedder := embedder
    sha256 := platform.sha256
    maxAttempts := settings.ingestionMaxAttempts.toNat
    maxAttemptsPos := by
      have := settings.ingestionMaxAttemptsMin
      omega
    repr := platform.repr }

theorem buildWorker_ok {platform : Platform} {settings : Settings} {config : Config}
    (h : buildWorker platform settings = .ok config) :
    config.embedder.dimension = settings.embeddingDimension.toNat ∧
      config.sha256 = platform.sha256 := by
  obtain ⟨chunking, -, h⟩ := Fallible.bind_ok.mp h
  obtain ⟨embedder, hembedder, h⟩ := Fallible.bind_ok.mp h
  cases h
  exact ⟨(HashingEmbeddingModel.make_ok hembedder).2.1, rfl⟩

/-- The settings that `build_worker` accepts. -/
theorem exists_buildWorker (platform : Platform) (settings : Settings) :
    (∃ config, buildWorker platform settings = .ok config) ↔
      settings.chunkOverlap < settings.chunkSize := by
  have hsize := settings.chunkSizeMin
  have hoverlap := settings.chunkOverlapMin
  have hdimension := settings.embeddingDimensionMin
  constructor
  · rintro ⟨config, h⟩
    obtain ⟨chunking, hchunking, -⟩ := Fallible.bind_ok.mp h
    unfold ChunkingConfig.make at hchunking
    split at hchunking
    · cases hchunking
    · split at hchunking
      · cases hchunking
      · omega
  · intro hlt
    have hchunking : ∃ chunking, ChunkingConfig.make settings.chunkSize settings.chunkOverlap =
        .ok chunking := by
      unfold ChunkingConfig.make
      rw [dif_neg (by omega), dif_neg (by omega)]
      exact ⟨_, rfl⟩
    have hembedder : ∃ embedder, HashingEmbeddingModel.make platform.primitives
        settings.embeddingDimension = .ok embedder := by
      unfold HashingEmbeddingModel.make
      rw [dif_neg (by omega)]
      exact ⟨_, rfl⟩
    obtain ⟨chunking, hchunking⟩ := hchunking
    obtain ⟨embedder, hembedder⟩ := hembedder
    exact ⟨_, Fallible.bind_ok.mpr ⟨chunking, hchunking, Fallible.bind_ok.mpr
      ⟨embedder, hembedder, rfl⟩⟩⟩

/-- The column takes what an accepted configuration makes of a text when its dimension is that
    of the column, or when there is nothing to embed. -/
theorem storable_iff {platform : Platform} {settings : Settings} {config : Config}
    (hbuild : buildWorker platform settings = .ok config) (text : Str) :
    config.Storable text ↔ settings.embeddingDimension = embeddingDim ∨ strip text = [] := by
  have hdimension := settings.embeddingDimensionMin
  have hequal : config.embedder.dimension = embeddingDim ↔
      settings.embeddingDimension = embeddingDim := by
    rw [(buildWorker_ok hbuild).1]
    unfold embeddingDim
    omega
  unfold Config.Storable
  rw [RecursiveCharacterChunker.split_eq_nil_iff, hequal]
  exact or_comm

namespace IngestDocumentHandler

variable {config : Config} {job : IngestionJob} {s : Store} {row : DocumentModel}

/-- A call of `handle` ends with the document INDEXED. -/
def EndsIndexed (config : Config) (env : HandleEnv) (job : IngestionJob) (s : Store) : Prop :=
  ∃ s', handle config env job s = (.ok ⟨⟩, s') ∧
    ∃ row, s'.documents.byId job.documentId = some row ∧ row.status = .indexed

theorem endsIndexed_iff_storable (hlinked : s.Linked config)
    (hjob : s.documents.Describes job.documentId job.tenantId job.collectionId job.documentVersion)
    (hrow : s.documents.byId job.documentId = some row) (hstatus : row.status = .registered)
    {text : Text}
    (htext : SqlAlchemyContentStore.get job.tenantId job.documentId s.contents = some text)
    {env : HandleEnv} (hfaultless : env.Faultless)
    (hfresh : env.Fresh job.documentId (split config.chunking text.value).length s.chunks) :
    EndsIndexed config env job s ↔ config.Storable text.value := by
  have hallowed : DocumentStatus.ingesting ∈ allowedTransitions row.status := by
    rw [hstatus]
    decide
  rw [← hfaultless.completes_iff htext hfresh]
  rcases handle_marked env hlinked hjob hrow hallowed hfaultless.marks with
    ⟨hcompletes, text', s', -, heq, hindexed, -⟩ | ⟨hnot, e, s', heq, -⟩
  · rw [answer, if_pos (hfaultless _)] at heq
    exact iff_of_true ⟨s', heq, hindexed.status⟩ hcompletes
  · refine iff_of_false ?_ hnot
    rintro ⟨s₁, heq', -⟩
    rw [heq] at heq'
    cases heq'

/-- Under accepted settings, a run without faults for a REGISTERED document with a stored
    content ends with it INDEXED exactly when the embedding dimension is that of the column or
    the content is all whitespace. -/
theorem endsIndexed_iff {platform : Platform} {settings : Settings}
    (hbuild : buildWorker platform settings = .ok config) (hlinked : s.Linked config)
    (hjob : s.documents.Describes job.documentId job.tenantId job.collectionId job.documentVersion)
    (hrow : s.documents.byId job.documentId = some row) (hstatus : row.status = .registered)
    {text : Text}
    (htext : SqlAlchemyContentStore.get job.tenantId job.documentId s.contents = some text)
    {env : HandleEnv} (hfaultless : env.Faultless)
    (hfresh : env.Fresh job.documentId (split config.chunking text.value).length s.chunks) :
    EndsIndexed config env job s ↔
      settings.embeddingDimension = embeddingDim ∨ strip text.value = [] := by
  rw [endsIndexed_iff_storable hlinked hjob hrow hstatus htext hfaultless hfresh]
  exact storable_iff hbuild text.value

end IngestDocumentHandler

/-! ### Two dimensions -/

/-- What the interpreter makes of `hello`: its SHA-1 digest starts with `aaf4c61ddc`. -/
def helloPlatform : Platform where
  primitives := ⟨id, fun _ => 0xaaf4c61d, fun _ => false, fun v _ => v⟩
  sha256 := helloSha256
  repr := fun _ => []

/-- The defaults with another dimension. -/
def dimensionSettings (dimension : Int) (hmin : 8 ≤ dimension) (hmax : dimension ≤ 4096) :
    Settings :=
  { Settings.default with
    embeddingDimension := dimension
    embeddingDimensionMin := hmin
    embeddingDimensionMax := hmax }

/-- Nothing faults, and the ids of the chunks start at 30. -/
def faultless : HandleEnv where
  faults := fun _ => .returns
  clock := fun _ => 4
  newUuid := fun i => ⟨30 + BitVec.ofNat 128 i⟩

theorem exists_dimensionConfig (dimension : Int) (hmin : 8 ≤ dimension)
    (hmax : dimension ≤ 4096) : ∃ config,
      buildWorker helloPlatform (dimensionSettings dimension hmin hmax) = .ok config ∧
        config.sha256 = helloSha256 ∧ config.chunking = .default := by
  have hembedder : ∃ embedder, HashingEmbeddingModel.make helloPlatform.primitives dimension =
      .ok embedder := by
    unfold HashingEmbeddingModel.make
    rw [dif_neg (by omega)]
    exact ⟨_, rfl⟩
  obtain ⟨embedder, hembedder⟩ := hembedder
  exact ⟨_, Fallible.bind_ok.mpr ⟨.default, rfl, Fallible.bind_ok.mpr ⟨_, hembedder, rfl⟩⟩,
    rfl, rfl⟩

namespace System

/-- After the upload, `hello` waits to be ingested. -/
theorem uploadHello_waits {config : Config} (hsha : config.sha256 = helloSha256)
    (hchunking : config.chunking = .default) :
    ∃ s row text, run (step config) init uploadHello = some s ∧ s.store.Linked config ∧
      s.store.documents.Describes helloJob.documentId helloJob.tenantId helloJob.collectionId
        helloJob.documentVersion ∧
      s.store.documents.byId helloJob.documentId = some row ∧ row.status = .registered ∧
      SqlAlchemyContentStore.get helloJob.tenantId helloJob.documentId s.store.contents =
        some text ∧ text.value = "hello".toList ∧
      faultless.Fresh helloJob.documentId (split config.chunking text.value).length
        s.store.chunks := by
  have hrun := run_uploadHello hsha
  have hlinked := (reachable_linked ⟨_, hrun⟩).store
  refine ⟨_, .ofDomain helloDocument, ⟨"hello".toList, by decide⟩, hrun, hlinked,
    hlinked.jobs ⟨20⟩ _ rfl, rfl, rfl, rfl, rfl, ?_⟩
  have hlength : (split config.chunking "hello".toList).length = 1 := by
    rw [hchunking]
    rfl
  simp only [hlength]
  constructor
  · intro i j hi hj _
    omega
  · intro i _ chunk hchunk
    cases hchunk

open IngestDocumentHandler in
/-- Under the default settings, `hello` is INDEXED. -/
theorem endsIndexed_default : ∃ config s text,
    buildWorker helloPlatform (dimensionSettings 384 (by decide) (by decide)) = .ok config ∧
    run (step config) init uploadHello = some s ∧
    SqlAlchemyContentStore.get helloJob.tenantId helloJob.documentId s.store.contents =
      some text ∧
    (EndsIndexed config faultless helloJob s.store ↔
      (384 : Int) = embeddingDim ∨ strip text.value = []) := by
  obtain ⟨config, hbuild, hsha, hchunking⟩ := exists_dimensionConfig 384 (by decide) (by decide)
  obtain ⟨s, row, text, hrun, hlinked, hjob, hrow, hstatus, htext, -, hfresh⟩ :=
    uploadHello_waits hsha hchunking
  exact ⟨config, s, text, hbuild, hrun, htext,
    endsIndexed_iff hbuild hlinked hjob hrow hstatus htext (fun _ => rfl) hfresh⟩

open IngestDocumentHandler in
/-- With an embedding dimension of 8, the column refuses the vector of `hello`. -/
theorem endsIndexed_fails : ∃ config s row text,
    buildWorker helloPlatform (dimensionSettings 8 (by decide) (by decide)) = .ok config ∧
    run (step config) init uploadHello = some s ∧
    s.store.documents.byId helloJob.documentId = some row ∧ row.status = .registered ∧
    SqlAlchemyContentStore.get helloJob.tenantId helloJob.documentId s.store.contents =
      some text ∧
    ¬ EndsIndexed config faultless helloJob s.store := by
  obtain ⟨config, hbuild, hsha, hchunking⟩ := exists_dimensionConfig 8 (by decide) (by decide)
  obtain ⟨s, row, text, hrun, hlinked, hjob, hrow, hstatus, htext, hvalue, hfresh⟩ :=
    uploadHello_waits hsha hchunking
  refine ⟨config, s, row, text, hbuild, hrun, hrow, hstatus, htext, ?_⟩
  rw [endsIndexed_iff_storable hlinked hjob hrow hstatus htext (fun _ => rfl) hfresh,
    storable_iff hbuild, hvalue]
  rintro (hdimension | hblank)
  · revert hdimension
    decide
  · revert hblank
    decide

end System

end Eka
