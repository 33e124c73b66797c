import Eka.Ingestion.Coverage
import Eka.Ingestion.Pipeline

/-!
# No chunk is refused

What `ChunkText` and `Chunk.create` check holds of every piece that the chunker returns, so no
run of the pipeline raises a `ValidationError`: what else it raises comes from the lifecycle,
from the database or from a fault.
-/

namespace Eka

open Py Relational
open RecursiveCharacterChunker (split)

/-- The exceptions of the value objects. -/
def Error.IsValidation : Error → Prop
  | .validationError _ => True
  | _ => False

variable {config : Config} {job : IngestionJob}

/-- A fault is no `ValidationError`. -/
theorem raises_await {α : Type} {outcome : Outcome} {call : Saga Store Error α}
    (h : call.Raises fun e => ¬ e.IsValidation) :
    (await outcome call).Raises fun e => ¬ e.IsValidation := by
  have hfault : ¬ Error.infrastructure.IsValidation := id
  cases outcome with
  | returns => exact h
  | raises => exact .raise hfault
  | raisesAfter => exact .bind h fun _ => .raise hfault

/-- The lifecycle raises that the document is missing or that it cannot move. -/
theorem DocumentLifecycleService.read_error {action : LifecycleAction}
    {tenantId documentId : UUID} {now : Instant} {t : Documents} {e : Error}
    (h : read action tenantId documentId now t = .error e) : ¬ e.IsValidation := by
  unfold read at h
  cases hsel : Documents.select tenantId documentId t with
  | none =>
      rw [hsel] at h
      cases h
      exact id
  | some row =>
      rw [hsel, LifecycleAction.apply_eq] at h
      have htransition := Fallible.map_error.mp h
      unfold Document.transition at htransition
      split at htransition
      · cases htransition
      · cases htransition
        exact id

theorem DocumentLifecycleService.raises_transition (action : LifecycleAction)
    (tenantId documentId : UUID) (now : Instant) (read commit : Outcome) :
    (transition action tenantId documentId now read commit).Raises fun e => ¬ e.IsValidation := by
  refine .bind (raises_await (.query fun s e h => read_error h)) ?_
  rintro ⟨loaded, document⟩
  refine raises_await (.transact fun s e h => ?_)
  have hcommit := Fallible.map_error.mp h
  unfold Documents.saveCommit at hcommit
  split at hcommit
  · cases hcommit
    exact id
  · cases hcommit

namespace IngestDocumentHandler

/-- The transaction raises what the columns or the keys of the database refuse. -/
theorem storeChunks_error {newUuid : Nat → UUID} {text : Str} {now : Instant} {t : Chunks}
    {e : Error} (h : storeChunks config job newUuid text now t = .error e) :
    ¬ e.IsValidation := by
  obtain ⟨chunks, hchunks⟩ := exists_createChunks config job newUuid text
  unfold storeChunks at h
  rw [hchunks] at h
  have hreplace : SqlAlchemyChunkRepository.replaceForDocument job.tenantId job.documentId chunks
    now t = .error e := h
  rcases Fallible.bind_error hreplace with h | ⟨rows, -, h⟩
  · obtain ⟨chunk, -, h⟩ := Fallible.mapM_error h
    unfold ChunkModel.ofChunk at h
    rcases Fallible.bind_error h with h | ⟨text, -, h⟩
    · unfold Text.store at h
      split at h
      · cases h
        exact id
      · cases h
    · rcases Fallible.bind_error h with h | ⟨vector, -, h⟩
      · unfold StoredVector.store at h
        split at h
        · cases h
        · cases h
          exact id
      · cases h
  · split at h
    · cases h
      exact id
    · cases h

theorem raises_chunkAndIndex (env : HandleEnv) (text : Str) :
    (chunkAndIndex config env job text).Raises fun e => ¬ e.IsValidation := by
  have hrest : (do
      await (env.faults .replace) (pure ⟨⟩)
      await (env.faults .chunkCommit) (.transact (Store.onChunks
        (storeChunks config job env.newUuid text (env.clock .chunkCommit))))
      DocumentLifecycleService.transition .markIndexed job.tenantId job.documentId
        (env.clock .indexedCommit) (env.faults .indexedRead) (env.faults .indexedCommit) :
        Saga Store Error PUnit).Raises fun e => ¬ e.IsValidation := by
    refine .bind (raises_await (.pure _)) fun _ => .bind (raises_await (.transact ?_))
      fun _ => DocumentLifecycleService.raises_transition _ _ _ _ _ _
    intro s e h
    unfold Store.onChunks at h
    exact storeChunks_error (Fallible.map_error.mp h)
  unfold chunkAndIndex
  split
  · exact .bind (raises_await (.pure _)) fun _ => hrest
  · exact hrest

theorem raises_handle (env : HandleEnv) :
    (handle config env job).Raises fun e => ¬ e.IsValidation := by
  refine .bind (DocumentLifecycleService.raises_transition _ _ _ _ _ _) fun _ => ?_
  refine .bind (raises_await (.query ?_)) ?_
  · intro s e h
    cases h
  · intro text
    cases text with
    | none => exact .raise id
    | some text => exact raises_chunkAndIndex env text.value

end IngestDocumentHandler

/-- Chunks are never blank: every piece has a character that is not whitespace, so `Chunk.create`
    returns on each of them and no run of the pipeline raises a `ValidationError`; and only a
    text of whitespace has no piece. -/
theorem chunks_never_blank (chunking : ChunkingConfig) (text : Str) :
    (∀ piece ∈ split chunking text, ∃ c ∈ piece.text, isSpace c = false) ∧
      (∀ piece ∈ split chunking text, ∀ id tenantId documentId collectionId version embedding,
        ∃ chunk, Chunk.create id tenantId documentId collectionId version piece.ordinal
          piece.text embedding = .ok chunk) ∧
        (∀ (config : Config) (env : HandleEnv) (job : IngestionJob) (s : Store) (message : Str),
          (IngestDocumentHandler.handle config env job s).1 ≠
            .error (.validationError message)) ∧
          (split chunking text = [] ↔ ∀ c ∈ text, isSpace c = true) := by
  have hnot := RecursiveCharacterChunker.split_not_blank chunking text
  refine ⟨?_, ?_, ?_, ?_⟩
  · intro piece hpiece
    simpa [Blank] using hnot piece hpiece
  · intro piece hpiece _ _ _ _ _ _
    exact Chunk.exists_create (hnot piece hpiece) ..
  · intro config env job s message h
    exact IngestDocumentHandler.raises_handle env s _ h trivial
  · rw [RecursiveCharacterChunker.split_eq_nil_iff]
    exact strip_eq_nil_iff

end Eka
