import Eka.Ingestion.Queries
import Eka.System.Indexed
import Eka.System.Provenance

/-!
# What a client sees of the chunks

A worker replaces the chunks of a document while clients list them. The replacement is one
transaction, so a list is always a whole one: the pieces of one text that the document was
registered with, each once and in order, or none at all.
-/

namespace Eka

open Py Relational Transition
open RecursiveCharacterChunker (split)

/-- The chunk rows of a document are the pieces of one text that it was registered with. -/
def Store.WholeFor (config : Config) (s : Store) (documentId : UUID) : Prop :=
  ∃ text tenantId, s.documents.Hashes documentId tenantId (config.sha256 text) ∧
    (s.chunks.ofDocument documentId).map ChunkModel.piece = split config.chunking text

/-- There are no chunk rows, or they are whole. -/
def Store.Whole (config : Config) (s : Store) : Prop :=
  ∀ documentId, s.chunks.ofDocument documentId = [] ∨ s.WholeFor config documentId

/-! ## Every step keeps the chunk sets whole -/

theorem Store.Whole.keep {config : Config} {s s' : Store} (h : s.Whole config)
    (hgrows : s.documents.Grows s'.documents) (hchunks : s'.chunks = s.chunks) :
    s'.Whole config := by
  intro documentId
  rw [hchunks]
  rcases h documentId with hnone | ⟨text, tenantId, hhashes, hpieces⟩
  · exact .inl hnone
  · exact .inr ⟨text, tenantId, hgrows.hashes hhashes, by rw [hchunks, hpieces]⟩

/-- The chunk transaction replaces one set by another. -/
theorem Store.Whole.storeChunks {config : Config} {s : Store} (h : s.Whole config)
    (hlinked : s.Linked config) {job : IngestionJob} {newUuid : Nat → UUID} {text : Str}
    {now : Instant} {t : Chunks}
    (hjob : s.documents.Describes job.documentId job.tenantId job.collectionId job.documentVersion)
    (hhashes : s.documents.Hashes job.documentId job.tenantId (config.sha256 text))
    (hstore : IngestDocumentHandler.storeChunks config job newUuid text now s.chunks = .ok t) :
    Store.Whole config { s with chunks := t } := by
  intro documentId
  rcases hlinked.ofDocument_storeChunks hjob hstore documentId with ⟨-, hsame⟩ | ⟨rfl, hpieces⟩
  · rcases h documentId with hnone | ⟨text', tenantId, hhashes', hpieces⟩
    · exact .inl (hsame.trans hnone)
    · exact .inr ⟨text', tenantId, hhashes', by rw [← hpieces, ← hsame]⟩
  · exact .inr ⟨text, job.tenantId, hhashes, hpieces⟩

namespace System

variable {config : Config} {s s' : System} {label : Label}

theorem step_whole (howned : s.queue.Owned) (hlinked : s.Linked config) (hquoted : s.Quoted config)
    (h : s.store.Whole config) (hstep : step config s label = some s') :
    s'.store.Whole config := by
  obtain ⟨-, hgrows⟩ := step_linked howned hlinked hstep
  cases step_cases hstep with
  | request => exact h
  | proceed c id now outcome call store leads writes =>
      rcases writes with rfl | ⟨hwrites, -⟩
      · exact h
      · exact h.keep hgrows hwrites.chunks
  | dequeue => exact h.keep hgrows rfl
  | advance w now newUuid outcome phase job rest worker store busy leads writes =>
      rcases writes with rfl | ⟨hwrites, -⟩
      · exact h
      · cases hwrites.written with
        | saved => exact h.keep hgrows rfl
        | chunked commit =>
            exact h.storeChunks hlinked.store (held_described howned hlinked.store busy)
              (hquoted.workers w _ job rest busy) commit
        | completed => exact h.keep hgrows rfl
        | failed => exact h.keep hgrows rfl
  | exit => exact h

theorem reachable_whole (h : Reachable (step config) init s) : s.store.Whole config := by
  refine h.invariant' (I := fun s => s.store.Whole config) (fun _ => .inl rfl) ?_
  intro s label s' hs hwhole hstep
  exact step_whole (reachable_owned hs) (reachable_linked hs) (reachable_quoted hs) hwhole hstep

end System

/-! ## A list -/

namespace ChunkModel

variable {model : ChunkModel} {chunk : Chunk}

theorem toDomain_ok (h : model.toDomain = .ok chunk) :
    chunk.documentId = model.documentId ∧ chunk.ordinal = model.ordinal ∧
      chunk.text.value = model.text.value ∧ chunk.embedding = model.embedding.embedding := by
  obtain ⟨text, htext, rfl⟩ := Fallible.map_ok.mp h
  unfold ChunkText.make at htext
  split at htext
  · cases htext
  · cases htext
    exact ⟨rfl, rfl, rfl, rfl⟩

/-- A text that is not blank goes back into an entity. -/
theorem exists_toDomain (h : ¬ Blank model.text.value) : ∃ chunk, model.toDomain = .ok chunk := by
  unfold toDomain ChunkText.make
  rw [dif_neg (by rwa [strip_eq_nil_iff])]
  exact ⟨_, rfl⟩

end ChunkModel

namespace Store

variable {config : Config} {s : Store} {tenantId documentId : UUID}

/-- The rows that a list of the owner selects are those of the document. -/
theorem Linked.filter_ofDocument (h : s.Linked config)
    (howned : s.documents.Owned documentId tenantId) :
    s.chunks.rows.filter (SqlAlchemyChunkRepository.ofDocument tenantId documentId) =
      s.chunks.ofDocument documentId := by
  refine List.filter_congr ?_
  intro row hrow
  unfold SqlAlchemyChunkRepository.ofDocument
  by_cases hdocument : row.documentId = documentId
  · rw [h.chunks_tenant howned row hrow hdocument, beq_self_eq_true, Bool.true_and]
  · rw [beq_eq_false_iff_ne.mpr hdocument, Bool.and_false]

/-- Anybody else's list selects nothing. -/
theorem Linked.filter_others (h : s.Linked config)
    (hnot : ¬ s.documents.Owned documentId tenantId) :
    s.chunks.rows.filter (SqlAlchemyChunkRepository.ofDocument tenantId documentId) = [] := by
  refine List.filter_eq_nil_iff.mpr ?_
  intro row hrow hmatch
  simp only [SqlAlchemyChunkRepository.ofDocument, Bool.and_eq_true, beq_iff_eq] at hmatch
  have howned := (h.chunks row hrow).owned
  rw [hmatch.1, hmatch.2] at howned
  exact hnot howned

/-- Rows that are the pieces of a text have ascending ordinals. -/
theorem pairwise_of_pieces {rows : List ChunkModel} {text : Str}
    (hpieces : rows.map ChunkModel.piece = split config.chunking text) :
    rows.Pairwise fun a b => a.ordinal < b.ordinal := by
  have hordinals : rows.map (·.ordinal) =
      List.range (split config.chunking text).length := by
    rw [← RecursiveCharacterChunker.split_ordinals, ← hpieces, List.map_map]
    rfl
  rw [← List.pairwise_map (R := fun a b : Nat => a < b), hordinals]
  exact List.pairwise_lt_range

/-- Rows in ascending order are listed as they lie, and none is refused. -/
theorem listChunks_of_rows {rows : List ChunkModel}
    (hrows : s.chunks.rows.filter (SqlAlchemyChunkRepository.ofDocument tenantId documentId) = rows)
    (hascend : rows.Pairwise fun a b => a.ordinal < b.ordinal)
    (hblank : ∀ row ∈ rows, ¬ Blank row.text.value) (ties : Arrangement ChunkModel) :
    ∃ items, listChunks ties tenantId documentId s.chunks = .ok items ∧
      items.map (fun item => (⟨item.ordinal, item.text⟩ : TextPiece)) =
        rows.map ChunkModel.piece ∧
      ∀ item ∈ items, item.documentId = documentId ∧ item.dimension = embeddingDim := by
  have hselect : Relational.select ties
      (SqlAlchemyChunkRepository.ofDocument tenantId documentId)
      (fun a b => a.ordinal ≤ b.ordinal) s.chunks.rows = rows := by
    rw [← hrows]
    refine select_of_sorted (by intro a b c; simp; omega) (by intro a b; simp; omega) ?_ ?_
    · intro a ha b hb hab hba
      obtain ⟨hamem, hadoc⟩ := List.mem_filter.mp ha
      obtain ⟨hbmem, hbdoc⟩ := List.mem_filter.mp hb
      simp only [SqlAlchemyChunkRepository.ofDocument, Bool.and_eq_true, beq_iff_eq] at hadoc hbdoc
      have hordinal : a.ordinal = b.ordinal := by
        simp only [decide_eq_true_eq] at hab hba
        omega
      have hdocument : a.documentId = b.documentId := hadoc.2.trans hbdoc.2.symm
      exact s.chunks.eq_of_clash hamem hbmem (.inr ⟨hdocument, hordinal⟩)
        (.inr ⟨hdocument.symm, hordinal.symm⟩)
    · rw [hrows]
      exact hascend.imp fun h => decide_eq_true h.le
  obtain ⟨chunks, hchunks⟩ : ∃ chunks, rows.mapM ChunkModel.toDomain = .ok chunks := by
    exact Fallible.exists_mapM_ok fun row hrow => ChunkModel.exists_toDomain (hblank row hrow)
  refine ⟨chunks.map .fromEntity, ?_, ?_, ?_⟩
  · unfold listChunks SqlAlchemyChunkRepository.listForDocument
    rw [hselect, hchunks]
    rfl
  · rw [List.map_map]
    refine Fallible.map_of_mapM_ok hchunks ?_
    intro row chunk hchunk
    obtain ⟨-, hordinal, htext, -⟩ := ChunkModel.toDomain_ok hchunk
    simp only [Function.comp_apply, ChunkDTO.fromEntity, ChunkModel.piece, hordinal, htext]
  · intro item hitem
    obtain ⟨chunk, hchunk, rfl⟩ := List.mem_map.mp hitem
    obtain ⟨row, hrow, hdomain⟩ := Fallible.mem_of_mapM_ok hchunks hchunk
    obtain ⟨hdocument, -, -, hembedding⟩ := ChunkModel.toDomain_ok hdomain
    rw [← hrows] at hrow
    have hmatch := (List.mem_filter.mp hrow).2
    simp only [SqlAlchemyChunkRepository.ofDocument, Bool.and_eq_true, beq_iff_eq] at hmatch
    refine ⟨hdocument.trans hmatch.2, ?_⟩
    simp only [ChunkDTO.fromEntity, hembedding, row.embedding.sized]

end Store

namespace System

variable {config : Config} {s : System}

/-- The text of a stored chunk is a piece of a text, so it is not blank. -/
theorem reachable_notBlank (h : Reachable (step config) init s) :
    ∀ row ∈ s.store.chunks.rows, ¬ Blank row.text.value := by
  intro row hrow
  obtain ⟨text, -, hpiece⟩ := (reachable_quoted h).chunks row hrow
  obtain ⟨piece, hpiece, heq⟩ := List.mem_map.mp hpiece
  rw [← heq]
  exact RecursiveCharacterChunker.split_not_blank config.chunking text piece hpiece

/-- In every reachable state, whoever is in the middle of what, the list of a document's chunks
    returns. For its tenant it is empty or has the pieces of one text that the document was
    registered with, all of them and in order; for anybody else it is empty. With an injective
    digest, that of an INDEXED document has the pieces of its content. -/
theorem listChunks_whole (h : Reachable (step config) init s) (ties : Arrangement ChunkModel)
    (tenantId documentId : UUID) :
    ∃ items, listChunks ties tenantId documentId s.store.chunks = .ok items ∧
      (items = [] ∨ ∃ text,
        s.store.documents.Hashes documentId tenantId (config.sha256 text) ∧
        items.map (fun item => (⟨item.ordinal, item.text⟩ : TextPiece)) =
          split config.chunking text) ∧
      (∀ item ∈ items, item.documentId = documentId ∧ item.dimension = embeddingDim) ∧
      (Function.Injective config.sha256 → ∀ row, s.store.documents.byId documentId = some row →
        row.tenantId = tenantId → row.status = .indexed → ∃ content,
          s.store.contents.ofDocument documentId = some content ∧
          items.map (fun item => (⟨item.ordinal, item.text⟩ : TextPiece)) =
            split config.chunking content.text.value) := by
  have hlinked := reachable_linked h
  by_cases howned : s.store.documents.Owned documentId tenantId
  · have hrows := hlinked.store.filter_ofDocument howned
    have hascend : (s.store.chunks.ofDocument documentId).Pairwise
        fun a b => a.ordinal < b.ordinal := by
      rcases reachable_whole h documentId with hnone | ⟨text, owner, -, hpieces⟩
      · rw [hnone]
        exact .nil
      · exact Store.pairwise_of_pieces hpieces
    have hblank : ∀ row ∈ s.store.chunks.ofDocument documentId, ¬ Blank row.text.value :=
      fun row hrow => reachable_notBlank h row (List.mem_filter.mp hrow).1
    obtain ⟨items, hitems, hmap, hcolumns⟩ := Store.listChunks_of_rows hrows hascend hblank ties
    refine ⟨items, hitems, ?_, hcolumns, ?_⟩
    · rcases reachable_whole h documentId with hnone | ⟨text, owner, hhashes, hpieces⟩
      · rw [hnone] at hmap
        exact .inl (List.map_eq_nil_iff.mp hmap)
      · obtain rfl : owner = tenantId := hhashes.owned.tenant howned
        exact .inr ⟨text, hhashes, hmap.trans hpieces⟩
    · intro hinj row hrow htenant hstatus
      obtain ⟨content, hcontent, hpieces⟩ :=
        (reachable_indexed hinj h).documents documentId row hrow hstatus
      exact ⟨content, hcontent, hmap.trans hpieces⟩
  · have hrows := hlinked.store.filter_others howned
    obtain ⟨items, hitems, hmap, hcolumns⟩ := Store.listChunks_of_rows hrows .nil
      (fun row hrow => (List.not_mem_nil hrow).elim) ties
    refine ⟨items, hitems, .inl (List.map_eq_nil_iff.mp hmap), hcolumns, ?_⟩
    intro hinj row hrow htenant hstatus
    exact (howned ⟨row, hrow, htenant⟩).elim

theorem indexHello_row : (run (step helloConfig) init (uploadHello ++ indexHello)).map
    (fun s => (s.store.documents.byId ⟨10⟩).map fun r => (r.tenantId, r.status)) =
      some (some (⟨1⟩, .indexed)) := by
  decide +kernel

theorem listChunks_whole_hello : ∃ s items content,
    run (step helloConfig) init (uploadHello ++ indexHello) = some s ∧
    listChunks (.some _) ⟨1⟩ ⟨10⟩ s.store.chunks = .ok items ∧
    s.store.contents.ofDocument ⟨10⟩ = some content ∧
    items.map (fun item => (⟨item.ordinal, item.text⟩ : TextPiece)) =
      split helloConfig.chunking content.text.value := by
  obtain ⟨s, hrun, hrow⟩ := Option.map_eq_some_iff.mp indexHello_row
  obtain ⟨row, hbyId, heq⟩ := Option.map_eq_some_iff.mp hrow
  obtain ⟨htenant, hstatus⟩ := Prod.mk.injEq .. ▸ heq
  obtain ⟨items, hitems, -, -, hindexed⟩ :=
    @listChunks_whole helloConfig s ⟨_, hrun⟩ (.some _) ⟨1⟩ ⟨10⟩
  obtain ⟨content, hcontent, hpieces⟩ :=
    hindexed helloSha256_injective row hbyId htenant hstatus
  exact ⟨s, items, content, hrun, hitems, hcontent, hpieces⟩

end System

end Eka
