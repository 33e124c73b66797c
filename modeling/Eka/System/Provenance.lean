import Eka.System.Status

/-!
# Where the texts of the chunks come from

An upload is checked against the digest of the registration, the worker reads what was uploaded,
and splits it. So in every reachable state each chunk row is a piece of a text that has the
digest its document was registered with, even if two texts have one digest.
-/

namespace Eka

open Py Relational Transition
open RecursiveCharacterChunker (split)

/-- The piece is one of a text that the document of the tenant was registered with. -/
def Documents.Quotes (config : Config) (t : Documents) (documentId tenantId : UUID)
    (piece : Str) : Prop :=
  ∃ text, t.Hashes documentId tenantId (config.sha256 text) ∧
    piece ∈ (split config.chunking text).map (·.text)

/-- What a worker is about to split. -/
def Phase.Quoted (config : Config) (t : Documents) (job : IngestionJob) : Phase → Prop
  | .handling (.fetched text) =>
      t.Hashes job.documentId job.tenantId (config.sha256 text.value)
  | _ => True

structure System.Quoted (config : Config) (s : System) : Prop where
  chunks : ∀ row ∈ s.store.chunks.rows,
    s.store.documents.Quotes config row.documentId row.tenantId row.text.value
  workers : ∀ w phase job rest, s.workers w = .busy phase job rest →
    phase.Quoted config s.store.documents job

namespace Documents

variable {config : Config} {t t' t'' : Documents}

theorem Grows.trans (h : t.Grows t') (h' : t'.Grows t'') : t.Grows t'' := by
  intro id row hrow
  obtain ⟨row', hrow', hsame⟩ := h id row hrow
  obtain ⟨row'', hrow'', hsame'⟩ := h' id row' hrow'
  exact ⟨row'', hrow'', hsame.id.trans hsame'.id, hsame.tenantId.trans hsame'.tenantId,
    hsame.collectionId.trans hsame'.collectionId, hsame.contentHash.trans hsame'.contentHash,
    hsame.version.trans hsame'.version⟩

theorem Quotes.grow {documentId tenantId : UUID} {piece : Str}
    (h : t.Quotes config documentId tenantId piece) (hgrows : t.Grows t') :
    t'.Quotes config documentId tenantId piece := by
  obtain ⟨text, hhashes, hpiece⟩ := h
  exact ⟨text, hgrows.hashes hhashes, hpiece⟩

theorem Quotes.owned {documentId tenantId : UUID} {piece : Str}
    (h : t.Quotes config documentId tenantId piece) : t.Owned documentId tenantId := by
  obtain ⟨text, hhashes, -⟩ := h
  exact hhashes.owned

end Documents

theorem Phase.Quoted.grow {config : Config} {t t' : Documents} {job : IngestionJob} {phase : Phase}
    (h : phase.Quoted config t job) (hgrows : t.Grows t') : phase.Quoted config t' job := by
  unfold Phase.Quoted at h ⊢
  split
  · exact hgrows.hashes h
  · trivial

namespace System

variable {config : Config} {s s' : System} {label : Label}

/-- A worker that has fetched a text has read a content of its document. -/
theorem Phase.Goes.quoted {store : Store} {phase phase' : Phase} {job job' : IngestionJob}
    {rest rest' : List IngestionJob} {now : Instant} {newUuid : Nat → UUID}
    (h : Phase.Goes config job rest now newUuid s.store store phase phase' job' rest')
    (hlinked : s.store.Linked config) (hgrows : s.store.documents.Grows store.documents) :
    phase'.Quoted config store.documents job' := by
  cases h with
  | next => trivial
  | @handling phase phase' hphase =>
      cases phase with
      | start =>
          obtain ⟨-, loaded, document, heq, -⟩ := hphase
          cases heq
          trivial
      | ingesting loaded document =>
          cases hphase.1
          trivial
      | marked =>
          obtain ⟨-, text, heq, hget⟩ := hphase
          cases heq
          obtain ⟨content, hcontent, htenant, rfl⟩ := SqlAlchemyContentStore.get_eq_some.mp hget
          have hhashes := hlinked.contents _ content hcontent
          rw [htenant] at hhashes
          exact hgrows.hashes hhashes
      | fetched text =>
          cases hphase.1
          trivial
      | stored =>
          obtain ⟨-, loaded, document, heq, -⟩ := hphase
          cases heq
          trivial
      | indexing loaded document => cases hphase.1
  | handled => trivial
  | raised => trivial
  | deadLettered => trivial
  | failing => trivial

/-- The chunk transaction stores the pieces of the text that the worker holds. -/
theorem quotes_storeChunks {job : IngestionJob} {newUuid : Nat → UUID} {text : Str}
    {now : Instant} {t : Chunks} {documents : Documents}
    (hchunks : ∀ row ∈ s.store.chunks.rows,
      documents.Quotes config row.documentId row.tenantId row.text.value)
    (hstore : IngestDocumentHandler.storeChunks config job newUuid text now s.store.chunks = .ok t)
    (hhashes : documents.Hashes job.documentId job.tenantId (config.sha256 text)) :
    ∀ row ∈ t.rows, documents.Quotes config row.documentId row.tenantId row.text.value := by
  obtain ⟨rows, ht, hpieces, hcolumns⟩ := IngestDocumentHandler.storeChunks_ok hstore
  intro row hrow
  rw [ht] at hrow
  rcases List.mem_append.mp hrow with hrow | hrow
  · exact hchunks row (List.mem_filter.mp hrow).1
  · obtain ⟨htenant, hdocument, -⟩ := hcolumns row hrow
    have hpiece : row.piece ∈ split config.chunking text := by
      rw [← hpieces]
      exact List.mem_map_of_mem hrow
    rw [htenant, hdocument]
    exact ⟨text, hhashes, List.mem_map_of_mem hpiece⟩

/-- Every step keeps the chunks pieces of what was registered. -/
theorem step_quoted_chunks (h : s.Quoted config)
    (hgrows : s.store.documents.Grows s'.store.documents)
    (hstep : step config s label = some s') :
    ∀ row ∈ s'.store.chunks.rows,
      s'.store.documents.Quotes config row.documentId row.tenantId row.text.value := by
  have hkeep : ∀ row ∈ s.store.chunks.rows,
      s'.store.documents.Quotes config row.documentId row.tenantId row.text.value :=
    fun row hrow => (h.chunks row hrow).grow hgrows
  cases step_cases hstep with
  | request => exact hkeep
  | proceed c id now outcome call store leads writes =>
      rcases writes with rfl | ⟨hwrites, -⟩
      · exact hkeep
      · change ∀ row ∈ store.chunks.rows, _
        rw [hwrites.chunks]
        exact hkeep
  | dequeue => exact hkeep
  | advance w now newUuid outcome phase job rest worker store busy leads writes =>
      rcases writes with rfl | ⟨hwrites, -⟩
      · exact hkeep
      · cases hwrites.written with
        | saved => exact hkeep
        | chunked commit =>
            exact quotes_storeChunks hkeep commit (h.workers w _ job rest busy)
        | completed => exact hkeep
        | failed => exact hkeep
  | exit => exact hkeep

theorem step_quoted (howned : s.queue.Owned) (hlinked : s.Linked config) (h : s.Quoted config)
    (hstep : step config s label = some s') : s'.Quoted config := by
  obtain ⟨-, hgrows⟩ := step_linked howned hlinked hstep
  refine ⟨step_quoted_chunks h hgrows hstep, ?_⟩
  intro w phase' job' rest' hbusy
  rcases busy_cases hstep hbusy with hbusy | rfl | ⟨now, newUuid, phase, job, rest, -, hgoes⟩
  · exact (h.workers w phase' job' rest' hbusy).grow hgrows
  · trivial
  · exact Phase.Goes.quoted hgoes hlinked.store hgrows

/-- In every reachable state, the chunk rows are pieces of what their documents were registered
    with. -/
theorem reachable_quoted (h : Reachable (step config) init s) : s.Quoted config := by
  refine h.invariant' ⟨?_, ?_⟩ ?_
  · intro row hrow
    cases hrow
  · intro w phase job rest hbusy
    cases hbusy
  · intro s label s' hs hquoted hstep
    exact step_quoted (reachable_owned hs) (reachable_linked hs) hquoted hstep

/-- Along a run, documents are added and change their status, and nothing else. -/
theorem run_grows (h : Reachable (step config) init s) (hrun : Reachable (step config) s s') :
    s.store.documents.Grows s'.store.documents := by
  refine hrun.invariant' (I := fun s' => s.store.documents.Grows s'.store.documents)
    (.refl _) ?_
  intro s₁ label s₂ hs₁ hgrows hstep
  have hreach : Reachable (step config) init s₁ := by
    obtain ⟨labels, hlabels⟩ := hs₁
    exact h.trans_run hlabels
  exact hgrows.trans (step_linked (reachable_owned hreach) (reachable_linked hreach) hstep).2

end System

end Eka
