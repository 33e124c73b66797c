import Eka.Retrieval.Retriever
import Eka.System.Deletion

/-!
# Whether deleted documents can be retrieved

The arms of the retriever read `chunks` alone, so a deleted document stays out of the
results only while it has no chunk rows. The delete leaves the chunks where they are,
and the chunk transaction does not look at the status: a document is exposed by a
delete after its chunks were stored, and by chunks that are stored after the delete.
-/

namespace Eka

open Py Relational Transition
open RecursiveCharacterChunker (split)

namespace Store

/-- No query of any tenant retrieves a chunk of a deleted document. -/
def RetrievesLive (s : Store) : Prop :=
  ∀ server tenantId query embedding poolSize results,
    PgVectorHybridRetriever.retrieve server tenantId query embedding poolSize s.chunks =
      .ok results → ∀ result ∈ results, ¬ s.documents.Deleted result.documentId

/-- No chunk row that the arms can select belongs to a deleted document. -/
def ChunksLive (s : Store) : Prop :=
  ∀ chunk ∈ s.chunks.rows, ¬ s.documents.Deleted chunk.documentId

/-- A query that every chunk of a tenant answers to, by its vector. -/
def anyQuery : SearchQuery := ⟨"a".toList, 1, none, by decide, Nat.one_pos, by decide⟩

noncomputable def anyServer : SearchServer :=
  ⟨fun _ _ _ => true, fun _ _ => true, fun _ _ _ => true, .some _, .some _⟩

theorem retrievesLive_iff {s : Store} : s.RetrievesLive ↔ s.ChunksLive := by
  constructor
  · intro h chunk hchunk hdeleted
    have hscope : PgVectorHybridRetriever.inScope chunk.tenantId anyQuery.collectionId chunk =
        true := by
      simp [PgVectorHybridRetriever.inScope, anyQuery]
    obtain ⟨results, hresults, hall⟩ := PgVectorHybridRetriever.exists_retrieve anyServer
      chunk.tenantId s.chunks.rows.length s.chunks chunk.embedding.sized
      (show '\x00' ∉ anyQuery.text by decide)
    obtain ⟨result, hresult, -, hdoc⟩ := hall (List.length_filter_le _ _) chunk hchunk hscope
    exact h _ _ _ _ _ results hresults result hresult (hdoc ▸ hdeleted)
  · intro h server tenantId query embedding poolSize results hresults result hresult hdeleted
    obtain ⟨row, hrow, -, -, hdoc, -⟩ := PgVectorHybridRetriever.retrieve_ok hresults hresult
    exact h row hrow (hdoc ▸ hdeleted)

end Store

namespace System

variable {config : Config} {s s' : System} {label : Label}

/-- A delete commits while the document has chunks, or a chunk transaction commits chunks of a
    document that is deleted. -/
def Exposes (config : Config) (s : System) : Label → Prop
  | .proceed c _ _ outcome => outcome.takesEffect = true ∧ ∃ loaded document,
      s.calls c = .deleting loaded document ∧
        ∃ chunk ∈ s.store.chunks.rows, chunk.documentId = loaded.id
  | .advance w now newUuid outcome => outcome.takesEffect = true ∧ ∃ text job rest,
      s.workers w = .busy (.handling (.fetched text)) job rest ∧
        s.store.documents.Deleted job.documentId ∧ split config.chunking text.value ≠ [] ∧
        ∃ t, IngestDocumentHandler.storeChunks config job newUuid text.value now s.store.chunks =
          .ok t
  | _ => False

/-- Chunks come into the database by the chunk transaction of their document's job. -/
theorem step_chunkAdded (hstep : step config s label = some s') {chunk : ChunkModel}
    (hchunk : chunk ∈ s'.store.chunks.rows) :
    chunk ∈ s.store.chunks.rows ∨ ∃ w now newUuid outcome text job rest t,
      label = .advance w now newUuid outcome ∧ outcome.takesEffect = true ∧
        s.workers w = .busy (.handling (.fetched text)) job rest ∧
        chunk.documentId = job.documentId ∧ split config.chunking text.value ≠ [] ∧
        IngestDocumentHandler.storeChunks config job newUuid text.value now s.store.chunks =
          .ok t := by
  cases step_cases hstep with
  | request => exact .inl hchunk
  | proceed c id now outcome call store leads writes =>
      rcases writes with rfl | ⟨hwrites, -⟩
      · exact .inl hchunk
      · exact .inl (hwrites.chunks ▸ hchunk)
  | dequeue => exact .inl hchunk
  | advance w now newUuid outcome phase job rest worker store busy leads writes =>
      rcases writes with rfl | ⟨hwrites, heffect⟩
      · exact .inl hchunk
      · cases hwrites.written with
        | @chunked text t ht =>
            obtain ⟨rows, hrows, hpieces, hcolumns⟩ := IngestDocumentHandler.storeChunks_ok ht
            have hmem : chunk ∈ t.rows := hchunk
            rw [hrows] at hmem
            rcases List.mem_append.mp hmem with hold | hnew
            · exact .inl (List.mem_filter.mp hold).1
            · have hsplit : split config.chunking text.value ≠ [] := by
                rw [← hpieces]
                exact List.ne_nil_of_mem (List.mem_map_of_mem hnew)
              exact .inr ⟨w, now, newUuid, outcome, text, job, rest, t, rfl, heffect, busy,
                (hcolumns chunk hnew).2.1, hsplit, ht⟩
        | saved => exact .inl hchunk
        | completed => exact .inl hchunk
        | failed => exact .inl hchunk
  | exit => exact .inl hchunk

/-- Any other step keeps the chunks those of live documents. -/
theorem step_chunksLive (hlinked : s.Linked config) (h : s.store.ChunksLive)
    (hnot : ¬ s.Exposes config label) (hstep : step config s label = some s') :
    s'.store.ChunksLive := by
  rintro chunk hchunk ⟨row', hrow', hdeleted⟩
  have hadded := step_chunkAdded hstep hchunk
  cases step_moves hlinked hstep hrow' with
  | stays row hrow status =>
      have hbefore : s.store.documents.Deleted chunk.documentId :=
        ⟨row, hrow, status.symm.trans hdeleted⟩
      rcases hadded with hold | ⟨w, now, newUuid, outcome, text, job, rest, t, rfl, heffect, hbusy,
        hdoc, hsplit, ht⟩
      · exact h chunk hold hbefore
      · exact hnot ⟨heffect, text, job, rest, hbusy, hdoc ▸ hbefore, hsplit, t, ht⟩
  | added new status => cases status.symm.trans hdeleted
  | deleted c id now outcome loaded document row isLabel effect call isRow hrow status =>
      rcases hadded with hold | ⟨w, now', newUuid, outcome', text, job, rest, t, hlabel, -⟩
      · rw [isLabel] at hnot
        exact hnot ⟨effect, loaded, document, call, chunk, hold, isRow.symm⟩
      · rw [isLabel] at hlabel
        cases hlabel
  | moved w now newUuid outcome phase job rest target row isLabel effect busy writes isRow hrow
      status => exact target_ne_deleted writes (status.symm.trans hdeleted)

/-- Such a step leaves a deleted document with chunks behind. -/
theorem step_exposes (hlinked : s.Linked config) (hexposes : s.Exposes config label)
    (hstep : step config s label = some s') : ¬ s'.store.ChunksLive := by
  intro hlive
  cases label with
  | proceed c id now outcome =>
      obtain ⟨heffect, loaded, document, hcall, chunk, hchunk, hdoc⟩ := hexposes
      have hsaves := hlinked.calls c
      rw [hcall] at hsaves
      obtain ⟨savedAt, t, ht, hrows⟩ := hsaves.1.saveCommit s.store.documents
      have hcommit : Store.onDocuments (Documents.saveCommit loaded document) s.store =
          .ok { s.store with documents := t } := Fallible.map_ok.mpr ⟨t, ht, rfl⟩
      have hstore : s'.store = { s.store with documents := t } := by
        simp only [step, hcall, Call.advance, Option.map_some, Option.some.injEq] at hstep
        rw [← hstep]
        show (await outcome (saveDocument loaded document) s.store).2 = _
        rw [saveDocument, await_transact_of_ok hcommit, if_pos heffect]
      obtain ⟨row, hrow, -⟩ := hlinked.store.chunks chunk hchunk
      rw [hdoc] at hrow
      have hrow' : t.byId loaded.id = some (Documents.moveTo loaded .deleted savedAt row) := by
        rw [hrows, if_pos rfl, hrow]
        rfl
      refine hlive chunk (by rw [hstore]; exact hchunk) ?_
      rw [hstore, hdoc]
      exact ⟨_, hrow', Documents.moveTo_status (hsaves.1.ne) savedAt row⟩
  | advance w now newUuid outcome =>
      obtain ⟨heffect, text, job, rest, hbusy, hdeleted, hsplit, t, ht⟩ := hexposes
      have hcommit : Store.onChunks (IngestDocumentHandler.storeChunks config job newUuid text.value
          now) s.store = .ok { s.store with chunks := t } := Fallible.map_ok.mpr ⟨t, ht, rfl⟩
      have hstore : s'.store = { s.store with chunks := t } := by
        simp only [step, hbusy, Option.some.injEq] at hstep
        rw [← hstep]
        show (Worker.advance config job rest now newUuid outcome s.store _).2 = _
        rw [Phase.advance_handling_snd, HandlerPhase.call, Saga.bind_snd fun _ _ => rfl,
          await_transact_of_ok hcommit, if_pos heffect]
      obtain ⟨rows, hrows, hpieces, hcolumns⟩ := IngestDocumentHandler.storeChunks_ok ht
      obtain ⟨chunk, hchunk⟩ : ∃ chunk, chunk ∈ rows := by
        refine List.exists_mem_of_ne_nil rows ?_
        rintro rfl
        exact hsplit hpieces.symm
      refine hlive chunk ?_ ?_
      · rw [hstore]
        show chunk ∈ t.rows
        rw [hrows]
        exact List.mem_append_right _ hchunk
      · rw [hstore, (hcolumns chunk hchunk).2.1]
        exact hdeleted
  | request => exact hexposes.elim
  | dequeue => exact hexposes.elim
  | exit => exact hexposes.elim

/-- In a run, no query ever retrieves a chunk of a deleted document exactly when no step of the
    run deletes a document that has chunks or stores chunks of one that is deleted. -/
theorem run_retrievesLive_iff {labels : List Label}
    (hrun : run (step config) init labels = some s) :
    (∀ xs ys s₁, labels = xs ++ ys → run (step config) init xs = some s₁ →
      s₁.store.RetrievesLive) ↔
    Along (step config) (fun s label => ¬ s.Exposes config label) init labels := by
  constructor
  · intro h
    refine (along_iff hrun).mpr ?_
    rintro xs l ys s₁ rfl hxs hexposes
    obtain ⟨s₁', hxs', hys⟩ := run_append.mp hrun
    obtain rfl : s₁ = s₁' := Option.some.inj (hxs.symm.trans hxs')
    obtain ⟨s₂, hstep, -⟩ := run_cons.mp hys
    have hlive := h (xs ++ [l]) ys s₂ (by simp) (run_concat.mpr ⟨s₁, hxs, hstep⟩)
    exact step_exposes (reachable_linked ⟨xs, hxs⟩) hexposes hstep
      (Store.retrievesLive_iff.mp hlive)
  · rintro halong xs ys s₁ rfl hxs
    have hboth : Reachable (step config) init s₁ ∧ s₁.store.ChunksLive := by
      refine (along_append.mp halong).1.invariant hxs
        (I := fun s => Reachable (step config) init s ∧ s.store.ChunksLive) ⟨.refl, ?_⟩ ?_
      · intro chunk hchunk
        cases hchunk
      · rintro s l s' ⟨hs, hlive⟩ hnot hstep
        exact ⟨hs.tail hstep, step_chunksLive (reachable_linked hs) hlive hnot hstep⟩
    exact Store.retrievesLive_iff.mpr hboth.2

/-! ### A deleted document in the results -/

/-- Document 10 is indexed, and then deleted. -/
def deleteIndexed : List Label :=
  uploadHello ++ indexHello ++
    [.request 1 (.delete ⟨⟨1⟩, ⟨10⟩⟩) ⟨0⟩ 5, .proceed 1 ⟨0⟩ 5 .returns]

theorem deleteIndexed_rows : (run (step helloConfig) init deleteIndexed).map
    (fun s => (s.store.documents.rows.map (fun r => (r.id, r.status)),
      s.store.chunks.rows.map (fun r => (r.tenantId, r.documentId)))) =
    some ([(⟨10⟩, .deleted)], [(⟨1⟩, ⟨10⟩)]) := by
  decide +kernel

theorem run_retrievesLive_deleteIndexed : ∃ s,
    run (step helloConfig) init deleteIndexed = some s ∧
    ((∀ xs ys s₁, deleteIndexed = xs ++ ys → run (step helloConfig) init xs = some s₁ →
      s₁.store.RetrievesLive) ↔
    Along (step helloConfig) (fun s label => ¬ s.Exposes helloConfig label) init
      deleteIndexed) := by
  obtain ⟨s, hrun, -⟩ := Option.map_eq_some_iff.mp deleteIndexed_rows
  exact ⟨s, hrun, run_retrievesLive_iff hrun⟩

/-- A search of tenant 1 returns the chunk of the document it has deleted. -/
theorem deleteIndexed_retrieved : ∃ s results,
    run (step helloConfig) init deleteIndexed = some s ∧
    PgVectorHybridRetriever.retrieve Store.anyServer ⟨1⟩ Store.anyQuery
      (helloConfig.embedder.embedOne Store.anyQuery.text) 50 s.store.chunks = .ok results ∧
    ∃ result ∈ results, s.store.documents.Deleted result.documentId := by
  obtain ⟨s, hrun, hrows⟩ := Option.map_eq_some_iff.mp deleteIndexed_rows
  obtain ⟨hdocuments, hchunks⟩ := Prod.mk.injEq .. ▸ hrows
  obtain ⟨row, hrow, hcolumns⟩ := List.mem_map.mp (hdocuments ▸ List.mem_cons_self)
  obtain ⟨hid, hstatus⟩ := Prod.mk.injEq .. ▸ hcolumns
  obtain ⟨chunk, hchunk, hchunkColumns⟩ := List.mem_map.mp (hchunks ▸ List.mem_cons_self)
  obtain ⟨htenant, hdoc⟩ := Prod.mk.injEq .. ▸ hchunkColumns
  have hlength : s.store.chunks.rows.length = 1 := by
    have h := congrArg List.length hchunks
    rwa [List.length_map] at h
  obtain ⟨results, hresults, hall⟩ := PgVectorHybridRetriever.exists_retrieve Store.anyServer ⟨1⟩
    50 s.store.chunks (helloConfig.embedder.sized Store.anyQuery.text)
    (show '\x00' ∉ Store.anyQuery.text by decide)
  have hpool : (s.store.chunks.rows.filter (PgVectorHybridRetriever.inScope ⟨1⟩
      Store.anyQuery.collectionId)).length ≤ 50 := by
    have := List.length_filter_le (PgVectorHybridRetriever.inScope ⟨1⟩ Store.anyQuery.collectionId)
      s.store.chunks.rows
    omega
  have hscope : PgVectorHybridRetriever.inScope ⟨1⟩ Store.anyQuery.collectionId chunk = true := by
    simp [PgVectorHybridRetriever.inScope, Store.anyQuery, htenant]
  obtain ⟨result, hresult, -, hresultDoc⟩ := hall hpool chunk hchunk hscope
  refine ⟨s, results, hrun, hresults, result, hresult, row, ?_, hstatus⟩
  rw [hresultDoc, hdoc]
  exact Documents.byId_eq_some.mpr ⟨hrow, hid⟩

end System

end Eka
