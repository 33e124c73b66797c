import Eka.System.Spared

/-!
# Runs of the workers in which nothing faults

Only worker processes move, every awaited call returns, and the ids drawn for the chunks
are new. Such a run spares every job, so a PENDING job of an INDEXED document ends COMPLETED,
with the document INDEXED again and its chunks written.
-/

namespace Eka

open Py Relational Transition
open RecursiveCharacterChunker (split)

namespace System

/-- A step of a worker in which nothing faults. -/
def FaultFree (config : Config) (s : System) : Label → Prop
  | .dequeue .. => True
  | .advance w now newUuid outcome => outcome = .returns ∧
      ∀ text job rest, s.workers w = .busy (.handling (.fetched text)) job rest →
        HandleEnv.Fresh ⟨fun _ => outcome, fun _ => now, newUuid⟩ job.documentId
          (split config.chunking text.value).length s.store.chunks
  | _ => False

/-- Every worker waits in its loop, and there is no job that one will ever claim. -/
structure Drained (s : System) : Prop where
  waiting : ∀ w phase job rest, s.workers w ≠ .busy phase job rest
  nothingClaimable : ∀ now, ∀ row ∈ s.store.jobs.rows,
    SqlAlchemyJobQueue.claimable now row = false

end System

/-- The document is INDEXED and has the chunks of its content. -/
structure Store.Restored (config : Config) (documentId : UUID) (s : Store) : Prop where
  indexed : s.documents.HasStatus documentId .indexed
  chunked : s.Chunked config documentId

namespace System

variable {config : Config} {s s' : System} {label : Label} {labels : List Label}
  {documentId id : UUID} {text : Text}

theorem Drained.not_pending (h : s.Drained) {row : IngestionJobModel}
    (hrow : row ∈ s.store.jobs.rows) : row.status ≠ .pending := by
  intro hpending
  have hclaimable := h.nothingClaimable row.availableAt row hrow
  simp [SqlAlchemyJobQueue.claimable, hpending] at hclaimable

theorem FaultFree.contents (hfree : FaultFree config s label)
    (hstep : step config s label = some s') : s'.store.contents = s.store.contents := by
  cases step_cases hstep with
  | request => exact hfree.elim
  | proceed => exact hfree.elim
  | dequeue => rfl
  | advance w now newUuid outcome phase job rest worker store busy leads writes =>
      rcases writes with rfl | ⟨hwrites, -⟩
      · rfl
      · exact hwrites.contents
  | exit => exact hfree.elim

/-- It spares every job. -/
theorem FaultFree.spares (hfree : FaultFree config s label) :
    s.Spares config documentId id label where
  returns := by
    rintro w now newUuid outcome phase job rest rfl - -
    exact hfree.1
  fresh := by
    rintro w now newUuid outcome text job rest rfl hbusy -
    exact hfree.2 text job rest hbusy
  stays := by
    rintro w - rfl
    exact hfree
  reported := by
    rintro w now newUuid outcome exc job rest rfl - -
    exact hfree.1
  live := by
    rintro c callId now outcome loaded document rfl - -
    exact hfree.elim

theorem run_tracks (hfree : Along (step config) (FaultFree config) s labels)
    (hrun : run (step config) s labels = some s') (h : s.Tracks config documentId text id) :
    s'.Tracks config documentId text id := by
  refine hfree.invariant (I := fun s => s.Tracks config documentId text id) hrun h ?_
  intro s l s' htracks hl hstep
  exact htracks.next (.of_eq (hl.contents hstep)) hstep

/-- A run of the workers takes the job to its end. -/
theorem run_restored (htracks : s.Tracks config documentId text id)
    (hstorable : config.Storable text.value) (h : s.Underway config documentId text id)
    (hfree : Along (step config) (FaultFree config) s labels)
    (hrun : run (step config) s labels = some s') (hdrained : s'.Drained) :
    s'.store.Restored config documentId := by
  obtain ⟨htracks', hunderway⟩ :
      s'.Tracks config documentId text id ∧ s'.Underway config documentId text id := by
    refine hfree.invariant (I := fun s => s.Tracks config documentId text id ∧
      s.Underway config documentId text id) hrun ⟨htracks, h⟩ ?_
    rintro s l s' ⟨htracks, hunderway⟩ hl hstep
    exact ⟨htracks.next (.of_eq (hl.contents hstep)) hstep,
      hl.spares.underway htracks hstorable hunderway hstep⟩
  cases hunderway with
  | pending row isRow status =>
      exact absurd status (hdrained.not_pending (SqlAlchemyJobQueue.byId_eq_some.mp isRow).1)
  | waiting w phase job rest busy => exact absurd busy (hdrained.waiting w phase job rest)
  | working w phase job rest busy => exact absurd busy (hdrained.waiting w phase job rest)
  | closed row isRow completed closed indexed =>
      obtain ⟨content, hcontent, rfl⟩ := htracks'.stored
      have hdoc : row.documentId = documentId := htracks'.document (isRow ▸ closed.rest.found)
      exact ⟨indexed, content, hcontent, hdoc ▸ closed.pieces⟩

/-- A run of the workers leaves a job alone that nobody will take. -/
theorem run_closed {row : IngestionJobModel} {pieces : List TextPiece}
    (htracks : s.Tracks config row.documentId text row.id) (h : s.Closed row pieces)
    (hindexed : s.store.documents.HasStatus row.documentId .indexed)
    (hfree : Along (step config) (FaultFree config) s labels)
    (hrun : run (step config) s labels = some s') :
    s'.Closed row pieces ∧ s'.store.documents.HasStatus row.documentId .indexed := by
  obtain ⟨-, hclosed, hindexed'⟩ : s'.Tracks config row.documentId text row.id ∧
      s'.Closed row pieces ∧ s'.store.documents.HasStatus row.documentId .indexed := by
    refine hfree.invariant (I := fun s => s.Tracks config row.documentId text row.id ∧
      s.Closed row pieces ∧ s.store.documents.HasStatus row.documentId .indexed) hrun
      ⟨htracks, h, hindexed⟩ ?_
    rintro s l s' ⟨htracks, hclosed, hindexed⟩ hl hstep
    have hspares : s.Spares config row.documentId row.id l := hl.spares
    exact ⟨htracks.next (.of_eq (hl.contents hstep)) hstep, hclosed.next htracks.sound hstep,
      hspares.hasStatus htracks.sound hstep (hclosed.elsewhere htracks.sound) hindexed⟩
  exact ⟨hclosed, hindexed'⟩

/-! ## A content whose chunks do not fit -/

/-- The document has no chunks, and what is about to be split is its content. -/
structure Bare (config : Config) (documentId : UUID) (s : System) : Prop where
  chunks : s.store.chunks.ofDocument documentId = []
  holds : ∀ w phase job rest, s.workers w = .busy phase job rest →
    phase.Holds config s.store job

theorem FaultFree.bare (hfree : FaultFree config s label)
    (htracks : s.Tracks config documentId text id) (hstorable : ¬ config.Storable text.value)
    (h : s.Bare config documentId) (hstep : step config s label = some s') :
    s'.Bare config documentId := by
  refine ⟨?_, step_holds htracks.sound.owned htracks.sound.linked h.holds
    (.of_eq (hfree.contents hstep)) hstep⟩
  by_cases helsewhere : s.Elsewhere documentId label
  · rw [htracks.sound.ofDocument hstep helsewhere]
    exact h.chunks
  · cases step_cases hstep with
    | request => exact h.chunks
    | proceed => exact hfree.elim
    | dequeue => exact h.chunks
    | advance w now newUuid outcome phase job rest worker store busy leads writes =>
        rcases writes with rfl | ⟨hwrites, -⟩
        · exact h.chunks
        · cases hwrites.written with
          | chunked ht =>
              have hdoc : job.documentId = documentId := by
                by_contra hne
                refine helsewhere ?_
                intro v now' newUuid' outcome' phase' job' rest' hlabel hbusy
                cases hlabel
                rw [busy] at hbusy
                cases hbusy
                exact hne
              -- the chunk transaction would have had to store what the column refuses
              obtain ⟨stored, hstored, rfl⟩ := h.holds w _ job rest busy
              obtain ⟨content, hcontent, rfl⟩ := htracks.stored
              rw [hdoc, hcontent] at hstored
              cases hstored
              exact absurd (IngestDocumentHandler.storeChunks_storable ht) hstorable
          | saved => exact h.chunks
          | completed => exact h.chunks
          | failed => exact h.chunks
    | exit => exact h.chunks

/-- A run of the workers leaves it without chunks. -/
theorem run_bare (htracks : s.Tracks config documentId text id)
    (hstorable : ¬ config.Storable text.value) (h : s.Bare config documentId)
    (hfree : Along (step config) (FaultFree config) s labels)
    (hrun : run (step config) s labels = some s') :
    s'.Bare config documentId := by
  obtain ⟨-, hbare⟩ : s'.Tracks config documentId text id ∧ s'.Bare config documentId := by
    refine hfree.invariant (I := fun s => s.Tracks config documentId text id ∧
      s.Bare config documentId) hrun ⟨htracks, h⟩ ?_
    rintro s l s' ⟨htracks, hbare⟩ hl hstep
    exact ⟨htracks.next (.of_eq (hl.contents hstep)) hstep,
      hl.bare htracks hstorable hbare hstep⟩
  exact hbare

end System

end Eka
