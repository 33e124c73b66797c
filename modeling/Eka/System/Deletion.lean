import Eka.Documents.Queries
import Eka.System.Indexed

/-!
# Whether a deletion is final

In the aggregate `DELETED` is absorbing. In the database it is not: a lifecycle
transaction reads the row, moves the aggregate in memory and writes the `status` column
back by primary key, so a delete that commits in between is overwritten. That is the
only way back: deletions are final in the runs without such a commit, and in no others.
-/

namespace Eka

open Py Relational Transition

namespace Documents

/-- The row of the document says DELETED. -/
def Deleted (t : Documents) (documentId : UUID) : Prop :=
  ∃ row, t.byId documentId = some row ∧ row.status = .deleted

/-- The document is deleted, and no query returns it. -/
structure Gone (t : Documents) (documentId : UUID) : Prop where
  status : t.Deleted documentId
  get : ∀ tenantId, t.get tenantId documentId = none
  list : ∀ collate ties tenantId request collectionId,
    ∀ document ∈ (t.list collate ties tenantId request collectionId).items,
      document.id ≠ documentId
  findByContentHash : ∀ tenantId contentHash document,
    t.findByContentHash tenantId contentHash = some document → document.id ≠ documentId

variable {t : Documents} {documentId : UUID}

/-- The queries skip the rows that say DELETED. -/
theorem Deleted.gone (h : t.Deleted documentId) : t.Gone documentId := by
  obtain ⟨row, hrow, hdeleted⟩ := h
  have hlive : ∀ row' ∈ t.rows, row'.status ≠ .deleted → row'.id ≠ documentId := by
    intro row' hmem hstatus hid
    have hrow' : t.byId documentId = some row' := byId_eq_some.mpr ⟨hmem, hid⟩
    obtain rfl : row = row' := Option.some.inj (hrow.symm.trans hrow')
    exact hstatus hdeleted
  refine ⟨⟨row, hrow, hdeleted⟩, ?_, ?_, ?_⟩
  · intro tenantId
    refine Option.map_eq_none_iff.mpr (select_eq_none.mpr ?_)
    intro row' hmem hid _
    by_contra hstatus
    exact hlive row' hmem hstatus hid
  · intro collate ties tenantId request collectionId document hmem
    obtain ⟨row', hmem', rfl, -, hstatus⟩ := mem_list hmem
    exact hlive row' hmem' hstatus
  · intro tenantId contentHash document hfind
    obtain ⟨row', hmem', -, -, hstatus, rfl⟩ := findByContentHash_eq_some.mp hfind
    exact hlive row' hmem' hstatus

end Documents

namespace System

variable {config : Config} {s s' : System} {label : Label}

/-- A commit of the lifecycle service takes effect on a document that has been deleted since the
    transaction read it. -/
def Revives (s : System) : Label → Prop
  | .advance w _ _ outcome => outcome.takesEffect = true ∧ ∃ phase job rest,
      s.workers w = .busy phase job rest ∧ phase.target.isSome ∧
        s.store.documents.Deleted job.documentId
  | _ => False

theorem target_ne_deleted {phase : Phase} {target : DocumentStatus}
    (h : phase.target = some target) : target ≠ .deleted := by
  rintro rfl
  cases phase with
  | handling phase => cases phase <;> cases h
  | handled => cases h
  | raised => cases h
  | deadLettered => cases h
  | failing => cases h

/-- Any other step leaves the deleted documents deleted. -/
theorem step_deleted (howned : s.queue.Owned) (hlinked : s.Linked config)
    (hstep : step config s label = some s') (hnot : ¬ s.Revives label) {documentId : UUID}
    (h : s.store.documents.Deleted documentId) : s'.store.documents.Deleted documentId := by
  obtain ⟨row, hrow, hdeleted⟩ := h
  obtain ⟨row', hrow', -⟩ := (step_linked howned hlinked hstep).2 documentId row hrow
  refine ⟨row', hrow', ?_⟩
  cases step_moves hlinked hstep hrow' with
  | stays old hold status =>
      obtain rfl : row = old := Option.some.inj (hrow.symm.trans hold)
      exact status.trans hdeleted
  | added hnew => rw [hnew] at hrow; cases hrow
  | deleted c id now outcome loaded document row isLabel effect call isRow hold status =>
      exact status
  | moved w now newUuid outcome phase job rest target old isLabel effect busy writes isRow =>
      refine absurd ?_ hnot
      rw [isLabel]
      refine ⟨effect, phase, job, rest, busy, by rw [writes]; rfl, ?_⟩
      rw [isRow]
      exact ⟨row, hrow, hdeleted⟩

/-- Such a commit brings the document back. -/
theorem step_revives (hlinked : s.Linked config) (hrevives : s.Revives label)
    (hstep : step config s label = some s') :
    ∃ documentId, s.store.documents.Deleted documentId ∧
      ¬ s'.store.documents.Deleted documentId := by
  cases label with
  | advance w now newUuid outcome =>
      obtain ⟨heffect, phase, job, rest, hbusy, hphase, row, hrow, hdeleted⟩ := hrevives
      obtain ⟨target, htarget⟩ := Option.isSome_iff_exists.mp hphase
      obtain ⟨loaded, document, hsaving⟩ := Phase.exists_saving htarget
      obtain ⟨hid, target', htarget', hsaves⟩ :=
        (hlinked.workers w phase job rest hbusy).saves hsaving
      obtain rfl : target = target' := Option.some.inj (htarget.symm.trans htarget')
      refine ⟨job.documentId, ⟨row, hrow, hdeleted⟩, ?_⟩
      rintro ⟨row', hrow', hdeleted'⟩
      obtain ⟨savedAt, t, ht, -⟩ := hsaves.saveCommit s.store.documents
      -- the `UPDATE` finds the row by its key, whatever its status is now
      have hcommit : Store.onDocuments (Documents.saveCommit loaded document) s.store =
          .ok { s.store with documents := t } := Fallible.map_ok.mpr ⟨t, ht, rfl⟩
      have hstore : s'.store = { s.store with documents := t } := by
        simp only [step, hbusy, Option.some.injEq] at hstep
        rw [← hstep]
        show (Worker.advance config job rest now newUuid outcome s.store phase).2 = _
        rw [Phase.advance_saving hsaving, saveDocument, await_transact_of_ok hcommit,
          if_pos heffect]
      rw [hstore, ← hid] at hrow'
      obtain ⟨_, -, hstatus⟩ := hsaves.status ht hrow'
      rw [if_pos rfl, hdeleted'] at hstatus
      exact target_ne_deleted htarget hstatus.symm
  | request => exact hrevives.elim
  | proceed => exact hrevives.elim
  | dequeue => exact hrevives.elim
  | exit => exact hrevives.elim

/-- In a run, every document that has been deleted stays deleted, and out of the answers of
    every query, exactly when no lifecycle commit of the run takes effect on a document that
    was deleted after it had been read. -/
theorem run_deletionsFinal_iff {labels : List Label}
    (hrun : run (step config) init labels = some s) :
    (∀ xs ys zs s₁ s₂ documentId, labels = xs ++ ys ++ zs →
      run (step config) init xs = some s₁ → run (step config) s₁ ys = some s₂ →
      s₁.store.documents.Deleted documentId → s₂.store.documents.Gone documentId) ↔
    Along (step config) (fun s label => ¬ s.Revives label) init labels := by
  constructor
  · intro h
    refine (along_iff hrun).mpr ?_
    rintro xs l ys s₁ rfl hxs hrevives
    obtain ⟨s₁', hxs', hys⟩ := run_append.mp hrun
    obtain rfl : s₁ = s₁' := Option.some.inj (hxs.symm.trans hxs')
    obtain ⟨s₂, hstep, -⟩ := run_cons.mp hys
    obtain ⟨documentId, hbefore, hafter⟩ := step_revives (reachable_linked ⟨xs, hxs⟩) hrevives hstep
    have hgone := h xs [l] ys s₁ s₂ documentId (by simp) hxs
      (run_cons.mpr ⟨s₂, hstep, run_nil s₂⟩) hbefore
    exact hafter hgone.status
  · rintro halong xs ys zs s₁ s₂ documentId rfl hxs hys hdeleted
    rw [List.append_assoc] at halong
    have hys' := (along_append.mp ((along_append.mp halong).2 s₁ hxs)).1
    have hboth : Reachable (step config) init s₂ ∧ s₂.store.documents.Deleted documentId := by
      refine hys'.invariant hys (I := fun s => Reachable (step config) init s ∧
        s.store.documents.Deleted documentId) ⟨⟨xs, hxs⟩, hdeleted⟩ ?_
      rintro s l s' ⟨hs, hd⟩ hnot hstep
      exact ⟨hs.tail hstep, step_deleted (reachable_owned hs) (reachable_linked hs) hstep hnot hd⟩
    exact hboth.2.gone

/-! ### A run that brings a document back -/

/-- Worker 0 reads document 10 to mark it INGESTING, and then a delete commits. -/
def deleteHello : List Label :=
  uploadHello ++ [.dequeue 0 "w".toList 5 [⟨20⟩] 3,
    .advance 0 4 (fun _ => ⟨30⟩) .returns,
    .request 1 (.delete ⟨⟨1⟩, ⟨10⟩⟩) ⟨0⟩ 5,
    .proceed 1 ⟨0⟩ 5 .returns]

/-- The commit of `mark_ingesting`. -/
def commitHello : Label := .advance 0 6 (fun _ => ⟨30⟩) .returns

theorem deleteHello_rows : (run (step helloConfig) init deleteHello).map
    (fun s => s.store.documents.rows.map (fun r => (r.id, r.status))) =
      some [(⟨10⟩, .deleted)] := by
  decide +kernel

theorem commitHello_rows : (run (step helloConfig) init (deleteHello ++ [commitHello])).map
    (fun s => (s.store.documents.rows.map (fun r => (r.id, r.status)),
      (s.store.documents.get ⟨1⟩ ⟨10⟩).isSome)) = some ([(⟨10⟩, .ingesting)], true) := by
  decide +kernel

theorem run_deletionsFinal_deleteHello : ∃ s, run (step helloConfig) init deleteHello = some s ∧
    ((∀ xs ys zs s₁ s₂ documentId, deleteHello = xs ++ ys ++ zs →
      run (step helloConfig) init xs = some s₁ → run (step helloConfig) s₁ ys = some s₂ →
      s₁.store.documents.Deleted documentId → s₂.store.documents.Gone documentId) ↔
    Along (step helloConfig) (fun s label => ¬ s.Revives label) init deleteHello) := by
  obtain ⟨s, hrun, -⟩ := Option.map_eq_some_iff.mp deleteHello_rows
  exact ⟨s, hrun, run_deletionsFinal_iff hrun⟩

/-- The delete has committed, the worker commits what it had read before, and the document is
    INGESTING and found by `get` again. -/
theorem commitHello_revives : ∃ s₁ s₂, run (step helloConfig) init deleteHello = some s₁ ∧
    run (step helloConfig) s₁ [commitHello] = some s₂ ∧ s₁.store.documents.Deleted ⟨10⟩ ∧
    ¬ s₂.store.documents.Deleted ⟨10⟩ ∧ s₂.store.documents.get ⟨1⟩ ⟨10⟩ ≠ none := by
  obtain ⟨s₁, hrun₁, hrows₁⟩ := Option.map_eq_some_iff.mp deleteHello_rows
  obtain ⟨s₂, hrun₂, hrows₂⟩ := Option.map_eq_some_iff.mp commitHello_rows
  obtain ⟨hrows₂, hget⟩ := Prod.mk.injEq .. ▸ hrows₂
  obtain ⟨s₁', hrun₁', hstep⟩ := run_append.mp hrun₂
  obtain rfl : s₁ = s₁' := Option.some.inj (hrun₁.symm.trans hrun₁')
  obtain ⟨row, hrow, hcolumns⟩ := List.mem_map.mp (hrows₁ ▸ List.mem_cons_self)
  obtain ⟨hid, hstatus⟩ := Prod.mk.injEq .. ▸ hcolumns
  refine ⟨s₁, s₂, hrun₁, hstep, ⟨row, Documents.byId_eq_some.mpr ⟨hrow, hid⟩, hstatus⟩, ?_, ?_⟩
  · rintro ⟨row', hrow', hdeleted⟩
    have hmem : (row'.id, row'.status) ∈ s₂.store.documents.rows.map (fun r => (r.id, r.status)) :=
      List.mem_map_of_mem (Documents.byId_eq_some.mp hrow').1
    rw [hrows₂, hdeleted] at hmem
    simp at hmem
  · intro hnone
    rw [hnone] at hget
    cases hget

end System

end Eka
