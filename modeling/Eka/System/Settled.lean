import Eka.System.Status

/-!
# A completed job has an indexed document

A document has at most one job, and a job at most one holder, so nobody but the holder
of its job takes a document through the lifecycle. Hence what the holder left behind
when `handle` returned (`INDEXED`, unless the document was deleted) is still there when
the job is completed, and ever after.
-/

namespace Eka

open Py Relational Transition

/-- The document is there and is INDEXED or DELETED. -/
def Documents.Finished (t : Documents) (documentId : UUID) : Prop :=
  ∃ row, t.byId documentId = some row ∧ (row.status = .indexed ∨ row.status = .deleted)

structure System.Settled (s : System) : Prop where
  handled : ∀ w job rest, s.workers w = .busy .handled job rest →
    s.store.documents.Finished job.documentId
  completed : ∀ id row, s.store.jobs.byId id = some row → row.status = .completed →
    s.store.documents.Finished row.documentId

/-! ## One job a document, one holder a job -/

namespace Store.Linked

variable {config : Config} {s : Store}

/-- Two jobs of one document are one job, since no transaction bumps the version. -/
theorem job_unique (h : s.Linked config) {i j : UUID} {a b : IngestionJobModel}
    (ha : s.jobs.byId i = some a) (hb : s.jobs.byId j = some b)
    (hdoc : a.documentId = b.documentId) : a = b := by
  obtain ⟨hma, -⟩ := SqlAlchemyJobQueue.byId_eq_some.mp ha
  obtain ⟨hmb, -⟩ := SqlAlchemyJobQueue.byId_eq_some.mp hb
  obtain ⟨row, hrow, -, -, hva⟩ := h.jobs i a ha
  obtain ⟨row', hrow', -, -, hvb⟩ := h.jobs j b hb
  rw [hdoc, hrow'] at hrow
  cases hrow
  exact SqlAlchemyJobQueue.eq_of_documentVersion s.jobs hma hmb hdoc (hva.symm.trans hvb)

end Store.Linked

namespace System

variable {config : Config} {s s' : System} {label : Label}

/-- Two workers are never on one document. -/
theorem document_ne (howned : s.queue.Owned) (hlinked : s.store.Linked config) {v w : Nat}
    (hvw : v ≠ w) {phase phase' : Phase} {job job' : IngestionJob}
    {rest rest' : List IngestionJob} (hv : s.workers v = .busy phase job rest)
    (hw : s.workers w = .busy phase' job' rest') : job.documentId ≠ job'.documentId := by
  intro hdoc
  obtain ⟨row, hrow, hfits⟩ := held_row howned hv
  obtain ⟨row', hrow', hfits'⟩ := held_row howned hw
  have hsame : row = row' := hlinked.job_unique hrow hrow'
    (hfits.subject.1.trans (hdoc.trans hfits'.subject.1.symm))
  have hid : job.id = job'.id := by
    rw [← (SqlAlchemyJobQueue.byId_eq_some.mp hrow).2, hsame,
      (SqlAlchemyJobQueue.byId_eq_some.mp hrow').2]
  have hmem : job.id ∈ (s.queue.workers v).ids := by
    show _ ∈ (s.workers v).view.ids
    rw [hv]
    simp [Worker.view]
  have hmem' : job.id ∈ (s.queue.workers w).ids := by
    show _ ∈ (s.workers w).view.ids
    rw [hw, hid]
    simp [Worker.view]
  exact howned.disjoint v w hvw hmem hmem'

end System

/-- A save to INDEXED finishes the document. -/
theorem Documents.Saves.finished {t t' : Documents} {loaded : DocumentModel} {document : Document}
    (h : Documents.Saves loaded document .indexed)
    (hsave : Documents.saveCommit loaded document t = .ok t') {row : DocumentModel}
    (hrow : t.byId loaded.id = some row) : t'.Finished loaded.id := by
  obtain ⟨row', hrow', -⟩ := h.grows hsave loaded.id row hrow
  obtain ⟨row₁, -, hstatus'⟩ := h.status hsave hrow'
  exact ⟨row', hrow', .inl (by rw [hstatus', if_pos rfl])⟩

/-! ## Every step keeps it -/

namespace System

variable {config : Config} {s s' : System} {label : Label}

/-- Only a worker in `handle` or `mark_failed` takes a finished document elsewhere. -/
theorem step_finished (howned : s.queue.Owned) (hlinked : s.Linked config)
    (hstep : step config s label = some s') {documentId : UUID}
    (hfinished : s.store.documents.Finished documentId)
    (hforeign : ∀ w phase job rest, s.workers w = .busy phase job rest →
      job.documentId = documentId → phase.stage = .handled ∨ phase.stage = .raised) :
    s'.store.documents.Finished documentId := by
  obtain ⟨row, hrow, hstatus⟩ := hfinished
  obtain ⟨row', hrow', -⟩ := (step_linked howned hlinked hstep).2 documentId row hrow
  refine ⟨row', hrow', ?_⟩
  cases step_moves hlinked hstep hrow' with
  | stays old hold status =>
      obtain rfl : row = old := Option.some.inj (hrow.symm.trans hold)
      rw [status]
      exact hstatus
  | added hnew => rw [hnew] at hrow; cases hrow
  | deleted c id now outcome loaded document row isLabel effect call isRow hold status =>
      exact .inr status
  | moved w now newUuid outcome phase job rest target old isLabel effect busy writes isRow =>
      rcases hforeign w phase job rest busy isRow with hstage | hstage
      · cases phase <;> cases hstage
        cases writes
      · cases phase <;> cases hstage
        cases writes

/-- The holder of a COMPLETED job is in its `except` block. -/
theorem stage_of_completed (howned : s.queue.Owned) (hlinked : s.store.Linked config) {id : UUID}
    {row : IngestionJobModel} (hrow : s.store.jobs.byId id = some row)
    (hcompleted : row.status = .completed) {w : Nat} {phase : Phase} {job : IngestionJob}
    {rest : List IngestionJob} (hbusy : s.workers w = .busy phase job rest)
    (hdoc : job.documentId = row.documentId) : phase.stage = .raised := by
  obtain ⟨row', hrow', hfits⟩ := held_row howned hbusy
  obtain rfl : row = row' := hlinked.job_unique hrow hrow' (hdoc.symm.trans hfits.subject.1.symm)
  cases hstage : phase.stage with
  | raised => rfl
  | handling => rw [hstage] at hfits; cases hcompleted.symm.trans hfits.2
  | handled => rw [hstage] at hfits; cases hcompleted.symm.trans hfits.2
  | deadLettered => rw [hstage] at hfits; cases hcompleted.symm.trans hfits.2

/-- No call of the API completes a job. -/
theorem Call.Writes.completed {call : Call} {s s' : Store} (h : call.Writes config s s') {id : UUID}
    {row : IngestionJobModel} (hrow : s'.jobs.byId id = some row)
    (hcompleted : row.status = .completed) : s.jobs.byId id = some row := by
  cases h.written with
  | registered => exact hrow
  | deleted => exact hrow
  | uploaded => exact hrow
  | @enqueued _ _ _ _ _ t henqueue =>
      rcases SqlAlchemyJobQueue.enqueue_ok henqueue with ⟨rfl, -⟩ | ⟨-, hins⟩
      · exact hrow
      · -- a new job is PENDING
        have hrow' : t.byId id = some row := hrow
        rw [SqlAlchemyJobQueue.byId_insert hins] at hrow'
        split at hrow'
        · cases hrow'
          cases hcompleted
        · exact hrow'

/-- A worker completes the job whose `handle` has returned, and no other one. -/
theorem Phase.Writes.completed {phase : Phase} {job : IngestionJob} {now : Instant}
    {newUuid : Nat → UUID} {s s' : Store} (h : phase.Writes config job now newUuid s s')
    {id : UUID} {row : IngestionJobModel} (hrow : s'.jobs.byId id = some row)
    (hcompleted : row.status = .completed) :
    s.jobs.byId id = some row ∨
      phase = .handled ∧ ∃ old, s.jobs.byId job.id = some old ∧ row.documentId = old.documentId := by
  cases h.written with
  | saved => exact .inl hrow
  | chunked => exact .inl hrow
  | completed =>
      have hrow' : Jobs.byId (SqlAlchemyJobQueue.complete job now s.jobs) id = some row := hrow
      rw [SqlAlchemyJobQueue.complete_byId] at hrow'
      split at hrow'
      · next hid =>
          obtain ⟨old, hold, rfl⟩ := Option.map_eq_some_iff.mp hrow'
          exact .inr ⟨rfl, old, hid ▸ hold, rfl⟩
      · exact .inl hrow'
  | failed exc =>
      have hrow' : Jobs.byId (SqlAlchemyJobQueue.fail job (config.repr exc) now s.jobs).2 id =
        some row := hrow
      rw [SqlAlchemyJobQueue.fail_byId] at hrow'
      split at hrow'
      · obtain ⟨old, -, rfl⟩ := Option.map_eq_some_iff.mp hrow'
        rw [SqlAlchemyJobQueue.failed_status] at hcompleted
        split at hcompleted <;> cases hcompleted
      · exact .inl hrow'

/-- After a step, a COMPLETED job was COMPLETED before, or its holder has just completed it. -/
theorem step_completed (hstep : step config s label = some s') {id : UUID}
    {row : IngestionJobModel} (hrow : s'.store.jobs.byId id = some row)
    (hcompleted : row.status = .completed) :
    s.store.jobs.byId id = some row ∨ ∃ w job rest old, s.workers w = .busy .handled job rest ∧
      s.store.jobs.byId job.id = some old ∧ row.documentId = old.documentId := by
  cases step_cases hstep with
  | request => exact .inl hrow
  | proceed c callId clock outcome call store leads writes =>
      rcases writes with rfl | ⟨hwrites, -⟩
      · exact .inl hrow
      · exact .inl (Call.Writes.completed hwrites hrow hcompleted)
  | dequeue w workerId batchSize picked now jobs t idle claimed =>
      obtain ⟨-, -, -, hrows⟩ := SqlAlchemyJobQueue.dequeue_eq_some claimed
      have hrow' : t.byId id = some row := hrow
      rw [hrows] at hrow'
      split at hrow'
      · obtain ⟨old, -, rfl⟩ := Option.map_eq_some_iff.mp hrow'
        cases hcompleted
      · exact .inl hrow'
  | advance w now newUuid outcome phase job rest worker store busy leads writes =>
      rcases writes with rfl | ⟨hwrites, -⟩
      · exact .inl hrow
      · rcases Phase.Writes.completed hwrites hrow hcompleted with hsame | ⟨rfl, old, hold, hdoc⟩
        · exact .inl hsame
        · exact .inr ⟨w, job, rest, old, busy, hold, hdoc⟩
  | exit => exact .inl hrow

/-- After a step, a worker before `complete` was there, or has just committed `INDEXED`. -/
theorem step_handled (howned : s.queue.Owned) (hlinked : s.Linked config)
    (hstep : step config s label = some s') {w : Nat} {job : IngestionJob}
    {rest : List IngestionJob} (hbusy : s'.workers w = .busy .handled job rest) :
    s.workers w = .busy .handled job rest ∨ s'.store.documents.Finished job.documentId := by
  rcases busy_cases hstep hbusy with hbusy | h | ⟨now, newUuid, phase, job, rest, hbefore, hgoes⟩
  · exact .inl hbusy
  · cases h
  · right
    have hphase := hlinked.workers w phase job rest hbefore
    cases hgoes with
    | @handled phase hleads =>
        cases phase with
        | start => obtain ⟨-, _, _, h, -⟩ := hleads; cases h
        | ingesting => cases hleads.1
        | marked => obtain ⟨-, _, h, -⟩ := hleads; cases h
        | fetched => cases hleads.1
        | stored => obtain ⟨-, _, _, h, -⟩ := hleads; cases h
        | indexing loaded document =>
            obtain ⟨t, ht, hstore⟩ := Fallible.map_ok.mp hleads.2
            obtain ⟨row, hrow, -⟩ := held_described howned hlinked.store hbefore
            rw [← hstore]
            rw [← hphase.1] at hrow ⊢
            exact hphase.2.finished ht hrow

theorem step_settled (howned : s.queue.Owned) (hlinked : s.Linked config) (h : s.Settled)
    (hstep : step config s label = some s') : s'.Settled := by
  have hhandled : ∀ w job rest, s.workers w = .busy .handled job rest →
      s'.store.documents.Finished job.documentId := by
    intro w job rest hbusy
    refine step_finished howned hlinked hstep (h.handled w job rest hbusy) ?_
    intro v phase job' rest' hv hdoc
    by_cases hvw : v = w
    · subst hvw
      rw [hbusy] at hv
      cases hv
      exact .inl rfl
    · exact absurd hdoc (document_ne howned hlinked.store hvw hv hbusy)
  constructor
  · intro w job rest hbusy
    rcases step_handled howned hlinked hstep hbusy with hold | hnew
    · exact hhandled w job rest hold
    · exact hnew
  · intro id row hrow hcompleted
    rcases step_completed hstep hrow hcompleted with hold | ⟨w, job, rest, old, hbusy, hold, hdoc⟩
    · refine step_finished howned hlinked hstep (h.completed id row hold hcompleted) ?_
      intro v phase job rest hv hdoc
      exact .inr (stage_of_completed howned hlinked.store hold hcompleted hv hdoc)
    · obtain ⟨row', hrow', hfits⟩ := held_row howned hbusy
      obtain rfl : old = row' := Option.some.inj (hold.symm.trans hrow')
      rw [hdoc, hfits.subject.1]
      exact hhandled w job rest hbusy

theorem reachable_settled (h : Reachable (step config) init s) : s.Settled := by
  refine h.invariant' ?_ fun _ _ _ hs hsettled hstep =>
    step_settled (reachable_owned hs) (reachable_linked hs) hsettled hstep
  constructor
  · intro w job rest hbusy
    cases hbusy
  · simp [init, Store.empty]

end System

end Eka
