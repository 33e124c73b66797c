import Eka.System.Linked

/-!
# How statuses change

Five kinds of transactions write the status of a document: the registration, the
delete, and the three of the lifecycle service. `Moves` says which of them a step was;
every invariant about statuses is a case analysis on it.
-/

namespace Eka

open Py Relational Transition

/-- How a document came by the status it has after a step. -/
inductive System.Moves (s : System) (label : Label) (documentId : UUID) (row' : DocumentModel) :
    Prop
  | stays (row : DocumentModel) (old : s.store.documents.byId documentId = some row)
      (status : row'.status = row.status)
  | added (new : s.store.documents.byId documentId = none) (status : row'.status = .registered)
  | deleted (c : Nat) (id : UUID) (now : Instant) (outcome : Outcome) (loaded : DocumentModel)
      (document : Document) (row : DocumentModel) (isLabel : label = .proceed c id now outcome)
      (effect : outcome.takesEffect = true) (call : s.calls c = .deleting loaded document)
      (isRow : loaded.id = documentId) (old : s.store.documents.byId documentId = some row)
      (status : row'.status = .deleted)
  | moved (w : Nat) (now : Instant) (newUuid : Nat → UUID) (outcome : Outcome) (phase : Phase)
      (job : IngestionJob) (rest : List IngestionJob) (target : DocumentStatus)
      (row : DocumentModel) (isLabel : label = .advance w now newUuid outcome)
      (effect : outcome.takesEffect = true) (busy : s.workers w = .busy phase job rest)
      (writes : phase.target = some target) (isRow : job.documentId = documentId)
      (old : s.store.documents.byId documentId = some row) (status : row'.status = target)

namespace Documents

variable {t t' : Documents} {loaded : DocumentModel} {document : Document}
  {target : DocumentStatus}

/-- The status of a document after a save: the target, for the saved one. -/
theorem Saves.status (h : Saves loaded document target)
    (hsave : Documents.saveCommit loaded document t = .ok t') {id : UUID} {row' : DocumentModel}
    (hrow' : t'.byId id = some row') :
    ∃ row, t.byId id = some row ∧
      row'.status = if id = loaded.id then target else row.status := by
  obtain ⟨now, t₁, ht₁, hrows⟩ := h.saveCommit t
  obtain rfl : t₁ = t' := Except.ok.inj (ht₁.symm.trans hsave)
  rw [hrows id] at hrow'
  by_cases hid : id = loaded.id
  · rw [if_pos hid] at hrow'
    obtain ⟨row, hrow, rfl⟩ := Option.map_eq_some_iff.mp hrow'
    exact ⟨row, hrow, by rw [if_pos hid, moveTo_status h.ne]⟩
  · rw [if_neg hid] at hrow'
    exact ⟨row', hrow', by rw [if_neg hid]⟩

end Documents

/-- A phase with a target saves a document. -/
theorem Phase.exists_saving {phase : Phase} {target : DocumentStatus}
    (htarget : phase.target = some target) :
    ∃ loaded document, phase.saving = some (loaded, document) := by
  cases phase with
  | handling phase =>
      cases phase with
      | ingesting loaded document => exact ⟨loaded, document, rfl⟩
      | indexing loaded document => exact ⟨loaded, document, rfl⟩
      | start => cases htarget
      | marked => cases htarget
      | fetched => cases htarget
      | stored => cases htarget
  | failing loaded document => exact ⟨loaded, document, rfl⟩
  | handled => cases htarget
  | raised => cases htarget
  | deadLettered => cases htarget

/-- The call of a phase that saves is the commit. -/
theorem Phase.advance_saving {phase : Phase} {loaded : DocumentModel} {document : Document}
    (hsaving : phase.saving = some (loaded, document)) (config : Config) (job : IngestionJob)
    (rest : List IngestionJob) (now : Instant) (newUuid : Nat → UUID) (outcome : Outcome)
    (s : Store) :
    (Worker.advance config job rest now newUuid outcome s phase).2 =
      (await outcome (saveDocument loaded document) s).2 := by
  cases phase with
  | handling phase =>
      rw [advance_handling_snd]
      cases phase with
      | ingesting => cases hsaving; rw [HandlerPhase.call, Saga.bind_snd fun _ _ => rfl]
      | indexing => cases hsaving; rw [HandlerPhase.call, Saga.bind_snd fun _ _ => rfl]
      | start => cases hsaving
      | marked => cases hsaving
      | fetched => cases hsaving
      | stored => cases hsaving
  | failing => cases hsaving; rfl
  | handled => cases hsaving
  | raised => cases hsaving
  | deadLettered => cases hsaving

/-- Only the API writes contents, and only the workers write chunks. -/
theorem Phase.Writes.contents {config : Config} {phase : Phase} {job : IngestionJob}
    {now : Instant} {newUuid : Nat → UUID} {s s' : Store}
    (h : phase.Writes config job now newUuid s s') : s'.contents = s.contents := by
  cases h.written <;> rfl

theorem Call.Writes.chunks {config : Config} {call : Call} {s s' : Store}
    (h : call.Writes config s s') : s'.chunks = s.chunks := by
  cases h.written <;> rfl

namespace System

variable {config : Config} {s s' : System} {label : Label}

theorem step_moves (hlinked : s.Linked config) (hstep : step config s label = some s')
    {documentId : UUID} {row' : DocumentModel}
    (hrow' : s'.store.documents.byId documentId = some row') :
    s.Moves label documentId row' := by
  have same : s'.store.documents = s.store.documents → s.Moves label documentId row' := by
    intro h
    exact .stays row' (h ▸ hrow') rfl
  cases step_cases hstep with
  | request => exact same rfl
  | proceed c id now outcome call store leads writes =>
      rcases writes with rfl | ⟨hwrites, heffect⟩
      · exact same rfl
      · have hcall := hlinked.calls c
        generalize hc : s.calls c = call at hwrites hcall
        cases hwrites.written with
        | @registered document t hadd =>
            obtain ⟨uri, -, hins⟩ := Documents.addCommit_ok hadd
            have hrow : t.byId documentId = some row' := hrow'
            rw [Documents.byId_insert hins] at hrow
            split at hrow
            · next hid =>
                cases hrow
                refine .added ?_ hcall
                rw [← hid]
                exact Documents.byId_of_insert hins
            · exact .stays row' hrow rfl
        | @deleted loaded document t hsave =>
            obtain ⟨row, hrow, hstatus⟩ := hcall.1.status hsave hrow'
            by_cases hid : documentId = loaded.id
            · rw [if_pos hid] at hstatus
              exact .deleted c id now outcome loaded document row rfl heffect hc hid.symm hrow
                hstatus
            · rw [if_neg hid] at hstatus
              exact .stays row hrow hstatus
        | uploaded => exact same rfl
        | enqueued => exact same rfl
  | dequeue => exact same rfl
  | advance w now newUuid outcome phase job rest worker store busy leads writes =>
      rcases writes with rfl | ⟨hwrites, heffect⟩
      · exact same rfl
      · cases hwrites.written with
        | @saved _ loaded document t hsaving hsave =>
            obtain ⟨hid, target, htarget, hsaves⟩ :=
              (hlinked.workers w phase job rest busy).saves hsaving
            obtain ⟨row, hrow, hstatus⟩ := hsaves.status hsave hrow'
            by_cases hdoc : documentId = loaded.id
            · rw [if_pos hdoc] at hstatus
              exact .moved w now newUuid outcome phase job rest target row rfl heffect busy htarget
                (hid.symm.trans hdoc.symm) hrow hstatus
            · rw [if_neg hdoc] at hstatus
              exact .stays row hrow hstatus
        | chunked => exact same rfl
        | completed => exact same rfl
        | failed => exact same rfl
  | exit => exact same rfl

end System

end Eka
