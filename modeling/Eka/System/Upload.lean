import Eka.System.Indexed
import Eka.System.Sequential

/-!
# What an accepted upload leaves behind

The upload endpoint answers `queued` when `UploadDocumentContentHandler.handle` returns.
`enqueue` adds a job unless the version has one, so what a returned upload leaves behind
is decided by the job that is already there: any but a `DEAD_LETTER` one is on its way or
has done its work, and a `DEAD_LETTER` one stays where it is.
-/

namespace Eka

open Py Relational Transition

namespace Store

/-- The current version of the document has a job that a worker will take or has taken, or
    whose work is done. -/
def Queued (s : Store) (documentId : UUID) : Prop :=
  ∃ row, s.documents.byId documentId = some row ∧ ∃ job ∈ s.jobs.rows,
    job.documentId = documentId ∧ job.documentVersion = row.version ∧
      (job.status = .pending ∨ job.status = .processing ∨
        job.status = .completed ∧ row.status = .indexed)

/-- The job of the current version of the document is a dead letter. -/
def GivenUp (s : Store) (documentId : UUID) : Prop :=
  ∃ row, s.documents.byId documentId = some row ∧ ∃ job ∈ s.jobs.rows,
    job.documentId = documentId ∧ job.documentVersion = row.version ∧ job.status = .deadLetter

theorem Queued.not_givenUp {s : Store} {documentId : UUID} (h : s.Queued documentId) :
    ¬ s.GivenUp documentId := by
  rintro ⟨row, hrow, job, hjob, hdoc, hversion, hdead⟩
  obtain ⟨row', hrow', job', hjob', hdoc', hversion', hstatus⟩ := h
  obtain rfl : row = row' := Option.some.inj (hrow.symm.trans hrow')
  have hsame : job = job' := SqlAlchemyJobQueue.eq_of_documentVersion s.jobs hjob hjob'
    (hdoc.trans hdoc'.symm) (hversion.trans hversion'.symm)
  rw [← hsame, hdead] at hstatus
  rcases hstatus with h | h | ⟨h, -⟩
  · cases h
  · cases h
  · cases h

end Store

namespace UploadDocumentContentHandler

variable {config : Config} {tenantId documentId id : UUID} {content : Str} {now : Instant}
  {s s' : Store} {u : PUnit}

/-- The spec of an upload that returned: the document is the tenant's, live and registered with
    this content, its row is untouched, and `enqueue` has run on its version. -/
theorem handle_ok (h : handle config tenantId documentId content id now s = (.ok u, s')) :
    ∃ row, s.documents.byId documentId = some row ∧ row.tenantId = tenantId ∧
      row.status ≠ .deleted ∧ config.sha256 content = row.contentHash.value ∧
      s'.documents = s.documents ∧ SqlAlchemyJobQueue.enqueue id tenantId documentId
        row.collectionId row.version config.maxAttempts now s.jobs = .ok s'.jobs := by
  obtain ⟨document, s₁, hcheck, h⟩ := Saga.bind_ok.mp h
  obtain ⟨_, s₂, hput, henqueue⟩ := Saga.bind_ok.mp h
  obtain ⟨hcheck, rfl⟩ := Saga.query_ok hcheck
  obtain ⟨row, hrow, htenant, hlive, hhash, rfl⟩ := check_ok hcheck
  have hput := Saga.transact_ok hput
  have henqueue := Saga.transact_ok henqueue
  obtain ⟨contents, -, rfl⟩ := Fallible.map_ok.mp hput
  obtain ⟨jobs, hjobs, rfl⟩ := Fallible.map_ok.mp henqueue
  exact ⟨row, hrow, htenant, hlive, hhash, rfl, hjobs⟩

/-- An upload leaves a dead letter alone. -/
theorem handle_givenUp (hgiven : s.GivenUp documentId)
    (h : handle config tenantId documentId content id now s = (.ok u, s')) :
    s'.GivenUp documentId := by
  obtain ⟨row, hrow, -, -, -, hdocuments, henqueue⟩ := handle_ok h
  obtain ⟨row', hrow', job, hjob, hdoc, hversion, hdead⟩ := hgiven
  obtain rfl : row = row' := Option.some.inj (hrow.symm.trans hrow')
  rcases SqlAlchemyJobQueue.enqueue_ok henqueue with ⟨hsame, -⟩ | ⟨hnone, -⟩
  · exact ⟨row, hdocuments ▸ hrow, job, hsame ▸ hjob, hdoc, hversion, hdead⟩
  · exact absurd hversion (hnone job hjob hdoc)

end UploadDocumentContentHandler

namespace System

variable {config : Config} {s : System}

/-- An upload that returns leaves its document queued or indexed exactly when the job of the
    document's current version is not a dead letter. -/
theorem upload_queued_iff (h : Reachable (step config) init s) {tenantId documentId id : UUID}
    {content : Str} {now : Instant} {u : PUnit} {store : Store}
    (hupload : UploadDocumentContentHandler.handle config tenantId documentId content id now
      s.store = (.ok u, store)) :
    store.Queued documentId ↔ ¬ s.store.GivenUp documentId := by
  constructor
  · intro hqueued hgiven
    exact hqueued.not_givenUp (UploadDocumentContentHandler.handle_givenUp hgiven hupload)
  · intro hgiven
    obtain ⟨row, hrow, -, hlive, -, hdocuments, henqueue⟩ :=
      UploadDocumentContentHandler.handle_ok hupload
    have hrow' : store.documents.byId documentId = some row := hdocuments ▸ hrow
    rcases SqlAlchemyJobQueue.enqueue_ok henqueue with
      ⟨hsame, job, hjob, hdoc, hversion⟩ | ⟨-, hins⟩
    · refine ⟨row, hrow', job, hsame ▸ hjob, hdoc, hversion, ?_⟩
      cases hstatus : job.status with
      | pending => exact .inl rfl
      | processing => exact .inr (.inl rfl)
      | completed =>
          obtain ⟨row₁, hrow₁, hfinished⟩ := (reachable_settled h).completed job.id job
            (SqlAlchemyJobQueue.byId_of_mem hjob) hstatus
          rw [hdoc] at hrow₁
          obtain rfl : row = row₁ := Option.some.inj (hrow.symm.trans hrow₁)
          exact .inr (.inr ⟨rfl, hfinished.resolve_right hlive⟩)
      | deadLetter => exact absurd ⟨row, hrow, job, hjob, hdoc, hversion, hstatus⟩ hgiven
    · refine ⟨row, hrow', _, (Table.mem_insert hins).mpr (.inr rfl), rfl, rfl, .inl rfl⟩

/-! ### A document that cannot be queued again -/

/-- One attempt for each job. -/
def oneAttempt : Config := { helloConfig with maxAttempts := 1, maxAttemptsPos := le_rfl }

/-- The content of document 10 is uploaded, and worker 0 fails on it for good: `content.get`
    raises in the only attempt, and the document is marked FAILED. -/
def giveUpHello : List Label :=
  uploadHello ++ [.dequeue 0 "w".toList 5 [⟨20⟩] 3,
    .advance 0 4 (fun _ => ⟨30⟩) .returns,
    .advance 0 4 (fun _ => ⟨30⟩) .returns,
    .advance 0 4 (fun _ => ⟨30⟩) .raises,
    .advance 0 4 (fun _ => ⟨30⟩) .returns,
    .advance 0 4 (fun _ => ⟨30⟩) .returns,
    .advance 0 4 (fun _ => ⟨30⟩) .returns]

/-- The same content once more, under job 21. -/
def uploadAgain : Saga Store Error PUnit :=
  UploadDocumentContentHandler.handle oneAttempt ⟨1⟩ ⟨10⟩ "hello".toList ⟨21⟩ 5

theorem giveUpHello_rows : (run (step oneAttempt) init giveUpHello).map (fun s =>
    (s.store.documents.rows.map (fun r => (r.id, r.status, r.version)),
      s.store.jobs.rows.map (fun r => (r.documentId, r.documentVersion, r.status)))) =
    some ([(⟨10⟩, .failed, 1)], [(⟨10⟩, 1, .deadLetter)]) := by
  decide +kernel

theorem giveUpHello_again : (run (step oneAttempt) init giveUpHello).map
    (fun s => (uploadAgain s.store).1) = some (.ok ⟨⟩) := by
  decide +kernel

/-- Afterwards the document is FAILED and its job a dead letter, and an upload returns. -/
theorem giveUpHello_givenUp : ∃ s store, run (step oneAttempt) init giveUpHello = some s ∧
    uploadAgain s.store = (.ok ⟨⟩, store) ∧ s.store.GivenUp ⟨10⟩ ∧
    ∃ row, s.store.documents.byId ⟨10⟩ = some row ∧ row.status = .failed := by
  obtain ⟨s, hrun, hrows⟩ := Option.map_eq_some_iff.mp giveUpHello_rows
  obtain ⟨hdocuments, hjobs⟩ := Prod.mk.inj hrows
  obtain ⟨row, hrow, hcolumns⟩ := List.mem_map.mp (hdocuments ▸ List.mem_cons_self)
  obtain ⟨job, hjob, hjobColumns⟩ := List.mem_map.mp (hjobs ▸ List.mem_cons_self)
  obtain ⟨hid, hstatus, hversion⟩ : _ ∧ _ ∧ _ := by simpa only [Prod.mk.injEq] using hcolumns
  obtain ⟨hdoc, hjobVersion, hdead⟩ : _ ∧ _ ∧ _ := by
    simpa only [Prod.mk.injEq] using hjobColumns
  have hbyId : s.store.documents.byId ⟨10⟩ = some row := Documents.byId_eq_some.mpr ⟨hrow, hid⟩
  have hagain := giveUpHello_again
  rw [hrun] at hagain
  exact ⟨s, (uploadAgain s.store).2, hrun, Prod.ext (Option.some.inj hagain) rfl,
    ⟨row, hbyId, job, hjob, hdoc, hjobVersion.trans hversion.symm, hdead⟩, row, hbyId, hstatus⟩

theorem upload_queued_giveUpHello : ∃ s store,
    run (step oneAttempt) init giveUpHello = some s ∧ uploadAgain s.store = (.ok ⟨⟩, store) ∧
      (store.Queued ⟨10⟩ ↔ ¬ s.store.GivenUp ⟨10⟩) := by
  obtain ⟨s, store, hrun, hupload, -⟩ := giveUpHello_givenUp
  exact ⟨s, store, hrun, hupload, upload_queued_iff ⟨_, hrun⟩ hupload⟩

/-- The second upload is accepted and dropped: the document stays FAILED without a job that
    anyone will take. -/
theorem uploadAgain_dropped : ∃ s store, run (step oneAttempt) init giveUpHello = some s ∧
    (∃ row, s.store.documents.byId ⟨10⟩ = some row ∧ row.status = .failed) ∧
    uploadAgain s.store = (.ok ⟨⟩, store) ∧ ¬ store.Queued ⟨10⟩ := by
  obtain ⟨s, store, hrun, hupload, hgiven, hfailed⟩ := giveUpHello_givenUp
  refine ⟨s, store, hrun, hfailed, hupload, ?_⟩
  intro hqueued
  exact hqueued.not_givenUp (UploadDocumentContentHandler.handle_givenUp hgiven hupload)

end System

end Eka
