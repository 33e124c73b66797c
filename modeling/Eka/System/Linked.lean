import Eka.System.Ownership

/-!
# Rows are linked to their document

Several writes are keyed by the document or the job alone: the content upsert, the
conflict target of `enqueue`, the save by primary key. That the rows of a document
still carry its tenant, collection and version is an invariant of the whole system,
together with what every call and worker has in its hands between two awaited calls.
It rests on one fact: no transaction changes those columns of a document.
-/

namespace Eka

open Py Relational Transition

/-- Two states of one row: the columns that no transaction writes agree. -/
structure DocumentModel.Same (a b : DocumentModel) : Prop where
  id : a.id = b.id
  tenantId : a.tenantId = b.tenantId
  collectionId : a.collectionId = b.collectionId
  contentHash : a.contentHash = b.contentHash
  version : a.version = b.version

/-- Documents are added and change their status, and nothing else. -/
def Documents.Grows (t t' : Documents) : Prop :=
  ∀ id row, t.byId id = some row → ∃ row', t'.byId id = some row' ∧ row.Same row'

/-- There is a document with this id, and it is this tenant's. -/
def Documents.Owned (t : Documents) (documentId tenantId : UUID) : Prop :=
  ∃ row, t.byId documentId = some row ∧ row.tenantId = tenantId

/-- There is a document with these columns. -/
def Documents.Describes (t : Documents) (documentId tenantId collectionId : UUID)
    (version : Nat) : Prop :=
  ∃ row, t.byId documentId = some row ∧ row.tenantId = tenantId ∧
    row.collectionId = collectionId ∧ row.version = version

/-- There is a document of this tenant registered with this digest. -/
def Documents.Hashes (t : Documents) (documentId tenantId : UUID) (digest : Str) : Prop :=
  ∃ row, t.byId documentId = some row ∧ row.tenantId = tenantId ∧ row.contentHash.value = digest

/-- Contents, chunks and jobs belong to a document, under its tenant. -/
structure Store.Linked (config : Config) (s : Store) : Prop where
  contents : ∀ id content, s.contents.ofDocument id = some content →
    s.documents.Hashes id content.tenantId (config.sha256 content.text.value)
  chunks : ∀ row ∈ s.chunks.rows,
    s.documents.Describes row.documentId row.tenantId row.collectionId row.documentVersion
  jobs : ∀ id row, s.jobs.byId id = some row →
    s.documents.Describes row.documentId row.tenantId row.collectionId row.documentVersion

/-- What a call has in its hands. -/
def Call.Linked (config : Config) (t : Documents) : Call → Prop
  | .idle => True
  | .registering document => document.status = .registered
  | .deleting loaded document =>
      Documents.Saves loaded document .deleted ∧ t.Owned loaded.id loaded.tenantId
  | .uploading tenantId documentId content document =>
      t.Hashes documentId tenantId (config.sha256 content) ∧
        t.Describes documentId tenantId document.collectionId document.version
  | .enqueuing tenantId documentId document =>
      t.Describes documentId tenantId document.collectionId document.version

/-- What a worker has in its hands: a row of its job's document, moved along an allowed
    transition. -/
def Phase.Linked (job : IngestionJob) : Phase → Prop
  | .handling (.ingesting loaded document) =>
      loaded.id = job.documentId ∧ Documents.Saves loaded document .ingesting
  | .handling (.indexing loaded document) =>
      loaded.id = job.documentId ∧ Documents.Saves loaded document .indexed
  | .failing loaded document =>
      loaded.id = job.documentId ∧ Documents.Saves loaded document .failed
  | _ => True

/-- The status that the commit of a phase writes. -/
def Phase.target : Phase → Option DocumentStatus
  | .handling (.ingesting _ _) => some .ingesting
  | .handling (.indexing _ _) => some .indexed
  | .failing _ _ => some .failed
  | _ => none

structure System.Linked (config : Config) (s : System) : Prop where
  store : s.store.Linked config
  calls : ∀ c, (s.calls c).Linked config s.store.documents
  workers : ∀ w phase job rest, s.workers w = .busy phase job rest → phase.Linked job

/-! ## Documents only grow -/

namespace DocumentModel

theorem Same.refl (a : DocumentModel) : a.Same a := ⟨rfl, rfl, rfl, rfl, rfl⟩

theorem same_moveTo (loaded : DocumentModel) (status : DocumentStatus) (now : Instant)
    (row : DocumentModel) : row.Same (Documents.moveTo loaded status now row) :=
  ⟨rfl, rfl, rfl, rfl, rfl⟩

end DocumentModel

namespace Documents

variable {t t' : Documents}

theorem Grows.refl (t : Documents) : t.Grows t := fun _ row h => ⟨row, h, .refl row⟩

theorem Grows.owned (h : t.Grows t') {documentId tenantId : UUID}
    (hd : t.Owned documentId tenantId) : t'.Owned documentId tenantId := by
  obtain ⟨row, hrow, ht⟩ := hd
  obtain ⟨row', hrow', hsame⟩ := h documentId row hrow
  exact ⟨row', hrow', hsame.tenantId ▸ ht⟩

/-- A document has one tenant. -/
theorem Owned.tenant {documentId tenantId tenantId' : UUID} (h : t.Owned documentId tenantId)
    (h' : t.Owned documentId tenantId') : tenantId = tenantId' := by
  obtain ⟨row, hrow, rfl⟩ := h
  obtain ⟨row', hrow', rfl⟩ := h'
  rw [Option.some.inj (hrow.symm.trans hrow')]

theorem Describes.owned {documentId tenantId collectionId : UUID} {version : Nat}
    (h : t.Describes documentId tenantId collectionId version) : t.Owned documentId tenantId := by
  obtain ⟨row, hrow, ht, -⟩ := h
  exact ⟨row, hrow, ht⟩

theorem Hashes.owned {documentId tenantId : UUID} {digest : Str}
    (h : t.Hashes documentId tenantId digest) : t.Owned documentId tenantId := by
  obtain ⟨row, hrow, ht, -⟩ := h
  exact ⟨row, hrow, ht⟩

theorem Grows.describes (h : t.Grows t') {documentId tenantId collectionId : UUID} {version : Nat}
    (hd : t.Describes documentId tenantId collectionId version) :
    t'.Describes documentId tenantId collectionId version := by
  obtain ⟨row, hrow, ht, hc, hv⟩ := hd
  obtain ⟨row', hrow', hsame⟩ := h documentId row hrow
  exact ⟨row', hrow', hsame.tenantId ▸ ht, hsame.collectionId ▸ hc, hsame.version ▸ hv⟩

theorem Grows.hashes (h : t.Grows t') {documentId tenantId : UUID} {digest : Str}
    (hd : t.Hashes documentId tenantId digest) : t'.Hashes documentId tenantId digest := by
  obtain ⟨row, hrow, ht, hh⟩ := hd
  obtain ⟨row', hrow', hsame⟩ := h documentId row hrow
  exact ⟨row', hrow', hsame.tenantId ▸ ht, hsame.contentHash ▸ hh⟩

theorem grows_insert {row : DocumentModel} (h : t.insert row = some t') : t.Grows t' := by
  intro id old hold
  have hnew := byId_of_insert h
  refine ⟨old, ?_, .refl old⟩
  rw [byId_insert h, if_neg]
  · exact hold
  · rintro rfl
    rw [hnew] at hold
    cases hold

theorem Saves.grows {loaded : DocumentModel} {doc : Document} {target : DocumentStatus}
    (h : Saves loaded doc target) (hsave : Documents.saveCommit loaded doc t = .ok t') :
    t.Grows t' := by
  obtain ⟨now, t₁, ht₁, hrows⟩ := h.saveCommit t
  obtain rfl : t₁ = t' := Except.ok.inj (ht₁.symm.trans hsave)
  intro id row hrow
  rw [hrows id, hrow]
  by_cases hid : id = loaded.id
  · rw [if_pos hid]
    exact ⟨_, rfl, DocumentModel.same_moveTo loaded target now row⟩
  · rw [if_neg hid]
    exact ⟨row, rfl, .refl row⟩

end Documents

theorem Call.Linked.mono {config : Config} {t t' : Documents} {call : Call} (hgrows : t.Grows t')
    (h : call.Linked config t) : call.Linked config t' := by
  cases call with
  | idle => trivial
  | registering document => exact h
  | deleting loaded document => exact ⟨h.1, hgrows.owned h.2⟩
  | uploading tenantId documentId content document =>
      exact ⟨hgrows.hashes h.1, hgrows.describes h.2⟩
  | enqueuing tenantId documentId document => exact hgrows.describes h

theorem Store.Linked.grow {config : Config} {s : Store} {t : Documents} (h : s.Linked config)
    (hgrows : s.documents.Grows t) : Store.Linked config { s with documents := t } :=
  ⟨fun id content hc => hgrows.hashes (h.contents id content hc),
    fun row hrow => hgrows.describes (h.chunks row hrow),
    fun id row hrow => hgrows.describes (h.jobs id row hrow)⟩

/-! ## What the commits keep -/

namespace Store.Linked

variable {config : Config} {s : Store}

theorem put (h : s.Linked config) {tenantId documentId : UUID} {content : Str} {now : Instant}
    {t : Contents}
    (hput : SqlAlchemyContentStore.put tenantId documentId content now s.contents = .ok t)
    (hhash : s.documents.Hashes documentId tenantId (config.sha256 content)) :
    Store.Linked config { s with contents := t } := by
  refine ⟨?_, h.chunks, h.jobs⟩
  obtain ⟨stored, hvalue, hrows⟩ := SqlAlchemyContentStore.put_ok hput
  intro id row hrow
  have hrow' : Contents.ofDocument t id = some row := hrow
  rw [hrows id] at hrow'
  by_cases hid : id = documentId
  · rw [if_pos hid] at hrow'
    subst hid
    cases hold : s.contents.ofDocument id with
    | none =>
        rw [SqlAlchemyContentStore.upserted, hold] at hrow'
        cases hrow'
        show s.documents.Hashes id tenantId (config.sha256 stored.value)
        rw [hvalue]
        exact hhash
    | some old =>
        -- the row keeps the tenant of the first upload, which is the document's as well
        rw [SqlAlchemyContentStore.upserted, hold] at hrow'
        cases hrow'
        obtain ⟨doc, hdoc, ht, hh⟩ := hhash
        obtain ⟨doc', hdoc', ht', -⟩ := h.contents id old hold
        obtain rfl : doc = doc' := Option.some.inj (hdoc.symm.trans hdoc')
        refine ⟨doc, hdoc, ht', ?_⟩
        show doc.contentHash.value = config.sha256 stored.value
        rw [hvalue]
        exact hh
  · rw [if_neg hid] at hrow'
    exact h.contents id row hrow'

theorem storeChunks (h : s.Linked config) {job : IngestionJob} {newUuid : Nat → UUID} {text : Str}
    {now : Instant} {t : Chunks}
    (hstore : IngestDocumentHandler.storeChunks config job newUuid text now s.chunks = .ok t)
    (hjob : s.documents.Describes job.documentId job.tenantId job.collectionId
      job.documentVersion) : Store.Linked config { s with chunks := t } := by
  refine ⟨h.contents, ?_, h.jobs⟩
  obtain ⟨rows, ht, -, hcolumns⟩ := IngestDocumentHandler.storeChunks_ok hstore
  intro row hrow
  rw [show (Store.chunks { s with chunks := t }).rows = t.rows from rfl, ht] at hrow
  rcases List.mem_append.mp hrow with hrow | hrow
  · exact h.chunks row (List.mem_filter.mp hrow).1
  · obtain ⟨htenant, hdoc, hcol, hversion⟩ := hcolumns row hrow
    rw [htenant, hdoc, hcol, hversion]
    exact hjob

/-- A change of the jobs that keeps what they are about. -/
theorem updateJobs (h : s.Linked config) {t : Jobs} (hsame : s.jobs.SameSubjects t) :
    Store.Linked config { s with jobs := t } := by
  refine ⟨h.contents, h.chunks, ?_⟩
  intro id row hrow
  obtain ⟨old, hold, hsubject⟩ := hsame.old hrow
  obtain ⟨hd, ht, hc, hv⟩ : _ ∧ _ ∧ _ ∧ _ := by
    simpa only [IngestionJobModel.subject, Prod.mk.injEq] using hsubject
  rw [hd, ht, hc, hv]
  exact h.jobs id old hold

theorem enqueue (h : s.Linked config) {id tenantId documentId : UUID} {document : DocumentDTO}
    {now : Instant} {t : Jobs}
    (henqueue : UploadDocumentContentHandler.enqueue config id tenantId documentId document now
      s.jobs = .ok t)
    (hdoc : s.documents.Describes documentId tenantId document.collectionId document.version) :
    Store.Linked config { s with jobs := t } := by
  rcases SqlAlchemyJobQueue.enqueue_ok henqueue with ⟨rfl, -⟩ | ⟨-, hins⟩
  · exact h
  · refine ⟨h.contents, h.chunks, ?_⟩
    intro id' row hrow
    have hrow' : t.byId id' = some row := hrow
    rw [SqlAlchemyJobQueue.byId_insert hins] at hrow'
    split at hrow'
    · cases hrow'
      exact hdoc
    · exact h.jobs id' row hrow'

end Store.Linked

/-! ## What hangs on a document is its tenant's -/

namespace Store.Linked

variable {config : Config} {s : Store} {documentId tenantId : UUID}

theorem contents_tenant (h : s.Linked config) (howned : s.documents.Owned documentId tenantId)
    (row : DocumentContentModel) (hrow : row ∈ s.contents.rows)
    (hdoc : row.documentId = documentId) : row.tenantId = tenantId := by
  have hcontent : s.contents.ofDocument documentId = some row :=
    SqlAlchemyContentStore.ofDocument_eq_some.mpr ⟨hrow, hdoc⟩
  exact (h.contents documentId row hcontent).owned.tenant howned

theorem chunks_tenant (h : s.Linked config) (howned : s.documents.Owned documentId tenantId)
    (row : ChunkModel) (hrow : row ∈ s.chunks.rows) (hdoc : row.documentId = documentId) :
    row.tenantId = tenantId := by
  have hdescribed := (h.chunks row hrow).owned
  rw [hdoc] at hdescribed
  exact hdescribed.tenant howned

theorem jobs_tenant (h : s.Linked config) (howned : s.documents.Owned documentId tenantId)
    (row : IngestionJobModel) (hrow : row ∈ s.jobs.rows) (hdoc : row.documentId = documentId) :
    row.tenantId = tenantId := by
  have hdescribed := (h.jobs row.id row (SqlAlchemyJobQueue.byId_of_mem hrow)).owned
  rw [hdoc] at hdescribed
  exact hdescribed.tenant howned

end Store.Linked

/-! ## What calls and workers read -/

theorem RegisterDocumentHandler.lookup_new {command : RegisterDocumentCommand} {id : UUID}
    {now : Instant} {t : Documents} {document : Document}
    (h : lookup command id now t = .ok (.inr document)) : document.status = .registered := by
  obtain ⟨hash, -, h⟩ := Fallible.bind_ok.mp h
  cases hfind : Documents.findByContentHash command.tenantId hash t with
  | some existing => simp only [hfind] at h; cases h
  | none =>
      simp only [hfind] at h
      obtain ⟨doc, hbuild, h⟩ := Fallible.bind_ok.mp h
      obtain ⟨title, -, hbuild⟩ := Fallible.bind_ok.mp hbuild
      obtain ⟨sourceType, -, hbuild⟩ := Fallible.bind_ok.mp hbuild
      cases h
      cases hbuild
      rfl

theorem UploadDocumentContentHandler.check_ok {config : Config} {tenantId documentId : UUID}
    {content : Str} {t : Documents} {document : DocumentDTO}
    (h : check config tenantId documentId content t = .ok document) :
    ∃ row, t.byId documentId = some row ∧ row.tenantId = tenantId ∧ row.status ≠ .deleted ∧
      config.sha256 content = row.contentHash.value ∧
      document = .fromAggregate row.toDomain := by
  unfold check at h
  cases hget : Documents.get tenantId documentId t with
  | none => simp [hget] at h
  | some doc =>
      obtain ⟨row, hsel, rfl⟩ := Option.map_eq_some_iff.mp hget
      obtain ⟨hrow, ht, hlive⟩ := Documents.select_eq_some_byId.mp hsel
      simp only [hget] at h
      split at h
      · cases h
      · next hhash =>
          cases h
          exact ⟨row, hrow, ht, hlive, not_not.mp hhash, rfl⟩

theorem Call.start_linked (config : Config) (id : UUID) (now : Instant) (s : Store)
    (request : Request) : (Call.start config id now s request).Linked config s.documents := by
  cases request with
  | register command =>
      unfold Call.start
      simp only
      split
      · next document hlookup => exact RegisterDocumentHandler.lookup_new hlookup
      · trivial
  | delete command =>
      unfold Call.start
      simp only
      split
      · next loaded document hread =>
          obtain ⟨hrow, hid, -, hsaves⟩ := DeleteDocumentHandler.read_saves hread
          exact ⟨hsaves, loaded, hid ▸ hrow, rfl⟩
      · trivial
  | upload tenantId documentId content =>
      unfold Call.start
      simp only
      split
      · next document hcheck =>
          obtain ⟨row, hrow, ht, -, hhash, rfl⟩ := UploadDocumentContentHandler.check_ok hcheck
          exact ⟨⟨row, hrow, ht, hhash.symm⟩, row, hrow, ht, rfl, rfl⟩
      · trivial

/-- The jobs in the hands of a worker belong to their document. -/
theorem System.held_described {config : Config} {s : System} (howned : s.queue.Owned)
    (hlinked : s.store.Linked config) {w : Nat} {phase : Phase} {job : IngestionJob}
    {rest : List IngestionJob} (hbusy : s.workers w = .busy phase job rest) :
    s.store.documents.Describes job.documentId job.tenantId job.collectionId
      job.documentVersion := by
  obtain ⟨row, hrow, hfits⟩ := held_row howned hbusy
  obtain ⟨hd, ht, hc, hv⟩ := hfits.subject
  rw [← hd, ← ht, ← hc, ← hv]
  exact hlinked.jobs _ row hrow

/-! ## Every step keeps the links -/

section Steps

variable {config : Config} {s s' : Store}

/-- A phase saves the document of its job. -/
theorem Phase.Linked.saves {phase : Phase} {job : IngestionJob} (h : phase.Linked job)
    {loaded : DocumentModel} {document : Document}
    (hsaving : phase.saving = some (loaded, document)) :
    loaded.id = job.documentId ∧
      ∃ target, phase.target = some target ∧ Documents.Saves loaded document target := by
  cases phase with
  | handling phase =>
      cases phase with
      | ingesting => cases hsaving; exact ⟨h.1, _, rfl, h.2⟩
      | indexing => cases hsaving; exact ⟨h.1, _, rfl, h.2⟩
      | start => cases hsaving
      | marked => cases hsaving
      | fetched => cases hsaving
      | stored => cases hsaving
  | failing => cases hsaving; exact ⟨h.1, _, rfl, h.2⟩
  | handled => cases hsaving
  | raised => cases hsaving
  | deadLettered => cases hsaving

theorem Call.Writes.linked {call : Call} (hwrites : call.Writes config s s')
    (h : s.Linked config) (hcall : call.Linked config s.documents) :
    s'.Linked config ∧ s.documents.Grows s'.documents := by
  cases hwrites.written with
  | registered hadd =>
      obtain ⟨uri, -, hins⟩ := Documents.addCommit_ok hadd
      have hgrows := Documents.grows_insert hins
      exact ⟨h.grow hgrows, hgrows⟩
  | deleted hsave =>
      have hgrows := hcall.1.grows hsave
      exact ⟨h.grow hgrows, hgrows⟩
  | uploaded hput => exact ⟨h.put hput hcall.1, .refl _⟩
  | enqueued henqueue => exact ⟨h.enqueue henqueue hcall, .refl _⟩

theorem Phase.Writes.linked {phase : Phase} {job : IngestionJob} {now : Instant}
    {newUuid : Nat → UUID} (hwrites : phase.Writes config job now newUuid s s')
    (h : s.Linked config) (hphase : phase.Linked job)
    (hjob : s.documents.Describes job.documentId job.tenantId job.collectionId
      job.documentVersion) : s'.Linked config ∧ s.documents.Grows s'.documents := by
  cases hwrites.written with
  | saved hsaving hsave =>
      obtain ⟨-, target, -, hsaves⟩ := hphase.saves hsaving
      have hgrows := hsaves.grows hsave
      exact ⟨h.grow hgrows, hgrows⟩
  | chunked hstore => exact ⟨h.storeChunks hstore hjob, .refl _⟩
  | completed =>
      exact ⟨h.updateJobs (SqlAlchemyJobQueue.sameSubjects_complete job now s.jobs), .refl _⟩
  | failed exc =>
      exact ⟨h.updateJobs (SqlAlchemyJobQueue.sameSubjects_fail job _ now s.jobs), .refl _⟩

/-- The phase that a call of a worker leads to has read what it holds. -/
theorem Phase.Goes.linked {job : IngestionJob} {rest : List IngestionJob} {now : Instant}
    {newUuid : Nat → UUID} {phase phase' : Phase} {job' : IngestionJob} {rest' : List IngestionJob}
    (h : Phase.Goes config job rest now newUuid s s' phase phase' job' rest') :
    phase'.Linked job' := by
  cases h with
  | next => trivial
  | @handling phase phase' hphase =>
      cases phase with
      | start =>
          obtain ⟨-, loaded, document, heq, hread⟩ := hphase
          cases heq
          obtain ⟨-, hid, -, hsaves⟩ := DocumentLifecycleService.read_saves hread
          exact ⟨hid, hsaves⟩
      | ingesting loaded document =>
          cases hphase.1
          trivial
      | marked =>
          obtain ⟨-, text, heq, -⟩ := hphase
          cases heq
          trivial
      | fetched text =>
          cases hphase.1
          trivial
      | stored =>
          obtain ⟨-, loaded, document, heq, hread⟩ := hphase
          cases heq
          obtain ⟨-, hid, -, hsaves⟩ := DocumentLifecycleService.read_saves hread
          exact ⟨hid, hsaves⟩
      | indexing loaded document => cases hphase.1
  | handled => trivial
  | raised => trivial
  | deadLettered => trivial
  | failing hread =>
      obtain ⟨-, hid, -, hsaves⟩ := DocumentLifecycleService.read_saves hread
      exact ⟨hid, hsaves⟩

/-- A call of the API that goes on holds the document that it has read. -/
theorem Call.Leads.linked {call next : Call} (h : call.Leads config s s' next)
    (hgrows : s.documents.Grows s'.documents) (hlinked : call.Linked config s.documents) :
    next.Linked config s'.documents := by
  cases call with
  | uploading tenantId documentId content document =>
      rcases h with ⟨rfl, -⟩ | rfl
      · exact hgrows.describes hlinked.2
      · trivial
  | idle => obtain rfl : next = .idle := h; trivial
  | registering => obtain rfl : next = .idle := h; trivial
  | deleting => obtain rfl : next = .idle := h; trivial
  | enqueuing => obtain rfl : next = .idle := h; trivial

end Steps

namespace System

variable {config : Config} {s s' : System} {label : Label}

theorem init_linked (config : Config) : init.Linked config where
  store := ⟨by simp [init, Store.empty, Contents.ofDocument], by simp [init, Store.empty],
    by simp [init, Store.empty]⟩
  calls := fun _ => trivial
  workers := fun _ _ _ _ h => by cases h

/-- What the workers hold after a step, they have read. -/
theorem step_linked_workers (h : s.Linked config) (hstep : step config s label = some s') :
    ∀ w phase job rest, s'.workers w = .busy phase job rest → phase.Linked job := by
  intro w phase' job' rest' hbusy
  rcases busy_cases hstep hbusy with hbusy | rfl | ⟨now, newUuid, phase, job, rest, -, hgoes⟩
  · exact h.workers w phase' job' rest' hbusy
  · trivial
  · exact hgoes.linked

theorem step_linked (howned : s.queue.Owned) (h : s.Linked config)
    (hstep : step config s label = some s') :
    s'.Linked config ∧ s.store.documents.Grows s'.store.documents := by
  have hworkers := step_linked_workers h hstep
  cases step_cases hstep with
  | request c request id now idle =>
      refine ⟨⟨h.store, ?_, hworkers⟩, .refl _⟩
      apply (Function.forall_update_iff s.calls fun _ call =>
        call.Linked config s.store.documents).mpr
      exact ⟨Call.start_linked config id now s.store request, fun c' _ => h.calls c'⟩
  | proceed c callId clock outcome call store leads writes =>
      have hstore : store.Linked config ∧ s.store.documents.Grows store.documents := by
        rcases writes with rfl | ⟨hwrites, -⟩
        · exact ⟨h.store, .refl _⟩
        · exact hwrites.linked h.store (h.calls c)
      refine ⟨⟨hstore.1, ?_, hworkers⟩, hstore.2⟩
      apply (Function.forall_update_iff s.calls fun _ call =>
        call.Linked config store.documents).mpr
      exact ⟨leads.linked hstore.2 (h.calls c), fun c' _ => (h.calls c').mono hstore.2⟩
  | dequeue w workerId batchSize picked now jobs t idle claimed =>
      have hstore := h.store.updateJobs (SqlAlchemyJobQueue.sameSubjects_dequeue claimed)
      exact ⟨⟨hstore, h.calls, hworkers⟩, .refl _⟩
  | advance w now newUuid outcome phase job rest worker store busy leads writes =>
      have hstore : store.Linked config ∧ s.store.documents.Grows store.documents := by
        rcases writes with rfl | ⟨hwrites, -⟩
        · exact ⟨h.store, .refl _⟩
        · exact hwrites.linked h.store (h.workers w phase job rest busy)
            (held_described howned h.store busy)
      exact ⟨⟨hstore.1, fun c => (h.calls c).mono hstore.2, hworkers⟩, hstore.2⟩
  | exit w => exact ⟨⟨h.store, h.calls, hworkers⟩, .refl _⟩

/-- In every reachable state, the rows of a document carry its tenant, collection and version. -/
theorem reachable_linked (h : Reachable (step config) init s) : s.Linked config :=
  h.invariant' (init_linked config) fun _ _ _ hs hlinked hstep =>
    (step_linked (reachable_owned hs) hlinked hstep).1

end System

end Eka
