import Eka.Ingestion.Coverage
import Eka.System.FaultFree
import Eka.System.Upload

/-!
# What revision 0003 leaves behind

`migrations/versions/0003_pgvector_retrieval.py`. The migration empties `chunks` and leaves
the documents INDEXED; the chunks come back when the documents are ingested again. An
upload queues that only for a document whose job is still PENDING, or that has none: any
other job row makes `enqueue` do nothing.

The processes of the revision before write JSONB, so those that run afterwards are new
ones. A worker that was on a job leaves it PROCESSING.
-/

namespace Eka

open Py Relational Transition
open RecursiveCharacterChunker (split)

namespace Migration0003

/-- `upgrade` (`0003_pgvector_retrieval.py:19-32`): `TRUNCATE TABLE chunks`. The other
    statements change the columns and indexes of the empty table. The old column took vectors
    of any dimension; as the rows go, so does the difference. -/
def upgrade (s : Store) : Store := { s with chunks := Table.empty }

end Migration0003

/-- New processes over a database. -/
def System.restart (store : Store) : System := ⟨store, fun _ => .idle, fun _ => .idle⟩

/-! ## A new start -/

namespace Store.Linked

variable {config₀ config : Config} {s : Store}

/-- Of the settings, the links know the digest function alone. -/
theorem congr (h : s.Linked config₀) (hsha : config.sha256 = config₀.sha256) :
    s.Linked config :=
  ⟨fun id content hcontent => hsha ▸ h.contents id content hcontent, h.chunks, h.jobs⟩

theorem upgrade (h : s.Linked config) : (Migration0003.upgrade s).Linked config :=
  ⟨h.contents, by simp [Migration0003.upgrade], h.jobs⟩

end Store.Linked

theorem System.restart_sound {config : Config} {store : Store} (hlinked : store.Linked config)
    (haccounted : ∀ id row, store.jobs.byId id = some row → row.Accounted) :
    (restart store).Sound config where
  owned := {
    owns := fun _ => ⟨.nil, by simp [queue, restart, Worker.view, QueueWorker.holding]⟩
    disjoint := fun _ _ _ => by simp [queue, restart, Worker.view]
    accounted := haccounted }
  linked := ⟨hlinked, fun _ => trivial, fun _ _ _ _ h => by cases h⟩

/-! ## The upload -/

theorem SqlAlchemyJobQueue.exists_enqueue {t : Jobs} {id : UUID}
    (hid : ∀ row ∈ t.rows, row.id ≠ id) (tenantId documentId collectionId : UUID)
    (version maxAttempts : Nat) (now : Instant) :
    ∃ t', enqueue id tenantId documentId collectionId version maxAttempts now t = .ok t' := by
  unfold enqueue
  split
  · exact ⟨t, rfl⟩
  · next hany =>
      cases hins : t.insert
          (newRow id tenantId documentId collectionId version maxAttempts now) with
      | some t' => exact ⟨t', rfl⟩
      | none =>
          obtain ⟨row, hrow, hclash⟩ := Table.insert_eq_none.mp hins
          rcases hclash with hsame | ⟨hdoc, hversion⟩
          · exact absurd hsame (hid row hrow)
          · refine absurd (List.any_eq_true.mpr ⟨row, hrow, ?_⟩) hany
            rw [hdoc, hversion]
            simp [newRow]

/-- The content of a live document passes its check. -/
theorem UploadDocumentContentHandler.check_of_live {config : Config} {t : Documents}
    {row : DocumentModel} (hrow : row ∈ t.rows) (hlive : row.status ≠ .deleted) {content : Str}
    (hhash : config.sha256 content = row.contentHash.value) :
    check config row.tenantId row.id content t = .ok (.fromAggregate row.toDomain) := by
  have hget : Documents.get row.tenantId row.id t = some row.toDomain :=
    Option.map_eq_some_iff.mpr
      ⟨row, Documents.select_eq_some.mpr ⟨hrow, rfl, rfl, hlive⟩, rfl⟩
  unfold check
  rw [hget]
  exact if_neg (not_not.mpr hhash)

namespace Store

variable {config : Config} {s : Store} {row : DocumentModel} {content : DocumentContentModel}
  {id : UUID} {now : Instant}

/-- Uploading a stored content again returns, keeps the content, and adds a PENDING job if the
    document has none. -/
theorem Linked.upload_again (h : s.Linked config) (hrow : row ∈ s.documents.rows)
    (hlive : row.status ≠ .deleted) (hcontent : content ∈ s.contents.rows)
    (hdoc : content.documentId = row.id) (hid : ∀ job ∈ s.jobs.rows, job.id ≠ id)
    (now : Instant) :
    ∃ contents jobs content', UploadDocumentContentHandler.handle config row.tenantId row.id
        content.text.value id now s =
        (.ok ⟨⟩, { s with contents := contents, jobs := jobs }) ∧
      Store.Linked config { s with contents := contents, jobs := jobs } ∧
      contents.ofDocument row.id = some content' ∧ content'.documentId = row.id ∧
      content'.text = content.text ∧
      SqlAlchemyJobQueue.enqueue id row.tenantId row.id row.collectionId row.version
        config.maxAttempts now s.jobs = .ok jobs := by
  have hbyId := Documents.byId_of_mem hrow
  have hstored : s.contents.ofDocument row.id = some content :=
    SqlAlchemyContentStore.ofDocument_eq_some.mpr ⟨hcontent, hdoc⟩
  obtain ⟨row', hrow', -, hhash⟩ := h.contents row.id content hstored
  obtain rfl : row = row' := Option.some.inj (hbyId.symm.trans hrow')
  have hcheck := UploadDocumentContentHandler.check_of_live hrow hlive hhash.symm
  obtain ⟨contents, hput⟩ := @SqlAlchemyContentStore.exists_put row.tenantId row.id _
    content.text.noNul now s.contents
  obtain ⟨jobs, henqueue⟩ := SqlAlchemyJobQueue.exists_enqueue hid row.tenantId row.id
    row.collectionId row.version config.maxAttempts now
  obtain ⟨text, htext, hrows⟩ := SqlAlchemyContentStore.put_ok hput
  have hput' := hrows row.id
  rw [if_pos rfl, SqlAlchemyContentStore.upserted, hstored] at hput'
  refine ⟨contents, jobs, _, ?_, ?_, hput', hdoc, ?_, henqueue⟩
  · rw [UploadDocumentContentHandler.handle_eq, hcheck]
    simp only [hput]
    rw [show UploadDocumentContentHandler.enqueue config id row.tenantId row.id
      (.fromAggregate row.toDomain) now s.jobs = .ok jobs from henqueue]
  · have hlinked := h.put hput ⟨row, hbyId, rfl, hhash⟩
    exact @Store.Linked.enqueue _ _ hlinked _ _ _ (.fromAggregate row.toDomain) _ _ henqueue
      ⟨row, hbyId, rfl, rfl, rfl⟩
  · show text = content.text
    cases text
    cases hvalue : content.text
    rw [hvalue] at htext
    cases htext
    rfl

/-- A document has one job at most, so `enqueue` adds none to the one it has. -/
theorem Linked.enqueue_again (h : s.Linked config) (hrow : row ∈ s.documents.rows) {jobs : Jobs}
    (henqueue : SqlAlchemyJobQueue.enqueue id row.tenantId row.id row.collectionId row.version
      config.maxAttempts now s.jobs = .ok jobs) {job : IngestionJobModel}
    (hjob : job ∈ s.jobs.rows) (hdoc : job.documentId = row.id) : jobs = s.jobs := by
  rcases SqlAlchemyJobQueue.enqueue_ok henqueue with ⟨hsame, -⟩ | ⟨hnone, -⟩
  · exact hsame
  · obtain ⟨row', hrow', -, -, hversion⟩ := h.jobs job.id job (SqlAlchemyJobQueue.byId_of_mem hjob)
    rw [hdoc, Documents.byId_of_mem hrow] at hrow'
    cases hrow'
    exact absurd hversion.symm (hnone job hjob hdoc)

/-- The job of a document after an upload, and when it is PENDING. -/
theorem Linked.job_of_enqueue (h : s.Linked config) (hrow : row ∈ s.documents.rows) {jobs : Jobs}
    (henqueue : SqlAlchemyJobQueue.enqueue id row.tenantId row.id row.collectionId row.version
      config.maxAttempts now s.jobs = .ok jobs) :
    ∃ job ∈ jobs.rows, job.documentId = row.id ∧
      (job.status = .pending ↔
        ∀ old ∈ s.jobs.rows, old.documentId = row.id → old.status = .pending) := by
  rcases SqlAlchemyJobQueue.enqueue_ok henqueue with ⟨rfl, job, hjob, hdoc, -⟩ | ⟨hnone, hins⟩
  · refine ⟨job, hjob, hdoc, ?_, fun hall => hall job hjob hdoc⟩
    intro hpending old hold hdoc'
    rw [h.job_unique (SqlAlchemyJobQueue.byId_of_mem hold)
      (SqlAlchemyJobQueue.byId_of_mem hjob) (hdoc'.trans hdoc.symm)]
    exact hpending
  · have hnew := (Table.mem_insert hins).mpr (.inr rfl)
    refine ⟨_, hnew, rfl, fun _ => ?_, fun _ => rfl⟩
    intro old hold hdoc
    obtain rfl := h.enqueue_again hrow henqueue hold hdoc
    exact absurd rfl (hnone _ hnew rfl)

end Store

namespace System

variable {config₀ config : Config} {s₀ s : System} {store : Store} {labels : List Label}
  {content : DocumentContentModel} {id : UUID}

/-- What a run of new workers comes to, for an INDEXED document whose chunks are gone. -/
theorem run_restored_iff {row : IngestionJobModel} {text : Text}
    (htracks : (restart store).Tracks config row.documentId text row.id)
    (hrow : store.jobs.byId row.id = some row)
    (hindexed : store.documents.HasStatus row.documentId .indexed)
    (hchunks : store.chunks.ofDocument row.documentId = [])
    (hfree : Along (step config) (FaultFree config) (restart store) labels)
    (hrun : run (step config) (restart store) labels = some s) (hdrained : s.Drained) :
    s.store.Restored config row.documentId ↔
      split config.chunking text.value = [] ∨
        row.status = .pending ∧ config.Storable text.value := by
  obtain ⟨content, hcontent, rfl⟩ := (run_tracks hfree hrun htracks).stored
  have hempty : (s.store.chunks.ofDocument row.documentId).map ChunkModel.piece = [] →
      s.store.Restored config row.documentId → split config.chunking content.text.value = [] := by
    intro hnone hrestored
    obtain ⟨stored, hstored, hpieces⟩ := hrestored.chunked
    rw [hcontent] at hstored
    cases hstored
    exact hpieces.symm.trans hnone
  by_cases hpending : row.status = .pending
  · by_cases hstorable : config.Storable content.text.value
    · exact iff_of_true (run_restored htracks hstorable (.pending row hrow hpending
        ⟨.indexed, hindexed, by decide⟩) hfree hrun hdrained) (.inr ⟨hpending, hstorable⟩)
    · have hbare := run_bare htracks hstorable ⟨hchunks, fun _ _ _ _ h => by cases h⟩ hfree hrun
      refine iff_of_false (fun hrestored => ?_) ?_
      · exact hstorable (.inl (hempty (by rw [hbare.chunks]; rfl) hrestored))
      · rintro (hsplit | ⟨-, h⟩)
        · exact hstorable (.inl hsplit)
        · exact hstorable h
  · have hrest : (restart store).Closed row [] :=
      ⟨⟨hrow, hpending, fun _ h => by cases h⟩, congrArg (List.map ChunkModel.piece) hchunks⟩
    obtain ⟨hclosed, hindexed'⟩ := run_closed htracks hrest hindexed hfree hrun
    constructor
    · exact fun hrestored => .inl (hempty hclosed.pieces hrestored)
    · rintro (hsplit | ⟨h, -⟩)
      · exact ⟨hindexed', content, hcontent, hclosed.pieces.trans hsplit.symm⟩
      · exact absurd h hpending

/-- After the migration, uploading the content of an INDEXED document again returns, and a run of
    the workers without faults that leaves nothing to claim restores the document exactly when
    its content is all whitespace, or its job, if it has one, is PENDING and the embedding
    dimension is that of the column. -/
theorem upgrade_restored_iff (hsha : config.sha256 = config₀.sha256)
    (h : Reachable (step config₀) init s₀) {row : DocumentModel}
    (hrow : row ∈ s₀.store.documents.rows) (hindexed : row.status = .indexed)
    (hcontent : content ∈ s₀.store.contents.rows) (hdoc : content.documentId = row.id)
    (hid : ∀ job ∈ s₀.store.jobs.rows, job.id ≠ id) (now : Instant) :
    ∃ store, UploadDocumentContentHandler.handle config row.tenantId row.id content.text.value id
        now (Migration0003.upgrade s₀.store) = (.ok ⟨⟩, store) ∧
      ∀ labels s, Along (step config) (FaultFree config) (restart store) labels →
        run (step config) (restart store) labels = some s → s.Drained →
        (s.store.Restored config row.id ↔ strip content.text.value = [] ∨
          (∀ job ∈ s₀.store.jobs.rows, job.documentId = row.id → job.status = .pending) ∧
            config.embedder.dimension = embeddingDim) := by
  have hsound := reachable_sound h
  have hlinked := (hsound.linked.store.congr hsha).upgrade
  have hlive : row.status ≠ .deleted := by
    rw [hindexed]
    decide
  obtain ⟨contents, jobs, content', hupload, hlinked', hstored, hdoc', htext, henqueue⟩ :=
    hlinked.upload_again hrow hlive hcontent hdoc hid now
  obtain ⟨job, hjob, hjobDoc, hpending⟩ := hlinked.job_of_enqueue hrow henqueue
  refine ⟨_, hupload, ?_⟩
  intro labels s hfree hrun hdrained
  have hjobRow := SqlAlchemyJobQueue.byId_of_mem hjob
  have haccounted : ∀ id row, jobs.byId id = some row → row.Accounted := fun id' =>
    (QueueState.enqueue_row config.maxAttemptsPos henqueue id').accounted
      (hsound.owned.accounted id')
  have hrestored := @run_restored_iff config s { Migration0003.upgrade s₀.store with
    contents := contents, jobs := jobs } labels job content.text
    ⟨restart_sound hlinked' haccounted, ⟨content', hjobDoc ▸ hstored, htext⟩, job, hjobRow, rfl⟩
    hjobRow (hjobDoc ▸ ⟨row, Documents.byId_of_mem hrow, hindexed⟩) rfl hfree hrun hdrained
  rw [hjobDoc, hpending] at hrestored
  rw [hrestored]
  unfold Config.Storable
  rw [RecursiveCharacterChunker.split_eq_nil_iff]
  constructor
  · rintro (hblank | ⟨hall, hblank | hdimension⟩)
    · exact .inl hblank
    · exact .inl hblank
    · exact .inr ⟨hall, hdimension⟩
  · rintro (hblank | ⟨hall, hdimension⟩)
    · exact .inl hblank
    · exact .inr ⟨hall, .inr hdimension⟩

/-! ### A document that stays without chunks -/

theorem indexHello_rows : (run (step helloConfig) init (uploadHello ++ indexHello)).map (fun s =>
    (s.store.documents.rows.map (fun r => (r.id, r.status)),
      s.store.contents.rows.map (fun r => (r.documentId, r.text.value)))) =
    some ([(⟨10⟩, .indexed)], [(⟨10⟩, "hello".toList)]) := by
  decide +kernel

theorem indexHello_jobs : (run (step helloConfig) init (uploadHello ++ indexHello)).map
    (fun s => s.store.jobs.rows.map (fun r => (r.id, r.documentId, r.status))) =
      some [(⟨20⟩, ⟨10⟩, .completed)] := by
  decide +kernel

/-- Document 10 is INDEXED with its job 20 COMPLETED. -/
theorem indexHello_completed : ∃ s row content,
    run (step helloConfig) init (uploadHello ++ indexHello) = some s ∧
    row ∈ s.store.documents.rows ∧ row.status = .indexed ∧ content ∈ s.store.contents.rows ∧
    content.documentId = row.id ∧ content.text.value = "hello".toList ∧
    (∀ job ∈ s.store.jobs.rows, job.id ≠ ⟨21⟩ ∧ job.documentId = row.id ∧
      job.status = .completed) ∧
    ∃ job ∈ s.store.jobs.rows, job.documentId = row.id := by
  obtain ⟨s, hrun, hrows⟩ := Option.map_eq_some_iff.mp indexHello_rows
  obtain ⟨hdocuments, hcontents⟩ := Prod.mk.inj hrows
  have hjobs : s.store.jobs.rows.map (fun r => (r.id, r.documentId, r.status)) =
      [(⟨20⟩, ⟨10⟩, .completed)] := by
    have h := indexHello_jobs
    rw [hrun] at h
    exact Option.some.inj h
  obtain ⟨row, hrow, hcolumns⟩ := List.mem_map.mp (hdocuments ▸ List.mem_cons_self)
  obtain ⟨content, hcontent, htext⟩ := List.mem_map.mp (hcontents ▸ List.mem_cons_self)
  obtain ⟨job, hjob, hjobColumns⟩ := List.mem_map.mp (hjobs ▸ List.mem_cons_self)
  simp only [Prod.mk.injEq] at hcolumns htext hjobColumns
  refine ⟨s, row, content, hrun, hrow, hcolumns.2, hcontent, htext.1.trans hcolumns.1.symm,
    htext.2, ?_, job, hjob, hjobColumns.2.1.trans hcolumns.1.symm⟩
  intro other hother
  have hmem := List.mem_map_of_mem (f := fun r => (r.id, r.documentId, r.status)) hother
  rw [hjobs, List.mem_singleton, Prod.mk.injEq, Prod.mk.injEq] at hmem
  refine ⟨?_, hmem.2.1.trans hcolumns.1.symm, hmem.2.2⟩
  rw [hmem.1]
  decide

/-- The upload finds nothing to do, and so do the workers. -/
theorem restart_drained (hlinked : store.Linked config) {row : DocumentModel}
    (hrow : row ∈ store.documents.rows) {now : Instant} {jobs : Jobs}
    (henqueue : SqlAlchemyJobQueue.enqueue id row.tenantId row.id row.collectionId row.version
      config.maxAttempts now store.jobs = .ok jobs)
    (hjob : ∃ job ∈ store.jobs.rows, job.documentId = row.id)
    (hall : ∀ job ∈ store.jobs.rows, job.status ≠ .pending) (contents : Contents) :
    (restart { store with contents := contents, jobs := jobs }).Drained := by
  obtain ⟨job, hjob, hdoc⟩ := hjob
  obtain rfl := hlinked.enqueue_again hrow henqueue hjob hdoc
  refine ⟨fun _ _ _ _ h => (by cases h), ?_⟩
  intro now row hrow
  simp [SqlAlchemyJobQueue.claimable, hall row hrow]

theorem upgrade_restored_indexHello : ∃ s₀ row content store,
    run (step helloConfig) init (uploadHello ++ indexHello) = some s₀ ∧
    row ∈ s₀.store.documents.rows ∧ content ∈ s₀.store.contents.rows ∧
    UploadDocumentContentHandler.handle helloConfig row.tenantId row.id content.text.value ⟨21⟩ 5
      (Migration0003.upgrade s₀.store) = (.ok ⟨⟩, store) ∧
    (store.Restored helloConfig row.id ↔ strip content.text.value = [] ∨
      (∀ job ∈ s₀.store.jobs.rows, job.documentId = row.id → job.status = .pending) ∧
        helloConfig.embedder.dimension = embeddingDim) := by
  obtain ⟨s₀, row, content, hrun, hrow, hindexed, hcontent, hdoc, -, hjobs, hjob⟩ :=
    indexHello_completed
  have hlinked := (reachable_linked ⟨_, hrun⟩).store.upgrade
  have hid : ∀ job ∈ s₀.store.jobs.rows, job.id ≠ ⟨21⟩ := fun job hjob => (hjobs job hjob).1
  obtain ⟨contents, jobs, -, hupload, -, -, -, -, henqueue⟩ :=
    hlinked.upload_again hrow (hindexed ▸ by decide) hcontent hdoc hid 5
  have hdrained := restart_drained hlinked hrow henqueue hjob
    (fun job hjob => (hjobs job hjob).2.2 ▸ by decide) contents
  obtain ⟨store, hupload', hruns⟩ :=
    upgrade_restored_iff rfl ⟨_, hrun⟩ hrow hindexed hcontent hdoc hid 5
  rw [hupload] at hupload'
  cases hupload'
  exact ⟨s₀, row, content, _, hrun, hrow, hcontent, hupload, hruns [] _ trivial rfl hdrained⟩

/-- After the migration, the upload leaves the COMPLETED job 20 as it is: there is nothing for a
    worker to do, and the document is INDEXED without a chunk. -/
theorem upgrade_restored_fails : ∃ s₀ row content store labels s,
    run (step helloConfig) init (uploadHello ++ indexHello) = some s₀ ∧
    row ∈ s₀.store.documents.rows ∧ row.status = .indexed ∧
    content ∈ s₀.store.contents.rows ∧ content.documentId = row.id ∧
    UploadDocumentContentHandler.handle helloConfig row.tenantId row.id content.text.value ⟨21⟩ 5
      (Migration0003.upgrade s₀.store) = (.ok ⟨⟩, store) ∧
    Along (step helloConfig) (FaultFree helloConfig) (restart store) labels ∧
    run (step helloConfig) (restart store) labels = some s ∧ s.Drained ∧
    ¬ s.store.Restored helloConfig row.id := by
  obtain ⟨s₀, row, content, hrun, hrow, hindexed, hcontent, hdoc, hvalue, hjobs, hjob⟩ :=
    indexHello_completed
  have hlinked := (reachable_linked ⟨_, hrun⟩).store.upgrade
  have hid : ∀ job ∈ s₀.store.jobs.rows, job.id ≠ ⟨21⟩ := fun job hjob => (hjobs job hjob).1
  obtain ⟨contents, jobs, content', hupload, -, hstored, -, htext, henqueue⟩ :=
    hlinked.upload_again hrow (hindexed ▸ by decide) hcontent hdoc hid 5
  have hdrained := restart_drained hlinked hrow henqueue hjob
    (fun job hjob => (hjobs job hjob).2.2 ▸ by decide) contents
  refine ⟨s₀, row, content, _, [], _, hrun, hrow, hindexed, hcontent, hdoc, hupload, trivial, rfl,
    hdrained, ?_⟩
  intro hrestored
  obtain ⟨stored, hstored', hpieces⟩ := hrestored.chunked
  rw [show Contents.ofDocument contents row.id = some stored from hstored'] at hstored
  cases hstored
  rw [htext, hvalue] at hpieces
  have hblank := (RecursiveCharacterChunker.split_eq_nil_iff _ _).mp hpieces.symm
  revert hblank
  decide

end System

end Eka
