import Eka.System.Sequential
import Eka.System.Settled

/-!
# INDEXED means indexed

An upload is checked against the digest of the registration, so with an injective
digest the content of a document never changes once there is one. Every chunk
transaction writes the pieces of that content, so once a worker has committed the
chunks of a document they are right for ever, whoever processes it again; and a worker
marks a document INDEXED only after its chunk transaction.
-/

namespace Eka

open Py Relational Transition
open RecursiveCharacterChunker (split)

/-- The chunk rows of a document are one for each piece of its content, in order. -/
def Store.Chunked (config : Config) (s : Store) (documentId : UUID) : Prop :=
  ∃ content, s.contents.ofDocument documentId = some content ∧
    (s.chunks.ofDocument documentId).map ChunkModel.piece =
      split config.chunking content.text.value

/-- What a worker has read or committed so far. -/
def Phase.Holds (config : Config) (s : Store) (job : IngestionJob) : Phase → Prop
  | .handling (.fetched text) =>
      ∃ content, s.contents.ofDocument job.documentId = some content ∧ content.text = text
  | .handling .stored => s.Chunked config job.documentId
  | .handling (.indexing _ _) => s.Chunked config job.documentId
  | _ => True

structure System.Indexed (config : Config) (s : System) : Prop where
  documents : ∀ id row, s.store.documents.byId id = some row → row.status = .indexed →
    s.store.Chunked config id
  workers : ∀ w phase job rest, s.workers w = .busy phase job rest →
    phase.Holds config s.store job

/-- Every content is still there, with its text. -/
def Store.KeepsContents (s s' : Store) : Prop :=
  ∀ id content, s.contents.ofDocument id = some content →
    ∃ content', s'.contents.ofDocument id = some content' ∧ content'.text = content.text

/-- The chunks of a document are as they were, or as they should be. -/
def Store.Rechunks (config : Config) (s s' : Store) : Prop :=
  ∀ id, s'.chunks.ofDocument id = s.chunks.ofDocument id ∨ s'.Chunked config id

namespace Store

variable {config : Config} {s s' : Store}

theorem KeepsContents.of_eq (h : s'.contents = s.contents) : s.KeepsContents s' := by
  intro id content hcontent
  exact ⟨content, h ▸ hcontent, rfl⟩

theorem Rechunks.of_eq (h : s'.chunks = s.chunks) : s.Rechunks config s' :=
  fun _ => .inl (by rw [h])

theorem Chunked.keep {documentId : UUID} (h : s.Chunked config documentId)
    (hcontents : s.KeepsContents s') (hchunks : s.Rechunks config s') :
    s'.Chunked config documentId := by
  rcases hchunks documentId with hsame | hnew
  · obtain ⟨content, hcontent, hpieces⟩ := h
    obtain ⟨content', hcontent', htext⟩ := hcontents documentId content hcontent
    exact ⟨content', hcontent', by rw [hsame, hpieces, htext]⟩
  · exact hnew

/-- A text that may be uploaded for a document is the one that is stored. -/
theorem Linked.content_unique (hinj : Function.Injective config.sha256) (h : s.Linked config)
    {documentId tenantId : UUID} {text : Str}
    (hhash : s.documents.Hashes documentId tenantId (config.sha256 text))
    {content : DocumentContentModel} (hcontent : s.contents.ofDocument documentId = some content) :
    content.text.value = text := by
  obtain ⟨row, hrow, -, hdigest⟩ := hhash
  obtain ⟨row', hrow', -, hdigest'⟩ := h.contents documentId content hcontent
  obtain rfl : row = row' := Option.some.inj (hrow.symm.trans hrow')
  exact hinj (hdigest'.symm.trans hdigest)

theorem Linked.keepsContents_put (hinj : Function.Injective config.sha256) (h : s.Linked config)
    {documentId tenantId : UUID} {text : Str} {now : Instant} {t : Contents}
    (hhash : s.documents.Hashes documentId tenantId (config.sha256 text))
    (hput : SqlAlchemyContentStore.put tenantId documentId text now s.contents = .ok t) :
    s.KeepsContents { s with contents := t } := by
  obtain ⟨stored, hvalue, hrows⟩ := SqlAlchemyContentStore.put_ok hput
  intro id content hcontent
  by_cases hid : id = documentId
  · subst hid
    have hsame : content.text.value = stored.value :=
      (h.content_unique hinj hhash hcontent).trans hvalue.symm
    refine ⟨_, (hrows id).trans (if_pos rfl), ?_⟩
    rw [SqlAlchemyContentStore.upserted, hcontent]
    show stored = content.text
    cases hs : stored
    cases hc : content.text
    rw [hs, hc] at hsame
    cases hsame
    rfl
  · exact ⟨content, (hrows id).trans ((if_neg hid).trans hcontent), rfl⟩

/-- The chunk transaction of a job, seen from each document. -/
theorem Linked.ofDocument_storeChunks (h : s.Linked config) {job : IngestionJob}
    {newUuid : Nat → UUID} {text : Str} {now : Instant} {t : Chunks}
    (hjob : s.documents.Describes job.documentId job.tenantId job.collectionId
      job.documentVersion)
    (hstore : IngestDocumentHandler.storeChunks config job newUuid text now s.chunks = .ok t)
    (id : UUID) :
    (id ≠ job.documentId ∧ t.ofDocument id = s.chunks.ofDocument id) ∨
      (id = job.documentId ∧
        (t.ofDocument id).map ChunkModel.piece = split config.chunking text) := by
  obtain ⟨rows, ht, hpieces, hcolumns⟩ := IngestDocumentHandler.storeChunks_ok hstore
  unfold Chunks.ofDocument
  rw [ht, List.filter_append]
  by_cases hid : id = job.documentId
  · right
    subst hid
    -- every old row of the document carries the job's tenant, so none is left
    have hold : (s.chunks.rows.filter fun r =>
        !SqlAlchemyChunkRepository.ofDocument job.tenantId job.documentId r).filter
          (fun r => r.documentId == job.documentId) = [] := by
      refine List.filter_eq_nil_iff.mpr ?_
      intro r hr hdoc
      obtain ⟨hmem, hkept⟩ := List.mem_filter.mp hr
      obtain ⟨row, hrow, htenant, -⟩ := h.chunks r hmem
      obtain ⟨row', hrow', htenant', -⟩ := hjob
      rw [beq_iff_eq.mp hdoc] at hrow
      obtain rfl : row = row' := Option.some.inj (hrow.symm.trans hrow')
      simp only [SqlAlchemyChunkRepository.ofDocument, hdoc, Bool.and_true, Bool.not_eq_true',
        beq_eq_false_iff_ne] at hkept
      exact hkept (htenant.symm.trans htenant')
    have hnew : rows.filter (fun r => r.documentId == job.documentId) = rows := by
      refine List.filter_eq_self.mpr ?_
      intro r hr
      exact beq_iff_eq.mpr (hcolumns r hr).2.1
    rw [hold, hnew, List.nil_append]
    exact ⟨rfl, hpieces⟩
  · left
    refine ⟨hid, ?_⟩
    have hnew : rows.filter (fun r => r.documentId == id) = [] := by
      refine List.filter_eq_nil_iff.mpr ?_
      intro r hr hdoc
      exact hid ((beq_iff_eq.mp hdoc).symm.trans (hcolumns r hr).2.1)
    rw [hnew, List.append_nil, List.filter_filter]
    refine List.filter_congr ?_
    intro r _
    by_cases hdoc : r.documentId = id
    · have hne : r.documentId ≠ job.documentId := hdoc.trans_ne hid
      simp [SqlAlchemyChunkRepository.ofDocument, hdoc, hid]
    · simp [hdoc]

end Store

theorem Phase.Holds.keep {config : Config} {s s' : Store} {job : IngestionJob} {phase : Phase}
    (h : phase.Holds config s job) (hcontents : s.KeepsContents s')
    (hchunks : s.Rechunks config s') : phase.Holds config s' job := by
  cases phase with
  | handling phase =>
      cases phase with
      | fetched text =>
          obtain ⟨content, hcontent, htext⟩ := h
          obtain ⟨content', hcontent', htext'⟩ := hcontents _ content hcontent
          exact ⟨content', hcontent', htext'.trans htext⟩
      | stored => exact Store.Chunked.keep h hcontents hchunks
      | indexing => exact Store.Chunked.keep h hcontents hchunks
      | start => trivial
      | ingesting => trivial
      | marked => trivial
  | handled => trivial
  | raised => trivial
  | deadLettered => trivial
  | failing => trivial

/-! ## Every step keeps it -/

namespace System

variable {config : Config} {s s' : System} {label : Label}

theorem step_contents (hinj : Function.Injective config.sha256) (hlinked : s.Linked config)
    (hstep : step config s label = some s') : s.store.KeepsContents s'.store := by
  cases step_cases hstep with
  | request => exact .of_eq rfl
  | proceed c id now outcome call store leads writes =>
      rcases writes with rfl | ⟨hwrites, -⟩
      · exact .of_eq rfl
      · have hcall := hlinked.calls c
        generalize s.calls c = call at hwrites hcall
        cases hwrites.written with
        | registered => exact .of_eq rfl
        | deleted => exact .of_eq rfl
        | uploaded hput => exact hlinked.store.keepsContents_put hinj hcall.1 hput
        | enqueued => exact .of_eq rfl
  | dequeue => exact .of_eq rfl
  | advance w now newUuid outcome phase job rest worker store busy leads writes =>
      rcases writes with rfl | ⟨hwrites, -⟩
      · exact .of_eq rfl
      · exact .of_eq hwrites.contents
  | exit => exact .of_eq rfl

/-- A chunk transaction leaves the document of its job with the chunks of its content. -/
theorem chunked_storeChunks (hlinked : s.Linked config) {job : IngestionJob}
    {newUuid : Nat → UUID} {text : Text} {now : Instant} {store : Store}
    (hjob : s.store.documents.Describes job.documentId job.tenantId job.collectionId
      job.documentVersion)
    (hholds : Phase.Holds config s.store job (.handling (.fetched text)))
    (hwrites : Phase.Writes config job now newUuid s.store store (.handling (.fetched text))) :
    store.Chunked config job.documentId ∧ s.store.Rechunks config store := by
  obtain ⟨content, hcontent, rfl⟩ := hholds
  obtain ⟨t, ht, rfl⟩ := Fallible.map_ok.mp hwrites
  have heach := hlinked.store.ofDocument_storeChunks hjob ht
  have hchunked : Store.Chunked config { s.store with chunks := t } job.documentId := by
    rcases heach job.documentId with ⟨hne, -⟩ | ⟨-, hpieces⟩
    · exact absurd rfl hne
    · exact ⟨content, hcontent, hpieces⟩
  refine ⟨hchunked, ?_⟩
  intro id
  rcases heach id with ⟨-, hsame⟩ | ⟨rfl, -⟩
  · exact .inl hsame
  · exact .inr hchunked

theorem step_chunks (howned : s.queue.Owned) (hlinked : s.Linked config)
    (hholds : ∀ w phase job rest, s.workers w = .busy phase job rest →
      phase.Holds config s.store job) (hstep : step config s label = some s') :
    s.store.Rechunks config s'.store := by
  cases step_cases hstep with
  | request => exact .of_eq rfl
  | proceed c id now outcome call store leads writes =>
      rcases writes with rfl | ⟨hwrites, -⟩
      · exact .of_eq rfl
      · exact .of_eq hwrites.chunks
  | dequeue => exact .of_eq rfl
  | advance w now newUuid outcome phase job rest worker store busy leads writes =>
      rcases writes with rfl | ⟨hwrites, -⟩
      · exact .of_eq rfl
      · cases hwrites.written with
        | saved => exact .of_eq rfl
        | chunked =>
            exact (chunked_storeChunks hlinked (held_described howned hlinked.store busy)
              (hholds w _ job rest busy) hwrites).2
        | completed => exact .of_eq rfl
        | failed => exact .of_eq rfl
  | exit => exact .of_eq rfl

/-- What a worker holds after its step. -/
theorem Phase.Goes.holds {store : Store} {phase : Phase} {job : IngestionJob}
    {rest : List IngestionJob} {now : Instant} {newUuid : Nat → UUID} {phase' : Phase}
    {job' : IngestionJob} {rest' : List IngestionJob}
    (h : Phase.Goes config job rest now newUuid s.store store phase phase' job' rest')
    (hlinked : s.Linked config)
    (hjob : s.store.documents.Describes job.documentId job.tenantId job.collectionId
      job.documentVersion)
    (hholds : phase.Holds config s.store job) : phase'.Holds config store job' := by
  cases h with
  | next => trivial
  | @handling phase phase' hphase =>
      cases phase with
      | start =>
          obtain ⟨-, loaded, document, heq, -⟩ := hphase
          cases heq
          trivial
      | ingesting loaded document =>
          cases hphase.1
          trivial
      | marked =>
          obtain ⟨rfl, text, heq, hget⟩ := hphase
          cases heq
          obtain ⟨content, hcontent, -, htext⟩ := SqlAlchemyContentStore.get_eq_some.mp hget
          exact ⟨content, hcontent, htext⟩
      | fetched text =>
          obtain ⟨heq, hwrites⟩ := hphase
          cases heq
          exact (chunked_storeChunks hlinked hjob hholds hwrites).1
      | stored =>
          obtain ⟨rfl, loaded, document, heq, -⟩ := hphase
          cases heq
          exact hholds
      | indexing loaded document => cases hphase.1
  | handled => trivial
  | raised => trivial
  | deadLettered => trivial
  | failing => trivial

/-- What the workers hold after a step that keeps the contents. -/
theorem step_holds (howned : s.queue.Owned) (hlinked : s.Linked config)
    (hholds : ∀ w phase job rest, s.workers w = .busy phase job rest →
      phase.Holds config s.store job)
    (hcontents : s.store.KeepsContents s'.store) (hstep : step config s label = some s') :
    ∀ w phase job rest, s'.workers w = .busy phase job rest →
      phase.Holds config s'.store job := by
  have hchunks := step_chunks howned hlinked hholds hstep
  intro w phase' job' rest' hbusy
  rcases busy_cases hstep hbusy with hbusy | rfl | ⟨now, newUuid, phase, job, rest, hbefore, hgoes⟩
  · exact (hholds w phase' job' rest' hbusy).keep hcontents hchunks
  · trivial
  · exact Phase.Goes.holds hgoes hlinked (held_described howned hlinked.store hbefore)
      (hholds w phase job rest hbefore)

theorem step_indexed (hinj : Function.Injective config.sha256) (howned : s.queue.Owned)
    (hlinked : s.Linked config) (h : s.Indexed config)
    (hstep : step config s label = some s') : s'.Indexed config := by
  have hcontents := step_contents hinj hlinked hstep
  have hchunks := step_chunks howned hlinked h.workers hstep
  refine ⟨?_, step_holds howned hlinked h.workers hcontents hstep⟩
  intro id row' hrow' hstatus'
  cases step_moves hlinked hstep hrow' with
  | stays row hrow status =>
      exact (h.documents id row hrow (status.symm.trans hstatus')).keep hcontents hchunks
  | added new status => cases status.symm.trans hstatus'
  | deleted c callId now outcome loaded document row isLabel effect call isRow hrow status =>
      cases status.symm.trans hstatus'
  | moved w now newUuid outcome phase job rest target row isLabel effect busy writes isRow hrow
      status =>
      -- only `mark_indexed` writes INDEXED, and its worker has stored the chunks
      have hholds := h.workers w phase job rest busy
      rw [status.symm.trans hstatus'] at writes
      cases phase with
      | handling phase =>
          cases phase with
          | indexing loaded document =>
              rw [← isRow]
              exact Store.Chunked.keep hholds hcontents hchunks
          | start => cases writes
          | ingesting => cases writes
          | marked => cases writes
          | fetched => cases writes
          | stored => cases writes
      | handled => cases writes
      | raised => cases writes
      | deadLettered => cases writes
      | failing => cases writes

theorem reachable_indexed (hinj : Function.Injective config.sha256)
    (h : Reachable (step config) init s) : s.Indexed config := by
  refine h.invariant' ?_ fun _ _ _ hs hindexed hstep =>
    step_indexed hinj (reachable_owned hs) (reachable_linked hs) hindexed hstep
  constructor
  · simp [init, Store.empty]
  · intro w phase job rest hbusy
    cases hbusy

/-- In every reachable state, an INDEXED document has its content stored under its tenant, one
    chunk row for each piece of it with the document's columns, and a document whose job is
    COMPLETED is INDEXED or DELETED. -/
theorem reachable_indexed_exact (hinj : Function.Injective config.sha256)
    (h : Reachable (step config) init s) {row : DocumentModel}
    (hrow : row ∈ s.store.documents.rows) :
    (row.status = .indexed → ∃ content ∈ s.store.contents.rows,
      content.documentId = row.id ∧ content.tenantId = row.tenantId ∧
      config.sha256 content.text.value = row.contentHash.value ∧
      (s.store.chunks.ofDocument row.id).map ChunkModel.piece =
        split config.chunking content.text.value ∧
      (s.store.chunks.ofDocument row.id).map (·.ordinal) =
        List.range (split config.chunking content.text.value).length ∧
      ∀ chunk ∈ s.store.chunks.ofDocument row.id, chunk.tenantId = row.tenantId ∧
        chunk.collectionId = row.collectionId ∧ chunk.documentVersion = row.version) ∧
    ∀ job ∈ s.store.jobs.rows, job.documentId = row.id → job.status = .completed →
      row.status = .indexed ∨ row.status = .deleted := by
  have hlinked := reachable_linked h
  have hbyId := Documents.byId_of_mem hrow
  constructor
  · intro hstatus
    obtain ⟨content, hcontent, hpieces⟩ :=
      (reachable_indexed hinj h).documents row.id row hbyId hstatus
    obtain ⟨hmem, hdoc⟩ := SqlAlchemyContentStore.ofDocument_eq_some.mp hcontent
    obtain ⟨row₁, hrow₁, htenant, hhash⟩ := hlinked.store.contents row.id content hcontent
    obtain rfl : row = row₁ := Option.some.inj (hbyId.symm.trans hrow₁)
    refine ⟨content, hmem, hdoc, htenant.symm, hhash.symm, hpieces, ?_, ?_⟩
    · rw [← RecursiveCharacterChunker.split_ordinals, ← hpieces, List.map_map]
      rfl
    · intro chunk hchunk
      obtain ⟨hmemc, hdocc⟩ := List.mem_filter.mp hchunk
      obtain ⟨row₂, hrow₂, ht, hc, hv⟩ := hlinked.store.chunks chunk hmemc
      rw [beq_iff_eq.mp hdocc] at hrow₂
      obtain rfl : row = row₂ := Option.some.inj (hbyId.symm.trans hrow₂)
      exact ⟨ht.symm, hc.symm, hv.symm⟩
  · intro job hjob hdoc hcompleted
    obtain ⟨row₁, hrow₁, hstatus⟩ := (reachable_settled h).completed job.id job
      (SqlAlchemyJobQueue.byId_of_mem hjob) hcompleted
    rw [hdoc] at hrow₁
    obtain rfl : row = row₁ := Option.some.inj (hbyId.symm.trans hrow₁)
    exact hstatus

end System

/-! ### A run -/

/-- The SHA-256 digest of `hello`. -/
def helloDigest : Str :=
  "2cf24dba5fb0a30e26e83b2ac5b9e29e1b161e5c1fa7425e73043362938b9824".toList

/-- An injective stand-in for the digest function that is right about `hello`. -/
def helloSha256 (text : Str) : Str := if text = "hello".toList then helloDigest else 'x' :: text

theorem helloSha256_injective : Function.Injective helloSha256 := by
  intro a b h
  unfold helloSha256 at h
  split at h <;> split at h
  · next ha hb => rw [ha, hb]
  · cases h
  · cases h
  · exact List.cons_injective h

def helloConfig : Config where
  chunking := .default
  embedder :=
    ⟨embeddingDim, fun _ => ⟨List.replicate embeddingDim 1,
      List.ne_nil_of_length_pos (by rw [List.length_replicate]; decide)⟩,
      fun _ => List.length_replicate⟩
  sha256 := helloSha256
  maxAttempts := 5
  maxAttemptsPos := by decide
  repr := fun _ => []

def helloCommand : RegisterDocumentCommand where
  tenantId := ⟨1⟩
  collectionId := ⟨2⟩
  title := "Hello".toList
  sourceType := "upload".toList
  sourceUri := "s3://b/hello".toList
  contentHash := helloDigest

/-- Document 10 is registered, and its content uploaded under job 20. -/
def uploadHello : List Label :=
  [.request 0 (.register helloCommand) ⟨10⟩ 1,
    .proceed 0 ⟨10⟩ 1 .returns,
    .request 0 (.upload ⟨1⟩ ⟨10⟩ "hello".toList) ⟨20⟩ 2,
    .proceed 0 ⟨20⟩ 2 .returns,
    .proceed 0 ⟨20⟩ 2 .returns]

/-- The aggregate that the registration adds. -/
def helloDocument : Document :=
  .register ⟨10⟩ 1 ⟨1⟩ ⟨2⟩ ⟨"Hello".toList, by decide, by decide, by decide⟩ .upload
    "s3://b/hello".toList ⟨helloDigest, by decide +kernel⟩

def helloRegistered : Store :=
  { Store.empty with documents := ⟨[.ofDomain helloDocument], List.pairwise_singleton ..⟩ }

theorem hello_noNul : '\x00' ∉ "hello".toList := by decide

def helloUploaded (maxAttempts : Nat) : Store :=
  { helloRegistered with
    contents := ⟨[⟨⟨10⟩, ⟨1⟩, ⟨"hello".toList, hello_noNul⟩, 2, 2⟩], List.pairwise_singleton ..⟩
    jobs := ⟨[SqlAlchemyJobQueue.newRow ⟨20⟩ ⟨1⟩ ⟨10⟩ ⟨2⟩ 1 maxAttempts 2],
      List.pairwise_singleton ..⟩ }

/-- Worker 0 claims job 20 and takes it through `handle` and `complete`. -/
def indexHello : List Label :=
  .dequeue 0 "w".toList 5 [⟨20⟩] 3 ::
    List.replicate 7 (.advance 0 4 (fun i => ⟨30 + BitVec.ofNat 128 i⟩) .returns)

namespace System

theorem run_uploadHello {config : Config} (hsha : config.sha256 = helloSha256) :
    run (step config) init uploadHello =
      some { init with store := helloUploaded config.maxAttempts } := by
  have hlookup : RegisterDocumentHandler.lookup helloCommand ⟨10⟩ 1 init.store.documents =
      .ok (.inr helloDocument) := by decide +kernel
  have hregister : Call.start config ⟨10⟩ 1 init.store (.register helloCommand) =
      .registering helloDocument := by
    simp only [Call.start, hlookup]
  have hcheck : UploadDocumentContentHandler.check config ⟨1⟩ ⟨10⟩ "hello".toList
      helloRegistered.documents = .ok (.fromAggregate helloDocument) := by
    unfold UploadDocumentContentHandler.check
    rw [hsha]
    rfl
  have hfirst : run (step config) init [_, _] = some { init with store := helloRegistered } :=
    once_run (c := 0) rfl hregister rfl
  have hrest : run (step config) { init with store := helloRegistered } [_, _, _] =
      some { init with store := helloUploaded config.maxAttempts } :=
    upload_run (c := 0) rfl hcheck rfl rfl
  exact run_append.mpr ⟨_, hfirst, hrest⟩

theorem indexHello_statuses : (run (step helloConfig) init (uploadHello ++ indexHello)).map
    (fun s => s.store.documents.rows.map (·.status)) = some [.indexed] := by
  decide +kernel

theorem reachable_indexed_exact_hello : ∃ s row,
    run (step helloConfig) init (uploadHello ++ indexHello) = some s ∧
      row ∈ s.store.documents.rows ∧ row.status = .indexed ∧
      ∃ content ∈ s.store.contents.rows,
        content.documentId = row.id ∧ content.tenantId = row.tenantId ∧
        helloConfig.sha256 content.text.value = row.contentHash.value ∧
        (s.store.chunks.ofDocument row.id).map ChunkModel.piece =
          split helloConfig.chunking content.text.value := by
  obtain ⟨s, hrun, hstatuses⟩ := Option.map_eq_some_iff.mp indexHello_statuses
  obtain ⟨row, hrow, hstatus⟩ := List.mem_map.mp (hstatuses ▸ List.mem_cons_self)
  obtain ⟨content, hmem, hdoc, htenant, hhash, hpieces, -⟩ :=
    (reachable_indexed_exact helloSha256_injective ⟨_, hrun⟩ hrow).1 hstatus
  exact ⟨s, row, hrun, hrow, hstatus, content, hmem, hdoc, htenant, hhash, hpieces⟩

end System

end Eka
