import Eka.System.Spared

/-!
# Every job that is spared is done

In a run that never ends, a job comes to an end (`fair_settles`); what that end is depends on what
happens to it. A job that is spared goes the one way there is (`Underway`), and the end of that
way is COMPLETED: the document is INDEXED with the chunks of its text, and stays so for as long as
nobody deletes it.
-/

namespace Eka

open Py Relational Transition
open RecursiveCharacterChunker (split)

/-! ## Every job has its content -/

/-- A content is stored for the document. -/
def Contents.Has (t : Contents) (documentId : UUID) : Prop :=
  ∃ content, t.ofDocument documentId = some content

/-- `enqueue` comes after `put`, and no content is ever deleted. -/
structure System.Backed (s : System) : Prop where
  calls : ∀ c tenantId documentId document,
    s.calls c = .enqueuing tenantId documentId document → s.store.contents.Has documentId
  jobs : ∀ id row, s.store.jobs.byId id = some row → s.store.contents.Has row.documentId

namespace System

variable {config : Config} {s s' : System} {label : Label}

/-- A content that is stored stays, with this text or another one. -/
theorem step_has (hstep : step config s label = some s') {documentId : UUID}
    (h : s.store.contents.Has documentId) : s'.store.contents.Has documentId := by
  cases step_cases hstep with
  | request => exact h
  | proceed c id now outcome call store leads writes =>
      rcases writes with rfl | ⟨hwrites, -⟩
      · exact h
      · generalize s.calls c = call at hwrites
        cases hwrites.written with
        | registered => exact h
        | deleted => exact h
        | uploaded hput =>
            obtain ⟨stored, -, hcontents⟩ := SqlAlchemyContentStore.put_ok hput
            unfold Contents.Has
            rw [hcontents]
            split
            · exact ⟨_, rfl⟩
            · exact h
        | enqueued => exact h
  | dequeue => exact h
  | advance w now newUuid outcome phase job rest worker store busy leads writes =>
      rcases writes with rfl | ⟨hwrites, -⟩
      · exact h
      · rw [hwrites.contents]
        exact h
  | exit => exact h

/-- A job after a step has the document that it had before, or it has just been enqueued. -/
theorem step_documentId (hstep : step config s label = some s') {id : UUID}
    {row : IngestionJobModel} (hrow : s'.store.jobs.byId id = some row) :
    (∃ old, s.store.jobs.byId id = some old ∧ old.documentId = row.documentId) ∨
      ∃ c tenantId document, s.calls c = .enqueuing tenantId row.documentId document := by
  have kept : s.store.jobs.SameSubjects s'.store.jobs →
      ∃ old, s.store.jobs.byId id = some old ∧ old.documentId = row.documentId := by
    intro hsame
    obtain ⟨old, hold, hsubject⟩ := hsame.old hrow
    exact ⟨old, hold, (congrArg Prod.fst hsubject).symm⟩
  cases step_cases hstep with
  | request => exact .inl ⟨row, hrow, rfl⟩
  | proceed c callId now outcome call store leads writes =>
      rcases writes with rfl | ⟨hwrites, -⟩
      · exact .inl ⟨row, hrow, rfl⟩
      · cases hcall : s.calls c with
        | enqueuing tenantId documentId document =>
            rw [hcall] at hwrites
            obtain ⟨jobId, now, hwrites⟩ := hwrites
            obtain ⟨t, henqueue, rfl⟩ := Fallible.map_ok.mp hwrites
            rcases SqlAlchemyJobQueue.enqueue_ok henqueue with ⟨rfl, -⟩ | ⟨-, hinsert⟩
            · exact .inl ⟨row, hrow, rfl⟩
            · have hrow' : t.byId id = some row := hrow
              rw [SqlAlchemyJobQueue.byId_insert hinsert] at hrow'
              split at hrow'
              · cases hrow'
                exact .inr ⟨c, tenantId, document, hcall⟩
              · exact .inl ⟨row, hrow', rfl⟩
        | _ =>
            rw [hcall] at hwrites
            cases hwrites.written <;> exact .inl ⟨row, hrow, rfl⟩
  | dequeue w workerId batchSize picked now jobs t idle claimed =>
      exact .inl (kept (SqlAlchemyJobQueue.sameSubjects_dequeue claimed))
  | advance w now newUuid outcome phase job rest worker store busy leads writes =>
      rcases writes with rfl | ⟨hwrites, -⟩
      · exact .inl ⟨row, hrow, rfl⟩
      · cases hwrites.written with
        | saved => exact .inl ⟨row, hrow, rfl⟩
        | chunked => exact .inl ⟨row, hrow, rfl⟩
        | completed =>
            exact .inl (kept (SqlAlchemyJobQueue.sameSubjects_complete job now s.store.jobs))
        | failed exc =>
            exact .inl (kept
              (SqlAlchemyJobQueue.sameSubjects_fail job (config.repr exc) now s.store.jobs))
  | exit => exact .inl ⟨row, hrow, rfl⟩

/-- A call before `enqueue` was there before, or has just committed its content. -/
theorem step_enqueuing (hstep : step config s label = some s') {c : Nat}
    {tenantId documentId : UUID} {document : DocumentDTO}
    (hcall : s'.calls c = .enqueuing tenantId documentId document) :
    s.calls c = .enqueuing tenantId documentId document ∨ s'.store.contents.Has documentId := by
  cases step_cases hstep with
  | request d request id now idle =>
      by_cases hd : c = d
      · subst hd
        simp only [Function.update_self] at hcall
        cases request with
        | register =>
            simp only [Call.start] at hcall
            split at hcall <;> cases hcall
        | delete =>
            simp only [Call.start] at hcall
            split at hcall <;> cases hcall
        | upload =>
            simp only [Call.start] at hcall
            split at hcall <;> cases hcall
      · simp only [Function.update_of_ne hd] at hcall
        exact .inl hcall
  | proceed d id now outcome call store leads writes =>
      by_cases hd : c = d
      · subst hd
        simp only [Function.update_self] at hcall
        subst hcall
        right
        generalize s.calls c = before at leads
        cases before with
        | uploading tenantId' documentId' content document' =>
            rcases leads with ⟨heq, hwrites⟩ | heq
            · cases heq
              obtain ⟨at', hput⟩ := hwrites
              obtain ⟨t, ht, rfl⟩ := Fallible.map_ok.mp hput
              obtain ⟨stored, -, hcontents⟩ := SqlAlchemyContentStore.put_ok ht
              exact ⟨_, (hcontents documentId).trans (if_pos rfl)⟩
            · cases heq
        | _ => cases leads
      · simp only [Function.update_of_ne hd] at hcall
        exact .inl hcall
  | dequeue => exact .inl hcall
  | advance => exact .inl hcall
  | exit => exact .inl hcall

/-- In every reachable state, a job has its content. -/
theorem reachable_backed (h : Reachable (step config) init s) : s.Backed := by
  refine h.invariant' ?_ fun s _ _ _ hbacked hstep => ?_
  · constructor
    · intro c tenantId documentId document hcall
      cases hcall
    · intro id row hrow
      cases hrow
  · constructor
    · intro c tenantId documentId document hcall
      rcases step_enqueuing hstep hcall with hbefore | hhas
      · exact step_has hstep (hbacked.calls c tenantId documentId document hbefore)
      · exact hhas
    · intro id row hrow
      refine step_has hstep ?_
      rcases step_documentId hstep hrow with ⟨old, hold, hdoc⟩ | ⟨c, tenantId, document, hcall⟩
      · rw [← hdoc]
        exact hbacked.jobs id old hold
      · exact hbacked.calls c tenantId row.documentId document hcall

end System

/-! ## The end of the way -/

/-- The document is indexed, with the chunks of its text, and its job is done. -/
structure Store.Served (config : Config) (s : Store) (tenantId id jobId : UUID) (content : Str) :
    Prop where
  document : ∃ row, s.documents.byId id = some row ∧ row.tenantId = tenantId ∧
    row.status = .indexed
  chunks : (s.chunks.ofDocument id).map ChunkModel.piece = split config.chunking content
  job : ∃ row, s.jobs.byId jobId = some row ∧ row.status = .completed

namespace System

variable {config : Config} {s : System} {documentId id : UUID} {text : Text}

/-- The job is COMPLETED and at rest, and its document INDEXED with the pieces of the text. -/
theorem Closed.served {row : IngestionJobModel} {content : Str}
    (h : s.Closed row (split config.chunking content)) (hsound : s.Sound config)
    (hcompleted : row.status = .completed)
    (hindexed : s.store.documents.HasStatus row.documentId .indexed) :
    s.store.Served config row.tenantId row.documentId row.id content := by
  obtain ⟨document, hdocument, hstatus⟩ := hindexed
  obtain ⟨same, hsame, htenant, -⟩ := hsound.linked.store.jobs row.id row h.rest.found
  obtain rfl : document = same := Option.some.inj (hdocument.symm.trans hsame)
  exact ⟨⟨document, hdocument, htenant, hstatus⟩, h.pieces, row, h.rest.found, hcompleted⟩

/-- A job that is at rest has come to the end of its way. -/
theorem Underway.served (h : s.Underway config documentId text id)
    (htracks : s.Tracks config documentId text id) {last : IngestionJobModel}
    (hrest : s.queue.AtRest last) (hid : last.id = id) :
    s.store.Served config last.tenantId documentId id text.value := by
  have hlast : s.store.jobs.byId id = some last := hid ▸ hrest.found
  cases h with
  | pending row isRow status =>
      obtain rfl : row = last := Option.some.inj (isRow.symm.trans hlast)
      exact absurd status hrest.unclaimable
  | waiting w phase job rest busy isJob =>
      exact absurd ((has_busy busy).mpr (.inr (hid ▸ isJob))) (hrest.free w)
  | working w phase job rest busy isJob =>
      exact absurd ((has_busy busy).mpr (.inl (hid ▸ isJob))) (hrest.free w)
  | closed row isRow completed closed indexed =>
      obtain rfl : row = last := Option.some.inj ((isRow ▸ closed.rest.found).symm.trans hlast)
      obtain rfl : row.documentId = documentId := htracks.document hlast
      rw [← hid]
      exact closed.served htracks.sound completed indexed

/-- In every fair run, whatever raises, exits, arrives and interleaves around it: a job that is
    PENDING with a document that can be ingested, and is spared from then on, is COMPLETED in the
    end, and its document is INDEXED with exactly the pieces of its text for ever. -/
theorem fair_indexes (hinj : Function.Injective config.sha256) (t : Trace (step config) init)
    (hfair : Fair t) {n : Nat} {row : IngestionJobModel}
    (hrow : row ∈ (t.state n).store.jobs.rows) (hpending : row.status = .pending)
    (hingestible : (t.state n).store.documents.Ingestible row.documentId)
    (hdimension : config.embedder.dimension = embeddingDim)
    (hspares : ∀ k, n ≤ k → (t.state k).Spares config row.documentId row.id (t.label k)) :
    ∃ m text, n ≤ m ∧ SqlAlchemyContentStore.get row.tenantId row.documentId
        (t.state n).store.contents = some text ∧
      ∀ k, m ≤ k →
        (t.state k).store.Served config row.tenantId row.documentId row.id text.value := by
  have hbyId := SqlAlchemyJobQueue.byId_of_mem hrow
  have hsound := reachable_sound (t.reachable n)
  obtain ⟨content, hcontent⟩ := (reachable_backed (t.reachable n)).jobs row.id row hbyId
  have hget : SqlAlchemyContentStore.get row.tenantId row.documentId
      (t.state n).store.contents = some content.text := by
    obtain ⟨hmem, hdoc⟩ := SqlAlchemyContentStore.ofDocument_eq_some.mp hcontent
    have howned := (hsound.linked.store.jobs row.id row hbyId).owned
    exact SqlAlchemyContentStore.get_eq_some.mpr
      ⟨content, hcontent, hsound.linked.store.contents_tenant howned content hmem hdoc, rfl⟩
  -- from here on the text is the same, and the job on its way
  have hway : ∀ k, n ≤ k → (t.state k).Tracks config row.documentId content.text row.id ∧
      (t.state k).Underway config row.documentId content.text row.id := by
    intro k hk
    induction k, hk using Nat.le_induction with
    | base =>
        exact ⟨⟨hsound, ⟨content, hcontent, rfl⟩, row, hbyId, rfl⟩,
          .pending row hbyId hpending hingestible⟩
    | succ k hk ih =>
        obtain ⟨htracks, hunderway⟩ := ih
        have hcontents := step_contents hinj htracks.sound.linked (t.next k)
        exact ⟨htracks.next hcontents (t.next k),
          (hspares k hk).underway htracks (.inr hdimension) hunderway (t.next k)⟩
  obtain ⟨m, last, hm, hkeeps, hrest⟩ := hfair.rests hbyId
  have htenant : last.tenantId = row.tenantId :=
    congrArg (fun subject => subject.2.1) hkeeps.subject
  refine ⟨m, content.text, hm, hget, fun k hk => ?_⟩
  obtain ⟨htracks, hunderway⟩ := hway k (hm.trans hk)
  rw [← htenant]
  exact hunderway.served htracks (trace_atRest hrest hk) hkeeps.id

/-! ### Hello -/

/-- After the upload, worker 0 works on `hello`, and then polls. -/
theorem helloTrace_late {n : Nat} (hn : 5 ≤ n) :
    (∃ workerId batchSize picked now,
      helloTrace.label n = .dequeue 0 workerId batchSize picked now) ∨
      helloTrace.label n = .advance 0 4 (fun i => ⟨30 + BitVec.ofNat 128 i⟩) .returns := by
  have hdrop : helloLabels.drop 5 = indexHello := rfl
  rcases Trace.idling_label_cases hn with hmem | hloop
  · rw [hdrop] at hmem
    rcases List.mem_cons.mp hmem with hdequeue | hadvance
    · exact .inl ⟨_, _, _, _, hdequeue⟩
    · exact .inr (List.eq_of_mem_replicate hadvance)
  · exact .inl ⟨_, _, _, _, hloop⟩

/-- There is no other document, and no other text. -/
def onlyHello (s : System) : Bool :=
  s.store.documents.rows.all (·.id == ⟨10⟩) &&
    s.store.contents.rows.all (·.text.value == "hello".toList)

theorem helloTrace_onlyHello (n : Nat) : onlyHello (helloTrace.state n) = true := by
  have hfirst : ∀ n < 13, onlyHello (helloTrace.state n) = true := by decide +kernel
  have hlast : onlyHello helloIndexed = true := by decide +kernel
  by_cases hn : n < 13
  · exact hfirst n hn
  · rw [helloTrace_state (Nat.le_of_not_lt hn)]
    exact hlast

/-- The new ids of its chunk are no chunk's of another document: there is none. -/
theorem helloTrace_fresh {n w : Nat} {text : Text} {job : IngestionJob}
    {rest : List IngestionJob}
    (hbusy : (helloTrace.state n).workers w = .busy (.handling (.fetched text)) job rest) :
    HandleEnv.Fresh ⟨fun _ => .returns, fun _ => 4, fun i => ⟨30 + BitVec.ofNat 128 i⟩⟩
      job.documentId (split helloConfig.chunking text.value).length
        (helloTrace.state n).store.chunks := by
  have hreach := helloTrace.reachable n
  obtain ⟨hdocuments, hcontents⟩ := Bool.and_eq_true_iff.mp (helloTrace_onlyHello n)
  rw [List.all_eq_true] at hdocuments hcontents
  have hlinked := (reachable_linked hreach).store
  obtain ⟨content, hcontent, rfl⟩ :=
    (reachable_indexed helloSha256_injective hreach).workers w _ job rest hbusy
  obtain ⟨hmem, -⟩ := SqlAlchemyContentStore.ofDocument_eq_some.mp hcontent
  rw [eq_of_beq (hcontents content hmem)]
  have hlength : (split helloConfig.chunking "hello".toList).length = 1 := rfl
  rw [hlength]
  refine ⟨fun i j hi hj _ => by omega, ?_⟩
  intro i _ chunk hchunk hother
  obtain ⟨row, hrow, -⟩ := hlinked.chunks chunk hchunk
  obtain ⟨row', hrow', -⟩ := held_described (reachable_owned hreach) hlinked hbusy
  obtain ⟨hmem, hid⟩ := Documents.byId_eq_some.mp hrow
  obtain ⟨hmem', hid'⟩ := Documents.byId_eq_some.mp hrow'
  have hsame : row.id = row'.id :=
    (eq_of_beq (hdocuments row hmem)).trans (eq_of_beq (hdocuments row' hmem')).symm
  exact absurd (hid.symm.trans (hsame.trans hid')) hother

theorem helloTrace_spares {n : Nat} (hn : 5 ≤ n) :
    (helloTrace.state n).Spares helloConfig ⟨10⟩ ⟨20⟩ (helloTrace.label n) := by
  rcases helloTrace_late hn with ⟨workerId, batchSize, picked, now, hlabel⟩ | hlabel
  · rw [hlabel]
    constructor
    · rintro w now newUuid outcome phase job rest ⟨⟩
    · rintro w now newUuid outcome text job rest ⟨⟩
    · rintro w - ⟨⟩
    · rintro w now newUuid outcome exc job rest ⟨⟩
    · rintro c callId now outcome loaded document ⟨⟩
  · rw [hlabel]
    constructor
    · rintro w now newUuid outcome phase job rest ⟨⟩ - -
      rfl
    · rintro w now newUuid outcome text job rest ⟨⟩ hbusy -
      exact helloTrace_fresh hbusy
    · rintro w - ⟨⟩
    · rintro w now newUuid outcome exc job rest ⟨⟩ - -
      rfl
    · rintro c callId now outcome loaded document ⟨⟩

theorem fair_indexes_hello : ∃ (t : Trace (step helloConfig) init) (n m : Nat), Fair t ∧ n ≤ m ∧
    (∃ row ∈ (t.state n).store.jobs.rows, row.id = ⟨20⟩ ∧ row.status = .pending) ∧
    ∀ k, m ≤ k → (t.state k).store.Served helloConfig ⟨1⟩ ⟨10⟩ ⟨20⟩ "hello".toList := by
  have hrow : SqlAlchemyJobQueue.newRow ⟨20⟩ ⟨1⟩ ⟨10⟩ ⟨2⟩ 1 5 2 ∈
      (helloTrace.state 5).store.jobs.rows := by
    rw [helloTrace_uploaded]
    exact List.mem_cons_self
  have hingestible : (helloTrace.state 5).store.documents.Ingestible ⟨10⟩ := by
    rw [helloTrace_uploaded]
    exact ⟨.registered, ⟨_, rfl, rfl⟩, by decide⟩
  obtain ⟨m, text, hm, hget, hserved⟩ := fair_indexes helloSha256_injective helloTrace
    helloTrace_fair hrow rfl hingestible rfl fun k hk => helloTrace_spares hk
  have htext : text.value = "hello".toList := by
    rw [helloTrace_uploaded] at hget
    cases hget
    rfl
  rw [htext] at hserved
  exact ⟨helloTrace, 5, m, helloTrace_fair, hm, ⟨_, hrow, rfl, rfl⟩, hserved⟩

end System

end Eka
