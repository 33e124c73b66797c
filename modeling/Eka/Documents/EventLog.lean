import Eka.Documents.Document
import Eka.Lib.Fallible
import Eka.Lib.Saga

/-!
# The event log of a document

The methods of the aggregate once more, assignment by assignment: an exception leaves what has
been assigned before it. They do what their functions say, and the events that are recorded over
any calls tell the state of the document.
-/

namespace Eka

open Py

namespace Document

/-! ## The methods -/

namespace Method

/-- `record` (`shared/domain/base.py:57-58`). -/
def record (event : DomainEvent) : Saga Document Error PUnit :=
  Saga.modify fun doc => { doc with events := doc.events ++ [event] }

/-- `pull_events` (`shared/domain/base.py:60-62`). -/
def pullEvents : Saga Document Error (List DomainEvent) := do
  let events ← Saga.read (·.events)
  Saga.modify fun doc => { doc with events := [] }
  pure events

/-- `_transition` (`document.py:158-164`). -/
def transition (target : DocumentStatus) (now : Instant) : Saga Document Error PUnit := do
  let status ← Saga.read (·.status)
  if target ∉ allowedTransitions status then
    Saga.raise (.stateTransitionError ("cannot move document from ".toList ++ status.value ++
      " to ".toList ++ target.value))
  else
    Saga.modify fun doc => { doc with status := target }
    Saga.modify fun doc => { doc with updatedAt := now }

def markIngesting (now : Instant) : Saga Document Error PUnit := transition .ingesting now

def markIndexed (now : Instant) : Saga Document Error PUnit := transition .indexed now

def markFailed (now : Instant) : Saga Document Error PUnit := transition .failed now

/-- `change_content` (`document.py:175-191`). -/
def changeContent (newHash : ContentHash) (now : Instant) : Saga Document Error PUnit := do
  let status ← Saga.read (·.status)
  let contentHash ← Saga.read (·.contentHash)
  if status = .deleted then
    Saga.raise (.stateTransitionError "cannot change content of a deleted document".toList)
  else if newHash.value = contentHash.value then
    pure ⟨⟩
  else
    Saga.modify fun doc => { doc with contentHash := newHash }
    Saga.modify fun doc => { doc with version := doc.version + 1 }
    Saga.modify fun doc => { doc with status := .registered }
    Saga.modify fun doc => { doc with updatedAt := now }
    let event ← Saga.read fun doc =>
      .documentContentChanged doc.id doc.tenantId newHash.value doc.version
    record event

/-- `delete` (`document.py:193-197`). -/
def delete (now : Instant) : Saga Document Error PUnit := do
  let status ← Saga.read (·.status)
  if status = .deleted then
    pure ⟨⟩
  else
    transition .deleted now
    let event ← Saga.read fun doc => .documentDeleted doc.id doc.tenantId
    record event

/-! ## They do what their functions say -/

theorem transition_eq (target : DocumentStatus) (now : Instant) :
    transition target now = Saga.transact (Document.transition target now) := by
  funext doc
  by_cases htarget : target ∈ allowedTransitions doc.status
  · rw [Saga.transact_of_ok (transition_of_mem htarget)]
    unfold transition
    rw [Saga.read_bind, if_neg (not_not_intro htarget)]
    rfl
  · have herror : Document.transition target now doc =
        .error (.stateTransitionError ("cannot move document from ".toList ++ doc.status.value ++
          " to ".toList ++ target.value)) := if_neg htarget
    rw [Saga.transact_of_error herror]
    unfold transition
    rw [Saga.read_bind, if_pos htarget]
    rfl

theorem changeContent_eq (newHash : ContentHash) (now : Instant) :
    changeContent newHash now = Saga.transact (Document.changeContent newHash now) := by
  funext doc
  unfold changeContent Saga.transact Document.changeContent
  rw [Saga.read_bind, Saga.read_bind]
  by_cases hdeleted : doc.status = .deleted
  · rw [if_pos hdeleted, if_pos hdeleted]
    rfl
  · rw [if_neg hdeleted, if_neg hdeleted]
    by_cases hsame : newHash.value = doc.contentHash.value
    · rw [if_pos hsame, if_pos hsame]
      rfl
    · rw [if_neg hsame, if_neg hsame]
      rfl

theorem delete_eq (now : Instant) : delete now = Saga.transact (Document.delete now) := by
  funext doc
  unfold delete
  rw [Saga.read_bind]
  by_cases hdeleted : doc.status = .deleted
  · have hok : Document.delete now doc = .ok doc := if_pos hdeleted
    rw [if_pos hdeleted, Saga.transact_of_ok hok]
    rfl
  · have hmem := deleted_mem_allowedTransitions.mpr hdeleted
    rw [if_neg hdeleted, Saga.transact_of_ok (delete_live hdeleted), transition_eq,
      Saga.bind_of_ok (Saga.transact_of_ok (transition_of_mem hmem))]
    rfl

end Method

end Document

/-! ## Calls on a document -/

/-- A call on a document, at a time. -/
inductive DocumentCall where
  | markIngesting (now : Instant)
  | markIndexed (now : Instant)
  | markFailed (now : Instant)
  | changeContent (newHash : ContentHash) (now : Instant)
  | delete (now : Instant)
  | pullEvents

/-- The method that is called, with the events that it hands out. -/
def DocumentCall.method : DocumentCall → Saga Document Error (List DomainEvent)
  | .markIngesting now => do Document.Method.markIngesting now; pure []
  | .markIndexed now => do Document.Method.markIndexed now; pure []
  | .markFailed now => do Document.Method.markFailed now; pure []
  | .changeContent newHash now => do Document.Method.changeContent newHash now; pure []
  | .delete now => do Document.Method.delete now; pure []
  | .pullEvents => Document.Method.pullEvents

namespace DocumentCall

/-- The function of a call: its answer and the document after it, or an exception. -/
def function : DocumentCall → Document → Except Error (List DomainEvent × Document)
  | .markIngesting now, doc => (doc.markIngesting now).map fun doc' => ([], doc')
  | .markIndexed now, doc => (doc.markIndexed now).map fun doc' => ([], doc')
  | .markFailed now, doc => (doc.markFailed now).map fun doc' => ([], doc')
  | .changeContent newHash now, doc => (doc.changeContent newHash now).map fun doc' => ([], doc')
  | .delete now, doc => (doc.delete now).map fun doc' => ([], doc')
  | .pullEvents, doc => .ok doc.pullEvents

theorem silent_eq {method : Saga Document Error PUnit} {f : Document → Except Error Document}
    (h : method = Saga.transact f) :
    (method >>= fun _ => pure []) =
      Saga.perform fun doc => (f doc).map fun doc' => (([] : List DomainEvent), doc') := by
  rw [h, Saga.transact_bind_pure]

theorem silent_ok {f : Document → Except Error Document} {events : List DomainEvent}
    {doc doc' : Document}
    (h : (f doc).map (fun doc' => (([] : List DomainEvent), doc')) = .ok (events, doc')) :
    f doc = .ok doc' ∧ events = [] := by
  obtain ⟨_, hdoc, heq⟩ := Fallible.map_ok.mp h
  cases heq
  exact ⟨hdoc, rfl⟩

theorem method_eq (c : DocumentCall) : c.method = Saga.perform c.function := by
  cases c with
  | markIngesting now => exact silent_eq (Document.Method.transition_eq .ingesting now)
  | markIndexed now => exact silent_eq (Document.Method.transition_eq .indexed now)
  | markFailed now => exact silent_eq (Document.Method.transition_eq .failed now)
  | changeContent newHash now => exact silent_eq (Document.Method.changeContent_eq newHash now)
  | delete now => exact silent_eq (Document.Method.delete_eq now)
  | pullEvents => rfl

/-- A method that raises leaves the document. -/
theorem method_error {c : DocumentCall} {doc doc' : Document} {e : Error}
    (h : c.method doc = (.error e, doc')) : doc' = doc := by
  rw [method_eq] at h
  exact Saga.perform_error h

end DocumentCall

/-- A document, and the events that were pulled from it. -/
structure DocumentHistory where
  doc : Document
  pulled : List DomainEvent

namespace DocumentHistory

/-- All events ever recorded. -/
def recorded (history : DocumentHistory) : List DomainEvent :=
  history.pulled ++ history.doc.events

/-- A caller that goes on after an exception. -/
def call (history : DocumentHistory) (c : DocumentCall) : DocumentHistory :=
  match c.method history.doc with
  | (.ok events, doc) => ⟨doc, history.pulled ++ events⟩
  | (.error _, doc) => ⟨doc, history.pulled⟩

/-- The history of a document after some calls. -/
def after (doc : Document) (calls : List DocumentCall) : DocumentHistory :=
  calls.foldl call ⟨doc, []⟩

/-- What a call does: nothing, or one of these. -/
inductive Step (history : DocumentHistory) : DocumentHistory → Prop
  | stay : Step history history
  | move (target : DocumentStatus) (now : Instant) (hlive : history.doc.status ≠ .deleted)
      (htarget : target ≠ .deleted) :
      Step history ⟨{ history.doc with status := target, updatedAt := now }, history.pulled⟩
  | change (newHash : ContentHash) (now : Instant) (hlive : history.doc.status ≠ .deleted) :
      Step history
        ⟨{ history.doc with
            contentHash := newHash
            version := history.doc.version + 1
            status := .registered
            updatedAt := now
            events := history.doc.events ++ [.documentContentChanged history.doc.id
              history.doc.tenantId newHash.value (history.doc.version + 1)] },
          history.pulled⟩
  | delete (now : Instant) (hlive : history.doc.status ≠ .deleted) :
      Step history
        ⟨{ history.doc with
            status := .deleted
            updatedAt := now
            events := history.doc.events ++
              [.documentDeleted history.doc.id history.doc.tenantId] },
          history.pulled⟩
  | pull :
      Step history ⟨{ history.doc with events := [] }, history.pulled ++ history.doc.events⟩

end DocumentHistory

/-! ## One step -/

theorem Document.changeContent_ok {newHash : ContentHash} {now : Instant} {doc doc' : Document}
    (h : doc.changeContent newHash now = .ok doc') :
    doc' = doc ∨ doc.status ≠ .deleted ∧ doc' = { doc with
      contentHash := newHash
      version := doc.version + 1
      status := .registered
      updatedAt := now
      events := doc.events ++
        [.documentContentChanged doc.id doc.tenantId newHash.value (doc.version + 1)] } := by
  unfold changeContent at h
  split at h
  · cases h
  · next hlive =>
      split at h
      · exact .inl (Except.ok.inj h).symm
      · exact .inr ⟨hlive, (Except.ok.inj h).symm⟩

namespace DocumentHistory

variable {history history' : DocumentHistory}

theorem call_of_error {c : DocumentCall} {e : Error} (h : c.function history.doc = .error e) :
    history.call c = history := by
  unfold call
  rw [DocumentCall.method_eq]
  unfold Saga.perform
  simp only [h]

theorem call_of_ok {c : DocumentCall} {events : List DomainEvent} {doc : Document}
    (h : c.function history.doc = .ok (events, doc)) :
    history.call c = ⟨doc, history.pulled ++ events⟩ := by
  unfold call
  rw [DocumentCall.method_eq]
  unfold Saga.perform
  simp only [h]

theorem Step.of_transition {target : DocumentStatus} {now : Instant} {doc : Document}
    (htarget : target ≠ .deleted) (h : history.doc.transition target now = .ok doc) :
    Step history ⟨doc, history.pulled⟩ := by
  obtain ⟨hmem, rfl⟩ := Document.transition_ok h
  refine .move target now ?_ htarget
  intro hdeleted
  rw [hdeleted] at hmem
  cases hmem

/-- Every call is a step. -/
theorem call_step (history : DocumentHistory) (c : DocumentCall) :
    Step history (history.call c) := by
  cases hcall : c.function history.doc with
  | error e =>
      rw [call_of_error hcall]
      exact .stay
  | ok answer =>
      obtain ⟨events, doc⟩ := answer
      rw [call_of_ok hcall]
      cases c with
      | markIngesting now =>
          obtain ⟨hdoc, rfl⟩ := DocumentCall.silent_ok hcall
          rw [List.append_nil]
          exact .of_transition (by decide) hdoc
      | markIndexed now =>
          obtain ⟨hdoc, rfl⟩ := DocumentCall.silent_ok hcall
          rw [List.append_nil]
          exact .of_transition (by decide) hdoc
      | markFailed now =>
          obtain ⟨hdoc, rfl⟩ := DocumentCall.silent_ok hcall
          rw [List.append_nil]
          exact .of_transition (by decide) hdoc
      | changeContent newHash now =>
          obtain ⟨hdoc, rfl⟩ := DocumentCall.silent_ok hcall
          rw [List.append_nil]
          rcases Document.changeContent_ok hdoc with rfl | ⟨hlive, rfl⟩
          · exact .stay
          · exact .change newHash now hlive
      | delete now =>
          obtain ⟨hdoc, rfl⟩ := DocumentCall.silent_ok hcall
          rw [List.append_nil]
          by_cases hlive : history.doc.status = .deleted
          · have hstay : history.doc.delete now = .ok history.doc := if_pos hlive
            rw [hstay] at hdoc
            cases hdoc
            exact .stay
          · rw [Document.delete_live hlive] at hdoc
            cases hdoc
            exact .delete now hlive
      | pullEvents =>
          cases hcall
          exact .pull

/-- What every step from a document keeps, any calls keep. -/
theorem after_induction {p : DocumentHistory → Prop} {doc : Document} (start : p ⟨doc, []⟩)
    (next : ∀ history history', p history → Step history history' → p history')
    (calls : List DocumentCall) : p (after doc calls) :=
  List.foldlRecOn calls call start fun history h c _ => next history _ h (call_step history c)

end DocumentHistory

/-! ## After the deletion -/

namespace DocumentHistory

/-- Pulling the events records none and forgets none. -/
theorem recorded_pull (history : DocumentHistory) :
    recorded ⟨{ history.doc with events := [] }, history.pulled ++ history.doc.events⟩ =
      history.recorded := List.append_nil _

/-- Deleted, with nothing but the events pulled since. -/
structure Settled (history history' : DocumentHistory) : Prop where
  deleted : history'.doc.status = .deleted
  doc : history'.doc = { history.doc with events := history'.doc.events }
  recorded : history'.recorded = history.recorded

theorem Settled.step {history₀ : DocumentHistory} (h : Settled history₀ history)
    (hstep : Step history history') : Settled history₀ history' := by
  cases hstep with
  | stay => exact h
  | move target now hlive htarget => exact absurd h.deleted hlive
  | change newHash now hlive => exact absurd h.deleted hlive
  | delete now hlive => exact absurd h.deleted hlive
  | pull =>
      refine ⟨h.deleted, ?_, ?_⟩
      · rw [h.doc]
      · exact (recorded_pull history).trans h.recorded

/-- A deleted document stays as it is. -/
theorem settled_after {doc : Document} (calls later : List DocumentCall)
    (hdeleted : (after doc calls).doc.status = .deleted) :
    Settled (after doc calls) (after doc (calls ++ later)) := by
  have hafter : after doc (calls ++ later) = later.foldl call (after doc calls) :=
    List.foldl_append
  rw [hafter]
  refine List.foldlRecOn later call ⟨hdeleted, rfl, rfl⟩ ?_
  intro history h c _
  exact h.step (call_step history c)

end DocumentHistory

/-! ## What the events tell -/

/-- The events of a document whose content has changed to each of the hashes, from version 2 on. -/
def contentChanges (doc : Document) (hashes : List ContentHash) : List DomainEvent :=
  (hashes.zipIdx 2).map fun change =>
    .documentContentChanged doc.id doc.tenantId change.1.value change.2

theorem contentChanges_concat (doc : Document) (hashes : List ContentHash) (hash : ContentHash) :
    contentChanges doc (hashes ++ [hash]) = contentChanges doc hashes ++
      [.documentContentChanged doc.id doc.tenantId hash.value (2 + hashes.length)] := by
  unfold contentChanges
  rw [List.zipIdx_append, List.map_append]
  rfl

/-- What a document and its events say, by the hashes that its content has had since it was
    registered as `registered`. -/
structure Told (registered : Document) (hashes : List ContentHash) (history : DocumentHistory) :
    Prop where
  recorded : history.recorded = .documentRegistered registered.id registered.tenantId
    registered.collectionId registered.contentHash.value ::
      (contentChanges registered hashes ++
        if history.doc.status = .deleted then
          [.documentDeleted registered.id registered.tenantId]
        else [])
  version : history.doc.version = 1 + hashes.length
  contentHash : history.doc.contentHash = hashes.getLastD registered.contentHash
  kept : history.doc = { registered with
    contentHash := history.doc.contentHash
    status := history.doc.status
    version := history.doc.version
    updatedAt := history.doc.updatedAt
    events := history.doc.events }

namespace Told

variable {registered : Document} {hashes : List ContentHash} {history history' : DocumentHistory}

theorem recorded_live (h : Told registered hashes history)
    (hlive : history.doc.status ≠ .deleted) :
    history.recorded = .documentRegistered registered.id registered.tenantId
      registered.collectionId registered.contentHash.value ::
        contentChanges registered hashes := by
  rw [h.recorded, if_neg hlive, List.append_nil]

theorem id_eq (h : Told registered hashes history) : history.doc.id = registered.id := by
  rw [h.kept]

theorem tenantId_eq (h : Told registered hashes history) :
    history.doc.tenantId = registered.tenantId := by
  rw [h.kept]

/-- A step records at most the event that tells of it. -/
theorem step (h : Told registered hashes history) (hstep : DocumentHistory.Step history history') :
    ∃ hashes', Told registered hashes' history' := by
  cases hstep with
  | stay => exact ⟨hashes, h⟩
  | move target now hlive htarget =>
      refine ⟨hashes, ?_, h.version, h.contentHash, ?_⟩
      · rw [if_neg htarget, List.append_nil]
        exact h.recorded_live hlive
      · rw [h.kept]
  | change newHash now hlive =>
      have hversion : history.doc.version + 1 = 2 + hashes.length := by
        rw [h.version]
        omega
      have hregistered : DocumentStatus.registered ≠ .deleted := by decide
      refine ⟨hashes ++ [newHash], ?_, ?_, ?_, ?_⟩
      · rw [if_neg hregistered, List.append_nil, contentChanges_concat, ← List.cons_append,
          ← h.recorded_live hlive, ← h.id_eq, ← h.tenantId_eq, ← hversion]
        exact (List.append_assoc _ _ _).symm
      · rw [List.length_append, ← Nat.add_assoc, ← h.version]
        rfl
      · rw [List.getLastD_concat]
      · rw [h.kept]
  | delete now hlive =>
      refine ⟨hashes, ?_, h.version, h.contentHash, ?_⟩
      · rw [if_pos rfl, ← List.cons_append, ← h.recorded_live hlive, ← h.id_eq, ← h.tenantId_eq]
        exact (List.append_assoc _ _ _).symm
      · rw [h.kept]
  | pull =>
      refine ⟨hashes, ?_, h.version, h.contentHash, ?_⟩
      · rw [DocumentHistory.recorded_pull]
        exact h.recorded
      · rw [h.kept]

theorem register (id : UUID) (now : Instant) (tenantId collectionId : UUID) (title : Title)
    (sourceType : SourceType) (sourceUri : Str) (contentHash : ContentHash) :
    Told (.register id now tenantId collectionId title sourceType sourceUri contentHash) []
      ⟨.register id now tenantId collectionId title sourceType sourceUri contentHash, []⟩ :=
  ⟨rfl, rfl, rfl, rfl⟩

end Told

/-! ## Replay -/

/-- What the events of a document say about it. -/
structure DocumentFacts where
  id : UUID
  tenantId : UUID
  collectionId : UUID
  contentHash : Str
  version : Nat
  deleted : Bool
  deriving DecidableEq, Repr

/-- One event more. -/
def DocumentFacts.tell : Option DocumentFacts → DomainEvent → Option DocumentFacts
  | _, .documentRegistered documentId tenantId collectionId contentHash =>
      some ⟨documentId, tenantId, collectionId, contentHash, 1, false⟩
  | facts, .documentContentChanged _ _ newContentHash version =>
      facts.map fun facts => { facts with contentHash := newContentHash, version := version }
  | facts, .documentDeleted _ _ => facts.map fun facts => { facts with deleted := true }

/-- The events, folded. -/
def replay (events : List DomainEvent) : Option DocumentFacts :=
  events.foldl DocumentFacts.tell none

theorem replay_concat (events : List DomainEvent) (event : DomainEvent) :
    replay (events ++ [event]) = DocumentFacts.tell (replay events) event := List.foldl_concat ..

def Document.facts (doc : Document) : DocumentFacts where
  id := doc.id
  tenantId := doc.tenantId
  collectionId := doc.collectionId
  contentHash := doc.contentHash.value
  version := doc.version
  deleted := decide (doc.status = .deleted)

theorem DocumentHistory.replay_step {history history' : DocumentHistory}
    (h : replay history.recorded = some history.doc.facts)
    (hstep : DocumentHistory.Step history history') :
    replay history'.recorded = some history'.doc.facts := by
  cases hstep with
  | stay => exact h
  | move target now hlive htarget =>
      refine h.trans (congrArg some ?_)
      unfold Document.facts
      simp [hlive, htarget]
  | change newHash now hlive =>
      unfold recorded at *
      rw [← List.append_assoc, replay_concat, h]
      unfold Document.facts
      simp [DocumentFacts.tell, hlive]
  | delete now hlive =>
      unfold recorded at *
      rw [← List.append_assoc, replay_concat, h]
      unfold Document.facts
      simp [DocumentFacts.tell]
  | pull =>
      rw [recorded_pull, h]
      rfl

/-- The event log of a document tells its state. A call that raises leaves the document, a
    deleted document stays as it is, and the events that it ever recorded, folded, are what it
    says about itself: it was registered, its content changed to some hashes, and it was deleted
    if it is. -/
theorem event_log_tells_state (id : UUID) (now : Instant) (tenantId collectionId : UUID)
    (title : Title) (sourceType : SourceType) (sourceUri : Str) (contentHash : ContentHash) :
    let registered :=
      Document.register id now tenantId collectionId title sourceType sourceUri contentHash
    (∀ (c : DocumentCall) (doc doc' : Document) (e : Error),
      c.method doc = (.error e, doc') → doc' = doc) ∧
    (∀ calls later, (DocumentHistory.after registered calls).doc.status = .deleted →
      DocumentHistory.Settled (DocumentHistory.after registered calls)
        (DocumentHistory.after registered (calls ++ later))) ∧
    ∀ calls,
      replay (DocumentHistory.after registered calls).recorded =
        some (DocumentHistory.after registered calls).doc.facts ∧
      ∃ hashes, Told registered hashes (DocumentHistory.after registered calls) := by
  intro registered
  refine ⟨?_, ?_, ?_⟩
  · intro c doc doc' e h
    exact DocumentCall.method_error h
  · intro calls later hdeleted
    exact DocumentHistory.settled_after calls later hdeleted
  · intro calls
    refine ⟨?_, ?_⟩
    · exact DocumentHistory.after_induction
        (p := fun history => replay history.recorded = some history.doc.facts) rfl
        (fun _ _ h hstep => DocumentHistory.replay_step h hstep) calls
    · have hstart : Told registered [] ⟨registered, []⟩ :=
        .register id now tenantId collectionId title sourceType sourceUri contentHash
      exact DocumentHistory.after_induction
        (p := fun history => ∃ hashes, Told registered hashes history) ⟨[], hstart⟩
        (fun _ _ ⟨_, h⟩ hstep => h.step hstep) calls

end Eka
