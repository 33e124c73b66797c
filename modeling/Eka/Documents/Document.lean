import Eka.Shared.Base

/-!
# The Document aggregate

`documents/domain/document.py`. The value objects `Title` and `ContentHash` carry
what their `__post_init__` checks; the aggregate owns the lifecycle state machine
and records the domain events.
-/

namespace Eka

open Py

/-- `SourceType` (`document.py:22-28`). -/
inductive SourceType where
  | upload
  | confluence
  | sharepoint
  | jira
  | notion
  | googleDrive
  deriving DecidableEq, Repr

def SourceType.value : SourceType → Str
  | .upload => "upload".toList
  | .confluence => "confluence".toList
  | .sharepoint => "sharepoint".toList
  | .jira => "jira".toList
  | .notion => "notion".toList
  | .googleDrive => "google_drive".toList

def SourceType.all : List SourceType :=
  [.upload, .confluence, .sharepoint, .jira, .notion, .googleDrive]

/-- The enumeration call `SourceType(value)`. -/
def SourceType.ofValue (value : Str) : Except Error SourceType :=
  match SourceType.all.find? fun t => t.value == value with
  | some t => .ok t
  | none => .error (.valueError (reprText value ++ " is not a valid SourceType".toList))

/-- `DocumentStatus` (`document.py:31-36`). -/
inductive DocumentStatus where
  | registered
  | ingesting
  | indexed
  | failed
  | deleted
  deriving DecidableEq, Repr

def DocumentStatus.value : DocumentStatus → Str
  | .registered => "registered".toList
  | .ingesting => "ingesting".toList
  | .indexed => "indexed".toList
  | .failed => "failed".toList
  | .deleted => "deleted".toList

/-- `_ALLOWED_TRANSITIONS` (`document.py:39-47`). -/
def allowedTransitions : DocumentStatus → List DocumentStatus
  | .registered => [.ingesting, .deleted]
  | .ingesting => [.indexed, .failed, .deleted]
  | .indexed => [.ingesting, .deleted]
  | .failed => [.ingesting, .deleted]
  | .deleted => []

def isLowerHex (c : Char) : Bool :=
  (48 ≤ c.toNat && c.toNat ≤ 57) || (97 ≤ c.toNat && c.toNat ≤ 102)

/-- `_SHA256_RE.match` for `^[0-9a-f]{64}$`: `$` also matches before a final newline. -/
def sha256Re (s : Str) : Bool :=
  (s.take 64).length == 64 && (s.take 64).all isLowerHex &&
    (s.drop 64 == [] || s.drop 64 == ['\n'])

/-- `ContentHash` (`document.py:50-56`). -/
structure ContentHash where
  value : Str
  wellFormed : sha256Re value = true
  deriving DecidableEq, Repr

def ContentHash.make (value : Str) : Except Error ContentHash :=
  if h : sha256Re value = true then .ok ⟨value, h⟩
  else .error (.validationError "content_hash must be a lowercase hex sha256 digest".toList)

theorem ContentHash.ext {a b : ContentHash} (h : a.value = b.value) : a = b := by
  cases a
  cases b
  simpa only [ContentHash.mk.injEq] using h

theorem ContentHash.make_ok {value : Str} {hash : ContentHash} (h : make value = .ok hash) :
    hash.value = value := by
  unfold make at h
  split at h
  · cases h; rfl
  · cases h

def maxTitleLen : Nat := 512

/-- `Title` (`document.py:59-69`): stripped, not empty, not too long. -/
structure Title where
  value : Str
  stripped : strip value = value
  nonempty : value ≠ []
  short : value.length ≤ maxTitleLen
  deriving DecidableEq, Repr

def Title.make (value : Str) : Except Error Title :=
  if h : strip value = [] then .error (.validationError "title must not be empty".toList)
  else if h' : (strip value).length ≤ maxTitleLen then
    .ok ⟨strip value, strip_strip value, h, h'⟩
  else .error (.validationError "title must be at most 512 characters".toList)

/-- The domain events of a document (`document.py:72-91`); their own ids and times are
    read by nothing. -/
inductive DomainEvent where
  | documentRegistered (documentId tenantId collectionId : UUID) (contentHash : Str)
  | documentContentChanged (documentId tenantId : UUID) (newContentHash : Str) (version : Nat)
  | documentDeleted (documentId tenantId : UUID)
  deriving DecidableEq, Repr

/-- `Document` (`document.py:94-122`), with the events not yet pulled. -/
structure Document where
  id : UUID
  tenantId : UUID
  collectionId : UUID
  title : Title
  sourceType : SourceType
  sourceUri : Str
  contentHash : ContentHash
  status : DocumentStatus
  version : Nat
  createdAt : Instant
  updatedAt : Instant
  events : List DomainEvent
  deriving DecidableEq, Repr

namespace Document

/-- `Document.register` (`document.py:123-156`). -/
def register (id : UUID) (now : Instant) (tenantId collectionId : UUID) (title : Title)
    (sourceType : SourceType) (sourceUri : Str) (contentHash : ContentHash) : Document where
  id := id
  tenantId := tenantId
  collectionId := collectionId
  title := title
  sourceType := sourceType
  sourceUri := sourceUri
  contentHash := contentHash
  status := .registered
  version := 1
  createdAt := now
  updatedAt := now
  events := [.documentRegistered id tenantId collectionId contentHash.value]

/-- `_transition` (`document.py:158-164`). -/
def transition (target : DocumentStatus) (now : Instant) (doc : Document) :
    Except Error Document :=
  if target ∈ allowedTransitions doc.status then
    .ok { doc with status := target, updatedAt := now }
  else
    .error (.stateTransitionError ("cannot move document from ".toList ++ doc.status.value ++
      " to ".toList ++ target.value))

def markIngesting : Instant → Document → Except Error Document := transition .ingesting

def markIndexed : Instant → Document → Except Error Document := transition .indexed

def markFailed : Instant → Document → Except Error Document := transition .failed

/-- `change_content` (`document.py:175-191`). -/
def changeContent (newHash : ContentHash) (now : Instant) (doc : Document) :
    Except Error Document :=
  if doc.status = .deleted then
    .error (.stateTransitionError "cannot change content of a deleted document".toList)
  else if newHash.value = doc.contentHash.value then .ok doc
  else
    .ok { doc with
      contentHash := newHash
      version := doc.version + 1
      status := .registered
      updatedAt := now
      events := doc.events ++
        [.documentContentChanged doc.id doc.tenantId newHash.value (doc.version + 1)] }

/-- `delete` (`document.py:193-197`). -/
def delete (now : Instant) (doc : Document) : Except Error Document :=
  if doc.status = .deleted then .ok doc
  else
    match doc.transition .deleted now with
    | .error e => .error e
    | .ok doc' => .ok { doc' with events := doc'.events ++ [.documentDeleted doc.id doc.tenantId] }

/-- `pull_events` (`shared/domain/base.py:60-62`). -/
def pullEvents (doc : Document) : List DomainEvent × Document :=
  (doc.events, { doc with events := [] })

theorem transition_ok {target : DocumentStatus} {now : Instant} {doc doc' : Document}
    (h : doc.transition target now = .ok doc') :
    target ∈ allowedTransitions doc.status ∧
      doc' = { doc with status := target, updatedAt := now } := by
  unfold transition at h
  split at h
  · next hmem => cases h; exact ⟨hmem, rfl⟩
  · cases h

theorem transition_of_mem {target : DocumentStatus} {now : Instant} {doc : Document}
    (h : target ∈ allowedTransitions doc.status) :
    doc.transition target now = .ok { doc with status := target, updatedAt := now } :=
  if_pos h

/-- What `delete` passes on to `_transition`. -/
theorem deleted_mem_allowedTransitions {status : DocumentStatus} :
    DocumentStatus.deleted ∈ allowedTransitions status ↔ status ≠ .deleted := by
  cases status <;> decide

/-- A document that is not deleted can be deleted. -/
theorem delete_live {now : Instant} {doc : Document} (h : doc.status ≠ .deleted) :
    doc.delete now = .ok { doc with
      status := .deleted
      updatedAt := now
      events := doc.events ++ [.documentDeleted doc.id doc.tenantId] } := by
  unfold delete
  rw [if_neg h, transition_of_mem (deleted_mem_allowedTransitions.mpr h)]

end Document

/-- A status is never its own successor, so a transition that is committed writes the
    `status` column. -/
theorem not_mem_allowedTransitions_self (status : DocumentStatus) :
    status ∉ allowedTransitions status := by
  cases status <;> decide

/-- What `mark_ingesting` accepts. -/
theorem ingesting_mem_allowedTransitions {status : DocumentStatus} :
    DocumentStatus.ingesting ∈ allowedTransitions status ↔
      status ≠ .ingesting ∧ status ≠ .deleted := by
  cases status <;> decide

/-- What `mark_failed` accepts. -/
theorem failed_mem_allowedTransitions {status : DocumentStatus} :
    DocumentStatus.failed ∈ allowedTransitions status ↔ status = .ingesting := by
  cases status <;> decide

end Eka
