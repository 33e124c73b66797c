import Eka.Documents.Commands

/-!
# Registration over any history of commands

Registration looks a hash up among the live rows, while `uq_documents_tenant_hash`
holds for all rows. After any sequence of register and delete commands the two
agree on a hash exactly when no deleted row carries it, and then, and only then,
registering it yields a live document.
-/

namespace Eka

open Py Relational

/-- A command of the Documents API, with the instant it runs at and the id it draws. -/
inductive DocumentCommand where
  | register (command : RegisterDocumentCommand) (id : UUID) (now : Instant)
  | delete (command : DeleteDocumentCommand) (now : Instant)
  deriving DecidableEq, Repr

def DocumentCommand.exec : DocumentCommand → Documents → Documents
  | .register command id now, t => (RegisterDocumentHandler.handle command id now t).2
  | .delete command now, t => (DeleteDocumentHandler.handle command now t).2

/-- The table after the commands, one after another, on an empty one. -/
def documentsAfter (history : List DocumentCommand) : Documents :=
  history.foldl (fun t c => c.exec t) .empty

namespace RegisterDocumentCommand

/-- A valid title, source type and hash. -/
structure Valid (command : RegisterDocumentCommand) : Prop where
  titleNonempty : strip command.title ≠ []
  titleShort : (strip command.title).length ≤ maxTitleLen
  sourceType : ∃ t ∈ SourceType.all, t.value = command.sourceType
  hashLength : command.contentHash.length = 64
  hashHex : ∀ c ∈ command.contentHash, isLowerHex c = true

/-- `Title` and `SourceType` accept the command's texts. -/
def Buildable (command : RegisterDocumentCommand) : Prop :=
  strip command.title ≠ [] ∧ (strip command.title).length ≤ maxTitleLen ∧
    ∃ t ∈ SourceType.all, t.value = command.sourceType

/-- The free texts go into their columns: no NUL, and a source URI that `varchar(2048)`
    takes (the request schema bounds it, `documents/presentation/schemas.py:18`). -/
def Storable (command : RegisterDocumentCommand) : Prop :=
  '\x00' ∉ strip command.title ∧ (varchar 2048 command.sourceUri).isSome

/-- The command returns normally, with a document of its content hash that is stored and not
    deleted: the live one of before if there is one, and a new `REGISTERED` one otherwise. -/
def YieldsLive (command : RegisterDocumentCommand) (id : UUID) (now : Instant)
    (t : Documents) : Prop :=
  ∃ dto t', RegisterDocumentHandler.handle command id now t = (.ok dto, t') ∧
    dto.contentHash = command.contentHash ∧
    ∃ row ∈ t'.rows, row.id = dto.id ∧ row.tenantId = command.tenantId ∧
      row.contentHash.value = command.contentHash ∧ row.status ≠ .deleted ∧
      dto.status = row.status.value ∧
      ((row ∈ t.rows ∧ t' = t) ∨
        ((∀ old ∈ t.rows, old.tenantId = command.tenantId →
            old.contentHash.value = command.contentHash → old.status = .deleted) ∧
          row.id = id ∧ row.status = .registered))

/-- Some row of the tenant, live or deleted, carries the hash. -/
def HashStored (command : RegisterDocumentCommand) (t : Documents) : Prop :=
  ∃ row ∈ t.rows, row.tenantId = command.tenantId ∧
    row.contentHash.value = command.contentHash

/-- A deleted row of the tenant carries the hash. -/
def HashDeleted (command : RegisterDocumentCommand) (t : Documents) : Prop :=
  ∃ row ∈ t.rows, row.tenantId = command.tenantId ∧
    row.contentHash.value = command.contentHash ∧ row.status = .deleted

end RegisterDocumentCommand

namespace RegisterDocumentHandler

variable {command : RegisterDocumentCommand} {hash : ContentHash} {id : UUID} {now : Instant}

theorem build_ok {doc : Document} (h : build command hash id now = .ok doc) :
    command.Buildable ∧ ∃ title sourceType, title.value = strip command.title ∧
      doc = .register id now command.tenantId command.collectionId title sourceType
        command.sourceUri hash := by
  unfold build at h
  cases htitle : Title.make command.title with
  | error e => simp [htitle, bind, Except.bind] at h
  | ok title =>
      cases hst : SourceType.ofValue command.sourceType with
      | error e => simp [htitle, hst, bind, Except.bind] at h
      | ok st =>
          simp only [htitle, hst, bind, Except.bind, pure, Except.pure, Except.ok.injEq] at h
          unfold Title.make at htitle
          split at htitle
          · cases htitle
          · next hne =>
              split at htitle
              · next hshort =>
                  cases htitle
                  refine ⟨⟨hne, hshort, ?_⟩, _, st, rfl, h.symm⟩
                  unfold SourceType.ofValue at hst
                  split at hst
                  · next t hfind =>
                      refine ⟨t, List.mem_of_find?_eq_some hfind, ?_⟩
                      simpa using List.find?_some hfind
                  · cases hst
              · cases htitle

/-- What is built for texts that the value objects and the enumeration accept. -/
theorem exists_build (command : RegisterDocumentCommand) (hash : ContentHash) (id : UUID)
    (now : Instant) (h : command.Buildable) :
    ∃ title sourceType, title.value = strip command.title ∧
      sourceType.value = command.sourceType ∧
      build command hash id now = .ok (.register id now command.tenantId command.collectionId
        title sourceType command.sourceUri hash) := by
  obtain ⟨hne, hshort, st, hst, hvalue⟩ := h
  have htitle : Title.make command.title =
      .ok ⟨strip command.title, strip_strip _, hne, hshort⟩ := by
    unfold Title.make
    rw [dif_neg hne, dif_pos hshort]
  obtain ⟨st', hst', hvalue'⟩ : ∃ st', SourceType.ofValue command.sourceType = .ok st' ∧
      st'.value = command.sourceType := by
    unfold SourceType.ofValue
    cases hfind : SourceType.all.find? fun t => t.value == command.sourceType with
    | some st' =>
        have := List.find?_some hfind
        exact ⟨st', rfl, by simpa using this⟩
    | none =>
        have := List.find?_eq_none.mp hfind st hst
        simp [hvalue] at this
  refine ⟨⟨strip command.title, strip_strip _, hne, hshort⟩, st', rfl, hvalue', ?_⟩
  unfold build
  rw [htitle, hst']
  rfl

end RegisterDocumentHandler

namespace RegisterDocumentCommand

variable {command : RegisterDocumentCommand}

theorem Valid.sha256Re (h : command.Valid) : sha256Re command.contentHash = true := by
  have htake : command.contentHash.take 64 = command.contentHash :=
    List.take_of_length_le (by rw [h.hashLength])
  have hdrop : command.contentHash.drop 64 = [] :=
    List.drop_eq_nil_of_le (by rw [h.hashLength])
  unfold Eka.sha256Re
  rw [htake, hdrop, h.hashLength]
  simpa using h.hashHex

/-- The hash of a valid command as the value object. -/
def Valid.hash (h : command.Valid) : ContentHash := ⟨command.contentHash, h.sha256Re⟩

theorem Valid.make_hash (h : command.Valid) :
    ContentHash.make command.contentHash = .ok h.hash :=
  dif_pos h.sha256Re

theorem Valid.hash_eq (h : command.Valid) {other : ContentHash} :
    other = h.hash ↔ other.value = command.contentHash := by
  constructor
  · rintro rfl; rfl
  · intro heq
    cases other
    simp only [Valid.hash, ContentHash.mk.injEq]
    exact heq

/-- What `lookup` builds for a valid command when it finds no live document. -/
theorem Valid.exists_build (h : command.Valid) (id : UUID) (now : Instant) :
    ∃ title sourceType, title.value = strip command.title ∧
      RegisterDocumentHandler.build command h.hash id now = .ok (.register id now
        command.tenantId command.collectionId title sourceType command.sourceUri h.hash) := by
  obtain ⟨title, st, htitle, -, hbuild⟩ := RegisterDocumentHandler.exists_build command h.hash
    id now ⟨h.titleNonempty, h.titleShort, h.sourceType⟩
  exact ⟨title, st, htitle, hbuild⟩

/-- A new document goes into its columns exactly when the command's texts are storable. -/
theorem Valid.fitColumns_isSome (h : command.Valid) {id : UUID} {now : Instant} {title : Title}
    {sourceType : SourceType} (htitle : title.value = strip command.title) :
    (DocumentModel.ofDomain (.register id now command.tenantId command.collectionId title
      sourceType command.sourceUri h.hash)).fitColumns.isSome ↔ command.Storable := by
  rw [DocumentModel.fitColumns_ofDomain]
  show '\x00' ∉ title.value ∧ command.contentHash.length = 64 ∧
    (varchar 2048 command.sourceUri).isSome ↔ command.Storable
  rw [htitle, and_iff_right h.hashLength]
  rfl

/-- A live document with the hash is the answer. -/
theorem Valid.handle_found (h : command.Valid) {t : Documents} {existing : Document}
    (hfind : Documents.findByContentHash command.tenantId h.hash t = some existing) (id : UUID)
    (now : Instant) :
    RegisterDocumentHandler.handle command id now t = (.ok (.fromAggregate existing), t) := by
  unfold RegisterDocumentHandler.handle RegisterDocumentHandler.lookup
  simp [h.make_hash, hfind, bind, Except.bind, pure, Except.pure]

/-- Without one, a new document is what there is to add. -/
theorem Valid.lookup_built (h : command.Valid) {t : Documents}
    (hfind : Documents.findByContentHash command.tenantId h.hash t = none) (id : UUID)
    (now : Instant) :
    ∃ title sourceType, RegisterDocumentHandler.lookup command id now t =
        .ok (.inr (.register id now command.tenantId command.collectionId title sourceType
          command.sourceUri h.hash)) ∧
      ((DocumentModel.ofDomain (.register id now command.tenantId command.collectionId title
        sourceType command.sourceUri h.hash)).fitColumns.isSome ↔ command.Storable) := by
  obtain ⟨title, st, htitle, hbuild⟩ := h.exists_build id now
  refine ⟨title, st, ?_, h.fitColumns_isSome htitle⟩
  unfold RegisterDocumentHandler.lookup
  simp [h.make_hash, hfind, hbuild, bind, Except.bind, pure, Except.pure]

/-- A command that finds a live document yields it. -/
theorem Valid.yieldsLive_found (h : command.Valid) {id : UUID} {now : Instant} {t : Documents}
    {existing : Document}
    (hfind : Documents.findByContentHash command.tenantId h.hash t = some existing) :
    command.YieldsLive id now t ∧ ¬ command.HashDeleted t ∧ command.HashStored t := by
  have hhandle := h.handle_found hfind id now
  obtain ⟨row, hrow, ht, hh, hlive, rfl⟩ := Documents.findByContentHash_eq_some.mp hfind
  have hvalue : row.contentHash.value = command.contentHash := h.hash_eq.mp hh
  refine ⟨?_, ?_, row, hrow, ht, hvalue⟩
  · exact ⟨_, t, hhandle, hvalue, row, hrow, rfl, ht, hvalue, hlive, rfl, .inl ⟨hrow, rfl⟩⟩
  · rintro ⟨other, hother, hot, hoh, hdel⟩
    obtain rfl : row = other :=
      t.eq_of_contentHash hrow hother (ht.trans hot.symm) (hh.trans (h.hash_eq.mpr hoh).symm)
    exact hlive hdel

/-- A new document that was added clashes with no stored row, and fits its columns. -/
theorem Valid.of_added (h : command.Valid) {id : UUID} {now : Instant} {t t' : Documents}
    {dto : DocumentDTO}
    (hfind : Documents.findByContentHash command.tenantId h.hash t = none)
    (hhandle : RegisterDocumentHandler.handle command id now t = (.ok dto, t')) :
    ¬ command.HashStored t ∧ command.Storable := by
  obtain ⟨title, st, hlookup, hfits⟩ := h.lookup_built hfind id now
  generalize hdoc : Document.register id now command.tenantId command.collectionId title st
    command.sourceUri h.hash = doc at hlookup hfits
  have hadd : Documents.addCommit doc t = .ok t' := by
    unfold RegisterDocumentHandler.handle at hhandle
    rw [hlookup] at hhandle
    cases hc : Documents.addCommit doc t with
    | error e => simp [hc] at hhandle
    | ok t₁ => simp only [hc, Prod.mk.injEq] at hhandle; rw [hhandle.2]
  obtain ⟨uri, -, hins⟩ := Documents.addCommit_ok hadd
  refine ⟨?_, ?_⟩
  · rintro ⟨row, hrow, ht, hh⟩
    refine Table.not_clash_of_insert hins row hrow (.inr ⟨?_, ?_⟩)
    · subst hdoc; exact ht
    · subst hdoc; exact h.hash_eq.mpr hh
  · rw [← hfits]
    unfold Documents.addCommit at hadd
    cases hfit : (DocumentModel.ofDomain doc).fitColumns with
    | none => simp [hfit] at hadd
    | some row => rfl

/-- Where no row has the hash, a storable document is added. -/
theorem Valid.yieldsLive_added (h : command.Valid) {id : UUID} {now : Instant} {t : Documents}
    (hfresh : ∀ row ∈ t.rows, row.id ≠ id)
    (hfind : Documents.findByContentHash command.tenantId h.hash t = none)
    (hnone : ∀ row ∈ t.rows, row.tenantId = command.tenantId → row.contentHash ≠ h.hash)
    (hstorable : command.Storable) : command.YieldsLive id now t := by
  obtain ⟨title, st, hlookup, hfits⟩ := h.lookup_built hfind id now
  obtain ⟨stored, hfit⟩ := Option.isSome_iff_exists.mp (hfits.mpr hstorable)
  obtain ⟨uri, -, rfl⟩ := Documents.fitColumns_some hfit
  generalize hdoc : Document.register id now command.tenantId command.collectionId title st
    command.sourceUri h.hash = doc at hlookup hfit
  obtain ⟨t', hins⟩ : ∃ t', t.insert
      { DocumentModel.ofDomain doc with sourceUri := uri } = some t' := by
    refine Table.exists_insert ?_
    rintro row hrow (hid | ⟨ht, hh⟩)
    · exact hfresh row hrow (by subst hdoc; exact hid)
    · refine hnone row hrow ?_ ?_
      · subst hdoc; exact ht
      · subst hdoc; exact hh
  have hhandle : RegisterDocumentHandler.handle command id now t =
      (.ok (.fromAggregate doc), t') := by
    unfold RegisterDocumentHandler.handle Documents.addCommit
    simp [hlookup, hfit, hins]
  refine ⟨_, t', hhandle, ?_, _, (Table.mem_insert hins).mpr (.inr rfl), ?_⟩
  · subst hdoc; rfl
  · subst hdoc
    refine ⟨rfl, rfl, rfl, (fun hs => nomatch hs), rfl, .inr ⟨?_, rfl, rfl⟩⟩
    intro old hold ht hh
    exact absurd (h.hash_eq.mpr hh) (hnone old hold ht)

/-- One registration, in any table: it yields a live document exactly when no deleted row
    carries its hash, and, if it has to add a row, its texts are storable. -/
theorem yieldsLive_iff (h : command.Valid) {id : UUID} {now : Instant} {t : Documents}
    (hfresh : ∀ row ∈ t.rows, row.id ≠ id) :
    command.YieldsLive id now t ↔
      ¬ command.HashDeleted t ∧ (command.HashStored t ∨ command.Storable) := by
  cases hfind : Documents.findByContentHash command.tenantId h.hash t with
  | some existing =>
      obtain ⟨hyields, hnot, hstored⟩ := h.yieldsLive_found hfind
      exact iff_of_true hyields ⟨hnot, .inl hstored⟩
  | none =>
      have hdead := Documents.findByContentHash_eq_none.mp hfind
      constructor
      · rintro ⟨dto, t', hhandle, -⟩
        obtain ⟨hstored, hstorable⟩ := h.of_added hfind hhandle
        exact ⟨fun ⟨row, hrow, ht, hh, _⟩ => hstored ⟨row, hrow, ht, hh⟩, .inr hstorable⟩
      · rintro ⟨hnot, hor⟩
        have hnone : ∀ row ∈ t.rows, row.tenantId = command.tenantId →
            row.contentHash ≠ h.hash := by
          intro row hrow ht hh
          exact hnot ⟨row, hrow, ht, h.hash_eq.mp hh, hdead row hrow ht hh⟩
        rcases hor with ⟨row, hrow, ht, hh⟩ | hstorable
        · exact absurd (h.hash_eq.mpr hh) (hnone row hrow ht)
        · exact h.yieldsLive_added hfresh hfind hnone hstorable

end RegisterDocumentCommand

/-- Over every sequence of register and delete commands, the next registration yields a live
    document if and only if the sequence left no deleted row with its tenant and hash, and its
    texts can be stored in case a row has to be added. -/
theorem register_yieldsLive_iff (history : List DocumentCommand)
    (command : RegisterDocumentCommand) (hvalid : command.Valid) (id : UUID) (now : Instant)
    (hfresh : ∀ row ∈ (documentsAfter history).rows, row.id ≠ id) :
    command.YieldsLive id now (documentsAfter history) ↔
      ¬ command.HashDeleted (documentsAfter history) ∧
        (command.HashStored (documentsAfter history) ∨ command.Storable) :=
  RegisterDocumentCommand.yieldsLive_iff hvalid hfresh

/-- A request of tenant 1 for a text whose digest is 64 times `a`. -/
def guideCommand : RegisterDocumentCommand where
  tenantId := ⟨1⟩
  collectionId := ⟨2⟩
  title := "Guide".toList
  sourceType := "upload".toList
  sourceUri := "s3://b/k".toList
  contentHash := List.replicate 64 'a'

theorem guideCommand_valid : guideCommand.Valid :=
  ⟨by decide, by decide, by decide, by decide, fun c hc => by
    rw [List.eq_of_mem_replicate hc]
    decide⟩

/-- Registered, deleted, registered again: the lookup skips the deleted row, the insert runs
    into `uq_documents_tenant_hash`, and the third command ends in an `IntegrityError`. -/
theorem guideCommand_after_delete :
    guideCommand.Valid ∧
      (∀ row ∈ (documentsAfter [.register guideCommand ⟨10⟩ 1,
        .delete ⟨⟨1⟩, ⟨10⟩⟩ 2]).rows, row.id ≠ ⟨11⟩) ∧
      ¬ guideCommand.YieldsLive ⟨11⟩ 3 (documentsAfter [.register guideCommand ⟨10⟩ 1,
        .delete ⟨⟨1⟩, ⟨10⟩⟩ 2]) := by
  refine ⟨guideCommand_valid, by decide, ?_⟩
  rintro ⟨dto, t', hhandle, -⟩
  have hraises : (RegisterDocumentHandler.handle guideCommand ⟨11⟩ 3 (documentsAfter
      [.register guideCommand ⟨10⟩ 1, .delete ⟨⟨1⟩, ⟨10⟩⟩ 2])).1 = .error .integrityError := by
    rfl
  rw [hhandle] at hraises
  cases hraises

/-- The same request again without a delete in between returns the stored document. -/
theorem guideCommand_twice_yieldsLive :
    guideCommand.YieldsLive ⟨11⟩ 3 (documentsAfter [.register guideCommand ⟨10⟩ 1]) ↔
      ¬ guideCommand.HashDeleted (documentsAfter [.register guideCommand ⟨10⟩ 1]) ∧
        (guideCommand.HashStored (documentsAfter [.register guideCommand ⟨10⟩ 1]) ∨
          guideCommand.Storable) :=
  register_yieldsLive_iff [.register guideCommand ⟨10⟩ 1] guideCommand
    guideCommand_valid ⟨11⟩ 3 (by decide)

end Eka
