import Eka.Documents.Registration

/-!
# What registration accepts

Three checks stand between a command and its row: the pattern of `ContentHash`, the strip and
the length of `Title` and the enumeration call `SourceType(..)` (`documents/domain/document.py`).
The first two raise the `ValidationError` that the API maps to a client error, the third Python's
`ValueError`; and `$` in the pattern lets a final newline by, which the column then refuses.
-/

namespace Eka

open Py Relational

namespace RegisterDocumentCommand

/-- The handler returns a new document with the command's texts, and its row is added. -/
def Creates (command : RegisterDocumentCommand) (id : UUID) (now : Instant) (t : Documents) :
    Prop :=
  ∃ dto t' row, RegisterDocumentHandler.handle command id now t = (.ok dto, t') ∧
    t.insert row = some t' ∧ dto.id = id ∧ row.id = id ∧ row.tenantId = command.tenantId ∧
    row.title.value = strip command.title ∧ row.sourceType.value = command.sourceType ∧
    row.contentHash.value = command.contentHash ∧ row.status = .registered

/-- The handler raises the domain's `ValidationError` and writes nothing. -/
def Rejected (command : RegisterDocumentCommand) (id : UUID) (now : Instant) (t : Documents) :
    Prop :=
  ∃ message, RegisterDocumentHandler.handle command id now t =
    (.error (.validationError message), t)

/-- A valid command creates its document, and every other one is rejected. -/
structure DecidedByValid (command : RegisterDocumentCommand) (id : UUID) (now : Instant)
    (t : Documents) : Prop where
  creates : command.Creates id now t ↔ command.Valid
  rejects : ¬ command.Valid → command.Rejected id now t

/-- The pattern or the title's checks turn the command down. -/
def Refused (command : RegisterDocumentCommand) : Prop :=
  sha256Re command.contentHash = false ∨ strip command.title = [] ∨
    maxTitleLen < (strip command.title).length

variable {command : RegisterDocumentCommand} {id : UUID} {now : Instant} {t : Documents}

theorem not_valid_of_refused (h : command.Refused) : ¬ command.Valid := by
  intro hvalid
  rcases h with hsha | hempty | hlong
  · rw [hvalid.sha256Re] at hsha
    cases hsha
  · exact hvalid.titleNonempty hempty
  · have := hvalid.titleShort
    omega

/-- A command that creates its document is not rejected. -/
theorem Creates.not_rejected (h : command.Creates id now t) : ¬ command.Rejected id now t := by
  obtain ⟨dto, t', row, hhandle, -⟩ := h
  rintro ⟨message, hrejected⟩
  rw [hhandle] at hrejected
  cases hrejected

/-! ## The four ways through the handler -/

theorem rejected_of_pattern (h : sha256Re command.contentHash = false) :
    command.Rejected id now t := by
  have hmake : ∃ message, ContentHash.make command.contentHash =
      .error (.validationError message) := ⟨_, dif_neg (by simp [h])⟩
  obtain ⟨message, hmake⟩ := hmake
  refine ⟨message, ?_⟩
  unfold RegisterDocumentHandler.handle RegisterDocumentHandler.lookup
  rw [hmake]
  rfl

/-- With a hash that the pattern lets by and no row stores, the aggregate is built. -/
theorem lookup_of_pattern (h : sha256Re command.contentHash = true)
    (hnone : ¬ command.HashStored t) :
    RegisterDocumentHandler.lookup command id now t =
      (RegisterDocumentHandler.build command ⟨command.contentHash, h⟩ id now).map .inr := by
  have hmake : ContentHash.make command.contentHash = .ok ⟨command.contentHash, h⟩ := dif_pos h
  have hfind : Documents.findByContentHash command.tenantId ⟨command.contentHash, h⟩ t = none := by
    refine Documents.findByContentHash_eq_none.mpr ?_
    intro row hrow ht hh
    exact absurd ⟨row, hrow, ht, congrArg ContentHash.value hh⟩ hnone
  unfold RegisterDocumentHandler.lookup
  simp only [hmake, hfind, bind, Except.bind, pure, Except.pure]
  cases RegisterDocumentHandler.build command ⟨command.contentHash, h⟩ id now <;> rfl

theorem rejected_of_title (h : sha256Re command.contentHash = true)
    (hnone : ¬ command.HashStored t)
    (htitle : strip command.title = [] ∨ maxTitleLen < (strip command.title).length) :
    command.Rejected id now t := by
  have hmake : ∃ message, Title.make command.title = .error (.validationError message) := by
    unfold Title.make
    by_cases hempty : strip command.title = []
    · rw [dif_pos hempty]
      exact ⟨_, rfl⟩
    · have hlong : ¬ (strip command.title).length ≤ maxTitleLen := by
        have := htitle.resolve_left hempty
        omega
      rw [dif_neg hempty, dif_neg hlong]
      exact ⟨_, rfl⟩
  obtain ⟨message, hmake⟩ := hmake
  refine ⟨message, ?_⟩
  unfold RegisterDocumentHandler.handle
  rw [lookup_of_pattern h hnone]
  unfold RegisterDocumentHandler.build
  rw [hmake]
  rfl

/-- A source type that is none of the enumeration raises Python's own error. -/
theorem valueError_of_sourceType (h : sha256Re command.contentHash = true)
    (hnone : ¬ command.HashStored t) (hempty : strip command.title ≠ [])
    (hshort : (strip command.title).length ≤ maxTitleLen)
    (hsource : ∀ s ∈ SourceType.all, s.value ≠ command.sourceType) :
    ∃ message, RegisterDocumentHandler.handle command id now t =
      (.error (.valueError message), t) := by
  have htitle : Title.make command.title =
      .ok ⟨strip command.title, strip_strip _, hempty, hshort⟩ := by
    unfold Title.make
    rw [dif_neg hempty, dif_pos hshort]
  have hfind : SourceType.all.find? (fun s => s.value == command.sourceType) = none := by
    rw [List.find?_eq_none]
    intro s hs
    simpa using hsource s hs
  unfold RegisterDocumentHandler.handle
  rw [lookup_of_pattern h hnone]
  unfold RegisterDocumentHandler.build SourceType.ofValue
  rw [htitle, hfind]
  exact ⟨_, rfl⟩

/-- What the two value objects and the enumeration accept is added when it goes into its columns,
    and refused by the database otherwise. -/
theorem creates_or_dataError (h : sha256Re command.contentHash = true)
    (hnone : ¬ command.HashStored t) (hfresh : ∀ row ∈ t.rows, row.id ≠ id)
    (hbuildable : command.Buildable) :
    (command.contentHash.length = 64 ∧ command.Storable → command.Creates id now t) ∧
    (¬ (command.contentHash.length = 64 ∧ command.Storable) →
      RegisterDocumentHandler.handle command id now t = (.error .dataError, t)) := by
  obtain ⟨title, st, htitle, hsource, hbuild⟩ := RegisterDocumentHandler.exists_build command
    ⟨command.contentHash, h⟩ id now hbuildable
  generalize hdoc : Document.register id now command.tenantId command.collectionId title st
    command.sourceUri ⟨command.contentHash, h⟩ = doc at hbuild
  have hlookup : RegisterDocumentHandler.lookup command id now t = .ok (.inr doc) := by
    rw [lookup_of_pattern h hnone, hbuild]
    rfl
  have hfits : (DocumentModel.ofDomain doc).fitColumns.isSome ↔
      command.contentHash.length = 64 ∧ command.Storable := by
    rw [DocumentModel.fitColumns_ofDomain]
    subst hdoc
    show '\x00' ∉ title.value ∧ command.contentHash.length = 64 ∧
      (varchar 2048 command.sourceUri).isSome ↔ _
    rw [htitle]
    exact and_left_comm
  refine ⟨fun hstorable => ?_, fun hnot => ?_⟩
  · obtain ⟨row, hfit⟩ := Option.isSome_iff_exists.mp (hfits.mpr hstorable)
    obtain ⟨uri, -, rfl⟩ := Documents.fitColumns_some hfit
    subst hdoc
    obtain ⟨t', hins⟩ : ∃ t', t.insert { DocumentModel.ofDomain (.register id now command.tenantId
        command.collectionId title st command.sourceUri ⟨command.contentHash, h⟩) with
          sourceUri := uri } = some t' := by
      refine Table.exists_insert ?_
      rintro row hrow (hid | ⟨ht, hh⟩)
      · exact hfresh row hrow hid
      · exact hnone ⟨row, hrow, ht, congrArg ContentHash.value hh⟩
    have hhandle : ∃ dto, RegisterDocumentHandler.handle command id now t = (.ok dto, t') ∧
        dto.id = id := by
      unfold RegisterDocumentHandler.handle Documents.addCommit
      simp only [hlookup, hfit, hins]
      exact ⟨_, rfl, rfl⟩
    obtain ⟨dto, hhandle, hid⟩ := hhandle
    exact ⟨dto, t', _, hhandle, hins, hid, rfl, rfl, htitle, hsource, rfl, rfl⟩
  · have hfit : (DocumentModel.ofDomain doc).fitColumns = none :=
      Option.not_isSome_iff_eq_none.mp fun hsome => hnot (hfits.mp hsome)
    unfold RegisterDocumentHandler.handle Documents.addCommit
    simp only [hlookup, hfit]

/-! ## Where the checks decide -/

theorem valid_iff_buildable (h : sha256Re command.contentHash = true) :
    command.Valid ↔ command.Buildable ∧ command.contentHash.length = 64 := by
  constructor
  · intro hvalid
    exact ⟨⟨hvalid.titleNonempty, hvalid.titleShort, hvalid.sourceType⟩, hvalid.hashLength⟩
  · rintro ⟨⟨hempty, hshort, hsource⟩, hlength⟩
    have htake : command.contentHash.take 64 = command.contentHash :=
      List.take_of_length_le (by rw [hlength])
    simp only [sha256Re, Bool.and_eq_true, htake] at h
    exact ⟨hempty, hshort, hsource, hlength, List.all_eq_true.mp h.1.2⟩

theorem decidedByValid_iff (hnone : ¬ command.HashStored t) (hfresh : ∀ row ∈ t.rows, row.id ≠ id) :
    command.DecidedByValid id now t ↔ command.Valid ∧ command.Storable ∨ command.Refused := by
  by_cases hrefused : command.Refused
  · have hrejected : command.Rejected id now t := by
      by_cases hsha : sha256Re command.contentHash = true
      · exact rejected_of_title hsha hnone (hrefused.resolve_left (by simp [hsha]))
      · exact rejected_of_pattern (by simpa using hsha)
    refine iff_of_true ⟨?_, fun _ => hrejected⟩ (.inr hrefused)
    exact iff_of_false (fun hcreates => hcreates.not_rejected hrejected)
      (not_valid_of_refused hrefused)
  · rw [or_iff_left hrefused]
    have hsha : sha256Re command.contentHash = true := by
      by_contra hsha
      exact hrefused (.inl (by simpa using hsha))
    have hempty : strip command.title ≠ [] := fun h => hrefused (.inr (.inl h))
    have hshort : (strip command.title).length ≤ maxTitleLen := by
      by_contra hlong
      exact hrefused (.inr (.inr (by omega)))
    by_cases hsource : ∃ s ∈ SourceType.all, s.value = command.sourceType
    · have hbuildable : command.Buildable := ⟨hempty, hshort, hsource⟩
      obtain ⟨hcreates, hdata⟩ := @creates_or_dataError command id now t hsha hnone hfresh
        hbuildable
      rw [valid_iff_buildable hsha, and_iff_right hbuildable]
      by_cases hstorable : command.contentHash.length = 64 ∧ command.Storable
      · refine iff_of_true ⟨?_, ?_⟩ hstorable
        · exact iff_of_true (hcreates hstorable)
            ((valid_iff_buildable hsha).mpr ⟨hbuildable, hstorable.1⟩)
        · intro hnot
          exact absurd ((valid_iff_buildable hsha).mpr ⟨hbuildable, hstorable.1⟩) hnot
      · refine iff_of_false ?_ hstorable
        have herror := hdata hstorable
        intro hdecided
        by_cases hvalid : command.Valid
        · obtain ⟨dto, t', row, hhandle, -⟩ := hdecided.creates.mpr hvalid
          rw [herror] at hhandle
          cases hhandle
        · obtain ⟨message, hhandle⟩ := hdecided.rejects hvalid
          rw [herror] at hhandle
          cases hhandle
    · have hvalid : ¬ command.Valid := fun h => hsource h.sourceType
      obtain ⟨message, hvalue⟩ := @valueError_of_sourceType command id now t hsha hnone hempty
        hshort fun s hs heq => hsource ⟨s, hs, heq⟩
      refine iff_of_false ?_ fun h => hvalid h.1
      intro hdecided
      obtain ⟨message', hhandle⟩ := hdecided.rejects hvalid
      rw [hvalue] at hhandle
      cases hhandle

end RegisterDocumentCommand

/-- For every command, in a store without its hash, the handler creates a document exactly for a
    valid command and rejects every other one if and only if the command is valid and its texts
    go into their columns, or the pattern or the title's checks turn it down. What is left is a
    source type that is none of the enumeration, a hash with a newline behind its digits, and a
    text that the database refuses. -/
theorem register_decidedByValid_iff (command : RegisterDocumentCommand) (id : UUID) (now : Instant)
    (t : Documents) (hnone : ¬ command.HashStored t) (hfresh : ∀ row ∈ t.rows, row.id ≠ id) :
    command.DecidedByValid id now t ↔ command.Valid ∧ command.Storable ∨ command.Refused :=
  RegisterDocumentCommand.decidedByValid_iff hnone hfresh

/-! ### A source type of another system -/

/-- A request as it passes the schema, from a system that is not in the enumeration. -/
def ftpCommand : RegisterDocumentCommand := { guideCommand with sourceType := "ftp".toList }

/-- It ends in a `ValueError`, which no handler of the API maps to a client error. -/
theorem ftpCommand_not_decidedByValid : ¬ ∀ (command : RegisterDocumentCommand) (id : UUID)
    (now : Instant) (t : Documents), ¬ command.HashStored t → (∀ row ∈ t.rows, row.id ≠ id) →
      command.DecidedByValid id now t := by
  intro hall
  have hdecided := hall ftpCommand ⟨1⟩ 0 .empty (fun ⟨_, hrow, _⟩ => nomatch hrow)
    fun _ hrow => nomatch hrow
  have hvalid : ¬ ftpCommand.Valid := fun h => absurd h.sourceType (by decide)
  obtain ⟨message, hrejected⟩ := hdecided.rejects hvalid
  have hraises : (RegisterDocumentHandler.handle ftpCommand ⟨1⟩ 0 .empty).1 =
      .error (.valueError "'ftp' is not a valid SourceType".toList) := by rfl
  rw [hrejected] at hraises
  cases hraises

/-- The same request with a source type of the enumeration, on an empty store. -/
theorem guideCommand_decidedByValid : guideCommand.DecidedByValid ⟨1⟩ 0 .empty ↔
    guideCommand.Valid ∧ guideCommand.Storable ∨ guideCommand.Refused :=
  register_decidedByValid_iff guideCommand ⟨1⟩ 0 .empty (fun ⟨_, hrow, _⟩ => nomatch hrow)
    fun _ hrow => nomatch hrow

end Eka
