import Eka.Documents.Registration
import Eka.Lib.Transition

/-!
# Registrations of one content that run at the same time

Any number of `RegisterDocumentHandler.handle` calls for one tenant and one hash, each in
the three steps between which another call can run: the lookup, `documents.add`, and the
commit, where the flush runs into `uq_documents_tenant_hash`. Nothing handles the
`IntegrityError`, so a call that looked up before the winner committed ends in it.
-/

namespace Eka

open Py Relational Transition

namespace RegisterDocumentHandler

variable {command : RegisterDocumentCommand} {hash : ContentHash} {id : UUID} {now : Instant}

/-- A lookup that finds or builds a document, where no row of its hash is deleted. -/
theorem lookup_isOk {t : Documents}
    (hlive : ∀ row ∈ t.rows, row.tenantId = command.tenantId →
      row.contentHash.value = command.contentHash → row.status ≠ .deleted) :
    (∃ found, lookup command id now t = .ok found) ↔
      sha256Re command.contentHash = true ∧ (command.HashStored t ∨ command.Buildable) := by
  by_cases hhash : sha256Re command.contentHash = true
  · have hmake : ContentHash.make command.contentHash = .ok ⟨command.contentHash, hhash⟩ :=
      dif_pos hhash
    unfold lookup
    rw [hmake]
    simp only [bind, Except.bind, hhash, true_and]
    cases hfind : Documents.findByContentHash command.tenantId
        ⟨command.contentHash, hhash⟩ t with
    | some existing =>
        obtain ⟨row, hrow, ht, hh, -, -⟩ := Documents.findByContentHash_eq_some.mp hfind
        exact iff_of_true ⟨_, rfl⟩ (.inl ⟨row, hrow, ht, congrArg ContentHash.value hh⟩)
    | none =>
        have hdead := Documents.findByContentHash_eq_none.mp hfind
        have hstored : ¬ command.HashStored t := by
          rintro ⟨row, hrow, ht, hh⟩
          refine hlive row hrow ht hh (hdead row hrow ht ?_)
          cases hrowHash : row.contentHash with
          | mk value wellFormed => simpa [hrowHash] using hh
        rw [or_iff_right hstored]
        cases hbuild : build command ⟨command.contentHash, hhash⟩ id now with
        | ok doc => exact iff_of_true ⟨_, rfl⟩ (build_ok hbuild).1
        | error e =>
            refine iff_of_false ?_ ?_
            · rintro ⟨found, hfound⟩
              cases hfound
            · intro hbuildable
              obtain ⟨title, st, -, -, hdoc⟩ := exists_build command
                ⟨command.contentHash, hhash⟩ id now hbuildable
              rw [hbuild] at hdoc
              cases hdoc
  · refine iff_of_false ?_ fun h => hhash h.1
    rintro ⟨found, hfound⟩
    unfold lookup ContentHash.make at hfound
    rw [dif_neg hhash] at hfound
    cases hfound

theorem lookup_existing {t : Documents} {dto : DocumentDTO}
    (h : lookup command id now t = .ok (.inl dto)) : ∃ row ∈ t.rows, row.id = dto.id ∧
      row.tenantId = command.tenantId ∧ row.contentHash.value = command.contentHash := by
  unfold lookup at h
  cases hmake : ContentHash.make command.contentHash with
  | error e => simp [hmake, bind, Except.bind] at h
  | ok hash =>
      have hvalue := ContentHash.make_ok hmake
      cases hfind : Documents.findByContentHash command.tenantId hash t with
      | some existing =>
          obtain ⟨row, hrow, ht, hh, -, rfl⟩ := Documents.findByContentHash_eq_some.mp hfind
          simp only [hmake, hfind, bind, Except.bind, pure, Except.pure, Except.ok.injEq,
            Sum.inl.injEq] at h
          subst h
          exact ⟨row, hrow, rfl, ht, by rw [hh, hvalue]⟩
      | none =>
          cases hbuild : build command hash id now <;>
            simp [hmake, hfind, hbuild, bind, Except.bind, pure, Except.pure] at h

theorem lookup_built {t : Documents} {doc : Document}
    (h : lookup command id now t = .ok (.inr doc)) : ∃ title sourceType hash,
      title.value = strip command.title ∧ hash.value = command.contentHash ∧
      doc = .register id now command.tenantId command.collectionId title sourceType
        command.sourceUri hash := by
  unfold lookup at h
  cases hmake : ContentHash.make command.contentHash with
  | error e => simp [hmake, bind, Except.bind] at h
  | ok hash =>
      have hvalue := ContentHash.make_ok hmake
      cases hfind : Documents.findByContentHash command.tenantId hash t with
      | some existing => simp [hmake, hfind, bind, Except.bind, pure, Except.pure] at h
      | none =>
          cases hbuild : build command hash id now with
          | error e => simp [hmake, hfind, hbuild, bind, Except.bind] at h
          | ok doc' =>
              simp only [hmake, hfind, hbuild, bind, Except.bind, pure, Except.pure,
                Except.ok.injEq, Sum.inr.injEq] at h
              subst h
              obtain ⟨-, title, st, htitle, hdoc⟩ := build_ok hbuild
              exact ⟨title, st, hash, htitle, hvalue, hdoc⟩

end RegisterDocumentHandler

/-- `n` calls of one tenant and one hash, with the id that each draws and the instant of its
    aggregate; `uuid4` draws no id twice. -/
structure Registrations (n : Nat) where
  tenantId : UUID
  contentHash : Str
  command : Fin n → RegisterDocumentCommand
  id : Fin n → UUID
  now : Fin n → Instant
  sameTenant : ∀ i, (command i).tenantId = tenantId
  sameHash : ∀ i, (command i).contentHash = contentHash
  distinct : Function.Injective id

/-- How far a call is. -/
inductive Progress where
  | called
  | looked (document : Document)
  | added (document : Document)
  | returned (outcome : Except Error DocumentDTO)

/-- The table, and every call. -/
structure RegistrationState (n : Nat) where
  table : Documents
  calls : Fin n → Progress

/-- A call takes its next step. -/
inductive RegistrationStep (n : Nat) where
  | lookup (i : Fin n)
  | add (i : Fin n)
  | commit (i : Fin n)
  deriving DecidableEq, Repr

variable {n : Nat}

namespace RegistrationState

/-- The call with this number is now so far. -/
def move (s : RegistrationState n) (i : Fin n) (p : Progress) : RegistrationState n :=
  { s with calls := Function.update s.calls i p }

@[simp] theorem table_move (s : RegistrationState n) (i : Fin n) (p : Progress) :
    (s.move i p).table = s.table := rfl

@[simp] theorem move_self (s : RegistrationState n) (i : Fin n) (p : Progress) :
    (s.move i p).calls i = p := by
  simp [move]

theorem move_of_ne {i j : Fin n} (h : j ≠ i) (s : RegistrationState n) (p : Progress) :
    (s.move i p).calls j = s.calls j := by
  simp [move, h]

end RegistrationState

namespace Registrations

/-- Before the first step of any call. -/
def start (t : Documents) : RegistrationState n := ⟨t, fun _ => .called⟩

/-- One step of one call, with `handle` cut where another call can run
    (`commands.py:37-56`); what a step raises ends its call, and the session is rolled
    back. -/
def step (calls : Registrations n) (s : RegistrationState n) :
    RegistrationStep n → Option (RegistrationState n)
  | .lookup i =>
      match s.calls i with
      | .called =>
          match RegisterDocumentHandler.lookup (calls.command i) (calls.id i) (calls.now i)
              s.table with
          | .error e => some (s.move i (.returned (.error e)))
          | .ok (.inl existing) => some (s.move i (.returned (.ok existing)))
          | .ok (.inr document) => some (s.move i (.looked document))
      | _ => none
  | .add i =>
      match s.calls i with
      | .looked document => some (s.move i (.added document))
      | _ => none
  | .commit i =>
      match s.calls i with
      | .added document =>
          match Documents.addCommit document s.table with
          | .error e => some (s.move i (.returned (.error e)))
          | .ok t =>
              some ({ s with table := t }.move i (.returned (.ok (.fromAggregate document))))
      | _ => none

variable {calls : Registrations n} {s s' : RegistrationState n}

/-- The steps of a call that nothing runs between are `handle`. -/
theorem run_handle {i : Fin n} (hcalled : s.calls i = .called) :
    ∃ labels, run calls.step s labels = some
      ({ s with table := (RegisterDocumentHandler.handle (calls.command i) (calls.id i)
          (calls.now i) s.table).2 }.move i
        (.returned (RegisterDocumentHandler.handle (calls.command i) (calls.id i)
          (calls.now i) s.table).1)) := by
  unfold RegisterDocumentHandler.handle
  cases hlookup : RegisterDocumentHandler.lookup (calls.command i) (calls.id i) (calls.now i)
      s.table with
  | error e => exact ⟨[.lookup i], by simp [run, step, hcalled, hlookup]⟩
  | ok found =>
      cases found with
      | inl existing => exact ⟨[.lookup i], by simp [run, step, hcalled, hlookup]⟩
      | inr document =>
          refine ⟨[.lookup i, .add i, .commit i], ?_⟩
          cases hcommit : Documents.addCommit document s.table with
          | error e => simp [run, step, hcalled, hlookup, hcommit, RegistrationState.move]
          | ok t => simp [run, step, hcalled, hlookup, hcommit, RegistrationState.move]

/-- Every call that has returned has returned normally, and all with one id. -/
def Converged (s : RegistrationState n) : Prop :=
  (∀ i e, s.calls i ≠ .returned (.error e)) ∧
    ∀ i j a b, s.calls i = .returned (.ok a) → s.calls j = .returned (.ok b) → a.id = b.id

/-- A lookup of a well-formed hash finds its row or has texts that a document can be built
    from; a commit finds no row of its hash and its texts go into the columns. -/
def Clear (calls : Registrations n) (s : RegistrationState n) : RegistrationStep n → Prop
  | .lookup i => sha256Re calls.contentHash = true ∧
      ((calls.command i).HashStored s.table ∨ (calls.command i).Buildable)
  | .add _ => True
  | .commit i => ¬ (calls.command i).HashStored s.table ∧ calls.contentHash.length = 64 ∧
      (calls.command i).Storable

/-- A document that the call with this number built. -/
structure BuiltBy (calls : Registrations n) (i : Fin n) (doc : Document) : Prop where
  id : doc.id = calls.id i
  tenantId : doc.tenantId = calls.tenantId
  contentHash : doc.contentHash.value = calls.contentHash
  title : doc.title.value = strip (calls.command i).title
  sourceUri : doc.sourceUri = (calls.command i).sourceUri
  status : doc.status = .registered

/-- What holds in every state of every run. -/
structure Inv (calls : Registrations n) (s : RegistrationState n) : Prop where
  building : ∀ i doc, s.calls i = .looked doc ∨ s.calls i = .added doc → calls.BuiltBy i doc
  answered : ∀ i dto, s.calls i = .returned (.ok dto) → ∃ row ∈ s.table.rows,
    row.id = dto.id ∧ row.tenantId = calls.tenantId ∧
      row.contentHash.value = calls.contentHash
  live : ∀ row ∈ s.table.rows, row.tenantId = calls.tenantId →
    row.contentHash.value = calls.contentHash → row.status ≠ .deleted
  fresh : ∀ row ∈ s.table.rows, ∀ i, row.id = calls.id i → ∃ o, s.calls i = .returned o

/-- A table without a row of the hash, and ids that no row has. -/
structure Unregistered (calls : Registrations n) (t : Documents) : Prop where
  hash : ∀ row ∈ t.rows, row.tenantId = calls.tenantId →
    row.contentHash.value ≠ calls.contentHash
  fresh : ∀ row ∈ t.rows, ∀ i, row.id ≠ calls.id i

theorem inv_start {t : Documents} (h : calls.Unregistered t) : calls.Inv (start t) where
  building i doc hbuilding := by rcases hbuilding with hbuilding | hbuilding <;> cases hbuilding
  answered i dto hreturned := by cases hreturned
  live row hrow ht hh := absurd hh (h.hash row hrow ht)
  fresh row hrow i hid := absurd hid (h.fresh row hrow i)

/-- A step of one call keeps the invariant when the rows it adds are its own. -/
theorem Inv.next (h : calls.Inv s) {t : Documents} {i : Fin n} {p : Progress}
    (hkept : ∀ row ∈ s.table.rows, row ∈ t.rows)
    (hadded : ∀ row ∈ t.rows, row ∈ s.table.rows ∨
      row.id = calls.id i ∧ row.status = .registered ∧ ∃ o, p = .returned o)
    (hbuilding : ∀ doc, p = .looked doc ∨ p = .added doc → calls.BuiltBy i doc)
    (hanswered : ∀ dto, p = .returned (.ok dto) → ∃ row ∈ t.rows, row.id = dto.id ∧
      row.tenantId = calls.tenantId ∧ row.contentHash.value = calls.contentHash)
    (hcalling : ∀ o, s.calls i ≠ .returned o) :
    calls.Inv ({ s with table := t }.move i p) where
  building j doc hj := by
    by_cases hji : j = i
    · subst hji
      rw [RegistrationState.move_self] at hj
      exact hbuilding doc hj
    · rw [RegistrationState.move_of_ne hji] at hj
      exact h.building j doc hj
  answered j dto hj := by
    by_cases hji : j = i
    · subst hji
      rw [RegistrationState.move_self] at hj
      exact hanswered dto hj
    · rw [RegistrationState.move_of_ne hji] at hj
      obtain ⟨row, hrow, hcolumns⟩ := h.answered j dto hj
      exact ⟨row, hkept row hrow, hcolumns⟩
  live row hrow ht hh := by
    rcases hadded row hrow with hold | ⟨-, hstatus, -⟩
    · exact h.live row hold ht hh
    · rw [hstatus]
      decide
  fresh row hrow j hid := by
    rcases hadded row hrow with hold | ⟨hown, -, o, rfl⟩
    · obtain ⟨o, ho⟩ := h.fresh row hold j hid
      have hji : j ≠ i := by
        rintro rfl
        exact hcalling o ho
      exact ⟨o, by rw [RegistrationState.move_of_ne hji]; exact ho⟩
    · obtain rfl : j = i := calls.distinct (hid.symm.trans hown)
      exact ⟨o, RegistrationState.move_self _ _ _⟩

/-- A step that leaves the table alone. -/
theorem Inv.move (h : calls.Inv s) {i : Fin n} {p : Progress}
    (hbuilding : ∀ doc, p = .looked doc ∨ p = .added doc → calls.BuiltBy i doc)
    (hanswered : ∀ dto, p = .returned (.ok dto) → ∃ row ∈ s.table.rows, row.id = dto.id ∧
      row.tenantId = calls.tenantId ∧ row.contentHash.value = calls.contentHash)
    (hcalling : ∀ o, s.calls i ≠ .returned o) : calls.Inv (s.move i p) :=
  h.next (fun _ hrow => hrow) (fun _ hrow => .inl hrow) hbuilding hanswered hcalling

/-- A commit that goes through: nothing stored clashes, and the texts go into the columns. -/
theorem addCommit_isOk {i : Fin n} {doc : Document} (hbuilt : calls.BuiltBy i doc)
    {t : Documents} (hfresh : ∀ row ∈ t.rows, row.id ≠ calls.id i) :
    (∃ t', Documents.addCommit doc t = .ok t') ↔
      ¬ (calls.command i).HashStored t ∧ calls.contentHash.length = 64 ∧
        (calls.command i).Storable := by
  have hfits : (DocumentModel.ofDomain doc).fitColumns.isSome ↔
      calls.contentHash.length = 64 ∧ (calls.command i).Storable := by
    rw [DocumentModel.fitColumns_ofDomain, hbuilt.title, hbuilt.contentHash, hbuilt.sourceUri]
    exact and_left_comm
  rw [← hfits]
  unfold Documents.addCommit
  cases hfit : (DocumentModel.ofDomain doc).fitColumns with
  | none => simp
  | some row =>
      obtain ⟨uri, -, rfl⟩ := Documents.fitColumns_some hfit
      simp only [Option.isSome_some, and_true]
      cases hinsert : t.insert { DocumentModel.ofDomain doc with sourceUri := uri } with
      | none =>
          refine iff_of_false (fun ⟨t', ht'⟩ => nomatch ht') (not_not_intro ?_)
          obtain ⟨row, hrow, hclash⟩ := Table.insert_eq_none.mp hinsert
          rcases hclash with hid | ⟨ht, hh⟩
          · exact absurd (hid.trans hbuilt.id) (hfresh row hrow)
          · refine ⟨row, hrow, ?_, ?_⟩
            · rw [calls.sameTenant]
              exact ht.trans hbuilt.tenantId
            · rw [calls.sameHash, hh]
              exact hbuilt.contentHash
      | some t' =>
          refine iff_of_true ⟨t', rfl⟩ ?_
          rintro ⟨row, hrow, ht, hh⟩
          rw [calls.sameTenant] at ht
          rw [calls.sameHash] at hh
          refine Table.not_clash_of_insert hinsert row hrow (.inr ⟨?_, ?_⟩)
          · exact ht.trans hbuilt.tenantId.symm
          · exact ContentHash.ext (hh.trans hbuilt.contentHash.symm)

/-- What a step does: one call that has not returned moves on, the invariant is kept, and the
    call fails exactly when the step was not clear. -/
def Moves (calls : Registrations n) (s : RegistrationState n) (label : RegistrationStep n)
    (s' : RegistrationState n) : Prop :=
  calls.Inv s' ∧ ∃ i p t, s' = { s with table := t }.move i p ∧
    (∀ o, s.calls i ≠ .returned o) ∧ ((∀ e, p ≠ .returned (.error e)) ↔ calls.Clear s label)

theorem moves_lookup (hinv : calls.Inv s) {i : Fin n}
    (h : calls.step s (.lookup i) = some s') : calls.Moves s (.lookup i) s' := by
  cases hcall : s.calls i with
  | called =>
      simp only [step, hcall] at h
      have hnot : ∀ o, s.calls i ≠ .returned o := by
        intro o
        rw [hcall]
        exact fun hp => nomatch hp
      have hok := @RegisterDocumentHandler.lookup_isOk (calls.command i)
        (calls.id i) (calls.now i) s.table (by
          rw [calls.sameTenant, calls.sameHash]
          exact hinv.live)
      rw [calls.sameHash] at hok
      cases hlookup : RegisterDocumentHandler.lookup (calls.command i) (calls.id i)
          (calls.now i) s.table with
      | error e =>
          simp only [hlookup, Option.some.injEq] at h
          subst h
          refine ⟨hinv.move ?_ ?_ hnot, i, _, s.table, rfl, hnot, ?_⟩
          · rintro doc (hp | hp) <;> cases hp
          · rintro dto hp
            cases hp
          · refine iff_of_false (fun hne => hne e rfl) ?_
            intro hclear
            obtain ⟨found, hfound⟩ := hok.mpr hclear
            rw [hlookup] at hfound
            cases hfound
      | ok found =>
          have hclear : calls.Clear s (.lookup i) := hok.mp ⟨found, hlookup⟩
          cases found with
          | inl dto =>
              simp only [hlookup, Option.some.injEq] at h
              subst h
              refine ⟨hinv.move ?_ ?_ hnot, i, _, s.table, rfl, hnot, ?_⟩
              · rintro doc (hp | hp) <;> cases hp
              · rintro dto' hp
                cases hp
                have hrow := RegisterDocumentHandler.lookup_existing hlookup
                rwa [calls.sameTenant, calls.sameHash] at hrow
              · refine iff_of_true ?_ hclear
                intro e hp
                cases hp
          | inr doc =>
              simp only [hlookup, Option.some.injEq] at h
              subst h
              refine ⟨hinv.move ?_ ?_ hnot, i, _, s.table, rfl, hnot, ?_⟩
              · rintro doc' (hp | hp)
                · cases hp
                  obtain ⟨title, st, hash, htitle, hhash, rfl⟩ :=
                    RegisterDocumentHandler.lookup_built hlookup
                  exact ⟨rfl, calls.sameTenant i, hhash.trans (calls.sameHash i), htitle,
                    rfl, rfl⟩
                · cases hp
              · rintro dto hp
                cases hp
              · refine iff_of_true ?_ hclear
                intro e hp
                cases hp
  | looked doc => simp [step, hcall] at h
  | added doc => simp [step, hcall] at h
  | returned o => simp [step, hcall] at h

theorem moves_add (hinv : calls.Inv s) {i : Fin n} (h : calls.step s (.add i) = some s') :
    calls.Moves s (.add i) s' := by
  cases hcall : s.calls i with
  | looked doc =>
      simp only [step, hcall, Option.some.injEq] at h
      have hnot : ∀ o, s.calls i ≠ .returned o := by
        intro o
        rw [hcall]
        exact fun hp => nomatch hp
      subst h
      refine ⟨hinv.move ?_ ?_ hnot, i, _, s.table, rfl, hnot, ?_⟩
      · rintro doc' (hp | hp)
        · cases hp
        · cases hp
          exact hinv.building i doc (.inl hcall)
      · rintro dto hp
        cases hp
      · refine iff_of_true ?_ trivial
        intro e hp
        cases hp
  | called => simp [step, hcall] at h
  | added doc => simp [step, hcall] at h
  | returned o => simp [step, hcall] at h

theorem moves_commit (hinv : calls.Inv s) {i : Fin n} (h : calls.step s (.commit i) = some s') :
    calls.Moves s (.commit i) s' := by
  cases hcall : s.calls i with
  | added doc =>
      simp only [step, hcall] at h
      have hnot : ∀ o, s.calls i ≠ .returned o := by
        intro o
        rw [hcall]
        exact fun hp => nomatch hp
      have hbuilt := hinv.building i doc (.inr hcall)
      have hfresh : ∀ row ∈ s.table.rows, row.id ≠ calls.id i := by
        intro row hrow hid
        obtain ⟨o, ho⟩ := hinv.fresh row hrow i hid
        exact hnot o ho
      have hok := addCommit_isOk hbuilt hfresh
      cases hcommit : Documents.addCommit doc s.table with
      | error e =>
          simp only [hcommit, Option.some.injEq] at h
          subst h
          refine ⟨hinv.move ?_ ?_ hnot, i, _, s.table, rfl, hnot, ?_⟩
          · rintro doc' (hp | hp) <;> cases hp
          · rintro dto hp
            cases hp
          · refine iff_of_false (fun hne => hne e rfl) ?_
            intro hclear
            obtain ⟨t, ht⟩ := hok.mpr hclear
            rw [hcommit] at ht
            cases ht
      | ok t =>
          simp only [hcommit, Option.some.injEq] at h
          subst h
          obtain ⟨uri, -, hinsert⟩ := Documents.addCommit_ok hcommit
          have hrow := (Table.mem_insert hinsert).mpr (.inr rfl)
          refine ⟨hinv.next ?_ ?_ ?_ ?_ hnot, i, _, t, rfl, hnot, ?_⟩
          · intro row hold
            exact (Table.mem_insert hinsert).mpr (.inl hold)
          · intro row hmem
            rcases (Table.mem_insert hinsert).mp hmem with hold | rfl
            · exact .inl hold
            · exact .inr ⟨hbuilt.id, hbuilt.status, _, rfl⟩
          · rintro doc' (hp | hp) <;> cases hp
          · rintro dto hp
            cases hp
            exact ⟨_, hrow, rfl, hbuilt.tenantId, hbuilt.contentHash⟩
          · refine iff_of_true ?_ (hok.mp ⟨t, hcommit⟩)
            intro e hp
            cases hp
  | called => simp [step, hcall] at h
  | looked doc => simp [step, hcall] at h
  | returned o => simp [step, hcall] at h

theorem step_moves (hinv : calls.Inv s) {label : RegistrationStep n}
    (h : calls.step s label = some s') : calls.Moves s label s' := by
  cases label with
  | lookup i => exact moves_lookup hinv h
  | add i => exact moves_add hinv h
  | commit i => exact moves_commit hinv h

/-! ## Runs -/

def NoError (s : RegistrationState n) : Prop := ∀ i e, s.calls i ≠ .returned (.error e)

theorem step_noError (hinv : calls.Inv s) {label : RegistrationStep n}
    (h : calls.step s label = some s') : NoError s' ↔ NoError s ∧ calls.Clear s label := by
  obtain ⟨-, i, p, t, rfl, hnot, hclear⟩ := step_moves hinv h
  rw [← hclear]
  constructor
  · intro hs'
    constructor
    · intro j e hj
      refine hs' j e ?_
      have hji : j ≠ i := by
        rintro rfl
        exact hnot _ hj
      rw [RegistrationState.move_of_ne hji]
      exact hj
    · intro e hp
      refine hs' i e ?_
      rw [RegistrationState.move_self, hp]
  · rintro ⟨hs, hp⟩ j e hj
    by_cases hji : j = i
    · subst hji
      rw [RegistrationState.move_self] at hj
      exact hp e hj
    · rw [RegistrationState.move_of_ne hji] at hj
      exact hs j e hj

theorem run_inv (hinv : calls.Inv s) {labels : List (RegistrationStep n)}
    (hrun : run calls.step s labels = some s') : calls.Inv s' :=
  run_induction (J := fun _ s => calls.Inv s) hinv
    (fun _ _ _ _ hs hstep => (step_moves hs hstep).1) hrun

/-- A run is free of errors exactly when all its steps were clear. -/
theorem run_noError (hinv : calls.Inv s) (hs : NoError s) {labels : List (RegistrationStep n)}
    (hrun : run calls.step s labels = some s') :
    NoError s' ↔ Along calls.step calls.Clear s labels := by
  induction labels using List.reverseRecOn generalizing s' with
  | nil =>
      cases hrun
      exact iff_of_true hs trivial
  | append_singleton labels label ih =>
      obtain ⟨s₁, hfront, hstep⟩ := run_concat.mp hrun
      rw [step_noError (run_inv hinv hfront) hstep, ih hfront, along_append]
      refine and_congr_right fun _ => ?_
      constructor
      · intro hclear s₂ hs₂
        obtain rfl : s₁ = s₂ := Option.some.inj (hfront.symm.trans hs₂)
        exact ⟨hclear, fun _ _ => trivial⟩
      · intro halong
        exact (halong s₁ hfront).1

/-- The unique constraint leaves one row for the answers to name. -/
theorem Inv.converged_iff_noError (h : calls.Inv s) : Converged s ↔ NoError s := by
  refine ⟨fun hs => hs.1, fun hs => ⟨hs, ?_⟩⟩
  intro i j a b ha hb
  obtain ⟨row, hrow, hid, ht, hh⟩ := h.answered i a ha
  obtain ⟨row', hrow', hid', ht', hh'⟩ := h.answered j b hb
  have hsame : row.contentHash = row'.contentHash := by
    cases hrowHash : row.contentHash with
    | mk value wellFormed =>
        cases hrowHash' : row'.contentHash with
        | mk value' wellFormed' =>
            rw [hrowHash] at hh
            rw [hrowHash'] at hh'
            simp only [ContentHash.mk.injEq]
            exact hh.trans hh'.symm
  rw [← hid, ← hid', s.table.eq_of_contentHash hrow hrow' (ht.trans ht'.symm) hsame]

/-- Registration converges over a run, however its steps interleave, exactly when every lookup
    of it finds the row or can build a document, and every commit still finds no row of the
    hash and has texts that go into the columns. -/
theorem converged_iff (calls : Registrations n) {t : Documents} (hstart : calls.Unregistered t)
    {labels : List (RegistrationStep n)} {s : RegistrationState n}
    (hrun : run calls.step (start t) labels = some s) :
    Converged s ↔ Along calls.step calls.Clear (start t) labels := by
  have hinv := inv_start hstart
  rw [(run_inv hinv hrun).converged_iff_noError,
    run_noError hinv (fun _ _ hcalled => nomatch hcalled) hrun]

/-- Two calls with the request of `guideCommand`. -/
def guides : Registrations 2 where
  tenantId := guideCommand.tenantId
  contentHash := guideCommand.contentHash
  command _ := guideCommand
  id i := ⟨.ofNat 128 i⟩
  now _ := 1
  sameTenant _ := rfl
  sameHash _ := rfl
  distinct := by
    unfold Function.Injective
    decide

theorem guides_unregistered : guides.Unregistered .empty :=
  ⟨by simp, by simp⟩

/-- Two calls look up before either commits: both commit, and the second ends in an
    `IntegrityError`. -/
theorem guides_race : ¬ ∀ labels s, run guides.step (start .empty) labels = some s →
    Converged s := by
  intro h
  have hrun : (run guides.step (start .empty)
      [.lookup 0, .lookup 1, .add 0, .add 1, .commit 0, .commit 1]).map (·.calls 1) =
      some (.returned (.error .integrityError)) := by rfl
  obtain ⟨s, hs, hcall⟩ := Option.map_eq_some_iff.mp hrun
  exact (h _ s hs).1 1 _ hcall

/-- One after the other, the second call returns the document of the first. -/
theorem guides_in_turn : ∃ s, run guides.step (start .empty)
    [.lookup 0, .add 0, .commit 0, .lookup 1] = some s ∧
      (Converged s ↔ Along guides.step guides.Clear (start .empty)
        [.lookup 0, .add 0, .commit 0, .lookup 1]) := by
  have hrun : (run guides.step (start .empty)
      [.lookup 0, .add 0, .commit 0, .lookup 1]).isSome := by rfl
  obtain ⟨s, hs⟩ := Option.isSome_iff_exists.mp hrun
  exact ⟨s, hs, converged_iff guides guides_unregistered hs⟩

end Registrations

end Eka
