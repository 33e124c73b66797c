import Eka.System.Exposure
import Eka.System.Tenancy

/-!
# What a tenant can tell of the others

A tenant's requests read and write the tenant's rows and cache entries alone. So two
databases in which these agree answer them alike, and agree again afterwards, up to the
ids that the two requests draw.
-/

namespace Eka

open Py Relational Transition Fallible

/-! ## Fresh ids -/

/-- Neither a document nor a job has this id. -/
structure Store.Unused (s : Store) (id : UUID) : Prop where
  documents : ∀ row ∈ s.documents.rows, row.id ≠ id
  jobs : ∀ row ∈ s.jobs.rows, row.id ≠ id

theorem Store.unused_of_ids {s : Store} {documents jobs : List UUID}
    (hdocuments : s.documents.rows.map (·.id) = documents) (hjobs : s.jobs.rows.map (·.id) = jobs)
    {id : UUID} (hid : id ∉ documents ++ jobs) : s.Unused id := by
  subst hdocuments hjobs
  rw [List.mem_append, not_or] at hid
  constructor
  · rintro row hrow rfl
    exact hid.1 (List.mem_map_of_mem hrow)
  · rintro row hrow rfl
    exact hid.2 (List.mem_map_of_mem hrow)

/-- The row with one fresh id in the place of the other. -/
def DocumentModel.exchange (id₁ id₂ : UUID) (row : DocumentModel) : DocumentModel :=
  { row with id := Equiv.swap id₁ id₂ row.id }

def IngestionJobModel.exchange (id₁ id₂ : UUID) (row : IngestionJobModel) : IngestionJobModel :=
  { row with id := Equiv.swap id₁ id₂ row.id }

def DocumentDTO.exchange (id₁ id₂ : UUID) (document : DocumentDTO) : DocumentDTO :=
  { document with id := Equiv.swap id₁ id₂ document.id }

/-- The answer with one fresh id in the place of the other: only a registration returns one. -/
def Answer.exchange (id₁ id₂ : UUID) : Answer → Answer
  | .registered document => .registered (document.exchange id₁ id₂)
  | answer => answer

/-- The rows of the tenant are the same in both, up to the two fresh ids. -/
structure Store.AgreesUpTo (id₁ id₂ tenantId : UUID) (s₁ s₂ : Store) : Prop where
  documents : Table.AgreeUpTo (DocumentModel.exchange id₁ id₂) (fun row => row.tenantId = tenantId)
    s₁.documents s₂.documents
  contents : Table.Agree (fun row => row.tenantId = tenantId) s₁.contents s₂.contents
  chunks : Table.Agree (fun row => row.tenantId = tenantId) s₁.chunks s₂.chunks
  jobs : Table.AgreeUpTo (IngestionJobModel.exchange id₁ id₂) (fun row => row.tenantId = tenantId)
    s₁.jobs s₂.jobs

theorem DocumentModel.exchange_injective (id₁ id₂ : UUID) :
    Function.Injective (DocumentModel.exchange id₁ id₂) := by
  intro a b h
  cases a
  cases b
  simpa only [exchange, DocumentModel.mk.injEq, EmbeddingLike.apply_eq_iff_eq] using h

theorem IngestionJobModel.exchange_injective (id₁ id₂ : UUID) :
    Function.Injective (IngestionJobModel.exchange id₁ id₂) := by
  intro a b h
  cases a
  cases b
  simpa only [exchange, IngestionJobModel.mk.injEq, EmbeddingLike.apply_eq_iff_eq] using h

theorem DocumentModel.exchange_of_ne {id₁ id₂ : UUID} {row : DocumentModel} (h₁ : row.id ≠ id₁)
    (h₂ : row.id ≠ id₂) : row.exchange id₁ id₂ = row := by
  rw [exchange, Equiv.swap_apply_of_ne_of_ne h₁ h₂]

theorem IngestionJobModel.exchange_of_ne {id₁ id₂ : UUID} {row : IngestionJobModel}
    (h₁ : row.id ≠ id₁) (h₂ : row.id ≠ id₂) : row.exchange id₁ id₂ = row := by
  rw [exchange, Equiv.swap_apply_of_ne_of_ne h₁ h₂]

section FreshIds

variable {tenantId id₁ id₂ : UUID} {t₁ t₂ : Documents} {j₁ j₂ : Jobs}

theorem Documents.agree_upTo (h : Table.Agree (fun row => row.tenantId = tenantId) t₁ t₂)
    (h₁ : ∀ row ∈ t₁.rows, row.id ≠ id₁) (h₂ : ∀ row ∈ t₂.rows, row.id ≠ id₂) :
    Table.AgreeUpTo (DocumentModel.exchange id₁ id₂) (fun row => row.tenantId = tenantId) t₁ t₂ :=
  h.upTo (fun _ => rfl) (fun _ => DocumentModel.exchange_of_ne) (fun _ => Iff.rfl) h₁ h₂

theorem Jobs.agree_upTo (h : Table.Agree (fun row => row.tenantId = tenantId) j₁ j₂)
    (h₁ : ∀ row ∈ j₁.rows, row.id ≠ id₁) (h₂ : ∀ row ∈ j₂.rows, row.id ≠ id₂) :
    Table.AgreeUpTo (IngestionJobModel.exchange id₁ id₂) (fun row => row.tenantId = tenantId)
      j₁ j₂ :=
  h.upTo (fun _ => rfl) (fun _ => IngestionJobModel.exchange_of_ne) (fun _ => Iff.rfl) h₁ h₂

/-- As long as no fresh id is used, agreement is agreement. -/
theorem Store.Agrees.upTo {s₁ s₂ : Store} (h : s₁.Agrees tenantId s₂) (h₁ : s₁.Unused id₁)
    (h₂ : s₂.Unused id₂) : s₁.AgreesUpTo id₁ id₂ tenantId s₂ :=
  ⟨Documents.agree_upTo h.documents h₁.documents h₂.documents, h.contents, h.chunks,
    Jobs.agree_upTo h.jobs h₁.jobs h₂.jobs⟩

/-- Two requests that draw one id leave databases that agree. -/
theorem Store.AgreesUpTo.agrees {s₁ s₂ : Store} {id : UUID} (h : s₁.AgreesUpTo id id tenantId s₂) :
    s₁.Agrees tenantId s₂ := by
  have hdocuments : DocumentModel.exchange id id = fun row => row := by
    funext row
    rw [DocumentModel.exchange, Equiv.swap_self]
    rfl
  have hjobs : IngestionJobModel.exchange id id = fun row => row := by
    funext row
    rw [IngestionJobModel.exchange, Equiv.swap_self]
    rfl
  refine ⟨?_, h.contents, h.chunks, ?_⟩
  · have hrows := h.documents
    rwa [hdocuments] at hrows
  · have hrows := h.jobs
    rwa [hjobs] at hrows

end FreshIds

/-! ## Reads -/

section Reads

variable {tenantId documentId : UUID}

namespace Documents

variable {t₁ t₂ : Documents}

theorem select_agree (h : Table.Agree (fun row => row.tenantId = tenantId) t₁ t₂)
    (documentId : UUID) : select tenantId documentId t₁ = select tenantId documentId t₂ := by
  refine h.find? ?_ ?_
  · intro row hrow
    simp only [Bool.and_eq_true, beq_iff_eq] at hrow
    exact hrow.1.2
  · intro a b ha hb
    simp only [Bool.and_eq_true, beq_iff_eq] at ha hb
    exact .inl (ha.1.1.trans hb.1.1.symm)

theorem findByContentHash_agree (h : Table.Agree (fun row => row.tenantId = tenantId) t₁ t₂)
    (contentHash : ContentHash) :
    findByContentHash tenantId contentHash t₁ = findByContentHash tenantId contentHash t₂ := by
  refine congrArg (Option.map DocumentModel.toDomain) (h.find? ?_ ?_)
  · intro row hrow
    simp only [Bool.and_eq_true, beq_iff_eq] at hrow
    exact hrow.1.1
  · intro a b ha hb
    simp only [Bool.and_eq_true, beq_iff_eq] at ha hb
    exact .inr ⟨ha.1.1.trans hb.1.1.symm, ha.1.2.trans hb.1.2.symm⟩

theorem list_agree (h : Table.Agree (fun row => row.tenantId = tenantId) t₁ t₂)
    (collate : Str → Str → Bool) (ties : Arrangement DocumentModel) (request : PageRequest)
    (collectionId : Option UUID) :
    list collate ties tenantId request collectionId t₁ =
      list collate ties tenantId request collectionId t₂ := by
  have hown : ∀ row, listed tenantId collectionId row = true → row.tenantId = tenantId := by
    intro row hrow
    simp only [listed, Bool.and_eq_true, beq_iff_eq] at hrow
    exact hrow.1.1
  have hrefl : ∀ row, DocumentModel.Clash row row := fun _ => .inl rfl
  unfold list
  rw [h.select hrefl hown, (h.filter_perm hrefl hown).length_eq]

end Documents

theorem GetDocumentHandler.handle_agree {t₁ t₂ : Documents}
    (h : Table.Agree (fun row => row.tenantId = tenantId) t₁ t₂) (documentId : UUID) :
    handle tenantId documentId t₁ = handle tenantId documentId t₂ := by
  unfold handle Documents.get
  rw [Documents.select_agree h]

theorem ListDocumentsHandler.handle_agree {t₁ t₂ : Documents}
    (h : Table.Agree (fun row => row.tenantId = tenantId) t₁ t₂) (collate : Str → Str → Bool)
    (ties : Arrangement DocumentModel) (request : PageRequest) (collectionId : Option UUID) :
    handle collate ties tenantId request collectionId t₁ =
      handle collate ties tenantId request collectionId t₂ := by
  unfold handle
  rw [Documents.list_agree h]

theorem listChunks_agree {t₁ t₂ : Chunks}
    (h : Table.Agree (fun row => row.tenantId = tenantId) t₁ t₂) (ties : Arrangement ChunkModel)
    (documentId : UUID) :
    listChunks ties tenantId documentId t₁ = listChunks ties tenantId documentId t₂ := by
  unfold listChunks SqlAlchemyChunkRepository.listForDocument
  rw [h.select (fun _ => .inl rfl)]
  intro row hrow
  simp only [SqlAlchemyChunkRepository.ofDocument, Bool.and_eq_true, beq_iff_eq] at hrow
  exact hrow.1

theorem ListJobsHandler.handle_agree {t₁ t₂ : Jobs}
    (h : Table.Agree (fun row => row.tenantId = tenantId) t₁ t₂)
    (ties : Arrangement IngestionJobModel) (request : PageRequest) (status : Option Str) :
    handle ties tenantId request status t₁ = handle ties tenantId request status t₂ := by
  unfold handle
  rw [h.select (fun _ => .inl rfl)]
  intro row hrow
  simp only [listed, Bool.and_eq_true, beq_iff_eq] at hrow
  exact hrow.1

namespace PgVectorHybridRetriever

variable {t₁ t₂ : Chunks}

theorem tenant_of_inScope {collectionId : Option UUID} {row : ChunkModel}
    (h : inScope tenantId collectionId row = true) : row.tenantId = tenantId := by
  simp only [inScope, Bool.and_eq_true, beq_iff_eq] at h
  exact h.1

theorem retrieve_agree (h : Table.Agree (fun row => row.tenantId = tenantId) t₁ t₂)
    (server : SearchServer) (query : SearchQuery) (embedding : Embedding) (poolSize : Nat) :
    retrieve server tenantId query embedding poolSize t₁ =
      retrieve server tenantId query embedding poolSize t₂ := by
  have hrefl : ∀ row, ChunkModel.Clash row row := fun _ => .inl rfl
  have hany : t₁.rows.any (inScope tenantId query.collectionId) =
      t₂.rows.any (inScope tenantId query.collectionId) := by
    rw [Bool.eq_iff_iff, List.any_eq_true, List.any_eq_true]
    refine exists_congr fun row => and_congr_left fun hscope => ?_
    exact h row (tenant_of_inScope hscope)
  unfold retrieve vectorRows keywordRows
  rw [hany, h.select hrefl fun row => tenant_of_inScope, h.select hrefl fun row hrow =>
    tenant_of_inScope (Bool.and_eq_true_iff.mp hrow).1]

end PgVectorHybridRetriever

end Reads

/-! ## Registration -/

section Registration

variable {tenantId id₁ id₂ : UUID} {t₁ t₂ : Documents}

theorem DocumentModel.fitColumns_exchange (id₁ id₂ : UUID) (row : DocumentModel) :
    (row.exchange id₁ id₂).fitColumns = row.fitColumns.map (exchange id₁ id₂) := by
  unfold fitColumns
  by_cases hfits : varchar 512 row.title.value = some row.title.value ∧
      varchar 64 row.contentHash.value = some row.contentHash.value
  · rw [if_pos hfits, Option.map_map]
    exact if_pos hfits
  · rw [if_neg hfits, Option.map_none]
    exact if_neg hfits

/-- One document, added under two fresh ids. -/
theorem Documents.addCommit_agree (h : Table.Agree (fun row => row.tenantId = tenantId) t₁ t₂)
    (h₁ : ∀ row ∈ t₁.rows, row.id ≠ id₁) (h₂ : ∀ row ∈ t₂.rows, row.id ≠ id₂)
    (document₁ document₂ : Document) (hid : document₁.id = id₁)
    (htenant : document₁.tenantId = tenantId)
    (hsame : DocumentModel.ofDomain document₂ =
      (DocumentModel.ofDomain document₁).exchange id₁ id₂) :
    Both (Table.AgreeUpTo (DocumentModel.exchange id₁ id₂) fun row => row.tenantId = tenantId)
      (addCommit document₁ t₁) (addCommit document₂ t₂) := by
  unfold addCommit
  rw [hsame, DocumentModel.fitColumns_exchange]
  cases hfit : (DocumentModel.ofDomain document₁).fitColumns with
  | none => exact .error _
  | some row =>
      obtain ⟨uri, -, rfl⟩ := fitColumns_some hfit
      set row : DocumentModel := { DocumentModel.ofDomain document₁ with sourceUri := uri }
      have hrow : row.id = id₁ := hid
      have hrow' : (row.exchange id₁ id₂).id = id₂ := by
        rw [DocumentModel.exchange, hrow, Equiv.swap_apply_left]
      -- the ids are new, so a row can only stand in the way with its content hash
      have hnone : t₁.insert row = none ↔ t₂.insert (row.exchange id₁ id₂) = none := by
        refine h.insert_eq_none ?_ ?_
        · rintro a ha (hclash | hclash)
          · exact absurd (hclash.trans hrow) (h₁ a ha)
          · exact ⟨hclash.1.trans htenant, .inr hclash⟩
        · rintro a ha (hclash | hclash)
          · exact absurd (hclash.trans hrow') (h₂ a ha)
          · exact ⟨hclash.1.trans htenant, .inr hclash⟩
      simp only [Option.map_some]
      cases hins₁ : t₁.insert row with
      | none =>
          rw [hnone.mp hins₁]
          exact .error _
      | some t₁' =>
          cases hins₂ : t₂.insert (row.exchange id₁ id₂) with
          | none =>
              rw [hnone.mpr hins₂] at hins₁
              cases hins₁
          | some t₂' =>
              exact .ok ((agree_upTo h h₁ h₂).insert (DocumentModel.exchange_injective id₁ id₂)
                hins₁ hins₂)

namespace RegisterDocumentHandler

variable {command : RegisterDocumentCommand}

/-- What two registrations of one command are about to return or to add. -/
inductive Alike (command : RegisterDocumentCommand) (id₁ id₂ : UUID) (now : Instant)
    (t : Documents) : DocumentDTO ⊕ Document → DocumentDTO ⊕ Document → Prop
  | existing {row : DocumentModel} (hrow : row ∈ t.rows)
      (htenant : row.tenantId = command.tenantId) :
      Alike command id₁ id₂ now t (.inl (.fromAggregate row.toDomain))
        (.inl (.fromAggregate row.toDomain))
  | new (title : Title) (sourceType : SourceType) (contentHash : ContentHash) :
      Alike command id₁ id₂ now t
        (.inr (.register id₁ now command.tenantId command.collectionId title sourceType
          command.sourceUri contentHash))
        (.inr (.register id₂ now command.tenantId command.collectionId title sourceType
          command.sourceUri contentHash))

theorem lookup_agree (h : Table.Agree (fun row => row.tenantId = command.tenantId) t₁ t₂)
    (id₁ id₂ : UUID) (now : Instant) :
    Both (Alike command id₁ id₂ now t₁) (lookup command id₁ now t₁)
      (lookup command id₂ now t₂) := by
  unfold lookup
  refine (Both.refl _).bind ?_
  rintro contentHash _ rfl
  rw [← Documents.findByContentHash_agree h contentHash]
  cases hfind : Documents.findByContentHash command.tenantId contentHash t₁ with
  | some existing =>
      obtain ⟨row, hrow, htenant, -, -, rfl⟩ := Documents.findByContentHash_eq_some.mp hfind
      exact .ok (.existing hrow htenant)
  | none =>
      have hbuild : Both (fun document₁ document₂ =>
          Alike command id₁ id₂ now t₁ (.inr document₁) (.inr document₂))
          (build command contentHash id₁ now) (build command contentHash id₂ now) := by
        unfold build
        refine (Both.refl _).bind ?_
        rintro title _ rfl
        refine (Both.refl _).bind ?_
        rintro sourceType _ rfl
        exact .ok (.new title sourceType contentHash)
      exact hbuild.bind fun _ _ hnew => .ok hnew

/-- Two registrations of one command under two fresh ids. -/
theorem handle_agree (command : RegisterDocumentCommand)
    (h : Table.Agree (fun row => row.tenantId = command.tenantId) t₁ t₂)
    (h₁ : ∀ row ∈ t₁.rows, row.id ≠ id₁) (h₂ : ∀ row ∈ t₂.rows, row.id ≠ id₂) (now : Instant) :
    (handle command id₂ now t₂).1 =
        (handle command id₁ now t₁).1.map (DocumentDTO.exchange id₁ id₂) ∧
      Table.AgreeUpTo (DocumentModel.exchange id₁ id₂) (fun row => row.tenantId = command.tenantId)
        (handle command id₁ now t₁).2 (handle command id₂ now t₂).2 := by
  have hupTo := Documents.agree_upTo h h₁ h₂
  have hlookup := lookup_agree h id₁ id₂ now
  unfold handle
  generalize lookup command id₁ now t₁ = found₁, lookup command id₂ now t₂ = found₂ at hlookup ⊢
  cases hlookup with
  | error e => exact ⟨rfl, hupTo⟩
  | ok halike =>
      cases halike with
      | @existing row hrow htenant =>
          have hid₂ : row.id ≠ id₂ := h₂ row ((h row htenant).mp hrow)
          refine ⟨?_, hupTo⟩
          show _ = Except.ok (DocumentDTO.exchange id₁ id₂ _)
          rw [DocumentDTO.exchange]
          simp only [DocumentDTO.fromAggregate, DocumentModel.toDomain,
            Equiv.swap_apply_of_ne_of_ne (h₁ row hrow) hid₂]
      | new title sourceType contentHash =>
          have hadd := Documents.addCommit_agree h h₁ h₂
            (.register id₁ now command.tenantId command.collectionId title sourceType
              command.sourceUri contentHash)
            (.register id₂ now command.tenantId command.collectionId title sourceType
              command.sourceUri contentHash) rfl rfl
            (by simp [DocumentModel.exchange, DocumentModel.ofDomain, Document.register])
          simp only
          generalize Documents.addCommit _ t₁ = added₁, Documents.addCommit _ t₂ = added₂ at hadd ⊢
          cases hadd with
          | error e => exact ⟨rfl, hupTo⟩
          | ok hadded =>
              refine ⟨?_, hadded⟩
              simp [Except.map, DocumentDTO.exchange, DocumentDTO.fromAggregate, Document.register]

end RegisterDocumentHandler

end Registration

/-! ## Deletion -/

section Deletion

variable {command : DeleteDocumentCommand} {t₁ t₂ : Documents} {now : Instant}

namespace DeleteDocumentHandler

theorem read_agree (h : Table.Agree (fun row => row.tenantId = command.tenantId) t₁ t₂)
    (now : Instant) : read command now t₁ = read command now t₂ := by
  unfold read
  rw [Documents.select_agree h]

/-- A deletion adds no id. -/
theorem handle_ids {t : Documents} {row : DocumentModel}
    (hrow : row ∈ (handle command now t).2.rows) : ∃ old ∈ t.rows, old.id = row.id := by
  unfold handle at hrow
  split at hrow
  · exact ⟨row, hrow, rfl⟩
  · next loaded document hread =>
      obtain ⟨now', events, rfl⟩ := (read_saves hread).2.2.2.moved
      rw [Documents.saveCommit_statusChange] at hrow
      obtain ⟨old, hold, rfl⟩ := List.mem_map.mp hrow
      exact ⟨old, hold, (patch_column (f := Documents.moveTo loaded .deleted now') DocumentModel.id
        (fun _ => rfl) old).symm⟩

theorem handle_agree (command : DeleteDocumentCommand)
    (h : Table.Agree (fun row => row.tenantId = command.tenantId) t₁ t₂) (now : Instant) :
    (handle command now t₂).1 = (handle command now t₁).1 ∧
      Table.Agree (fun row => row.tenantId = command.tenantId) (handle command now t₁).2
        (handle command now t₂).2 := by
  unfold handle
  rw [← read_agree h now]
  split
  · exact ⟨rfl, h⟩
  · next loaded document hread =>
      obtain ⟨now', events, rfl⟩ := (read_saves hread).2.2.2.moved
      rw [Documents.saveCommit_statusChange, Documents.saveCommit_statusChange]
      exact ⟨rfl, h.update (Documents.moveTo_keepsKeys loaded .deleted now') fun _ => Iff.rfl⟩

end DeleteDocumentHandler

end Deletion

/-! ## Upload -/

section Upload

variable {tenantId documentId id₁ id₂ : UUID}

theorem UploadDocumentContentHandler.check_agree {t₁ t₂ : Documents}
    (h : Table.Agree (fun row => row.tenantId = tenantId) t₁ t₂) (config : Config)
    (documentId : UUID) (content : Str) :
    check config tenantId documentId content t₁ = check config tenantId documentId content t₂ := by
  unfold check Documents.get
  rw [Documents.select_agree h]

theorem SqlAlchemyContentStore.put_agree {t₁ t₂ : Contents}
    (h : Table.Agree (fun row => row.tenantId = tenantId) t₁ t₂)
    (h₁ : ∀ row ∈ t₁.rows, row.documentId = documentId → row.tenantId = tenantId)
    (h₂ : ∀ row ∈ t₂.rows, row.documentId = documentId → row.tenantId = tenantId)
    (content : Str) (now : Instant) :
    Both (Table.Agree fun row => row.tenantId = tenantId)
      (put tenantId documentId content now t₁) (put tenantId documentId content now t₂) := by
  unfold put
  refine (Both.refl _).bind ?_
  rintro text _ rfl
  -- the row that an upload would overwrite is the tenant's, so it is in both
  have hnone : t₁.insert ⟨documentId, tenantId, text, now, now⟩ = none ↔
      t₂.insert ⟨documentId, tenantId, text, now, now⟩ = none :=
    h.insert_eq_none (fun row hrow hclash => ⟨h₁ row hrow hclash, hclash⟩)
      (fun row hrow hclash => ⟨h₂ row hrow hclash, hclash⟩)
  cases hins₁ : t₁.insert ⟨documentId, tenantId, text, now, now⟩ with
  | none =>
      rw [hnone.mp hins₁]
      exact .ok (h.update (overwrite_keepsKeys text now) fun _ => Iff.rfl)
  | some t₁' =>
      cases hins₂ : t₂.insert ⟨documentId, tenantId, text, now, now⟩ with
      | none =>
          rw [hnone.mpr hins₂] at hins₁
          cases hins₁
      | some t₂' => exact .ok (h.insert hins₁ hins₂)

/-- One job, enqueued under two fresh ids. -/
theorem SqlAlchemyJobQueue.enqueue_agree {t₁ t₂ : Jobs}
    (h : Table.Agree (fun row => row.tenantId = tenantId) t₁ t₂)
    (h₁ : ∀ row ∈ t₁.rows, row.documentId = documentId → row.tenantId = tenantId)
    (h₂ : ∀ row ∈ t₂.rows, row.documentId = documentId → row.tenantId = tenantId)
    (hid₁ : ∀ row ∈ t₁.rows, row.id ≠ id₁) (hid₂ : ∀ row ∈ t₂.rows, row.id ≠ id₂)
    (collectionId : UUID) (version maxAttempts : Nat) (now : Instant) :
    Both (Table.AgreeUpTo (IngestionJobModel.exchange id₁ id₂) fun row => row.tenantId = tenantId)
      (enqueue id₁ tenantId documentId collectionId version maxAttempts now t₁)
      (enqueue id₂ tenantId documentId collectionId version maxAttempts now t₂) := by
  have hupTo := Jobs.agree_upTo h hid₁ hid₂
  have hany : (t₁.rows.any fun r => r.documentId == documentId && r.documentVersion == version) =
      t₂.rows.any fun r => r.documentId == documentId && r.documentVersion == version := by
    rw [Bool.eq_iff_iff, List.any_eq_true, List.any_eq_true]
    simp only [Bool.and_eq_true, beq_iff_eq]
    constructor
    · rintro ⟨row, hrow, hdoc, hversion⟩
      exact ⟨row, (h row (h₁ row hrow hdoc)).mp hrow, hdoc, hversion⟩
    · rintro ⟨row, hrow, hdoc, hversion⟩
      exact ⟨row, (h row (h₂ row hrow hdoc)).mpr hrow, hdoc, hversion⟩
  set row := newRow id₁ tenantId documentId collectionId version maxAttempts now
  have hexchange : newRow id₂ tenantId documentId collectionId version maxAttempts now =
      row.exchange id₁ id₂ := by
    simp [row, newRow, IngestionJobModel.exchange]
  unfold enqueue
  rw [← hany]
  split
  · exact .ok hupTo
  · next hnew =>
      -- the version is new and so are the ids: nothing stands in the way
      have hclash : ∀ a : IngestionJobModel, a.Clash row → a.id = id₁ ∨
          (a.documentId = documentId ∧ a.documentVersion = version) := fun _ => id
      have hclash' : ∀ a : IngestionJobModel, a.Clash (row.exchange id₁ id₂) → a.id = id₂ ∨
          (a.documentId = documentId ∧ a.documentVersion = version) := by
        rw [← hexchange]
        exact fun _ => id
      have hnot : ∀ a ∈ t₁.rows, ¬ (a.documentId = documentId ∧ a.documentVersion = version) :=
        fun a ha hkey => hnew (List.any_eq_true.mpr ⟨a, ha, by simp [hkey]⟩)
      have hnot' : ∀ a ∈ t₂.rows, ¬ (a.documentId = documentId ∧ a.documentVersion = version) :=
        fun a ha hkey => hnew (hany.trans (List.any_eq_true.mpr ⟨a, ha, by simp [hkey]⟩))
      obtain ⟨t₁', hins₁⟩ := Table.exists_insert (t := t₁) (r := row) fun a ha hc =>
        (hclash a hc).elim (hid₁ a ha) (hnot a ha)
      obtain ⟨t₂', hins₂⟩ := Table.exists_insert (t := t₂) (r := row.exchange id₁ id₂)
        fun a ha hc => (hclash' a hc).elim (hid₂ a ha) (hnot' a ha)
      rw [hexchange, hins₁, hins₂]
      exact .ok (hupTo.insert (IngestionJobModel.exchange_injective id₁ id₂) hins₁ hins₂)

theorem UploadDocumentContentHandler.handle_agree {config : Config} {s₁ s₂ : Store}
    (h : s₁.Agrees tenantId s₂) (hlinked₁ : s₁.Linked config) (hlinked₂ : s₂.Linked config)
    (hid₁ : s₁.Unused id₁) (hid₂ : s₂.Unused id₂) (documentId : UUID) (content : Str)
    (now : Instant) :
    (handle config tenantId documentId content id₂ now s₂).1 =
        (handle config tenantId documentId content id₁ now s₁).1 ∧
      (handle config tenantId documentId content id₁ now s₁).2.AgreesUpTo id₁ id₂ tenantId
        (handle config tenantId documentId content id₂ now s₂).2 := by
  have hcheck := check_agree h.documents config documentId content
  have hupTo := h.upTo hid₁ hid₂
  rw [handle_eq, handle_eq, ← hcheck]
  split
  · exact ⟨rfl, hupTo⟩
  · next document hfound =>
      obtain ⟨row₁, hrow₁, htenant₁, -⟩ := check_ok hfound
      obtain ⟨row₂, hrow₂, htenant₂, -⟩ := check_ok (hcheck.symm.trans hfound)
      have howned₁ : s₁.documents.Owned documentId tenantId := ⟨row₁, hrow₁, htenant₁⟩
      have howned₂ : s₂.documents.Owned documentId tenantId := ⟨row₂, hrow₂, htenant₂⟩
      have hput := SqlAlchemyContentStore.put_agree h.contents (hlinked₁.contents_tenant howned₁)
        (hlinked₂.contents_tenant howned₂) content now
      have henqueue := SqlAlchemyJobQueue.enqueue_agree h.jobs (hlinked₁.jobs_tenant howned₁)
        (hlinked₂.jobs_tenant howned₂) hid₁.jobs hid₂.jobs document.collectionId document.version
        config.maxAttempts now
      unfold enqueue
      generalize SqlAlchemyContentStore.put _ _ _ _ s₁.contents = put₁,
        SqlAlchemyContentStore.put _ _ _ _ s₂.contents = put₂ at hput ⊢
      cases hput with
      | error e => exact ⟨rfl, hupTo⟩
      | ok hcontents =>
          generalize SqlAlchemyJobQueue.enqueue _ _ _ _ _ _ _ s₁.jobs = enqueued₁,
            SqlAlchemyJobQueue.enqueue _ _ _ _ _ _ _ s₂.jobs = enqueued₂ at henqueue ⊢
          cases henqueue with
          | error e => exact ⟨rfl, hupTo.documents, hcontents, hupTo.chunks, hupTo.jobs⟩
          | ok hjobs => exact ⟨rfl, hupTo.documents, hcontents, hupTo.chunks, hjobs⟩

end Upload

/-! ## Search -/

theorem SearchHandler.handle_agree {tenantId : UUID} {t₁ t₂ : Chunks} {cache₁ cache₂ : SearchCache}
    (handler : SearchHandler) (h : Table.Agree (fun row => row.tenantId = tenantId) t₁ t₂)
    (hcache : handler.CachesAgree tenantId cache₁ cache₂) (env : SearchEnv) (query : SearchQuery) :
    (handler.handle env tenantId query t₂ cache₂).1 =
        (handler.handle env tenantId query t₁ cache₁).1 ∧
      handler.CachesAgree tenantId (handler.handle env tenantId query t₁ cache₁).2
        (handler.handle env tenantId query t₂ cache₂).2 := by
  unfold handle
  rw [← RedisSearchCache.get_congr (hcache query), ← PgVectorHybridRetriever.retrieve_agree h]
  split
  · exact ⟨rfl, hcache⟩
  · split
    · exact ⟨rfl, hcache⟩
    · exact ⟨rfl, fun query' => RedisSearchCache.set_congr (hcache query') _ _ _ _⟩

/-! ## Operations -/

/-- What belongs to the tenant is the same in both, up to the two fresh ids. -/
structure Service.AgreesUpTo (api : Api) (id₁ id₂ tenantId : UUID) (s₁ s₂ : Service) : Prop where
  store : s₁.store.AgreesUpTo id₁ id₂ tenantId s₂.store
  cache : api.search.CachesAgree tenantId s₁.cache s₂.cache

/-- An answer without a new id is the same under either. -/
theorem Answer.map_exchange {α : Type} {id₁ id₂ : UUID} {f : α → Answer} (x : Except Error α)
    (hf : ∀ a, (f a).exchange id₁ id₂ = f a) : (x.map f).map (exchange id₁ id₂) = x.map f := by
  cases x with
  | error e => rfl
  | ok a => exact congrArg Except.ok (hf a)

theorem Answer.map_exchange_registered (id₁ id₂ : UUID) (x : Except Error DocumentDTO) :
    (x.map (DocumentDTO.exchange id₁ id₂)).map registered =
      (x.map registered).map (exchange id₁ id₂) := by
  cases x <;> rfl

/-- Services that agree on what belongs to a tenant answer it alike, and agree again. -/
theorem Operation.perform_agree {api : Api} {s₁ s₂ : Service} {tenantId id₁ id₂ : UUID}
    (h : s₁.Agrees api tenantId s₂) (hlinked₁ : s₁.store.Linked api.config)
    (hlinked₂ : s₂.store.Linked api.config) (hid₁ : s₁.store.Unused id₁)
    (hid₂ : s₂.store.Unused id₂) (env : ApiEnv) (operation : Operation) :
    (operation.perform api env id₂ tenantId s₂).1 =
        (operation.perform api env id₁ tenantId s₁).1.map (Answer.exchange id₁ id₂) ∧
      (operation.perform api env id₁ tenantId s₁).2.AgreesUpTo api id₁ id₂ tenantId
        (operation.perform api env id₂ tenantId s₂).2 := by
  have hupTo := h.store.upTo hid₁ hid₂
  cases operation with
  | register collectionId title sourceType sourceUri contentHash =>
      obtain ⟨hanswer, hdocuments⟩ := RegisterDocumentHandler.handle_agree
        ⟨tenantId, collectionId, title, sourceType, sourceUri, contentHash⟩
        h.store.documents hid₁.documents hid₂.documents env.now
      refine ⟨?_, ⟨hdocuments, hupTo.contents, hupTo.chunks, hupTo.jobs⟩, h.cache⟩
      exact (congrArg (Except.map Answer.registered) hanswer).trans
        (Answer.map_exchange_registered id₁ id₂ _)
  | get documentId =>
      refine ⟨?_, hupTo, h.cache⟩
      show Except.map _ (GetDocumentHandler.handle _ _ _) = _
      rw [← GetDocumentHandler.handle_agree h.store.documents]
      exact (Answer.map_exchange _ fun _ => rfl).symm
  | list request collectionId =>
      refine ⟨?_, hupTo, h.cache⟩
      show Except.ok (Answer.documents (ListDocumentsHandler.handle _ _ _ _ _ _)) = _
      rw [← ListDocumentsHandler.handle_agree h.store.documents]
      rfl
  | delete documentId =>
      obtain ⟨hanswer, hdocuments⟩ := DeleteDocumentHandler.handle_agree ⟨tenantId, documentId⟩
        h.store.documents env.now
      refine ⟨?_, ⟨?_, hupTo.contents, hupTo.chunks, hupTo.jobs⟩, h.cache⟩
      · exact (congrArg (Except.map fun _ => Answer.deleted) hanswer).trans
          (Answer.map_exchange _ fun _ => rfl).symm
      · refine Documents.agree_upTo hdocuments ?_ ?_
        · intro row hrow
          obtain ⟨old, hold, hid⟩ := DeleteDocumentHandler.handle_ids hrow
          exact hid ▸ hid₁.documents old hold
        · intro row hrow
          obtain ⟨old, hold, hid⟩ := DeleteDocumentHandler.handle_ids hrow
          exact hid ▸ hid₂.documents old hold
  | upload documentId content =>
      obtain ⟨hanswer, hstore⟩ := UploadDocumentContentHandler.handle_agree h.store hlinked₁
        hlinked₂ hid₁ hid₂ documentId content env.now
      refine ⟨?_, hstore, h.cache⟩
      exact (congrArg (Except.map fun _ => Answer.accepted) hanswer).trans
        (Answer.map_exchange _ fun _ => rfl).symm
  | listChunks documentId =>
      refine ⟨?_, hupTo, h.cache⟩
      show Except.map _ (Eka.listChunks _ _ _ _) = _
      rw [← listChunks_agree h.store.chunks]
      exact (Answer.map_exchange _ fun _ => rfl).symm
  | listJobs request status =>
      refine ⟨?_, hupTo, h.cache⟩
      show Except.map _ (ListJobsHandler.handle _ _ _ _ _) = _
      rw [← ListJobsHandler.handle_agree h.store.jobs]
      exact (Answer.map_exchange _ fun _ => rfl).symm
  | search query =>
      obtain ⟨hanswer, hcache⟩ := api.search.handle_agree h.store.chunks h.cache env.search query
      refine ⟨?_, hupTo, hcache⟩
      exact (congrArg (Except.map Answer.results) hanswer).trans
        (Answer.map_exchange _ fun _ => rfl).symm

namespace System

/-- Nothing that happens for another tenant changes what belongs to this one, and this one
    cannot tell services apart that agree on what belongs to it. -/
theorem tenants_noninterference (api : Api) {tenantId other : UUID} (hother : other ≠ tenantId) :
    (∀ s, Reachable (step api.config) init s →
      (∀ label s', s.ActsFor other label → step api.config s label = some s' →
        s.store.Agrees tenantId s'.store) ∧
      ∀ cache env id (operation : Operation), Service.Agrees api tenantId ⟨s.store, cache⟩
        (operation.perform api env id other ⟨s.store, cache⟩).2) ∧
    ∀ s₁ s₂, Reachable (step api.config) init s₁ → Reachable (step api.config) init s₂ →
      ∀ cache₁ cache₂, Service.Agrees api tenantId ⟨s₁.store, cache₁⟩ ⟨s₂.store, cache₂⟩ →
      ∀ env id₁ id₂, s₁.store.Unused id₁ → s₂.store.Unused id₂ → ∀ operation : Operation,
        (operation.perform api env id₂ tenantId ⟨s₂.store, cache₂⟩).1 =
            (operation.perform api env id₁ tenantId ⟨s₁.store, cache₁⟩).1.map
              (Answer.exchange id₁ id₂) ∧
          (operation.perform api env id₁ tenantId ⟨s₁.store, cache₁⟩).2.AgreesUpTo api id₁ id₂
            tenantId (operation.perform api env id₂ tenantId ⟨s₂.store, cache₂⟩).2 := by
  constructor
  · intro s hs
    refine ⟨fun label s' hacts hstep => step_agrees hs hacts hother hstep, ?_⟩
    intro cache env id operation
    exact Operation.perform_others (reachable_linked hs).store hother env id operation
  · intro s₁ s₂ hs₁ hs₂ cache₁ cache₂ hagrees env id₁ id₂ hid₁ hid₂ operation
    exact Operation.perform_agree hagrees (reachable_linked hs₁).store (reachable_linked hs₂).store
      hid₁ hid₂ env operation

/-! ### Two tenants -/

noncomputable def helloApi : Api where
  config := helloConfig
  search := ⟨helloConfig.embedder, Store.anyServer, id, helloSha256, 50, 60⟩
  collate := fun _ _ => true
  documentTies := .some _
  chunkTies := .some _
  jobTies := .some _

def helloEnv : ApiEnv := ⟨7, 7, .returns, .returns⟩

/-- The document of tenant 1, registered once more by whoever it is. -/
def registerHello : Operation :=
  .register ⟨2⟩ "Hello".toList "upload".toList "s3://b/hello".toList helloDigest

/-- Something else. -/
def registerOther : Operation :=
  .register ⟨2⟩ "Other".toList "upload".toList [] (List.replicate 64 'a')

theorem registerHello_rows : (registerHello.perform helloApi helloEnv ⟨50⟩ ⟨2⟩
    ⟨helloUploaded 5, .empty⟩).2.store.documents.rows.map (·.id) = [⟨10⟩, ⟨50⟩] := by
  decide +kernel

/-- Tenant 2 registers the same document; tenant 1, which registers another one afterwards,
    learns nothing of it. -/
theorem tenants_noninterference_hello : ∃ s₁ s₂ : System,
    run (step helloConfig) init uploadHello = some s₁ ∧ Reachable (step helloConfig) init s₂ ∧
    s₂.store =
      (registerHello.perform helloApi helloEnv ⟨50⟩ ⟨2⟩ ⟨s₁.store, .empty⟩).2.store ∧
    s₁.store.Agrees ⟨1⟩ s₂.store ∧
    (registerOther.perform helloApi helloEnv ⟨61⟩ ⟨1⟩ ⟨s₂.store, .empty⟩).1 =
      (registerOther.perform helloApi helloEnv ⟨60⟩ ⟨1⟩ ⟨s₁.store, .empty⟩).1.map
        (Answer.exchange ⟨60⟩ ⟨61⟩) := by
  have hrun : run (step helloConfig) init uploadHello =
      some { init with store := helloUploaded 5 } := run_uploadHello rfl
  have hs := Reachable.refl.trans_run hrun
  obtain ⟨labels, hlabels⟩ : ∃ labels, run (step helloApi.config) _ labels = some _ :=
    @operation_run helloApi { init with store := helloUploaded 5 } 7 rfl helloEnv ⟨50⟩ ⟨2⟩ .empty
      registerHello
  have hs' := hs.trans_run hlabels
  obtain ⟨hothers, hown⟩ := tenants_noninterference helloApi (show (⟨2⟩ : UUID) ≠ ⟨1⟩ by decide)
  have hagrees := (hothers _ hs).2 .empty helloEnv ⟨50⟩ registerHello
  obtain ⟨hanswer, -⟩ := hown _ _ hs hs' .empty .empty hagrees helloEnv ⟨60⟩ ⟨61⟩
    (@Store.unused_of_ids _ [⟨10⟩] [⟨20⟩] rfl rfl _ (by decide))
    (@Store.unused_of_ids _ _ [⟨20⟩] registerHello_rows rfl _ (by decide)) registerOther
  exact ⟨_, _, hrun, hs', rfl, hagrees.store, hanswer⟩

end System

end Eka
