import Mathlib.Data.List.Lex
import Eka.Documents.Queries
import Eka.Lib.Paging

/-!
# Listing documents page by page

`list` orders by the requested column alone: documents with one title, one status or one
time stamp have no order among themselves, and each page is a query of its own. So the
pages have every document once exactly when no two documents with equal keys are parted
by the edge of a page.
-/

namespace Eka

open Py Relational

/-- What a listing shows of a row. -/
def DocumentModel.listing (row : DocumentModel) : DocumentDTO := .fromAggregate row.toDomain

theorem DocumentModel.listing_injective : Function.Injective DocumentModel.listing := by
  intro a b h
  simp only [listing, DocumentDTO.fromAggregate, toDomain, DocumentDTO.mk.injEq] at h
  obtain ⟨hid, htenant, hcollection, htitle, hsource, huri, hhash, hstatus, hversion, hcreated,
    hupdated⟩ := h
  have htitle' : a.title = b.title := by
    cases ha : a.title
    cases hb : b.title
    rw [ha, hb] at htitle
    cases htitle
    rfl
  have hsource' : a.sourceType = b.sourceType := by
    revert hsource
    cases a.sourceType <;> cases b.sourceType <;> decide
  have hstatus' : a.status = b.status := by
    revert hstatus
    cases a.status <;> cases b.status <;> decide
  cases a
  cases b
  simp only at *
  simp only [hid, htenant, hcollection, htitle', hsource', huri, ContentHash.ext hhash, hstatus',
    hversion, hcreated, hupdated]

namespace Documents

variable {collate : Str → Str → Bool}

theorem nodup_rows (t : Documents) : t.rows.Nodup := by
  refine t.distinct.imp ?_
  rintro a b hclash rfl
  exact hclash (.inl rfl)

theorem SortColumn.keyOrder (hcollate : KeyOrder collate) (column : SortColumn) :
    KeyOrder (column.le collate) := by
  cases column with
  | createdAt =>
      refine ⟨fun a b => ?_, fun a b c => ?_⟩
      · simpa [SortColumn.le] using le_total a.createdAt b.createdAt
      · simpa [SortColumn.le] using le_trans
  | updatedAt =>
      refine ⟨fun a b => ?_, fun a b c => ?_⟩
      · simpa [SortColumn.le] using le_total a.updatedAt b.updatedAt
      · simpa [SortColumn.le] using le_trans
  | title => exact ⟨fun a b => hcollate.total _ _, fun a b c => hcollate.trans _ _ _⟩
  | status => exact ⟨fun a b => hcollate.total _ _, fun a b c => hcollate.trans _ _ _⟩

/-- Whatever the request asks for, the order is that of a key. -/
theorem order_keyOrder (hcollate : KeyOrder collate) (sort : Option PageSort) :
    KeyOrder (order collate sort) := by
  have hcolumn := SortColumn.keyOrder hcollate
  cases sort with
  | none => exact (hcolumn .createdAt).flip
  | some sort =>
      obtain ⟨field, direction⟩ := sort
      unfold order
      simp only
      cases SortColumn.ofField field with
      | none => exact (hcolumn .createdAt).flip
      | some column =>
          cases direction with
          | asc => exact hcolumn column
          | desc => exact (hcolumn column).flip

end Documents

namespace ListDocumentsHandler

variable {collate : Str → Str → Bool} {tenantId : UUID} {request : PageRequest}
  {collectionId : Option UUID} {t : Documents}

/-- Page `k` for a client that moves on by `limit`. -/
def pageAt (collate : Str → Str → Bool) (ties : Nat → Arrangement DocumentModel)
    (tenantId : UUID) (request : PageRequest) (collectionId : Option UUID) (t : Documents)
    (k : Nat) : Page DocumentDTO :=
  handle collate (ties k) tenantId (request.at (k * request.limit)) collectionId t

/-- The rows that a listing is about. -/
def matching (tenantId : UUID) (collectionId : Option UUID) (t : Documents) :
    List DocumentModel :=
  t.rows.filter (Documents.listed tenantId collectionId)

theorem pageAt_items (collate : Str → Str → Bool) (ties : Nat → Arrangement DocumentModel)
    (tenantId : UUID) (request : PageRequest) (collectionId : Option UUID) (t : Documents)
    (k : Nat) : (pageAt collate ties tenantId request collectionId t k).items =
      (page request.limit (k * request.limit) (select (ties k)
        (Documents.listed tenantId collectionId) (Documents.order collate request.sort)
        t.rows)).map DocumentModel.listing := by
  show List.map _ (List.map _ _) = _
  rw [List.map_map]
  rfl

theorem pageAt_hasMore (collate : Str → Str → Bool) (ties : Nat → Arrangement DocumentModel)
    (tenantId : UUID) (request : PageRequest) (collectionId : Option UUID) (t : Documents)
    (k : Nat) : (pageAt collate ties tenantId request collectionId t k).hasMore = true ↔
      k + 1 < pageCount (matching tenantId collectionId t).length request.limit := by
  rw [succ_lt_pageCount request.limitPos]
  have hmore := @Page.hasMore_iff _ (pageAt collate ties tenantId request collectionId t k)
    k rfl (by
      rw [pageAt_items, List.length_map, page, List.length_take, List.length_drop,
        length_select]
      rfl)
  exact hmore

theorem itemsTo_eq (collate : Str → Str → Bool) (ties : Nat → Arrangement DocumentModel)
    (tenantId : UUID) (request : PageRequest) (collectionId : Option UUID) (t : Documents)
    (n : Nat) : Page.itemsTo (pageAt collate ties tenantId request collectionId t) n =
      (pagesTo (fun k => select (ties k) (Documents.listed tenantId collectionId)
        (Documents.order collate request.sort) t.rows) request.limit n).map
        DocumentModel.listing := by
  induction n with
  | zero => rfl
  | succ n ih => rw [Page.itemsTo, pagesTo, ih, pageAt_items, List.map_append]

/-- The loop over the pages ends after the last one. -/
theorem fetchAll_eq (collate : Str → Str → Bool) (ties : Nat → Arrangement DocumentModel)
    (tenantId : UUID) (request : PageRequest) (collectionId : Option UUID) (t : Documents)
    {fuel : Nat} (hfuel : (matching tenantId collectionId t).length < fuel) :
    Page.fetchAll (pageAt collate ties tenantId request collectionId t) fuel 0 =
      some ((pagesTo (fun k => select (ties k) (Documents.listed tenantId collectionId)
        (Documents.order collate request.sort) t.rows) request.limit
        (pageCount (matching tenantId collectionId t).length request.limit)).map
        DocumentModel.listing) := by
  have hcount := @pageCount_le (matching tenantId collectionId t).length request.limit
  obtain ⟨items, hitems, hall⟩ := Page.fetchAll_eq_itemsTo
    (pageAt_hasMore collate ties tenantId request collectionId t) fuel 0
    (Nat.succ_pos _) (by omega)
  rw [hitems, ← itemsTo_eq, ← hall]
  rfl

/-- A client that asks for one page after the other while `has_more` is true comes to an end, and
    has every live document of the tenant that matches exactly once, whatever order the database
    chooses for equal keys in each query, exactly when the edge of no page parts two matching
    documents with equal keys. -/
theorem fetchAll_perm_iff (hcollate : KeyOrder collate) (tenantId : UUID) (request : PageRequest)
    (collectionId : Option UUID) (t : Documents) :
    (∀ ties : Nat → Arrangement DocumentModel, ∃ documents,
      (∀ fuel, (matching tenantId collectionId t).length < fuel →
        Page.fetchAll (pageAt collate ties tenantId request collectionId t) fuel 0 =
          some documents) ∧
      documents.Perm ((matching tenantId collectionId t).map DocumentModel.listing)) ↔
    ∀ k, CleanCut (Documents.order collate request.sort) (matching tenantId collectionId t)
      (k * request.limit) := by
  have hle := Documents.order_keyOrder hcollate request.sort
  have hdistinct : (matching tenantId collectionId t).Nodup := t.nodup_rows.filter _
  rw [← pages_perm_iff hle hdistinct request.limitPos]
  constructor
  · intro hpages answers hanswers
    choose ties hties using fun k => exists_select_eq (hanswers k)
    obtain ⟨documents, hdocuments, hperm⟩ := hpages ties
    have hall := hdocuments _ (Nat.lt_succ_self _)
    rw [fetchAll_eq collate ties tenantId request collectionId t (Nat.lt_succ_self _)] at hall
    cases hall
    rw [List.map_perm_map_iff DocumentModel.listing_injective] at hperm
    simpa only [hties] using hperm
  · intro hpages ties
    refine ⟨_, fun fuel => fetchAll_eq collate ties tenantId request collectionId t,
      List.Perm.map _ (hpages _ fun k => ?_)⟩
    exact select_answers hle (ties k)

end ListDocumentsHandler

/-! ### Two documents with one status -/

/-- The collation `C`: by code points. -/
def codePointOrder (a b : Str) : Bool := a.map Char.toNat ≤ b.map Char.toNat

theorem codePointOrder_keyOrder : KeyOrder codePointOrder := by
  refine ⟨fun a b => ?_, fun a b c => ?_⟩
  · simpa [codePointOrder] using le_total (a.map Char.toNat) (b.map Char.toNat)
  · simpa [codePointOrder] using le_trans

/-- Document `id` of tenant 1, REGISTERED. -/
def draft (id : Nat) (digest : ContentHash) : DocumentModel where
  id := ⟨id⟩
  tenantId := ⟨1⟩
  collectionId := ⟨2⟩
  title := ⟨"Draft".toList, by decide, by decide, by decide⟩
  sourceType := .upload
  sourceUri := "s3://b/draft".toList
  contentHash := digest
  status := .registered
  version := 1
  createdAt := 0
  updatedAt := 0

def zeros : ContentHash := ⟨List.replicate 64 '0', by decide⟩

def ones : ContentHash := ⟨List.replicate 64 '1', by decide⟩

def drafts : Documents := ⟨[draft 10 zeros, draft 11 ones], by decide⟩

/-- One document a page, by status. -/
def byStatus : PageRequest := ⟨1, 0, some ⟨"status".toList, .asc⟩, by decide, by decide⟩

namespace ListDocumentsHandler

theorem fetchAll_perm_iff_drafts :
    (∀ ties : Nat → Arrangement DocumentModel, ∃ documents,
      (∀ fuel, (matching ⟨1⟩ none drafts).length < fuel →
        Page.fetchAll (pageAt codePointOrder ties ⟨1⟩ byStatus none drafts) fuel 0 =
          some documents) ∧
      documents.Perm ((matching ⟨1⟩ none drafts).map DocumentModel.listing)) ↔
    ∀ k, CleanCut (Documents.order codePointOrder byStatus.sort) (matching ⟨1⟩ none drafts)
      (k * byStatus.limit) :=
  fetchAll_perm_iff codePointOrder_keyOrder ⟨1⟩ byStatus none drafts

/-- The first query puts document 10 first and the second one document 11: the client gets
    document 10 twice and document 11 never. -/
theorem fetchAll_perm_fails : ∃ ties : Nat → Arrangement DocumentModel,
    Page.fetchAll (pageAt codePointOrder ties ⟨1⟩ byStatus none drafts) 3 0 =
        some [(draft 10 zeros).listing, (draft 10 zeros).listing] ∧
      ¬ [(draft 10 zeros).listing, (draft 10 zeros).listing].Perm
        ((matching ⟨1⟩ none drafts).map DocumentModel.listing) := by
  have hmatching : matching ⟨1⟩ none drafts = [draft 10 zeros, draft 11 ones] := by decide
  have hequal : ∀ a ∈ matching ⟨1⟩ none drafts, ∀ b ∈ matching ⟨1⟩ none drafts,
      Documents.order codePointOrder byStatus.sort a b = true := by
    rw [hmatching]
    decide
  rw [hmatching] at hequal
  have hfirst : Answers (Documents.order codePointOrder byStatus.sort) (matching ⟨1⟩ none drafts)
      [draft 10 zeros, draft 11 ones] := by
    rw [hmatching]
    refine ⟨.refl _, ?_⟩
    simp only [List.pairwise_cons, List.mem_singleton, forall_eq, List.not_mem_nil]
    exact ⟨hequal _ (by simp) _ (by simp), by simp⟩
  have hsecond : Answers (Documents.order codePointOrder byStatus.sort) (matching ⟨1⟩ none drafts)
      [draft 11 ones, draft 10 zeros] := by
    rw [hmatching]
    refine ⟨.swap _ _ _, ?_⟩
    simp only [List.pairwise_cons, List.mem_singleton, forall_eq, List.not_mem_nil]
    exact ⟨hequal _ (by simp) _ (by simp), by simp⟩
  obtain ⟨first, hselectFirst⟩ := exists_select_eq hfirst
  obtain ⟨second, hselectSecond⟩ := exists_select_eq hsecond
  refine ⟨fun k => if k = 0 then first else second, ?_, ?_⟩
  · rw [fetchAll_eq _ _ _ _ _ _ (by rw [hmatching]; decide), hmatching]
    have hpages : pageCount [draft 10 zeros, draft 11 ones].length byStatus.limit = 2 := rfl
    rw [hpages]
    simp only [pagesTo, page, if_true, Nat.one_ne_zero, if_false, hselectFirst, hselectSecond]
    rfl
  · rw [hmatching]
    intro hperm
    have hmem := hperm.mem_iff (a := (draft 11 ones).listing)
    simp at hmem
    exact absurd (DocumentModel.listing_injective hmem) (by decide)

end ListDocumentsHandler

end Eka
