import Eka.Documents.Queries
import Eka.Ingestion.Queries

/-!
# The page contract

`documents/infrastructure/repository.py` and `ingestion/application/job_queries.py` fill the same
`Page`. The first counts the rows that match in a query of its own; the second takes the length of
the page for their number.
-/

namespace Eka

open Py Relational

/-- The rows on a page of an ordered query. -/
theorem length_page_select {R : Type} (ties : Arrangement R) (p : R → Bool) (le : R → R → Bool)
    (limit offset : Nat) (rows : List R) :
    (page limit offset (select ties p le rows)).length =
      min limit ((rows.filter p).length - offset) := by
  rw [page, List.length_take, List.length_drop, length_select]

/-- The rows that a listing of documents is about. -/
theorem ListDocumentsHandler.length_items (collate : Str → Str → Bool)
    (ties : Arrangement DocumentModel) (tenantId : UUID) (request : PageRequest)
    (collectionId : Option UUID) (t : Documents) :
    (handle collate ties tenantId request collectionId t).items.length =
      min request.limit
        ((t.rows.filter (Documents.listed tenantId collectionId)).length - request.offset) := by
  show (List.map _ (List.map _ _)).length = _
  rw [List.length_map, List.length_map, length_page_select]

/-- A page of documents says what it has to say. -/
theorem ListDocumentsHandler.honours (collate : Str → Str → Bool)
    (ties : Arrangement DocumentModel) (tenantId : UUID) (request : PageRequest)
    (collectionId : Option UUID) (t : Documents) :
    (handle collate ties tenantId request collectionId t).Honours request
      (t.rows.filter (Documents.listed tenantId collectionId)).length := by
  have hlength := length_items collate ties tenantId request collectionId t
  refine ⟨rfl, ?_, ?_⟩
  · rw [hlength]
    exact Nat.min_le_left _ _
  · exact decide_eq_true_iff

namespace ListJobsHandler

variable {ties : Arrangement IngestionJobModel} {tenantId : UUID} {request : PageRequest}
  {status : Option Str} {t : Jobs} {page : Page JobDTO}

/-- The rows that a listing of jobs is about. -/
def matching (tenantId : UUID) (status : Option Str) (t : Jobs) : List IngestionJobModel :=
  t.rows.filter (listed tenantId status)

theorem handle_ok (h : handle ties tenantId request status t = .ok page) :
    page.total = page.items.length ∧ page.offset = request.offset ∧
      page.items.length =
        min request.limit ((matching tenantId status t).length - request.offset) := by
  unfold handle at h
  split at h
  · cases h
  · cases h
    refine ⟨rfl, rfl, ?_⟩
    rw [List.length_map, length_page_select]
    rfl

/-- A page of jobs claims to be the last one. -/
theorem hasMore_eq_false (h : handle ties tenantId request status t = .ok page) :
    page.hasMore = false := by
  obtain ⟨htotal, -, -⟩ := handle_ok h
  unfold Page.hasMore
  rw [htotal, decide_eq_false_iff_not]
  omega

/-- A page of jobs says what it has to say exactly when no job matches or all that match are on
    it. -/
theorem honours_iff (h : handle ties tenantId request status t = .ok page) :
    page.Honours request (matching tenantId status t).length ↔
      matching tenantId status t = [] ∨
        request.offset = 0 ∧ (matching tenantId status t).length ≤ request.limit := by
  obtain ⟨htotal, -, hlength⟩ := handle_ok h
  have hlimit := request.limitPos
  rw [← List.length_eq_zero_iff]
  constructor
  · intro hhonours
    have hcount := hhonours.total
    rw [htotal, hlength] at hcount
    omega
  · intro hwhole
    have hcount : page.items.length = (matching tenantId status t).length := by
      rw [hlength]
      omega
    refine ⟨htotal.trans hcount, ?_, ?_⟩
    · rw [hlength]
      exact Nat.min_le_left _ _
    · rw [hasMore_eq_false h, hcount]
      refine iff_of_false Bool.false_ne_true ?_
      omega

end ListJobsHandler

/-- For every store, tenant, filter and request, the page of documents has the number of all the
    rows that match, at most `limit` of them, and says whether any remain; the page of jobs does
    exactly when no job matches or they all fit on the first page. -/
theorem list_queries_honour_page (collate : Str → Str → Bool)
    (documentTies : Arrangement DocumentModel) (jobTies : Arrangement IngestionJobModel)
    (tenantId : UUID) (request : PageRequest) (collectionId : Option UUID) (status : Option Str)
    (documents : Documents) (jobs : Jobs) :
    (ListDocumentsHandler.handle collate documentTies tenantId request collectionId
        documents).Honours request
      (documents.rows.filter (Documents.listed tenantId collectionId)).length ∧
    ∀ page, ListJobsHandler.handle jobTies tenantId request status jobs = .ok page →
      (page.Honours request (ListJobsHandler.matching tenantId status jobs).length ↔
        ListJobsHandler.matching tenantId status jobs = [] ∨
          request.offset = 0 ∧
            (ListJobsHandler.matching tenantId status jobs).length ≤ request.limit) :=
  ⟨ListDocumentsHandler.honours collate documentTies tenantId request collectionId documents,
    fun _ h => ListJobsHandler.honours_iff h⟩

/-! ### Two jobs, one at a time -/

/-- Two jobs of tenant 7. -/
def twoJobs : Jobs :=
  ⟨[SqlAlchemyJobQueue.newRow ⟨1⟩ ⟨7⟩ ⟨2⟩ ⟨3⟩ 1 5 0,
    SqlAlchemyJobQueue.newRow ⟨4⟩ ⟨7⟩ ⟨5⟩ ⟨3⟩ 1 5 0], by decide⟩

theorem one_le_maxLimit : 1 ≤ maxLimit := by decide

def oneAtATime : PageRequest := ⟨1, 0, none, Nat.one_pos, one_le_maxLimit⟩

def twoAtATime : PageRequest := ⟨2, 0, none, by decide, by decide⟩

/-- The first of the two pages says that there is one job and no more. -/
theorem twoJobs_not_honoured :
    ¬ ∀ (ties : Arrangement IngestionJobModel) (tenantId : UUID) (request : PageRequest)
      (status : Option Str) (jobs : Jobs) (page : Page JobDTO),
      ListJobsHandler.handle ties tenantId request status jobs = .ok page →
      page.Honours request (ListJobsHandler.matching tenantId status jobs).length := by
  intro hall
  obtain ⟨page, hpage⟩ : ∃ page, ListJobsHandler.handle (.some IngestionJobModel) ⟨7⟩ oneAtATime
      none twoJobs = .ok page := ⟨_, rfl⟩
  have hhonours := hall _ _ _ _ _ _ hpage
  have htwo : (ListJobsHandler.matching ⟨7⟩ none twoJobs).length = 2 := by rfl
  have hshort := hhonours.short
  have htotal := hhonours.total
  rw [(ListJobsHandler.handle_ok hpage).1, htwo] at htotal
  rw [htotal] at hshort
  exact absurd hshort (by decide)

/-- Both on one page. -/
theorem list_queries_honour_page_twoJobs : ∃ page,
    ListJobsHandler.handle (.some IngestionJobModel) ⟨7⟩ twoAtATime none twoJobs = .ok page ∧
      page.Honours twoAtATime 2 := by
  obtain ⟨-, hjobs⟩ := list_queries_honour_page (fun _ _ => true) (.some DocumentModel)
    (.some IngestionJobModel) ⟨7⟩ twoAtATime none none .empty twoJobs
  exact ⟨_, rfl, (hjobs _ rfl).mpr (.inr ⟨rfl, by decide⟩)⟩

end Eka
