import Eka.Documents.Queries
import Eka.Ingestion.Queries
import Eka.Retrieval.Search
import Eka.System.Sequential

/-!
# The operations of the API

What one request of a tenant does to the database and to the cache: the routers of
`documents/presentation`, `ingestion/presentation` and `retrieval/presentation` hand it to
one handler, with the tenant of the caller.
-/

namespace Eka

open Py Relational Transition

/-- What the composition root wires in (`api/dependencies.py`), the collation of the database and
    its order of rows that compare equal. -/
structure Api where
  config : Config
  search : SearchHandler
  collate : Str → Str → Bool
  documentTies : Arrangement DocumentModel
  chunkTies : Arrangement ChunkModel
  jobTies : Arrangement IngestionJobModel

/-- What one request meets: the clock of the handlers and of the cache, and failures of the
    cache. The id that it may draw is an argument of its own. -/
structure ApiEnv where
  now : Instant
  search : SearchEnv

/-- The database and the cache. -/
structure Service where
  store : Store
  cache : SearchCache

inductive Operation where
  | register (collectionId : UUID) (title sourceType sourceUri contentHash : Str)
  | get (documentId : UUID)
  | list (request : PageRequest) (collectionId : Option UUID)
  | delete (documentId : UUID)
  | upload (documentId : UUID) (content : Str)
  | listChunks (documentId : UUID)
  | listJobs (request : PageRequest) (status : Option Str)
  | search (query : SearchQuery)

inductive Answer where
  | registered (document : DocumentDTO)
  | found (document : DocumentDTO)
  | documents (page : Page DocumentDTO)
  | deleted
  | accepted
  | chunks (items : List ChunkDTO)
  | jobs (page : Page JobDTO)
  | results (results : List ScoredChunk)

/-- One request, handled with nobody in between. -/
def Operation.perform (api : Api) (env : ApiEnv) (id tenantId : UUID) (s : Service) :
    Operation → Except Error Answer × Service
  | .register collectionId title sourceType sourceUri contentHash =>
      let (result, documents) := RegisterDocumentHandler.handle
        ⟨tenantId, collectionId, title, sourceType, sourceUri, contentHash⟩ id env.now
        s.store.documents
      (result.map .registered, { s with store := { s.store with documents := documents } })
  | .get documentId =>
      ((GetDocumentHandler.handle tenantId documentId s.store.documents).map .found, s)
  | .list request collectionId =>
      (.ok (.documents (ListDocumentsHandler.handle api.collate api.documentTies tenantId request
        collectionId s.store.documents)), s)
  | .delete documentId =>
      let (result, documents) := DeleteDocumentHandler.handle ⟨tenantId, documentId⟩ env.now
        s.store.documents
      (result.map fun _ => .deleted, { s with store := { s.store with documents := documents } })
  | .upload documentId content =>
      let (result, store) := UploadDocumentContentHandler.handle api.config tenantId documentId
        content id env.now s.store
      (result.map fun _ => .accepted, { s with store := store })
  | .listChunks documentId =>
      ((Eka.listChunks api.chunkTies tenantId documentId s.store.chunks).map .chunks, s)
  | .listJobs request status =>
      ((ListJobsHandler.handle api.jobTies tenantId request status s.store.jobs).map .jobs, s)
  | .search query =>
      let (result, cache) := api.search.handle env.search tenantId query s.store.chunks s.cache
      (result.map .results, { s with cache := cache })

/-- The request as a call of the system, if it writes to the database. -/
def Operation.request (tenantId : UUID) : Operation → Option Request
  | .register collectionId title sourceType sourceUri contentHash =>
      some (.register ⟨tenantId, collectionId, title, sourceType, sourceUri, contentHash⟩)
  | .delete documentId => some (.delete ⟨tenantId, documentId⟩)
  | .upload documentId content => some (.upload tenantId documentId content)
  | _ => none

/-- What a request leaves of the database is what its call leaves. -/
theorem Operation.perform_store (api : Api) (env : ApiEnv) (id tenantId : UUID) (s : Service)
    (operation : Operation) : (operation.perform api env id tenantId s).2.store =
      match operation.request tenantId with
      | some request => request.perform api.config id env.now s.store
      | none => s.store := by
  cases operation <;> rfl

namespace System

variable {api : Api} {s : System} {c : Nat}

/-- A request on its own is a run of the system. -/
theorem operation_run (hidle : s.calls c = .idle) (env : ApiEnv) (id tenantId : UUID)
    (cache : SearchCache) (operation : Operation) :
    ∃ labels, run (step api.config) s labels = some { s with
      store := (operation.perform api env id tenantId ⟨s.store, cache⟩).2.store } := by
  rw [Operation.perform_store]
  cases operation.request tenantId with
  | none => exact ⟨[], rfl⟩
  | some request => exact perform_run hidle request id env.now

end System

end Eka
