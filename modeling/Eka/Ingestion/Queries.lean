import Eka.Ingestion.Repository
import Eka.Lib.Select
import Eka.Shared.Pagination

/-!
# Ingestion queries

`ingestion/application/job_queries.py`, `ingestion/application/dto.py` and the
`list_for_document` of `ingestion/infrastructure/repository.py`.
-/

namespace Eka

open Py Relational

/-- The values of `JobStatus`. -/
def JobStatus.value : JobStatus → Str
  | .pending => "pending".toList
  | .processing => "processing".toList
  | .completed => "completed".toList
  | .deadLetter => "dead_letter".toList

/-! ## Chunks -/

/-- `ChunkDTO` (`dto.py:10-26`). -/
structure ChunkDTO where
  id : UUID
  documentId : UUID
  ordinal : Nat
  text : Str
  dimension : Nat
  deriving DecidableEq, Repr

def ChunkDTO.fromEntity (chunk : Chunk) : ChunkDTO where
  id := chunk.id
  documentId := chunk.documentId
  ordinal := chunk.ordinal
  text := chunk.text.value
  dimension := chunk.embedding.dimension

/-- `list_for_document` (`repository.py:63-76`). -/
def SqlAlchemyChunkRepository.listForDocument (ties : Arrangement ChunkModel)
    (tenantId documentId : UUID) (t : Chunks) : Except Error (List Chunk) :=
  (Relational.select ties (ofDocument tenantId documentId) (fun a b => a.ordinal ≤ b.ordinal)
    t.rows).mapM ChunkModel.toDomain

/-- The items of `list_chunks` (`presentation/router.py:49-58`). -/
def listChunks (ties : Arrangement ChunkModel) (tenantId documentId : UUID) (t : Chunks) :
    Except Error (List ChunkDTO) :=
  (SqlAlchemyChunkRepository.listForDocument ties tenantId documentId t).map fun chunks =>
    chunks.map .fromEntity

/-! ## Jobs -/

/-- `JobDTO` (`dto.py:29-36`). -/
structure JobDTO where
  id : UUID
  documentId : UUID
  status : Str
  attempts : Nat
  maxAttempts : Nat
  lastError : Option Str
  deriving DecidableEq, Repr

namespace ListJobsHandler

/-- The conditions of `handle` (`job_queries.py:27-29`); an empty status is none. -/
def listed (tenantId : UUID) (status : Option Str) (row : IngestionJobModel) : Bool :=
  row.tenantId == tenantId &&
    match status with
    | none => true
    | some status => status == [] || row.status.value == status

/-- The items (`job_queries.py:40-47`). -/
def item (row : IngestionJobModel) : JobDTO where
  id := row.id
  documentId := row.documentId
  status := row.status.value
  attempts := row.attempts
  maxAttempts := row.maxAttempts
  lastError := row.lastError

/-- `handle` (`job_queries.py:26-55`): the total is the length of the page. A status with a NUL
    cannot be sent. -/
def handle (ties : Arrangement IngestionJobModel) (tenantId : UUID) (request : PageRequest)
    (status : Option Str) (t : Jobs) : Except Error (Page JobDTO) :=
  if status.any ('\x00' ∈ ·) then .error .dataError
  else
    let items := (page request.limit request.offset (Relational.select ties
      (listed tenantId status) (fun a b => b.updatedAt ≤ a.updatedAt) t.rows)).map item
    .ok ⟨items, items.length, request.limit, request.offset⟩

end ListJobsHandler

end Eka
