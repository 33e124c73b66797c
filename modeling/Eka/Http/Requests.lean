import Eka.Generation.Streaming
import Eka.Identity.Jwt
import Eka.System.Noninterference

/-!
# The HTTP API

`api/security.py`, `api/errors.py`, and the routers and request schemas of the `presentation`
packages around the operations of `Eka.System.Api`. A request arrives with the fields of its
body and its parameters as values of their types; that a body is JSON and an id a UUID has been
seen to by then, and the tenant is resolved before any constraint of the schema is looked at.
-/

namespace Eka

open Py Relational

/-! ## Requests -/

/-- `RegisterDocumentRequest` (`documents/presentation/schemas.py:12-19`). -/
structure RegisterDocumentRequest where
  collectionId : UUID
  title : Str
  sourceType : Str
  sourceUri : Str
  contentHash : Str

/-- The routes that need a token, with what they take. -/
inductive Endpoint where
  | registerDocument (body : RegisterDocumentRequest)
  | getDocument (documentId : UUID)
  | listDocuments (collectionId : Option UUID) (limit offset : Int) (sortBy : Str)
      (sortDir : SortDirection)
  | deleteDocument (documentId : UUID)
  | uploadContent (documentId : UUID) (content : Str)
  | listChunks (documentId : UUID)
  | listJobs (jobStatus : Option Str) (limit offset : Int)
  | search (query : Str) (collectionId : Option UUID) (topK : Int)
  | answer (query : Str) (collectionId : Option UUID) (topK : Int)

/-- `Field(min_length=.., max_length=..)`. -/
def fieldLength (minLength maxLength : Nat) (s : Str) : Bool :=
  minLength ≤ s.length && s.length ≤ maxLength

/-- `Field(ge=.., le=..)`. -/
def fieldWithin (ge le n : Int) : Bool := ge ≤ n && n ≤ le

/-- The constraints of the schemas and of the query parameters. The pattern of a content hash is
    pydantic's, where `$` stands for the end of the text and nothing else. -/
def Endpoint.conforms : Endpoint → Bool
  | .registerDocument body => fieldLength 1 512 body.title && fieldLength 1 2048 body.sourceUri &&
      body.contentHash.length == 64 && body.contentHash.all isLowerHex
  | .listDocuments _ limit offset _ _ => fieldWithin 1 maxLimit limit && 0 ≤ offset
  | .uploadContent _ content => 1 ≤ content.length
  | .listJobs _ limit offset => fieldWithin 1 maxLimit limit && 0 ≤ offset
  | .search query _ topK => 1 ≤ query.length && fieldWithin 1 50 topK
  | .answer query _ topK => 1 ≤ query.length && fieldWithin 1 50 topK
  | _ => true

/-- A request with its bearer token and its `X-EKA-Token` header, if it has them. -/
structure HttpRequest where
  bearer : Option Str
  header : Option Str
  endpoint : Endpoint

/-! ## Responses -/

/-- `TokenResponse` (`identity/presentation/schemas.py:17-20`). -/
structure TokenResponse where
  accessToken : Str
  tokenType : Str
  expiresIn : Nat

/-- The body of a response: the fields of an answer, a token, the bytes of a stream, or the code
    and the message of the error envelope. -/
inductive HttpBody where
  | answer (answer : Answer)
  | token (token : TokenResponse)
  | stream (bytes : List UInt8)
  | error (code message : Str)

structure HttpResponse where
  status : Nat
  body : HttpBody

/-- The `status_code` of the routes. -/
def Answer.status : Answer → Nat
  | .registered _ => 201
  | .deleted => 204
  | .accepted => 202
  | _ => 200

namespace HttpResponse

/-- `_request_validation` (`errors.py:60-67`). -/
def requestValidation : HttpResponse :=
  ⟨422, .error "validation_error".toList "request validation failed".toList⟩

/-- `_unhandled` (`errors.py:69-73`). -/
def unhandled : HttpResponse :=
  ⟨500, .error "internal_error".toList "an unexpected error occurred".toList⟩

/-- `_domain` (`errors.py:53-58`) with `_STATUS_BY_CODE`, which has the exact types and not their
    subclasses; what is no `DomainError` is left to `_unhandled`. -/
def ofError : Error → HttpResponse
  | .validationError message => ⟨422, .error "validation_error".toList message⟩
  | .stateTransitionError message => ⟨409, .error "invalid_state_transition".toList message⟩
  | .notFoundError message => ⟨404, .error "not_found".toList message⟩
  | .contentMissingError message => ⟨400, .error "content_missing".toList message⟩
  | .valueError _ => unhandled
  | .keyError => unhandled
  | .integrityError => unhandled
  | .dataError => unhandled
  | .infrastructure => unhandled

def ofVerifyError : VerifyError → HttpResponse
  | .authenticationError message => ⟨401, .error "authentication_error".toList message⟩
  | .typeError _ => unhandled
  | .keyError _ => unhandled
  | .other e => ofError e

def ofResult : Except Error Answer → HttpResponse
  | .ok answer => ⟨answer.status, .answer answer⟩
  | .error e => ofError e

end HttpResponse

/-! ## Serving a request -/

/-- What the application is built from (`api/app.py`, `api/dependencies.py`). -/
structure HttpApi where
  api : Api
  verifier : JwtTokenVerifier
  systemPrompt : Str

/-- What one request meets: the clock and the cache of its handlers, and what PyJWT makes of
    tokens at the time. -/
structure HttpEnv (F : Type) extends ApiEnv where
  jwt : PyJwt F

namespace HttpApi

variable {F : Type}

/-- The page that a router asks for. The driver has no `bigint` for an offset from 2^63 on, which
    only shows when the query of the handler is sent. -/
def page (limit offset : Int) (sort : Option PageSort) : Except Error PageRequest :=
  match PageRequest.make limit offset sort with
  | .error e => .error e
  | .ok request => if request.offset < 2 ^ 63 then .ok request else .error .dataError

/-- What the router of an endpoint hands to its handler. -/
def operation : Endpoint → Except Error Operation
  | .registerDocument body => .ok (.register body.collectionId body.title body.sourceType
      body.sourceUri body.contentHash)
  | .getDocument documentId => .ok (.get documentId)
  | .listDocuments collectionId limit offset sortBy sortDir =>
      (page limit offset (some ⟨sortBy, sortDir⟩)).map (.list · collectionId)
  | .deleteDocument documentId => .ok (.delete documentId)
  | .uploadContent documentId content => .ok (.upload documentId content)
  | .listChunks documentId => .ok (.listChunks documentId)
  | .listJobs jobStatus limit offset => (page limit offset none).map (.listJobs · jobStatus)
  | .search query collectionId topK => (SearchQuery.make query topK collectionId).map .search
  | .answer query collectionId topK => (SearchQuery.make query topK collectionId).map .search

/-- The results of a search, for the handler of an answer. -/
def searched : Except Error Answer → Except Error (List ScoredChunk)
  | .ok (.results results) => .ok results
  | .ok _ => .ok []
  | .error e => .error e

/-- The response of a route once its handler is through: an answer is streamed, and the status of
    the stream is sent before the search has begun (`generation/presentation/router.py:19-33`). -/
def respond (http : HttpApi) (tenantId : UUID) (result : Except Error Answer) :
    Endpoint → HttpResponse
  | .answer query collectionId topK =>
      match SearchQuery.make query topK collectionId with
      | .ok query => ⟨200, .stream (GenerateAnswerHandler.body
          ⟨fun _ _ => searched result, http.api.search.lower, http.systemPrompt⟩ tenantId query)⟩
      | .error e => .ofError e
  | _ => .ofResult result

/-- The response to a request that conforms, of a caller that is known. -/
def answered (http : HttpApi) (env : HttpEnv F) (id tenantId : UUID) (s : Service)
    (endpoint : Endpoint) : HttpResponse × Service :=
  match operation endpoint with
  | .error e => (.ofError e, s)
  | .ok operation =>
      let (result, s') := operation.perform http.api env.toApiEnv id tenantId s
      (http.respond tenantId result endpoint, s')

/-- One request, with nobody in between. -/
def serve (http : HttpApi) (env : HttpEnv F) (id : UUID) (s : Service) (request : HttpRequest) :
    HttpResponse × Service :=
  match getCurrentIdentity http.verifier env.jwt request.bearer request.header with
  | .error e => (.ofVerifyError e, s)
  | .ok identity =>
      if request.endpoint.conforms then
        http.answered env id identity.tenantId s request.endpoint
      else (.requestValidation, s)

end HttpApi

end Eka
