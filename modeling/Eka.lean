import Eka.Lib.Table
import Eka.Lib.Transition
import Eka.Documents.Registration
import Eka.Ingestion.Chunking
import Eka.Ingestion.Queue
import Eka.Ingestion.QueueSystem
import Eka.Ingestion.QueueSafety
import Eka.Ingestion.Repository
import Eka.Ingestion.Pipeline
import Eka.System.Step
import Eka.System.Ownership
import Eka.System.Linked
import Eka.System.Settled
import Eka.System.Indexed
import Eka.System.Sequential
import Eka.System.Upload
import Eka.Documents.Queries
import Eka.System.Deletion
import Eka.Lib.PyDict
import Eka.Retrieval.Fusion
import Eka.Retrieval.Retriever
import Eka.System.Exposure
import Eka.System.Attempt
import Eka.System.Recovery
import Eka.System.DeadLetter
import Eka.Ingestion.Queries
import Eka.Lib.Agree
import Eka.Retrieval.Search
import Eka.System.Api
import Eka.System.Tenancy
import Eka.System.Noninterference
import Eka.Ingestion.Coverage
import Eka.Documents.ConcurrentRegistration
import Eka.Ingestion.HashingEmbedding
import Eka.System.Configuration
import Eka.System.Work
import Eka.System.Shutdown
import Eka.System.Liveness
import Eka.System.Spared
import Eka.System.FaultFree
import Eka.System.Migration
import Eka.System.Indexing
import Eka.Documents.Paging
import Eka.Lib.Memo
import Eka.Lib.PyParse
import Eka.Retrieval.Payload
import Eka.Retrieval.Transparency
import Eka.Generation.Guardrails
import Eka.Generation.Generate
import Eka.Generation.Grounding
import Eka.Lib.Join
import Eka.Generation.Citations
import Eka.Generation.Injection
import Eka.Ingestion.NotBlank
import Eka.Ingestion.LongWords
import Eka.Ingestion.ChunkSize
import Eka.Ingestion.Progress
import Eka.Lib.SortedDesc
import Eka.Retrieval.Dominance
import Eka.Lib.MinMax
import Eka.Retrieval.Reranking
import Eka.Retrieval.Contract
import Eka.Retrieval.Preference
import Eka.Lib.Simulation
import Eka.Retrieval.MemoryCache
import Eka.Documents.EventLog
import Eka.Documents.Validation
import Eka.System.PageContract
import Eka.Lib.Layout
import Eka.Retrieval.Layout
import Eka.Ingestion.EmbeddingNorm
import Eka.Identity.Jwt
import Eka.Retrieval.CacheFailures
import Eka.Generation.Rendering
import Eka.Lib.Delimiter
import Eka.System.Replacement
import Eka.Ingestion.RetrySpacing
import Eka.Ingestion.HardCut
import Eka.Lib.Share
import Eka.Evaluation.Metrics
import Eka.Evaluation.Gate
import Eka.Evaluation.Harness
import Eka.Evaluation.InMemorySearcher
import Eka.Lib.JsonText
import Eka.Retrieval.JsonPayload
import Eka.Lib.EventStream
import Eka.Generation.Streaming
import Eka.Lib.Stale
import Eka.Retrieval.Snapshots
import Eka.System.Provenance
import Eka.System.Searching
import Eka.System.Answering
import Eka.System.Listing
import Eka.Http.Requests
import Eka.Http.Application
import Eka.Http.Contract
import Eka.Lib.Unwinding
import Eka.Http.History
import Eka.Http.Journey
