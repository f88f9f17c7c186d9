import MenteDb.Foundation.Bucket
import MenteDb.Core.Types
import MenteDb.Foundation.Assoc
import MenteDb.Foundation.Bfs
import MenteDb.Foundation.Multigraph
import MenteDb.Graph.Csr
import MenteDb.Graph.Refinement
import MenteDb.Sqlite.Schema
import MenteDb.Sqlite.Memory
import MenteDb.Sqlite.Forget
import MenteDb.Sqlite.Erasure
import MenteDb.Facade.ForgetScope
import MenteDb.Facade.ForgetClosure
import MenteDb.Foundation.Ranking
import MenteDb.Graph.Manager
import MenteDb.Sqlite.Backend
import MenteDb.Sqlite.Search
import MenteDb.Cognitive.Speculative
import MenteDb.Graph.Belief
import MenteDb.Facade.World
import MenteDb.Facade.Recall
import MenteDb.Facade.Write
import MenteDb.Facade.Policies
import MenteDb.Facade.Consistency
import MenteDb.Facade.HardForget
import MenteDb.Facade.SoftForget
import MenteDb.Context.Assembler
import MenteDb.Facade.Invalidation
import MenteDb.Facade.Context
import MenteDb.Facade.Concurrency
import MenteDb.Server.Handlers
import MenteDb.Facade.Ownership
import MenteDb.Server.Isolation
import MenteDb.Facade.Filters
import MenteDb.Sqlite.Projection
import MenteDb.Sqlite.Rebuild
import MenteDb.Facade.Effects
import MenteDb.Facade.Embedder
import MenteDb.Sqlite.Nearest
import MenteDb.Facade.Completeness
import MenteDb.Facade.Hiding
import MenteDb.Consolidation.Clusters
import MenteDb.Facade.Maintenance
import MenteDb.Facade.Archiving
import MenteDb.Facade.Merging
import MenteDb.Facade.Agents
import MenteDb.Sqlite.RoundTrip
import MenteDb.Foundation.Clamp
import MenteDb.Facade.Decay
import MenteDb.Sqlite.Encoding
import MenteDb.Sqlite.History
import MenteDb.Sqlite.Ledger
import MenteDb.Facade.FailedWrites
import MenteDb.Query.Planner
import MenteDb.Facade.Scans
import MenteDb.Facade.Scans
import MenteDb.Server.Deletion
import MenteDb.Facade.ExtractionJobs
import MenteDb.Sqlite.References
import MenteDb.Sqlite.Audit
import MenteDb.Facade.ValidatedBatches
import MenteDb.Facade.Reindexing
import MenteDb.Foundation.Strings
import MenteDb.Facade.EntityExtraction
import MenteDb.Facade.EntityUniqueness
import MenteDb.Facade.Enrichment
import MenteDb.Facade.EnrichmentProgress
import MenteDb.Facade.Excerpts
import MenteDb.Foundation.ShortestPath
import MenteDb.Graph.Distances
import MenteDb.Facade.DisabledArchival
import MenteDb.Facade.SleepCoverage
import MenteDb.Sqlite.Subgraph
import MenteDb.Cognitive.Stream
import MenteDb.Facade.StreamChecks
import MenteDb.Facade.EntityAliases
import MenteDb.Sqlite.Fusion
import MenteDb.Facade.RecallOrder
import MenteDb.Facade.TurnInference
import MenteDb.Foundation.Closure
import MenteDb.Graph.Contradiction
import MenteDb.Graph.Subgraph
import MenteDb.Foundation.CycleSearch
import MenteDb.Graph.Cycles
import MenteDb.Graph.Propagation
import MenteDb.Graph.PropagationOrder
import MenteDb.Graph.Listing
import MenteDb.Graph.Strengthening
import MenteDb.Foundation.Outcome
import MenteDb.Foundation.Utf8
import MenteDb.Query.Lexer
import MenteDb.Query.Lexemes
import MenteDb.Query.Tokenizing
import MenteDb.Foundation.Scan
import MenteDb.Query.Literals
import MenteDb.Query.Parser
import MenteDb.Query.Grammar
import MenteDb.Query.Reading
import MenteDb.Query.Acceptance
import MenteDb.Query.ParserSafety
import MenteDb.Query.Quoting
import MenteDb.Foundation.Packing
import MenteDb.Context.Packing
import MenteDb.Context.Delta
import MenteDb.Context.Serialized
import MenteDb.Context.Copies
import MenteDb.Consolidation.Components
import MenteDb.Facade.MergeGroups
import MenteDb.Facade.EntityResolver
import MenteDb.Facade.EntityNames
import MenteDb.Facade.Truncation
import MenteDb.Facade.EntityLinks
import MenteDb.Facade.DifferentNames
import MenteDb.Facade.Communities
import MenteDb.Consolidation.Facts
import MenteDb.Consolidation.Compression
import MenteDb.Cognitive.CacheBounds
import MenteDb.Cognitive.CacheHits
import MenteDb.Cognitive.CacheReload
import MenteDb.Cognitive.Conversations
import MenteDb.Cognitive.Interference
import MenteDb.Cognitive.Responses
import MenteDb.Extraction.AnyResponse
import MenteDb.Extraction.Contradictions
import MenteDb.Facade.TopicLabels
import MenteDb.Cognitive.StreamHistory
import MenteDb.Cognitive.TransitionSnapshot
import MenteDb.Core.Limits
import MenteDb.Core.Space
import MenteDb.Embedding.Cache
import MenteDb.Facade.GraphProjection
import MenteDb.Server.RateLimit
import MenteDb.Facade.ParallelEdges
import MenteDb.Facade.PolicyJournal
import MenteDb.Facade.PolicyPlans
import MenteDb.Facade.PolicyPreviews
import MenteDb.Facade.SleepLease
import MenteDb.Foundation.WorkerPool
import MenteDb.Server.ExtractionQueue
import MenteDb.Foundation.Retention
import MenteDb.Server.Auth
import MenteDb.Sqlite.Traces
import MenteDb.Core.Events
import MenteDb.Cognitive.Pain
import MenteDb.Cognitive.Phantoms
import MenteDb.Cognitive.Predictions
import MenteDb.Core.Conflicts
import MenteDb.Core.Versions
import MenteDb.Embedding.Manager
import MenteDb.Facade.MultiQuery
import MenteDb.Facade.ProcessTurn
import MenteDb.Facade.TurnHistories
import MenteDb.Facade.TurnWrites
import MenteDb.Foundation.Relay
import MenteDb.Server.CognitionService
import MenteDb.Facade.JudgedInference
import MenteDb.Server.RateLimiter
import MenteDb.Facade.EntityBatches
