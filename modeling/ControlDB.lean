import ControlDB.Library.Delimited
import ControlDB.Core.HashChain
import ControlDB.Core.TamperBinding
import ControlDB.Core.Json
import ControlDB.Core.Storage
import ControlDB.Core.EventStore
import ControlDB.Core.Commit
import ControlDB.Core.Consistent
import ControlDB.Core.ChainInvariant
import ControlDB.Core.Idempotency
import ControlDB.Core.Tenancy
import ControlDB.Core.WalLaw
import ControlDB.Library.Quorum
import ControlDB.Library.Replication
import ControlDB.Library.Runs
import ControlDB.Library.ReplicationSafety
import ControlDB.Raft.Log
import ControlDB.Raft.Cluster
import ControlDB.Raft.Election
import ControlDB.Raft.Follow
import ControlDB.Raft.Simulation
import ControlDB.Raft.Safety
import ControlDB.Raft.Propose
import ControlDB.Library.JsonTree
import ControlDB.Python.CanonicalJson
import ControlDB.Collector.Ingest
import ControlDB.Collector.Services
import ControlDB.Collector.Append
import ControlDB.Collector.Sound
import ControlDB.Collector.RunInvariant
import ControlDB.Collector.AllOrNothing
import ControlDB.Collector.Concurrent
import ControlDB.Collector.Isolation
import ControlDB.Python.CanonicalBinding
import ControlDB.Collector.TamperEvidence
import ControlDB.Core.Replay
import ControlDB.Core.AppendOnly
import ControlDB.Core.IndexIntegrity
import ControlDB.Core.Scan
import ControlDB.Core.VerifyCoverage
import ControlDB.Sdk.Transport
import ControlDB.Sdk.Spool
import ControlDB.Collector.Policy
import ControlDB.Collector.App
import ControlDB.Sdk.Enforce
import ControlDB.Sdk.FailClosed
import ControlDB.Raft.LogMatching
import ControlDB.Library.RecordFile
import ControlDB.Library.Words
import ControlDB.Raft.LogFile
import ControlDB.Core.WalFile
import ControlDB.Core.WalFresh
import ControlDB.Core.WalRefinement
import ControlDB.Collector.RocksBackend
import ControlDB.Core.Pagination
import ControlDB.Collector.Pagination
import ControlDB.Collector.Envelope
import ControlDB.Collector.EngineParity
import ControlDB.Library.JsonOrder
import ControlDB.Library.Utf16
import ControlDB.TypeScript.Hashing
import ControlDB.TypeScript.Parity
import ControlDB.Library.JsonPath
import ControlDB.Sdk.Redaction
import ControlDB.Library.Effects
import ControlDB.Sdk.Run
import ControlDB.Sdk.RunTrace
import ControlDB.Sdk.Delivery
import ControlDB.Sdk.Lifecycle
import ControlDB.Sdk.EventKeys
import ControlDB.Collector.Decisions
import ControlDB.Collector.Evidence
import ControlDB.TypeScript.Delivery
import ControlDB.Raft.Apply
import ControlDB.Core.RunRecord
import ControlDB.Collector.RunRecord
import ControlDB.Collector.EngineRecord
import ControlDB.Core.WalRoundTrip
import ControlDB.Raft.Checksums
import ControlDB.Raft.Idempotent
import ControlDB.Raft.VotePersistence
import ControlDB.Raft.LogShape
import ControlDB.Core.Codecs
import ControlDB.Library.Mutex
import ControlDB.Raft.ElectionLocks
import ControlDB.Raft.NeverBack
import ControlDB.Raft.MatchIndex
import ControlDB.Python.Dumps
import ControlDB.Collector.RowSession
import ControlDB.Library.Radix
import ControlDB.Python.Ids
import ControlDB.TypeScript.Ids
import ControlDB.Library.JsonSame
import ControlDB.Library.JsonMembers
import ControlDB.TypeScript.Injective
import ControlDB.TypeScript.HashThenSend
import ControlDB.Collector.Redaction
import ControlDB.TypeScript.RedactionParity
import ControlDB.Library.SecondaryIndex
import ControlDB.Collector.RunIndex
import ControlDB.Library.IndexScan
import ControlDB.Collector.EventQuery
import ControlDB.Library.JsonReader
import ControlDB.Python.Loads
import ControlDB.Collector.PayloadParity
import ControlDB.Collector.Archive
import ControlDB.Collector.BundleAudit
import ControlDB.Collector.ExportAudit
import ControlDB.Library.Nesting
import ControlDB.Sdk.BlockTrace
import ControlDB.Collector.Auth
import ControlDB.Collector.Endpoints
import ControlDB.Library.Origins
import ControlDB.Collector.Provenance
import ControlDB.Collector.TenantServer
import ControlDB.Collector.EventsBody
import ControlDB.Collector.Resent
import ControlDB.Sdk.Ingestion
import ControlDB.Sdk.IngestionChain
import ControlDB.Raft.LeaderCompleteness
import ControlDB.Core.Listings
