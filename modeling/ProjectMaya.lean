import ProjectMaya.Lease
import ProjectMaya.Logic.Json
import ProjectMaya.Authority
import ProjectMaya.Logic.Wp
import ProjectMaya.Store
import ProjectMaya.Create
import ProjectMaya.Logic.Hosts
import ProjectMaya.CreateSpec
import ProjectMaya.CreateAtomic
import ProjectMaya.Competing
import ProjectMaya.Readers
import ProjectMaya.Evidence
import ProjectMaya.CallerPreparation
import ProjectMaya.Lineage
import ProjectMaya.Reset
import ProjectMaya.Switch
import ProjectMaya.OwnedReader
import ProjectMaya.Backup
import ProjectMaya.BackupRoundTrip
import ProjectMaya.Documents
import ProjectMaya.VectorStore
import ProjectMaya.Logic.Tolerance
import ProjectMaya.VectorSessions
import ProjectMaya.VectorRefinement
import ProjectMaya.VectorRuns
import ProjectMaya.VectorRebuild
import ProjectMaya.Logic.Regex
import ProjectMaya.Payload
import ProjectMaya.Context
import ProjectMaya.Plugin
import ProjectMaya.ExecutionBoundary
import ProjectMaya.LeaseChain
import ProjectMaya.SessionWrite
import ProjectMaya.Logic.Covenant
import ProjectMaya.Logic.Zoom
import ProjectMaya.PublishedReader
import ProjectMaya.ReaderScope
import ProjectMaya.ReaderHistory
import ProjectMaya.Claims
import ProjectMaya.Handoff
import ProjectMaya.HandoffSpec
import ProjectMaya.HandoffSteps
import ProjectMaya.SingleUse
import ProjectMaya.Logic.JsonText
import ProjectMaya.Logic.Base64
import ProjectMaya.Signing
import ProjectMaya.Release
import ProjectMaya.ReleaseRoundTrip
import ProjectMaya.Broker
import ProjectMaya.Signable
import ProjectMaya.Logic.Calendar
import ProjectMaya.Logic.DateTime
import ProjectMaya.BrokerReplay
import ProjectMaya.BrokerTokens
import ProjectMaya.OAuthSingleUse
import ProjectMaya.TokenStatus
import ProjectMaya.Enforcement
import ProjectMaya.GovernedCalls
import ProjectMaya.Obligations
import ProjectMaya.CallbackChecks
import ProjectMaya.Disclosure
import ProjectMaya.Logic.Url
import ProjectMaya.ModelConfig
import ProjectMaya.LocalApi
import ProjectMaya.BoundRequests
import ProjectMaya.TrustedKeys
import ProjectMaya.Agent
import ProjectMaya.AgentRuns
import ProjectMaya.HermesAdapter
import ProjectMaya.FailedStart
import ProjectMaya.TelegramIntake
import ProjectMaya.TelegramOnce
import ProjectMaya.Chunker
import ProjectMaya.Logic.Assoc
import ProjectMaya.Registry
import ProjectMaya.RegistryRuns
import ProjectMaya.Ingest
import ProjectMaya.IngestRuns
import ProjectMaya.ContinuousIngest
import ProjectMaya.ContinuousRuns
import ProjectMaya.LocalVectorAdapter
import ProjectMaya.RetrieverService
import ProjectMaya.RetrieverGate
import ProjectMaya.Logic.Choices
import ProjectMaya.VectorAtomic
import ProjectMaya.VectorCalls
import ProjectMaya.VectorMap
import ProjectMaya.GovernedStore
import ProjectMaya.BusinessMemory
import ProjectMaya.ContextBuilder
import ProjectMaya.Logic.Pager
import ProjectMaya.MigrationBackup
import ProjectMaya.Secrets
import ProjectMaya.Configuration
import ProjectMaya.Logic.JsonRead
import ProjectMaya.Logic.JsonRoundTrip
import ProjectMaya.PayloadCheck
import ProjectMaya.Migration
import ProjectMaya.MigrationTables
import ProjectMaya.MigrationAtomic
import ProjectMaya.BrokerErrors
import ProjectMaya.HybridSearch
import ProjectMaya.Dependencies
import ProjectMaya.Doctor
import ProjectMaya.DoctorTotal
import ProjectMaya.Update
import ProjectMaya.Health
import ProjectMaya.HealthTotal
import ProjectMaya.Logic.FileTree
import ProjectMaya.Restore
import ProjectMaya.RestoreContained
import ProjectMaya.ChunkSizes
import ProjectMaya.Embedder
import ProjectMaya.BusinessChunks
import ProjectMaya.LocalJson
import ProjectMaya.LocalSearch
import ProjectMaya.ContextClosed
import ProjectMaya.AdapterUpsert
import ProjectMaya.Logic.Dot
import ProjectMaya.Similarity
import ProjectMaya.ProviderFallback
import ProjectMaya.MigrationIdempotent
import ProjectMaya.Logic.Placed
import ProjectMaya.RestoreAtomic
import ProjectMaya.RestoreDatabase
import ProjectMaya.RestoreRaises
import ProjectMaya.EnforcementHints
import ProjectMaya.GovernanceDefaults
import ProjectMaya.TimestampAges
import ProjectMaya.ValidatorAccounting
import ProjectMaya.ConflictResolution
import ProjectMaya.Freshness
import ProjectMaya.EmbeddingRetries
import ProjectMaya.Logic.Connection
import ProjectMaya.SqliteRegistry
import ProjectMaya.BearerRequests
import ProjectMaya.Backfill
import ProjectMaya.Logic.IpAddress
import ProjectMaya.Loopback
import ProjectMaya.Conversion
import ProjectMaya.DocumentReads
import ProjectMaya.Logic.PathLookup
import ProjectMaya.Repair
import ProjectMaya.Logic.JsonAscii
import ProjectMaya.Logic.LineLog
import ProjectMaya.Audit
import ProjectMaya.HealthAgrees
import ProjectMaya.CallerSpec
import ProjectMaya.CallerRuns
import ProjectMaya.Selections
import ProjectMaya.Locked
import ProjectMaya.ResetSpec
import ProjectMaya.SwitchSpec
import ProjectMaya.PrepareSpec
import ProjectMaya.Logic.HostRuns
import ProjectMaya.Tasks
import ProjectMaya.Lines
import ProjectMaya.Logic.Replay
import ProjectMaya.LinesShown
import ProjectMaya.SessionReads
import ProjectMaya.Unsettled
import ProjectMaya.Provenance
import ProjectMaya.Orphaned
import ProjectMaya.Logic.Dialogue
import ProjectMaya.SessionClient
