import Arcxa.Audit.InclusionProofs
import Arcxa.Audit.Store
import Arcxa.Bitemporal.CacheRace
import Arcxa.Bitemporal.Isolation
import Arcxa.Checkpointing.DedupState
import Arcxa.Checkpointing.Storage
import Arcxa.Engine.ApprovalTimeouts
import Arcxa.Engine.BatchJobs
import Arcxa.Engine.Recovery
import Arcxa.Engine.Resume
import Arcxa.Engine.Retry
import Arcxa.Engine.SkipConditions
import Arcxa.Engine.TransactionBoundaries
import Arcxa.Governance.Acceptance
import Arcxa.Governance.FrontEnd
import Arcxa.Governance.InsertRoundTrip
import Arcxa.Governance.Literals
import Arcxa.Governance.Query
import Arcxa.Governance.Turtle
import Arcxa.Ha.MigrationProgress
import Arcxa.Ha.Migrations
import Arcxa.Ha.Placement
import Arcxa.Ha.Replicas
import Arcxa.Ingestion.AsyncWriter
import Arcxa.Kafka.Durability
import Arcxa.Kafka.RecoveryReport
import Arcxa.Lineage.ColumnGraph
import Arcxa.Lineage.ColumnTracing
import Arcxa.Lineage.Graph
import Arcxa.Lineage.RowKeyParsers
import Arcxa.Lineage.SchemaEvolution
import Arcxa.Loader.BatchLineage
import Arcxa.Loader.DelFile
import Arcxa.Loader.JobManager
import Arcxa.Loader.Reprocessing
import Arcxa.Loader.Resumption
import Arcxa.Security.SqlValidation
import Arcxa.Tiering.Tiers
import Arcxa.Tiering.Warm
import Arcxa.Traceability.Consumer
import Arcxa.Traceability.PacketRequests
import Arcxa.Transformation.Folding
import Arcxa.Transformation.Like
import Arcxa.Transformation.Simplifying
import Arcxa.Wal.AppendBatch
import Arcxa.Wal.Compaction
import Arcxa.Wal.Coordinator.Replay
import Arcxa.Wal.Coordinator.Watermark
import Arcxa.Wal.Read
import Arcxa.Wal.Resync
import Arcxa.Wal.Watermark
import Arcxa.Workflow.Context
import Arcxa.Workflow.Dag
import Arcxa.Workflow.DedupAccounting
import Arcxa.Workflow.DedupKeys
import Arcxa.Workflow.FrameRoundTrip
import Arcxa.Workflow.StorageManager
import Arcxa.Traceability.Rebuild
import Arcxa.Traceability.LegacyImport
