import GmragApi.AdminRecovery
import GmragApi.Admission
import GmragApi.AttemptBound
import GmragApi.AuditErrorCode
import GmragApi.AuditMetadata
import GmragApi.AuthorizationModel
import GmragApi.AuthzOutbox
import GmragApi.AuthzRun
import GmragApi.BackfillAccounting
import GmragApi.BackoffArithmetic
import GmragApi.BatchRecording
import GmragApi.Batching
import GmragApi.BestMatch
import GmragApi.ChatAnswer
import GmragApi.ChatHistory
import GmragApi.ChatMoves
import GmragApi.ChatOwners
import GmragApi.ChatPast
import GmragApi.ChatSequence
import GmragApi.ChatTurns
import GmragApi.ChunkEmbedding
import GmragApi.CitationFidelity
import GmragApi.CitationRedaction
import GmragApi.CitationResolution
import GmragApi.CitationSnippet
import GmragApi.Citations
import GmragApi.CompletedIndexed
import GmragApi.ContentDisposition
import GmragApi.DeepseekStream
import GmragApi.DeleteEvents
import GmragApi.DeleteOutbox
import GmragApi.DocumentAcl
import GmragApi.DocumentChunks
import GmragApi.DocumentDirectory
import GmragApi.DocumentMoves
import GmragApi.DocumentReads
import GmragApi.DocumentReplace
import GmragApi.DocumentSecrecy
import GmragApi.DocumentText
import GmragApi.DocumentUpload
import GmragApi.DocumentViewers
import GmragApi.DocumentVisibility
import GmragApi.EmbeddingBackfill
import GmragApi.Erasure
import GmragApi.ExtractedText
import GmragApi.FailureCodes
import GmragApi.Fga
import GmragApi.Gather
import GmragApi.GraphAnswers
import GmragApi.GraphBatch
import GmragApi.GraphConstruction
import GmragApi.GraphDisclosure
import GmragApi.GraphExtraction
import GmragApi.GraphInvariant
import GmragApi.GraphLedger
import GmragApi.GraphMerge
import GmragApi.GraphOverlap
import GmragApi.GraphParsing
import GmragApi.GraphProvenance
import GmragApi.GraphSchema
import GmragApi.GraphStore
import GmragApi.GraphWrapping
import GmragApi.GraphWrites
import GmragApi.HeaderParameters
import GmragApi.HealthyWorkspace
import GmragApi.HrmAlias
import GmragApi.HrmProvision
import GmragApi.HrmScope
import GmragApi.IdentityAgreement
import GmragApi.IdentityReport
import GmragApi.Incremental
import GmragApi.Indexing
import GmragApi.IndexingFrames
import GmragApi.IndexingOutput
import GmragApi.IngestionInvariant
import GmragApi.IngestionQueue
import GmragApi.IngestionWorker
import GmragApi.InviteCleanup
import GmragApi.Json
import GmragApi.JwtKeys
import GmragApi.Keycloak
import GmragApi.LastAdmin
import GmragApi.LeaseFencing
import GmragApi.Lowercase
import GmragApi.MemberConfinement
import GmragApi.MemberGrants
import GmragApi.MemberLocks
import GmragApi.MemberMoves
import GmragApi.Members
import GmragApi.ObjectLifetimes
import GmragApi.ObjectScan
import GmragApi.OcrAudit
import GmragApi.OcrAuditSafety
import GmragApi.OrphanScan
import GmragApi.OutboxLeases
import GmragApi.OutboxLifecycle
import GmragApi.OutboxRun
import GmragApi.OverlapBatch
import GmragApi.OverlapCommit
import GmragApi.OverlapMoves
import GmragApi.OverlapRows
import GmragApi.OverlapSerial
import GmragApi.OverlapTables
import GmragApi.Paging
import GmragApi.PermissionsCall
import GmragApi.PermissionsFailure
import GmragApi.PermissionsSteps
import GmragApi.PermissionsTarget
import GmragApi.PointLifetimes
import GmragApi.PointScan
import GmragApi.PrefixDeletion
import GmragApi.ProcessPool
import GmragApi.Query
import GmragApi.QueueFrames
import GmragApi.Ranking
import GmragApi.RateHistory
import GmragApi.RateLimit
import GmragApi.RateWindow
import GmragApi.RecoverySafety
import GmragApi.Reingestion
import GmragApi.ResourceMoves
import GmragApi.ResourceTuples
import GmragApi.RetentionAgreement
import GmragApi.RetentionReport
import GmragApi.Retry
import GmragApi.Revokes
import GmragApi.SaturatingWord
import GmragApi.SlidingWindow
import GmragApi.SnippetRendering
import GmragApi.SnippetSelection
import GmragApi.SnippetWindow
import GmragApi.SqlText
import GmragApi.StatusAgreement
import GmragApi.StoredObjects
import GmragApi.StreamCitations
import GmragApi.StreamTokens
import GmragApi.TableChanges
import GmragApi.TenantCleanup
import GmragApi.TenantIsolation
import GmragApi.TenantRecovery
import GmragApi.Text
import GmragApi.TextCover
import GmragApi.TextSlice
import GmragApi.Transition
import GmragApi.TupleLifetimes
import GmragApi.TupleOrigins
import GmragApi.TupleScan
import GmragApi.UploadAccounting
import GmragApi.UploadAgreement
import GmragApi.UploadAtomicity
import GmragApi.Upsert
import GmragApi.Userset
import GmragApi.Utf8
import GmragApi.Utf8Encoding
import GmragApi.Uuid
import GmragApi.VectorIndex
import GmragApi.VerifiedUsers
import GmragApi.VouchedUsers
import GmragApi.WordprocessingSpelling
import GmragApi.WordprocessingText
import GmragApi.Words
import GmragApi.WorkerBatch
import GmragApi.XmlContent
