import NovaDb.Index.Multimap
import NovaDb.Protocol.Frame
import NovaDb.Query.WholeText
import NovaDb.Query.Spacing
import NovaDb.Storage.Corruption
import NovaDb.Storage.Repair
import NovaDb.Storage.StoredValues
import NovaDb.Server.IndexScan
import NovaDb.Server.FailedStatements
import NovaDb.Server.ConcurrentLog
import NovaDb.Server.ConcurrentIds
import NovaDb.Server.ConcurrentIndexes
import NovaDb.Foundation.Edits
import NovaDb.Storage.BufferedLog
import NovaDb.Server.ChangeStream
import NovaDb.Server.EventStream
import NovaDb.Foundation.Outbox
import NovaDb.Server.EventOrder
import NovaDb.Storage.RepeatedRecovery
import NovaDb.Storage.ReadableRecords
import NovaDb.Storage.SequenceNumbers
import NovaDb.Foundation.NestedMap
import NovaDb.Foundation.Separator
import NovaDb.Storage.Snapshots
import NovaDb.Core.JsonText
import NovaDb.Query.JsonLiterals
import NovaDb.Client.CollectionInsert
import NovaDb.Protocol.Payload
import NovaDb.Server.Connection
import NovaDb.Server.Web
import NovaDb.Foundation.Runs
import NovaDb.Foundation.Linearizability
import NovaDb.Server.Authentication
import NovaDb.Client.LostConnection
import NovaDb.Client.Conversation
import NovaDb.Client.Matching
import NovaDb.Query.AssignedFields
import NovaDb.Query.ExactArithmetic
import NovaDb.Storage.CanonicalBytes
import NovaDb.Storage.DamagedFields
import NovaDb.Server.PlannedScans
import NovaDb.Storage.SegmentLayout
import NovaDb.Storage.LogGrowth
import NovaDb.Server.FilterAnswers
import NovaDb.Server.StatementRecords
import NovaDb.Server.Removals
import NovaDb.Server.Updates
import NovaDb.Server.RestartedIndexes
import NovaDb.Server.Subscriptions
import NovaDb.Foundation.AnyOrder
import NovaDb.Foundation.Ranks
import NovaDb.Server.Reordering
import NovaDb.Server.HashOrder
import NovaDb.Server.OrderedBatches
import NovaDb.Server.OrderFree
import NovaDb.Foundation.Unwinding
import NovaDb.Server.Tenants
import NovaDb.Server.TenantStatements
import NovaDb.Foundation.ShortCircuit
import NovaDb.Query.RewritingLaws
import NovaDb.Foundation.StableSort
import NovaDb.Server.SortedPages
import NovaDb.Foundation.LastWriter
import NovaDb.Storage.LastWriter
import NovaDb.Storage.RestartedValues
import NovaDb.Query.Partition
import NovaDb.Query.Quoting
import NovaDb.Client.FindById
import NovaDb.Client.InsertLiteral
import NovaDb.Server.Service
import NovaDb.Server.Isolation
import NovaDb.Server.StatementMeaning
import NovaDb.Server.Linearization
import NovaDb.Server.CrashedStatements
import NovaDb.Storage.PowerLoss
import NovaDb.Server.Lives
import NovaDb.Server.Histories
import NovaDb.Query.FieldDependence
import NovaDb.Foundation.Traces
import NovaDb.Server.IndependentStatements
import NovaDb.Foundation.GrowingLog
import NovaDb.Server.Delivery
import NovaDb.Foundation.SelectiveMirror
import NovaDb.Server.WatchedView
import NovaDb.Query.WrittenStatements
import NovaDb.Query.Vocabulary
import NovaDb.Query.Layouts
import NovaDb.Query.StatementTexts
import NovaDb.Foundation.OrderedLocks
import NovaDb.Server.LockOrder
