import OpenConditions.Contrib.AppendOrder
import OpenConditions.Contrib.Base64Url
import OpenConditions.Contrib.Confirmers
import OpenConditions.Contrib.Corroboration
import OpenConditions.Contrib.CorroborationRuns
import OpenConditions.Contrib.EvidenceRows
import OpenConditions.Contrib.LowS
import OpenConditions.Contrib.Resolution
import OpenConditions.Core.ChangeKinds
import OpenConditions.Core.ContentHasher
import OpenConditions.Core.Evidence
import OpenConditions.Core.EvidenceConfidence
import OpenConditions.Core.EvidenceExpiry
import OpenConditions.Core.EvidenceExternal
import OpenConditions.Core.EvidenceLedger
import OpenConditions.Core.EvidenceNegation
import OpenConditions.Core.EvidenceOrder
import OpenConditions.Core.FieldValues
import OpenConditions.Core.HistoryFields
import OpenConditions.Core.HistoryRoundTrip
import OpenConditions.Core.Identity
import OpenConditions.Core.MeaningKeys
import OpenConditions.Core.MeaningOrder
import OpenConditions.Core.MeaningParts
import OpenConditions.Core.MeaningTold
import OpenConditions.Core.ObservationCodec
import OpenConditions.Core.ObservationHistory
import OpenConditions.Core.ObservationRoundTrip
import OpenConditions.Core.ObservationSql
import OpenConditions.Core.RestrictionEvidence
import OpenConditions.Core.RoutingEvidence
import OpenConditions.Core.SituationFolds
import OpenConditions.Core.SituationIndex
import OpenConditions.Core.SituationMeaning
import OpenConditions.Core.SituationMeasure
import OpenConditions.Core.SituationPlaces
import OpenConditions.Core.Situations
import OpenConditions.Core.WellFormed
import OpenConditions.Core.WellFormedCopies
import OpenConditions.Federation.Convergence
import OpenConditions.Federation.HttpSignature
import OpenConditions.Federation.Inbox
import OpenConditions.Federation.InboxCopies
import OpenConditions.Federation.InstanceKeys
import OpenConditions.Federation.KeyRotation
import OpenConditions.Federation.Multibase
import OpenConditions.Federation.Outbox
import OpenConditions.Federation.OutboxReader
import OpenConditions.Federation.PeerBook
import OpenConditions.Federation.PeerKeys
import OpenConditions.Federation.PublicProjection
import OpenConditions.Federation.PublicRecords
import OpenConditions.Federation.Push
import OpenConditions.Federation.PushRuns
import OpenConditions.Federation.Rate
import OpenConditions.Federation.RateDowngrade
import OpenConditions.Federation.RecordFilter
import OpenConditions.Federation.Redelivery
import OpenConditions.Federation.Replay
import OpenConditions.Federation.Replica
import OpenConditions.Fusion.Fuse
import OpenConditions.Fusion.FusedRights
import OpenConditions.Fusion.FusedRows
import OpenConditions.Fusion.PublicRows
import OpenConditions.Fusion.PublicView
import OpenConditions.Fusion.Selection
import OpenConditions.Lib.CanonicalJson
import OpenConditions.Lib.Civil
import OpenConditions.Lib.CodeIndex
import OpenConditions.Lib.CodeUnitText
import OpenConditions.Lib.CompleteLinkage
import OpenConditions.Lib.DecimalText
import OpenConditions.Lib.Double
import OpenConditions.Lib.ExtRat
import OpenConditions.Lib.FloatText
import OpenConditions.Lib.Grid
import OpenConditions.Lib.Grouping
import OpenConditions.Lib.Heads
import OpenConditions.Lib.HeldSince
import OpenConditions.Lib.Instant
import OpenConditions.Lib.Json
import OpenConditions.Lib.JsonValue
import OpenConditions.Lib.Keyset
import OpenConditions.Lib.LocalClock
import OpenConditions.Lib.MemoTable
import OpenConditions.Lib.OrderedMap
import OpenConditions.Lib.OrderedSet
import OpenConditions.Lib.Plane
import OpenConditions.Lib.Quantile
import OpenConditions.Lib.Radix
import OpenConditions.Lib.Rearrange
import OpenConditions.Lib.Relocate
import OpenConditions.Lib.Run
import OpenConditions.Lib.Saturation
import OpenConditions.Lib.Sorting
import OpenConditions.Lib.Thinning
import OpenConditions.Lib.Utf16
import OpenConditions.Lib.Walks
import OpenConditions.Linking.CanonicalClusters
import OpenConditions.Linking.ClusterClasses
import OpenConditions.Linking.Clusters
import OpenConditions.Linking.ComponentSet
import OpenConditions.Linking.Components
import OpenConditions.Linking.InputOrder
import OpenConditions.Linking.Partition
import OpenConditions.OnDemand.CellClaims
import OpenConditions.OnDemand.CellLedger
import OpenConditions.Openlr.DensePolyline
import OpenConditions.Openlr.Encode
import OpenConditions.Pipeline.Baselines
import OpenConditions.Pipeline.BindRecords
import OpenConditions.Pipeline.BindingWork
import OpenConditions.Pipeline.Eviction
import OpenConditions.Pipeline.EvictionPlan
import OpenConditions.ProbeSpike.Contributions
import OpenConditions.ProbeSpike.Neighbours
import OpenConditions.ProbeSpike.Release
import OpenConditions.ProbeSpike.Spend
import OpenConditions.Registry.Crosswalk
import OpenConditions.Registry.CrosswalkRoundTrip
import OpenConditions.Registry.CrosswalkRows
import OpenConditions.Roads.AlertC
import OpenConditions.Roads.BindEvent
import OpenConditions.Roads.BindSafety
import OpenConditions.Roads.Candidates
import OpenConditions.Roads.SegmentGraph
import OpenConditions.Roads.ShortestPath
import OpenConditions.Schedules.Durations
import OpenConditions.Schedules.EffectState
import OpenConditions.Schedules.NextTransition
import OpenConditions.Schedules.Occurrences
import OpenConditions.Schedules.Recurrence
import OpenConditions.Schedules.RecurrenceFields
import OpenConditions.Schedules.Transitions
import OpenConditions.Schedules.WallClock
import OpenConditions.Storage.Advance
import OpenConditions.Storage.BatchReadings
import OpenConditions.Storage.CacheTransparent
import OpenConditions.Storage.CanonicalRuns
import OpenConditions.Storage.CanonicalView
import OpenConditions.Storage.CompletePoll
import OpenConditions.Storage.CrowdSeries
import OpenConditions.Storage.Erasure
import OpenConditions.Storage.FreshnessFlips
import OpenConditions.Storage.LatestCache
import OpenConditions.Storage.LiveSeries
import OpenConditions.Storage.Observations
import OpenConditions.Storage.Partitions
import OpenConditions.Storage.RecordRows
import OpenConditions.Storage.RekeyLatest
import OpenConditions.Storage.RelinkedClusters
import OpenConditions.Storage.RelinkedLinks
import OpenConditions.Storage.RevisionLedger
import OpenConditions.Storage.Rollup
import OpenConditions.Storage.RollupRuns
import OpenConditions.Storage.TransientReadings
import OpenConditions.Storage.WriteFacts
import OpenConditions.Storage.WriteRecord
import OpenConditions.Storage.WriteRecords
