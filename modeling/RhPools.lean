import RhPools.SwapShapes
import RhPools.PlanFunding
import RhPools.QuoteBounds
import RhPools.HistoryWalk
import RhPools.GateGrace
import RhPools.GateNonces
import RhPools.GateVersions
import RhPools.GateOracle
import RhPools.StoreCoverage
import RhPools.ReorgRecovery
import RhPools.RollupReplica
import RhPools.PrincipalClaims
import RhPools.SplitAllocation
import RhPools.QuoteStore
import RhPools.SwapAccounting
import RhPools.OwnerRows
import RhPools.MixedBatch
import RhPools.SwapMinutes
import RhPools.CurveMarks
import RhPools.WriterTurns
import RhPools.SharedFetches
import RhPools.GatePolicies
import RhPools.KeyBuckets
import RhPools.ModifyCalldata
import RhPools.SpacingHints
import RhPools.OwnerRepairs
import RhPools.HeadRuns
import RhPools.BlockSearch
import RhPools.PoolPages
import RhPools.CurrentActivity
import RhPools.StateBatch
import RhPools.CatalogCounts
import RhPools.IdentityMarkers
import RhPools.IntervalFetch
import RhPools.SearchRepair
import RhPools.OwnerSummaries
import RhPools.QueuedReplays
import RhPools.EpisodeIdentities
import RhPools.OwnershipIntervals
import RhPools.PublishedClaims
import RhPools.SourceGates
import RhPools.BandPlans
import RhPools.PoolBalances
import RhPools.ParticipantLane
import RhPools.EarnedFees
import RhPools.DepthCurves
import RhPools.ListenerRuns
import RhPools.FlowServices
import RhPools.ArchiveRoundTrip
import RhPools.SourceRegistry
