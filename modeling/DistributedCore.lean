import DistributedCore.Locks.QuorumExclusion
import DistributedCore.Locks.QuorumFencing
import DistributedCore.Entity.EchoTermination
import DistributedCore.Entity.OwnershipAgreement
import DistributedCore.Entity.WalCoverage
import DistributedCore.Entity.Bootstrap
import DistributedCore.Locks.StaleHandles
import DistributedCore.Failure.FailureHandling
import DistributedCore.Locks.LockHandOver
import DistributedCore.Locks.LeaderGuard
import DistributedCore.Compaction.CoordinatorRuns
import DistributedCore.Compaction.CompactionExclusion
import DistributedCore.Messaging.CompactionSafety
import DistributedCore.Cluster.Departures
import DistributedCore.Cluster.DeltaMerge
import DistributedCore.Cluster.DeltaSync
import DistributedCore.Gateway.RejectedCalls
import DistributedCore.Persistence.SnapshotEquivalence
import DistributedCore.Gateway.SharedStateUpdates
import DistributedCore.Cluster.Reconciliation
import DistributedCore.Transport.ReliableSend
import DistributedCore.Transport.MessageAuth
import DistributedCore.Gateway.SignedPubSub
import DistributedCore.Cluster.JoinMessages
import DistributedCore.Gateway.Presence
import DistributedCore.Gateway.FollowerState
import DistributedCore.Pipeline.JoinFiring
import DistributedCore.Cluster.StateAggregator
import DistributedCore.Entity.CrdtFences
import DistributedCore.Persistence.WalFaithful
import DistributedCore.Connections.ConnectionManager
import DistributedCore.Connections.ConnectionPool
import DistributedCore.Connections.TagIndex
import DistributedCore.Transport.CircuitBreaker
import DistributedCore.Coordinators.RangeQueue
