import Blixard.Storage.Boundary
import Blixard.Raft.SnapshotConsistency
import Blixard.Raft.Proposals
import Blixard.Raft.Membership
import Blixard.Raft.ReadyHandling
import Blixard.Raft.Placement
import Blixard.Raft.Footprint
import Blixard.Raft.Restart
import Blixard.Storage.Entries
import Blixard.Storage.Atomicity
import Blixard.Raft.Compaction
import Blixard.Raft.BatchLimits
import Blixard.IpPool.Locking
import Blixard.ResourcePool.Bound
import Blixard.Raft.Lifecycle
import Blixard.Scheduler.Spread
import Blixard.Raft.Answers
import Blixard.Raft.IpAllocationService
import Blixard.CpuManager.Interleaving
import Blixard.MemoryManager
import Blixard.VmAutoRecovery
import Blixard.NetworkIsolation.Connectivity
import Blixard.VmHealth.Scheduler
import Blixard.VmHealth.RecoveryCoordinator
import Blixard.PeerConnector
import Blixard.OptimizedPeerConnector.Accounting
import Blixard.Discovery.Manager
import Blixard.Enrollment.TokenBounds
import Blixard.Admission.Settings
import Blixard.Resources.Accounting
import Blixard.QuotaChanges
import Blixard.Raft.UsageSums
import Blixard.RaftTransport
import Blixard.TransactionLog.Closing
import Blixard.TransactionLog.Rotation
import Blixard.Raft.OptimizedBatchProcessor.Backpressure
import Blixard.Raft.OptimizedBatchProcessor.Delivery
import Blixard.NixImageStore.GarbageCollection
import Blixard.AsyncUtils
import Blixard.CircuitBreaker.Opening
import Blixard.NetworkIsolation.Backend
import Blixard.Raft.OptimizedBatchProcessor.Splitting
import Blixard.Raft.OptimizedProcessing
import Blixard.Raft.OptimizedProposals
import Blixard.MemoryOptimization
import Blixard.RateLimit.Cleanup
import Blixard.VmHealth.StateManager
import Blixard.ConstCollections
import Blixard.RaftCodec.Truncation
import Blixard.Retry
import Blixard.Scheduler.Completeness
