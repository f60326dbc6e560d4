import KernelCache.Foundation.Wire
import KernelCache.Foundation.Prog
import KernelCache.Foundation.Protocol
import KernelCache.Foundation.Locks
import KernelCache.Sha256
import KernelCache.Descriptors
import KernelCache.Key
import KernelCache.KeyCodec
import KernelCache.KeyOrder
import KernelCache.Compatibility
import KernelCache.ReuseRules
import KernelCache.Lifecycle
import KernelCache.Persistence
import KernelCache.Metadata
import KernelCache.Crash
import KernelCache.Backend
import KernelCache.Impl
import KernelCache.Operations
import KernelCache.Evolution
import KernelCache.Walk
import KernelCache.Lookup
import KernelCache.Interleaving
import KernelCache.Acquires
import KernelCache.Poison
import KernelCache.Sequential
import KernelCache.Index
import KernelCache.Reuse
import KernelCache.ExactHit
import KernelCache.SingleFlight
import KernelCache.Agreement
import KernelCache.OneCompile
import KernelCache.LastCopy
import KernelCache.LeaseSafety
import KernelCache.LeaseHealth
import KernelCache.Tiers
import KernelCache.ModulePath
import KernelCache.Modules
import KernelCache.LockDiscipline
import KernelCache.Restart
import KernelCache.Generations
import KernelCache.Base64
import KernelCache.PutResult
import KernelCache.Reload
import KernelCache.TornWrites
import KernelCache.Budgets
import KernelCache.Consistency
import KernelCache.Foundation.Extension
import KernelCache.HostBudget
import KernelCache.Immutable
import KernelCache.LeaseCounts
import KernelCache.Recovery
import KernelCache.Records
import KernelCache.Draining
import KernelCache.Pins
import KernelCache.HostAccounting
import KernelCache.Duties
import KernelCache.Gauges
import KernelCache.SlotRelease
import KernelCache.Delivery
import KernelCache.Reversal
import KernelCache.Overtaken
import KernelCache.Foundation.Streams
import KernelCache.Frames
import KernelCache.Distributed
import KernelCache.Coordinator
import KernelCache.Replies
import KernelCache.Conduct
import KernelCache.EpochOrder
import KernelCache.Foundation.Serial
import KernelCache.StaleLookups
import KernelCache.Obsolete
import KernelCache.Roster
import KernelCache.WorkerStreams
import KernelCache.Worker
import KernelCache.CatchingUp
import KernelCache.EpochAgreement
import KernelCache.CpuBackend
import KernelCache.PolicyOrder
import KernelCache.Foundation.Layout
import KernelCache.StrictPayloads
import KernelCache.CudaBackend
import KernelCache.KernelIds
import KernelCache.Invalidation
import KernelCache.Counters
import KernelCache.PoisonedLoads
import KernelCache.VictimChoice
import KernelCache.Scan
import KernelCache.Trimming
import KernelCache.Foundation.Words
import KernelCache.IdForms
import KernelCache.KeyEquality
import KernelCache.Foundation.Bits
import KernelCache.Foundation.Blocks
import KernelCache.Foundation.Sha2
import KernelCache.Sha256Standard
import KernelCache.Foundation.Simulation
import KernelCache.StoreMap
import KernelCache.BuildTable
import KernelCache.Foundation.Scripts
import KernelCache.Progress
import KernelCache.Durability
import KernelCache.Foundation.Ledger
import KernelCache.CudaDriver
import KernelCache.HitOrigins
import KernelCache.ReplyOrder
import KernelCache.HitNames
import KernelCache.Standstill
import KernelCache.Foundation.Sweeps
import KernelCache.Execution
import KernelCache.Service
import KernelCache.Listing
import KernelCache.Promises
import KernelCache.Succession
import KernelCache.ArtifactIds
