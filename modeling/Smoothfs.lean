import Smoothfs.WriteBarrier
import Smoothfs.Quiesce
import Smoothfs.Leases
import Smoothfs.Mappings
import Smoothfs.WorkerFrame
import Smoothfs.WorkerAttrs
import Smoothfs.DurableChain
import Smoothfs.DirectoryFsync
import Smoothfs.CachedReads
import Smoothfs.StagedFsync
import Smoothfs.Removal
import Smoothfs.HardLinks
import Smoothfs.Acknowledgements
import Smoothfs.OpenLower
import Smoothfs.MovementFields
import Smoothfs.LockOrder
import Smoothfs.DentryBacking
import Smoothfs.TaskContext
import Smoothfs.PlacementLog
import Smoothfs.CacheBackings
import Smoothfs.TierPaths
import Smoothfs.TierRanks
import Smoothfs.IdentityWriters
import Smoothfs.FailedTruncate
import Smoothfs.NamespaceParent
import Smoothfs.FileHandles
import Smoothfs.ColdRecovery
import Smoothfs.MovementSeq
import Smoothfs.HeatDrain
import Smoothfs.OfflineRecovery
import Smoothfs.RangeReplay
import Smoothfs.ObjectIds
import Smoothfs.MergedListing
import Smoothfs.NewNames
import Smoothfs.FailedRename
import Smoothfs.ForgetPoke
import Smoothfs.RangeRecord
import Smoothfs.MountUnits
