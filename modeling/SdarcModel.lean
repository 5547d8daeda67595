import SdarcModel.Library.System
import SdarcModel.ShardedRwLock.Basic
import SdarcModel.ShardedRwLock.Theorems.Exclusion
import SdarcModel.ShardedRwLock.Theorems.Progress
import SdarcModel.ShardedRwLock.Theorems.Completion
import SdarcModel.Objects.TaggedCounter
import SdarcModel.Objects.Sdarc
import SdarcModel.TaggedCounter.Basic
import SdarcModel.TaggedCounter.Theorems.Word
import SdarcModel.Snapshot.Basic
import SdarcModel.Snapshot.Theorems.Sound
import SdarcModel.CollectorStatus.Basic
import SdarcModel.CollectorStatus.Theorems.Step
import SdarcModel.CollectorStatus.Theorems.Wait
import SdarcModel.ReaderCriticalSection.Basic
import SdarcModel.ReaderCriticalSection.Theorems.GracePeriod
import SdarcModel.Execution.Memory
import SdarcModel.Execution.Thread
import SdarcModel.Library.Ascending
import SdarcModel.Execution.Collector
import SdarcModel.Execution.Basic
import SdarcModel.Execution.Theorems.Step
import SdarcModel.Execution.Theorems.References
import SdarcModel.Library.Sum
import SdarcModel.Library.Scan
import SdarcModel.Execution.Theorems.Accounting
import SdarcModel.Execution.Theorems.Effect
import SdarcModel.Execution.Theorems.CollectorStep
import SdarcModel.Execution.Theorems.Balance
import SdarcModel.Execution.Theorems.Bookkeeping.Places
import SdarcModel.Execution.Theorems.Bookkeeping.Visits
import SdarcModel.Execution.Theorems.Bookkeeping.Scans
import SdarcModel.Execution.Theorems.Bookkeeping.Basic
import SdarcModel.Execution.Theorems.Reclamation.Sections
import SdarcModel.Execution.Theorems.Reclamation.Dead
import SdarcModel.Execution.Theorems.Reclamation.Grace
import SdarcModel.Execution.Theorems.Reclamation.Judgement
import SdarcModel.Execution.Theorems.Reclamation.Basic
import SdarcModel.Execution.Theorems.Reclamation.Drop
import SdarcModel.Execution.Theorems.Reclamation.CompareAndSet
import SdarcModel.Execution.Theorems.Reclamation.BackRef
import SdarcModel.Execution.Theorems.Upgrade
import SdarcModel.Execution.Theorems.Collection.WorkList
import SdarcModel.Execution.Theorems.Collection.Schedule
import SdarcModel.Execution.Theorems.Collection.Visits
import SdarcModel.Execution.Theorems.Collection.Rounds
import SdarcModel.Execution.Theorems.Collection.Basic
import SdarcModel.Library.Level
import SdarcModel.Execution.Ownership
import SdarcModel.Execution.Theorems.Collection.Enclosed
import SdarcModel.Regions.Basic
import SdarcModel.Regions.Theorems.Destructor
import SdarcModel.ShardedAlloc.Basic
import SdarcModel.ShardedAlloc.Layout
import SdarcModel.ShardIndex.Basic
import SdarcModel.ShardIndex.Theorems.Valid
import SdarcModel.ShardedAlloc.Theorems.Step
import SdarcModel.ShardedAlloc.Theorems.Units
import SdarcModel.ShardedAlloc.Theorems.Slots
import SdarcModel.ShardedAlloc.Theorems.Safety
import SdarcModel.ShardedAlloc.Theorems.Report
import SdarcModel.ShardedAlloc.Allocate
import SdarcModel.ShardedAlloc.Theorems.Unwind
import SdarcModel.ShardedAlloc.Theorems.Candidates
import SdarcModel.ShardedAlloc.Theorems.Termination
import SdarcModel.ShardedAlloc.Theorems.Maintenance
import SdarcModel.TaggedCounter.Theorems.Refines
import SdarcModel.Execution.Theorems.Liveness.Enabled
import SdarcModel.Execution.Theorems.Liveness.Calls
import SdarcModel.Library.Execution
import SdarcModel.Execution.Theorems.Liveness.Alone
import SdarcModel.Execution.Theorems.Liveness.Returns
import SdarcModel.Execution.Theorems.Liveness.Freed
import SdarcModel.Library.Simulation
import SdarcModel.Library.RefCount
import SdarcModel.Library.ReadWrite
import SdarcModel.ShardedRwLock.Data
import SdarcModel.ShardedRwLock.Theorems.Data
import SdarcModel.ShardedAlloc.Theorems.Environment
import SdarcModel.ShardedAlloc.Theorems.Sequential
import SdarcModel.ShardedAlloc.Theorems.Refinement
import SdarcModel.Execution.AtomicSdarc
import SdarcModel.Execution.Theorems.AtomicSdarc
import SdarcModel.ShardedAlloc.Theorems.Counting
import SdarcModel.Allocation.Basic
import SdarcModel.Allocation.Theorems.Slots
import SdarcModel.Execution.Theorems.Slots
import SdarcModel.Library.Sync
import SdarcModel.Library.Pool
import SdarcModel.ShardedAlloc.Theorems.Pool
import SdarcModel.Execution.Theorems.Refinement
import SdarcModel.CollectorThread.Basic
import SdarcModel.CollectorThread.Theorems.Step
import SdarcModel.CollectorThread.Theorems.Coupled
import SdarcModel.CollectorThread.Theorems.UpdateNow
