import SdarcModel.Library.Sync
import SdarcModel.Execution.Theorems.Slots
import SdarcModel.ShardedAlloc.Theorems.Pool

namespace Sdarc

variable (n : Nat) (T C : Type) [DecidableEq T] [Fintype T] [DecidableEq C]

-- The execution with the allocator of its counters: the slot that `Sdarc::new` begins with is the one with which
-- an allocation of the same thread ends, and the collector deallocates the one that a `SdarcInner` gives back.
-- `address` tells where the slots of the units lie.
def systemAlloc (address : ShardedAlloc.ShardedDataPtr ↪ Slot) :
    System (State n T C × ShardedAlloc.State n (Thread T))
      (System.SyncLabel (Label n T C) (Thread T × ShardedAlloc.Act n)) :=
  (system n T C).sync (ShardedAlloc.system n (Thread T)) State.slotOp (ShardedAlloc.State.poolOp address)

end Sdarc
