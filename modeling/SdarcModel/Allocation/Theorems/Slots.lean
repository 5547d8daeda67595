import SdarcModel.Allocation.Basic
import SdarcModel.ShardedAlloc.Theorems.Report

namespace Sdarc

open ShardedAlloc (ShardedDataPtr)
open ShardedAlloc.State (inUse_simulates)

variable {n : Nat} {T C : Type} [DecidableEq T] [Fintype T] [DecidableEq C] {address : ShardedDataPtr ↪ Slot}
  {s : State n T C × ShardedAlloc.State n (Thread T)}

-- The usage flags of the execution are what the allocator has given out.
theorem slots_eq_inUse (h : (systemAlloc n T C address).Reachable s) : s.1.mem.slots = s.2.inUse address :=
  System.eq_of_sync State.slots_simulates (inUse_simulates address) (fun _ _ h h' => h.trans h'.symm)
    (fun _ _ _ _ h h' => h.eq h') h

theorem used_iff_live (h : (systemAlloc n T C address).Reachable s) :
    s.1.mem.used c = true ↔ ∃ p ∈ s.2.live, address p = c :=
  Set.ext_iff.mp (slots_eq_inUse h) c

theorem exists_live (h : (systemAlloc n T C address).Reachable s) (hq : q < s.1.mem.next) (unfreed : s.1.mem.freed q = 0) :
    ∃ p ∈ s.2.live, address p = s.1.mem.counters q :=
  (used_iff_live h).mp <| (State.wellFormed (System.reachable_of_sync h).left).mem.slotted.used q hq unfreed

-- A slot after the other, and a unit after the other.
def inOrder : ShardedDataPtr ↪ Slot where
  toFun p := p.unit * ShardedAlloc.slotCountPerUnit + p.slot
  inj' := by
    rintro ⟨u, i, hi⟩ ⟨v, j, hj⟩ h
    have inj (u v : Nat) (h : u * 16 + i = v * 16 + j) (hi : i < 16) (hj : j < 16) : u = v ∧ i = j := by omega
    obtain ⟨rfl, rfl⟩ := inj u v h hi hj
    rfl

-- One thread makes an object, with the first slot of the first unit.
def initing : ShardedAlloc.State 1 (Thread Bool) :=
  (System.exec (fun s l => s.nextOf l.1 l.2) ShardedAlloc.State.empty
    ((some true, .allocateAndInit (Fin.last 0)) :: .replicate 3 (some true, .run))).getD .empty

def inited : ShardedAlloc.State 1 (Thread Bool) :=
  (initing.nextOf (some true) .run).getD initing

def making : State 1 Bool Unit :=
  (State.empty.next (.thread (some true) (.new 0))).getD .empty

theorem making_reachable : (systemAlloc 1 Bool Unit inOrder).Reachable (making, inited) := by
  have he : System.exec (fun s l => s.nextOf l.1 l.2) ShardedAlloc.State.empty
    ((some true, .allocateAndInit (Fin.last 0)) :: .replicate 3 (some true, .run)) = some initing := rfl
  have h : (systemAlloc 1 Bool Unit inOrder).Reachable (State.empty, ShardedAlloc.State.empty) :=
    .init ⟨State.empty_initial, ShardedAlloc.State.empty_initial⟩
  have hi := System.sync_right h (System.run_of_exec he) (by decide)
  have exec : State.empty.next (.thread (some true) (.new 0)) = some making := rfl
  have alloc : initing.nextOf (some true) .run = some inited := rfl
  have name : initing.poolOp inOrder (some true, .run) = some (.take (some true) 0) := rfl
  have stp : (systemAlloc 1 Bool Unit inOrder).Step (State.empty, initing)
      (.both (.thread (some true) (.new 0)) (some true, .run)) (making, inited) :=
    .both (s := (State.empty, initing)) exec alloc rfl name
  exact hi.step stp

end Sdarc
