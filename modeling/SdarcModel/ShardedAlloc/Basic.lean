import SdarcModel.Library.System
import Mathlib.Algebra.Ring.Nat
import Mathlib.Data.List.Basic

namespace ShardedAlloc

def slotCountPerUnit : Nat := 16

-- An `AllocUnit` is named by the allocation it came from. Names are never reused.
abbrev AllocUnit := Nat

-- The slot of a unit that `base_ptr` points to.
structure ShardedDataPtr where
  unit : AllocUnit
  slot : Fin slotCountPerUnit
  deriving DecidableEq

structure AllocUnitGroup where
  allUnits                           : List AllocUnit := []
  indexesOfUnitsToCheckForAllocation : List Nat       := []
  deriving DecidableEq

namespace AllocUnitGroup

-- `swap_remove(0)`: the last index takes the place of the first.
def removeFirstIndex (g : AllocUnitGroup) : AllocUnitGroup :=
  match g.indexesOfUnitsToCheckForAllocation with
  | []      => g
  | _ :: ks =>
    { g with
      indexesOfUnitsToCheckForAllocation :=
        match ks.getLast? with
        | none   => []
        | some k => k :: ks.dropLast }

@[grind =]
theorem removeFirstIndex_allUnits (g : AllocUnitGroup) : g.removeFirstIndex.allUnits = g.allUnits := by
  simp only [removeFirstIndex]
  split <;> rfl

theorem removeFirstIndex_perm {g : AllocUnitGroup} (hg : g.indexesOfUnitsToCheckForAllocation = k :: ks) :
    g.indexesOfUnitsToCheckForAllocation.Perm (k :: g.removeFirstIndex.indexesOfUnitsToCheckForAllocation) := by
  simp only [removeFirstIndex, hg]
  split
  case h_1 hl => simp [List.getLast?_eq_none_iff.mp hl]
  case h_2 a hl =>
    have hp := List.perm_append_singleton a ks.dropLast
    rw [List.dropLast_append_getLast? a hl] at hp
    exact hp.cons k

theorem length_removeFirstIndex (g : AllocUnitGroup) :
    g.removeFirstIndex.indexesOfUnitsToCheckForAllocation.length =
      g.indexesOfUnitsToCheckForAllocation.length - 1 := by
  cases hg : g.indexesOfUnitsToCheckForAllocation
  case nil       => simp [removeFirstIndex, hg]
  case cons k ks => simpa [hg] using (removeFirstIndex_perm hg).length_eq.symm

def pushUnit (g : AllocUnitGroup) (u : AllocUnit) : AllocUnitGroup where
  allUnits                           := g.allUnits ++ [u]
  indexesOfUnitsToCheckForAllocation := g.indexesOfUnitsToCheckForAllocation ++ [g.allUnits.length]

def pushIndex (g : AllocUnitGroup) (k : Nat) : AllocUnitGroup :=
  { g with indexesOfUnitsToCheckForAllocation := g.indexesOfUnitsToCheckForAllocation ++ [k] }

end AllocUnitGroup

-- The number of unused slots and of all slots of a group.
abbrev SlotCounts := Nat × Nat

structure StatusReport where
  perShard     : List SlotCounts
  fillingGroup : SlotCounts
  totalUsed    : Nat
  deriving DecidableEq

def statusReport (perShard : List SlotCounts) (fillingGroup : SlotCounts) : StatusReport :=
  let totalUnused := (perShard.map Prod.fst).sum + fillingGroup.1
  let totalSlots  := (perShard.map Prod.snd).sum + fillingGroup.2
  { perShard, fillingGroup, totalUsed := totalSlots - totalUnused }

-- The assertions, the `expect` and the index operation of the allocator.
inductive AllocPanic
  | usageFlagInvalid     -- `assert_usage_flag_value_valid`
  | indexOutOfBounds     -- `self.all_units[unit_index]`
  | newUnitFull          -- the `expect` on a new unit
  | slotNotUsed          -- the assertion of `deallocate_without_dropping`
  | unitInUse            -- the assertion in the drop of an `AllocUnit`
  deriving DecidableEq

-- The next access of a thread, with the locals it still needs. `fresh` tells whether the unit is the
-- local `new_unit`, which is not yet in its group.
inductive Pc (n : Nat)
  | idle
  | allocate    (i : Fin n)
  | scan        (i : Fin n) (u : AllocUnit) (fresh : Bool) (j : Nat)
  | init        (i : Fin n) (u : AllocUnit) (fresh : Bool) (slot : Fin slotCountPerUnit) (k : Nat)
  | unwind      (i : Fin n) (u : AllocUnit) (fresh : Bool) (slot : Fin slotCountPerUnit)
  | dropNewUnit (i : Fin n) (u : AllocUnit) (j : Nat)
  | swapIn      (i : Nat)
  -- `do_maintenance` of the temporary group, which holds shard `i`'s units, or its own if `i = n`.
  | retain      (i : Nat) (kept rest : List AllocUnit) (j : Nat)
  | dropUnit    (i : Nat) (kept : List AllocUnit) (u : AllocUnit) (rest : List AllocUnit) (j : Nat)
  | list        (i k j : Nat)
  | swapOut     (i : Fin n)
  | lockGroups  (i : Nat)
  | count       (i k j unused : Nat) (perShard : List SlotCounts)
  | report      (r : StatusReport)
  | panicked    (e : AllocPanic)
  deriving DecidableEq

structure State (n : Nat) (T : Type) where
  next             : AllocUnit
  usageFlag        : ShardedDataPtr → Nat    -- `base_ptr` is the address of the flag
  deallocated      : AllocUnit → Bool
  groups           : Fin n → AllocUnitGroup
  tempFillingGroup : AllocUnitGroup
  locked           : Fin n → Option T
  tempLocked       : Option T
  live             : List ShardedDataPtr    -- allocated and not yet deallocated
  pc               : T → Pc n

-- What a thread does next. `initPanics` is a panic of `init_func` for the current shard.
inductive Act (n : Nat)
  | allocateAndInit (i : Fin n)
  | deallocate      (p : ShardedDataPtr)
  | doMaintenance
  | getStatusReport
  | run
  | initPanics
  deriving DecidableEq

namespace State

variable {n : Nat} {T : Type} [DecidableEq T]

abbrev goto (s : State n T) (t : T) (pc : Pc n) : State n T :=
  { s with pc := Function.update s.pc t pc }

abbrev setFlag (s : State n T) (p : ShardedDataPtr) (v : Nat) : State n T :=
  { s with usageFlag := Function.update s.usageFlag p v }

abbrev setGroup (s : State n T) (i : Fin n) (g : AllocUnitGroup) : State n T :=
  { s with groups := Function.update s.groups i g }

abbrev setTemp (s : State n T) (g : AllocUnitGroup) : State n T :=
  { s with tempFillingGroup := g }

abbrev lock (s : State n T) (i : Fin n) (t : Option T) : State n T :=
  { s with locked := Function.update s.locked i t }

abbrev lockTemp (s : State n T) (t : Option T) : State n T :=
  { s with tempLocked := t }

-- `mem::swap` of a shard's group and the temporary group.
abbrev swap (s : State n T) (i : Fin n) : State n T :=
  { s with groups := Function.update s.groups i s.tempFillingGroup, tempFillingGroup := s.groups i }

-- `AllocUnit::new`
abbrev newUnit (s : State n T) : State n T :=
  { s with
    next        := s.next + 1
    usageFlag   := fun p => if p.unit = s.next then 0 else s.usageFlag p
    deallocated := Function.update s.deallocated s.next false }

abbrev dealloc (s : State n T) (u : AllocUnit) : State n T :=
  { s with deallocated := Function.update s.deallocated u true }

abbrev give (s : State n T) (p : ShardedDataPtr) : State n T :=
  { s with live := p :: s.live }

abbrev take (s : State n T) (p : ShardedDataPtr) : State n T :=
  { s with live := s.live.erase p }

-- The groups in the order of `get_status_report`.
def groupAt (s : State n T) (i : Nat) : AllocUnitGroup :=
  if h : i < n then s.groups ⟨i, h⟩ else s.tempFillingGroup

-- What follows `assert_usage_flag_value_valid` of a value read from a usage flag.
def onUsageFlag (s : State n T) (t : T) (value : Nat) (unused used : State n T) : State n T :=
  if value = 0 then unused
  else if value = 1 then used
  else s.goto t (.panicked .usageFlagInvalid)

-- The lock-free swap of a usage flag in `deallocate_without_dropping`.
def clearFlag (s : State n T) (t : T) (p : ShardedDataPtr) (done : State n T → State n T) : State n T :=
  if s.usageFlag p = 1
  then done (s.setFlag p 0)
  else s.setFlag p 0 |>.goto t (.panicked .slotNotUsed)

-- The next access of a call in progress. It is `none` while the thread waits for a lock.
def run (s : State n T) (t : T) : Option (State n T) :=
  match s.pc t with
  | .idle | .panicked _ => none
  | .allocate i =>
    match (s.groups i).indexesOfUnitsToCheckForAllocation with
    | []     => some (s.newUnit |>.goto t (.scan i s.next true 0))
    | k :: _ =>
      match (s.groups i).allUnits[k]? with
      | none   => some (s.goto t (.panicked .indexOutOfBounds))
      | some u => some (s.goto t (.scan i u false 0))
  | .scan i u fresh j =>
    if h : j < slotCountPerUnit then
      let s' := s.setFlag ⟨u, j, h⟩ 1
      some (s'.onUsageFlag t (s.usageFlag ⟨u, j, h⟩) (s'.goto t (.init i u fresh ⟨j, h⟩ 0))
        (s'.goto t (.scan i u fresh (j + 1))))
    else if fresh then some (s.goto t (.panicked .newUnitFull))
    else some (s.setGroup i (s.groups i).removeFirstIndex |>.goto t (.allocate i))
  | .init i u fresh slot k =>
    if k < n then some (s.goto t (.init i u fresh slot (k + 1)))
    else
      let s' := if fresh then s.setGroup i ((s.groups i).pushUnit u) else s
      some (s'.give ⟨u, slot⟩ |>.lock i none |>.goto t .idle)
  | .unwind i u fresh slot =>
    some (s.clearFlag t ⟨u, slot⟩ fun s =>
      if fresh then s.goto t (.dropNewUnit i u 0) else s.lock i none |>.goto t .idle)
  | .dropNewUnit i u j =>
    if h : j < slotCountPerUnit
    then some (s.onUsageFlag t (s.usageFlag ⟨u, j, h⟩) (s.goto t (.dropNewUnit i u (j + 1)))
      (s.goto t (.panicked .unitInUse)))
    else some (s.dealloc u |>.lock i none |>.goto t .idle)
  | .swapIn i =>
    if h : i < n then
      if s.locked ⟨i, h⟩ = none
      then some (s.swap ⟨i, h⟩ |>.goto t (.retain i [] (s.groups ⟨i, h⟩).allUnits 0)) else none
    else some (s.goto t (.retain i [] s.tempFillingGroup.allUnits 0))
  -- `retain_mut` drops a unit as soon as it has found it unused. The vector is not looked at before it
  -- is done.
  | .retain i kept [] _ => some (s.setTemp { allUnits := kept } |>.goto t (.list i 0 0))
  | .retain i kept (u :: rest) j =>
    if h : j < slotCountPerUnit
    then some (s.onUsageFlag t (s.usageFlag ⟨u, j, h⟩) (s.goto t (.retain i kept (u :: rest) (j + 1)))
      (s.goto t (.retain i (kept ++ [u]) rest 0)))
    else some (s.goto t (.dropUnit i kept u rest 0))
  | .dropUnit i kept u rest j =>
    if h : j < slotCountPerUnit
    then some (s.onUsageFlag t (s.usageFlag ⟨u, j, h⟩) (s.goto t (.dropUnit i kept u rest (j + 1)))
      (s.goto t (.panicked .unitInUse)))
    else some (s.dealloc u |>.goto t (.retain i kept rest 0))
  | .list i k j =>
    match s.tempFillingGroup.allUnits[k]? with
    | none =>
      if h : i < n then some (s.goto t (.swapOut ⟨i, h⟩)) else some (s.lockTemp none |>.goto t .idle)
    | some u =>
      if h : j < slotCountPerUnit
      then some (s.onUsageFlag t (s.usageFlag ⟨u, j, h⟩)
        (s.setTemp (s.tempFillingGroup.pushIndex k) |>.goto t (.list i (k + 1) 0))
        (s.goto t (.list i k (j + 1))))
      else some (s.goto t (.list i (k + 1) 0))
  | .swapOut i =>
    if s.locked i = none then some (s.swap i |>.goto t (.swapIn (i + 1))) else none
  | .lockGroups i =>
    if h : i < n then
      if s.locked ⟨i, h⟩ = none then some (s.lock ⟨i, h⟩ (some t) |>.goto t (.lockGroups (i + 1))) else none
    else some (s.goto t (.count 0 0 0 0 []))
  | .count i k j unused perShard =>
    match (s.groupAt i).allUnits[k]? with
    | none =>
      let counts := (unused, (s.groupAt i).allUnits.length * slotCountPerUnit)
      if i < n then some (s.goto t (.count (i + 1) 0 0 0 (perShard ++ [counts])))
      else some (s.goto t (.report (statusReport perShard counts)))
    | some u =>
      if h : j < slotCountPerUnit
      then some (s.goto t (.count i k (j + 1) (if s.usageFlag ⟨u, j, h⟩ = 0 then unused + 1 else unused)
        perShard))
      else some (s.goto t (.count i (k + 1) 0 unused perShard))
  | .report _ => some ({ s with locked := fun _ => none }.lockTemp none |>.goto t .idle)

def nextOf (s : State n T) (t : T) : Act n → Option (State n T)
  | .allocateAndInit i =>
    if s.pc t = .idle ∧ s.locked i = none then some (s.lock i (some t) |>.goto t (.allocate i)) else none
  | .deallocate p =>
    if s.pc t = .idle ∧ p ∈ s.live then some (s.take p |>.clearFlag t p id) else none
  | .doMaintenance =>
    if s.pc t = .idle ∧ s.tempLocked = none
    then some (s.lockTemp (some t) |>.goto t (.swapIn 0)) else none
  | .getStatusReport =>
    if s.pc t = .idle ∧ s.tempLocked = none
    then some (s.lockTemp (some t) |>.goto t (.lockGroups 0)) else none
  | .run => s.run t
  | .initPanics =>
    match s.pc t with
    | .init i u fresh slot k => if k < n then some (s.goto t (.unwind i u fresh slot)) else none
    | _                      => none

structure Initial (s : State n T) : Prop where
  next       : s.next = 0
  usageFlag  : ∀ p, s.usageFlag p = 0
  groups     : ∀ i, s.groups i = {}
  temp       : s.tempFillingGroup = {}
  locked     : ∀ i, s.locked i = none
  tempLocked : s.tempLocked = none
  live       : s.live = []
  pc         : ∀ t, s.pc t = .idle

end State

-- Any number of threads allocate, deallocate, run the maintenance and ask for the status report.
def system (n : Nat) (T : Type) [DecidableEq T] : System (State n T) (T × Act n) :=
  .ofNext State.Initial fun s l => s.nextOf l.1 l.2

end ShardedAlloc
