import SdarcModel.ShardedAlloc.Basic
import Mathlib.Data.List.FinRange

namespace ShardedAlloc

-- What one call of `AllocUnitGroup::allocate` reads and writes besides its group.
structure Heap (n : Nat) (V : Type) where
  next        : AllocUnit
  usageFlag   : ShardedDataPtr → Nat
  deallocated : AllocUnit → Bool
  cell        : ShardedDataPtr → Fin n → Option V    -- what is at `ptr_at_shard`
  dropped     : List V                               -- by `drop_in_place`, in this order
  clock       : Nat                                  -- the accesses to usage flags so far

-- Why a call unwinds.
inductive Unwind
  | initFunc
  | assertion (e : AllocPanic)
  deriving DecidableEq

abbrev Outcome (n : Nat) (V α : Type) := Except Unwind α × Heap n V

def shardIndexes (n : Nat) : List (Fin n) := List.finRange n

def shardIndexesUntil (k : Fin n) : List (Fin n) := (List.finRange n).take k

namespace Heap

variable {n : Nat} {V : Type}

def setFlag (h : Heap n V) (p : ShardedDataPtr) (v : Nat) : Heap n V :=
  { h with usageFlag := Function.update h.usageFlag p v }

def write (h : Heap n V) (p : ShardedDataPtr) (i : Fin n) (v : V) : Heap n V :=
  { h with cell := Function.update h.cell p (Function.update (h.cell p) i (some v)) }

def dropInPlace (h : Heap n V) (p : ShardedDataPtr) (i : Fin n) : Heap n V :=
  { h with
    cell    := Function.update h.cell p (Function.update (h.cell p) i none)
    dropped := h.dropped ++ (h.cell p i).toList }

-- `AllocUnit::new`
def newUnit (h : Heap n V) : Heap n V :=
  { h with
    next        := h.next + 1
    usageFlag   := fun p => if p.unit = h.next then 0 else h.usageFlag p
    deallocated := Function.update h.deallocated h.next false }

def dealloc (h : Heap n V) (u : AllocUnit) : Heap n V :=
  { h with deallocated := Function.update h.deallocated u true }

-- The pointers in `env c` are deallocated by other threads just before the `c`th access.
def tick (env : Nat → List ShardedDataPtr) (h : Heap n V) : Heap n V :=
  { h with
    usageFlag := fun p => if p ∈ env h.clock then 0 else h.usageFlag p
    clock     := h.clock + 1 }

end Heap

section

variable {n : Nat} {V : Type} (env : Nat → List ShardedDataPtr) (initFunc : Fin n → Option V)

def allocateWithoutInitializing (u : AllocUnit) :
    List (Fin slotCountPerUnit) → Heap n V → Outcome n V (Option ShardedDataPtr)
  | [],      h => (.ok none, h)
  | j :: js, h =>
    let old := (h.tick env).usageFlag ⟨u, j⟩
    let h   := (h.tick env).setFlag ⟨u, j⟩ 1
    if old ≠ 0 ∧ old ≠ 1 then (.error (.assertion .usageFlagInvalid), h)
    else if old = 0 then (.ok (some ⟨u, j⟩), h)
    else allocateWithoutInitializing u js h

def deallocateWithoutDropping (p : ShardedDataPtr) (h : Heap n V) : Outcome n V Unit :=
  let old := (h.tick env).usageFlag p
  let h   := (h.tick env).setFlag p 0
  if old = 1 then (.ok (), h) else (.error (.assertion .slotNotUsed), h)

-- The loop that writes the data slots. `initFunc` panics where it is `none`.
def writeShards (p : ShardedDataPtr) : List (Fin n) → Heap n V → Outcome n V Unit
  | [],      h => (.ok (), h)
  | i :: is, h =>
    match initFunc i with
    | some v => writeShards p is (h.write p i v)
    | none   =>
      match deallocateWithoutDropping env p ((shardIndexesUntil i).foldl (·.dropInPlace p) h) with
      | (.ok (), h)   => (.error .initFunc, h)
      | (.error e, h) => (.error e, h)

def allocateAndInitialize (u : AllocUnit) (h : Heap n V) : Outcome n V (Option ShardedDataPtr) :=
  match allocateWithoutInitializing env u (List.finRange _) h with
  | (.ok (some p), h) =>
    match writeShards env initFunc p (shardIndexes n) h with
    | (.ok (), h)   => (.ok (some p), h)
    | (.error e, h) => (.error e, h)
  | r => r

def isAnySlotUsed (u : AllocUnit) : List (Fin slotCountPerUnit) → Heap n V → Outcome n V Bool
  | [],      h => (.ok false, h)
  | j :: js, h =>
    let value := (h.tick env).usageFlag ⟨u, j⟩
    if value ≠ 0 ∧ value ≠ 1 then (.error (.assertion .usageFlagInvalid), h.tick env)
    else if value = 1 then (.ok true, h.tick env)
    else isAnySlotUsed u js (h.tick env)

def dropUnit (u : AllocUnit) (h : Heap n V) : Outcome n V Unit :=
  match isAnySlotUsed env u (List.finRange _) h with
  | (.ok true, h)  => (.error (.assertion .unitInUse), h)
  | (.ok false, h) => (.ok (), h.dealloc u)
  | (.error e, h)  => (.error e, h)

-- A panic while the local `new_unit` exists drops it.
def unwindNewUnit (e : Unwind) (u : AllocUnit) (h : Heap n V) : Unwind × Heap n V :=
  match dropUnit env u h with
  | (.ok (), h)    => (e, h)
  | (.error e', h) => (e', h)

def allocate (g : AllocUnitGroup) (h : Heap n V) : Except Unwind ShardedDataPtr × AllocUnitGroup × Heap n V :=
  match _hg : g.indexesOfUnitsToCheckForAllocation with
  | [] =>
    match allocateAndInitialize env initFunc h.next h.newUnit with
    | (.ok (some p), h') => (.ok p, g.pushUnit h.next, h')
    | (.ok none, h')     =>
      have (e, h') := unwindNewUnit env (.assertion .newUnitFull) h.next h'
      (.error e, g, h')
    | (.error e, h')     =>
      have (e, h') := unwindNewUnit env e h.next h'
      (.error e, g, h')
  | k :: _ =>
    match g.allUnits[k]? with
    | none   => (.error (.assertion .indexOutOfBounds), g, h)
    | some u =>
      match allocateAndInitialize env initFunc u h with
      | (.ok (some p), h) => (.ok p, g, h)
      | (.ok none, h)     => allocate g.removeFirstIndex h
      | (.error e, h)     => (.error e, g, h)
termination_by g.indexesOfUnitsToCheckForAllocation.length
decreasing_by simp [AllocUnitGroup.length_removeFirstIndex, _hg]

end

end ShardedAlloc
