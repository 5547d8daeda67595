import SdarcModel.Execution.Memory
import SdarcModel.Library.Ascending
import Mathlib.Data.List.AList
import Mathlib.Data.Finset.Lattice.Basic

namespace Sdarc

inductive TrackedCounterState
  | defaultState
  | requiresReChecking
  | readyToFree
  deriving DecidableEq

structure TrackedCounter where
  ptr   : Ptr
  state : TrackedCounterState := .defaultState
  deriving DecidableEq

-- The assertions of the collector, the explicit panic and the unwrap.
inductive CollectorPanic
  | replaced            -- `replaced.is_none()` in `take_new_counters_to_track`
  | negativeSum         -- `sum > 0` in `update_state`
  | readyToFree         -- `update_state` called in state `ReadyToFree`
  | notTracked          -- the unwrap in `free_pointers`
  | notReadyToFree      -- the first assertion in `free_pointers`
  | countersMismatch    -- the second one
  deriving DecidableEq

-- The locals of one call of `update_all_tracked_counters_and_collect_and_get_ptrs_to_re_check`
-- (`all`) or `update_specific_counters_and_collect_and_get_ptrs_to_re_check`.
structure Pass where
  all          : Bool
  todo         : List Slot        -- what the iterator has not yet yielded
  newToReCheck : Finset Slot := ∅
  toFree       : List Slot   := []

def Pass.visit (a : Pass) (c : Slot) : TrackedCounterState → Pass
  | .defaultState       => a
  | .requiresReChecking => { a with newToReCheck := insert c a.newToReCheck }
  | .readyToFree        => { a with toFree := a.toFree ++ [c] }

inductive CollectorPc (n : Nat)
  | parked
  | take        (i : Nat)
  | insert      (i : Nat) (batch : List (Ptr × Slot))
  | spin        (toReCheck : Option (Finset Slot)) (i : Nat) (shardsToSpin : List (Fin n))
  | spinAgain   (toReCheck : Option (Finset Slot)) (shardsToSpin : List (Fin n))
  | next        (a : Pass)
  | readSum     (a : Pass) (c : Slot) (i : Nat) (sum : Int)
  | clearTags   (a : Pass) (c : Slot) (i : Nat) (sum : Int)
  | reCheck     (a : Pass) (c : Slot) (i : Nat) (sum : Int)
  | clearWeak   (a : Pass) (c : Slot)
  | swapBackRef (a : Pass) (c : Slot) (w : Ptr)
  | free        (a : Pass)
  | dropInner   (a : Pass) (p : Ptr)   -- `drop_sdarc_inner`, field by field
  | dropWeak    (a : Pass) (p : Ptr)
  | dropData    (a : Pass) (p : Ptr)
  | collect     (a : Pass)
  | panicked    (e : CollectorPanic)

-- The object is in `drop_sdarc_inner`, which has dropped the first field.
def CollectorPc.dropsInner (pc : CollectorPc n) (p : Ptr) : Bool :=
  match pc with
  | .dropWeak _ q | .dropData _ q => q == p
  | _ => false

abbrev TrackedCounters := AList fun _ : Slot => TrackedCounter

namespace TrackedCounters

def setState (tr : TrackedCounters) (c : Slot) (st : TrackedCounterState) : TrackedCounters :=
  match tr.lookup c with
  | none    => tr
  | some tc => tr.insert c { tc with state := st }

-- The keys of the `BTreeMap` in the order of its iterator.
def iter (tr : TrackedCounters) : List Slot :=
  tr.keys.toFinset.ascending

end TrackedCounters

structure Collector (n : Nat) where
  pc                : CollectorPc n   := .parked
  tracked           : TrackedCounters := ∅
  countersToRecheck : Finset Slot     := ∅   -- the thread-local set
  loopCounter       : Nat             := 0

structure State (n : Nat) (T C : Type) where
  mem : Memory n T C
  col : Collector n

namespace Memory

variable {n : Nat} {T C : Type}

-- `mem::replace` of one shard of `pending_to_track` under its lock.
abbrev takePending (m : Memory n T C) (i : Fin n) : Memory n T C :=
  { m with pending := Function.update m.pending i [] }

-- The swap in `clear_weak_backref_impl`.
abbrev clearBackRef (m : Memory n T C) (w : Ptr) : Memory n T C :=
  { m with inner := Function.update m.inner w { m.inner w with data := .weak none } }

-- The drop of a `SdarcInner` begins with its first field, which gives back the slot.
abbrev dropCounters (m : Memory n T C) (p : Ptr) : Memory n T C :=
  { m with
    freed := Function.update m.freed p (m.freed p + 1)
    used  := Function.update m.used (m.counters p) false }

end Memory

namespace State

variable {n : Nat} {T C : Type} [DecidableEq T] [DecidableEq C]

abbrev goto (s : State n T C) (pc : CollectorPc n) : State n T C :=
  { s with col := { s.col with pc := pc } }

abbrev modifyMem (s : State n T C) (f : Memory n T C → Memory n T C) : State n T C :=
  { s with mem := f s.mem }

abbrev setTracked (s : State n T C) (tr : TrackedCounters) : State n T C :=
  { s with col := { s.col with tracked := tr } }

-- The end of `update_state` of one counter and of the loop body around it.
abbrev visited (s : State n T C) (a : Pass) (c : Slot) (st : TrackedCounterState) : State n T C :=
  s.setTracked (s.col.tracked.setState c st) |>.goto (.next (a.visit c st))

def startPass (s : State n T C) : Option (Finset Slot) → State n T C
  | none   => s.goto (.next { all := true,  todo := s.col.tracked.iter })
  | some r => s.goto (.next { all := false, todo := r.ascending })

def maxLoopCounter : Nat := 100000

-- The end of a pass and the head of the loop in `do_collection_inner_iterations`.
def finishPass (s : State n T C) (a : Pass) : State n T C :=
  let r  := a.newToReCheck ∪ s.col.countersToRecheck
  let lc := if a.all then 0 else s.col.loopCounter + 1
  let s' := { s with col := { s.col with countersToRecheck := ∅, loopCounter := lc } }
  if lc = maxLoopCounter ∨ r = ∅ then s'.goto .parked else s'.goto (.spin (some r) 0 [])

-- One step of the collector thread in its own code. It is deterministic.
def collectorStep (s : State n T C) : Option (State n T C) :=
  match s.col.pc with
  | .parked => some (s.goto (.take 0))
  | .take i =>
    if h : i < n
    then some (s.modifyMem (·.takePending ⟨i, h⟩) |>.goto (.insert i (s.mem.pending ⟨i, h⟩)))
    else some (s.goto (.spin none 0 []))
  | .insert i [] => some (s.goto (.take (i + 1)))
  | .insert i ((p, c) :: batch) =>
    let s' := s.setTracked (s.col.tracked.insert c { ptr := p })
    if (s.col.tracked.lookup c).isSome then some (s'.goto (.panicked .replaced))
    else some (s'.goto (.insert i batch))
  | .spin k i shards =>
    if h : i < n
    then some (s.goto (.spin k (i + 1) (if s.mem.readers ⟨i, h⟩ = 0 then shards else shards ++ [⟨i, h⟩])))
    else some (s.goto (.spinAgain k shards))
  | .spinAgain k [] => some (s.startPass k)
  | .spinAgain k (i :: shards) =>
    if s.mem.readers i = 0 then some (s.goto (.spinAgain k shards)) else some s
  | .next a =>
    match a.todo with
    | []        => some (s.goto (.free a))
    | c :: todo =>
      let a' := { a with todo := todo }
      match s.col.tracked.lookup c with
      | none    => some (s.goto (.next a'))
      | some tc =>
        match tc.state with
        | .defaultState       => some (s.goto (.readSum a' c 0 0))
        | .requiresReChecking => some (s.goto (.reCheck a' c 0 0))
        | .readyToFree        => some (s.goto (.panicked .readyToFree))
  | .readSum a c i sum =>
    if h : i < n
    then some (s.goto (.readSum a c (i + 1) (sum + (s.mem.counter c ⟨i, h⟩).refCount)))
    else if sum = 0 then some (s.goto (.clearTags a c 0 0))
    else some (s.visited a c .defaultState)
  | .clearTags a c i sum =>
    if h : i < n
    then some (s.modifyMem (·.modifyCounter c ⟨i, h⟩ .clearTag)
      |>.goto (.clearTags a c (i + 1) (sum + (s.mem.counter c ⟨i, h⟩).refCount)))
    else if sum = 0 then some (s.visited a c .requiresReChecking)
    else some (s.visited a c .defaultState)
  | .reCheck a c i sum =>
    if h : i < n then
      if (s.mem.counter c ⟨i, h⟩).tag then some (s.visited a c .defaultState)
      else some (s.goto (.reCheck a c (i + 1) (sum + (s.mem.counter c ⟨i, h⟩).refCount)))
    else if sum = 0 then some (s.goto (.clearWeak a c))
    else if 0 < sum then some (s.visited a c .defaultState)
    else some (s.goto (.panicked .negativeSum))
  | .clearWeak a c =>
    match s.col.tracked.lookup c with
    | none    => none
    | some tc =>
      match (s.mem.inner tc.ptr).weakInnerRef with
      | .init w => some (s.goto (.swapBackRef a c w))
      | _       => some (s.visited a c .readyToFree)
  | .swapBackRef a c w =>
    match s.mem.backRef w with
    | none   => some (s.visited a c .readyToFree)
    | some _ => some (s.modifyMem (·.clearBackRef w) |>.visited a c .requiresReChecking)
  | .free a =>
    match a.toFree with
    | []          => some (s.goto (.collect a))
    | c :: toFree =>
      match s.col.tracked.lookup c with
      | none    => some (s.goto (.panicked .notTracked))
      | some tc =>
        let s' := s.setTracked (s.col.tracked.erase c)
        if tc.state ≠ .readyToFree then some (s'.goto (.panicked .notReadyToFree))
        else if s.mem.counters tc.ptr ≠ c then some (s'.goto (.panicked .countersMismatch))
        else some (s'.goto (.dropInner { a with toFree := toFree } tc.ptr))
  | .dropInner a p => some (s.modifyMem (·.dropCounters p) |>.goto (.dropWeak a p))
  | .dropWeak a p =>
    match (s.mem.inner p).weakInnerRef with
    | .init w =>
      some (s.modifyMem (·.setWeakInnerRef p .uninit |>.setPc none (.dropRead w))
        |>.goto (.dropData a p))
    | _       => some (s.goto (.dropData a p))
  | .dropData a _ => some (s.goto (.free a))
  | .collect a => some (s.finishPass a)
  | .panicked _ => none

-- The `SdarcInner` has been dropped with all its fields, the payload last.
def Destroyed (s : State n T C) (p : Ptr) : Prop :=
  0 < s.mem.freed p ∧ s.col.pc.dropsInner p = false

instance (s : State n T C) (p : Ptr) : Decidable (s.Destroyed p) :=
  inferInstanceAs (Decidable (_ ∧ _))

end State
end Sdarc
