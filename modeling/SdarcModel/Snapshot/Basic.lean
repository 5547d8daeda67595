import SdarcModel.Library.System
import SdarcModel.Library.Scan
import SdarcModel.Objects.TaggedCounter
import Mathlib.Logic.Function.Basic

open scoped BigOperators

-- One clear pass of the collector over the counters of an object, one re-check pass after it, and
-- whatever else is done to the counters meanwhile.
namespace Snapshot

-- The next access of the collector, with the locals it still needs.
inductive Pc
  | clear    (i : Nat) (sum : Int)              -- `clear_tags_and_read_ref_count_sum_relaxed`
  | reCheck  (first : Int) (i : Nat) (sum : Int)  -- `read_ref_count_sum_if_all_tags_unset_acquire`
  | returned (first : Int) (result : Option Int)
  deriving DecidableEq

structure State (n : Nat) where
  counters : Fin n → TaggedCounter
  pc       : Pc

-- A decrement takes effect with the exchange that succeeds. The ones that fail change nothing.
inductive Label (n : Nat)
  | incrementRefCount (i : Fin n)
  | decrementRefCountAndSetTag (i : Fin n)
  | collector
  deriving DecidableEq

namespace State

variable {n : Nat}

abbrev modify (s : State n) (i : Fin n) (f : TaggedCounter → TaggedCounter) : State n :=
  { s with counters := Function.update s.counters i <| f (s.counters i) }

abbrev goto (s : State n) (pc : Pc) : State n :=
  { s with pc := pc }

-- The true sum of the ref counts.
def total (s : State n) : Int :=
  ∑ i, (s.counters i).refCount

def collectorStep (s : State n) : Option (State n) :=
  match s.pc with
  | .clear i sum =>
    if h : i < n
    then some (s.modify ⟨i, h⟩ .clearTag |>.goto (.clear (i + 1) (sum + (s.counters ⟨i, h⟩).refCount)))
    else some (s.goto (.reCheck sum 0 0))
  | .reCheck first i sum =>
    if h : i < n then
      if (s.counters ⟨i, h⟩).tag then some (s.goto (.returned first none))
      else some (s.goto (.reCheck first (i + 1) (sum + (s.counters ⟨i, h⟩).refCount)))
    else some (s.goto (.returned first (some sum)))
  | .returned .. => none

def next (s : State n) : Label n → Option (State n)
  | .incrementRefCount i          => some (s.modify i .incrementRefCount)
  | .decrementRefCountAndSetTag i => some (s.modify i .decrementRefCountAndSetTag)
  | .collector                    => s.collectorStep

-- The counters have any content when the clear pass begins.
def Initial (s : State n) : Prop :=
  s.pc = .clear 0 0

-- The clear pass, which read `first`, has cleared its last tag, and the re-check pass has loaded no
-- counter yet.
def Between (s : State n) (first : Int) : Prop :=
  s.pc = .clear n first ∨ s.pc = .reCheck first 0 0

end State

def system (n : Nat) : System (State n) (Label n) :=
  .ofNext State.Initial State.next

end Snapshot
