import SdarcModel.Library.System
import SdarcModel.Library.Sum
import Mathlib.Data.Fintype.Basic

open scoped BigOperators

namespace ReaderCriticalSection

-- What is on the stack of a thread. A section keeps the counter it has incremented, which is the one
-- its guard decrements.
inductive Frame (n : Nat)
  | section (id : Nat) (counter : Fin n)   -- a call of `reader_critical_section`
  | catchUnwind
  | destructor                             -- of a value dropped by a panic on its way
  deriving DecidableEq

def Frame.isOn (i : Fin n) : Frame n → Bool
  | .section _ j => j = i
  | _            => false

structure Thread (n : Nat) where
  shard     : Fin n                        -- `CURR_THREAD_SHARD_INDEX`
  frames    : List (Frame n) := []         -- the innermost first
  unwinding : Bool           := false
  deriving DecidableEq

-- Where the collector is in `spin_until_observing_non_critical_section_once_in_each_shard`.
inductive Pc (n : Nat)
  | idle
  | first (i : Nat) (shardsToSpin : List (Fin n))
  | spin  (shardsToSpin : List (Fin n))
  deriving DecidableEq

-- An open section keeps its guard on the stack, so no counter of 64 bits ever has too many to count.
structure State (n : Nat) (T : Type) where
  counters : Fin n → Int
  threads  : T → Thread n
  pc       : Pc n
  entered  : Nat                           -- how many sections have been entered

inductive Act (n : Nat)
  | readerCriticalSection
  | setCurrentThreadShardIndex (i : Fin n)
  | catchUnwind
  | finish       -- the innermost call returns
  | panic
  | unwind       -- a panic takes the innermost frame off the stack
  | drop         -- a panic runs the destructor of a value in the innermost frame
  deriving DecidableEq

inductive Label (n : Nat) (T : Type)
  | thread (t : T) (a : Act n)
  | collector
  deriving DecidableEq

namespace State

variable {n : Nat} {T : Type} [DecidableEq T]

abbrev setThread (s : State n T) (t : T) (th : Thread n) : State n T :=
  { s with threads := Function.update s.threads t th }

abbrev fetchAdd (s : State n T) (i : Fin n) (k : Int) : State n T :=
  { s with counters := Function.update s.counters i (s.counters i + k) }

abbrev goto (s : State n T) (pc : Pc n) : State n T :=
  { s with pc := pc }

-- The innermost frame goes. The guard of a section decrements the section's counter.
def pop (s : State n T) (t : T) : Option (State n T) :=
  let th := s.threads t
  match th.frames with
  | []                    => none
  | .section _ i :: rest  => some (s.fetchAdd i (-1) |>.setThread t { th with frames := rest })
  | .catchUnwind :: rest  => some (s.setThread t { th with frames := rest, unwinding := false })
  | .destructor :: rest   =>
    -- The destructor is done and the panic goes on. One that panics itself aborts the process.
    if th.unwinding then none else some (s.setThread t { th with frames := rest, unwinding := true })

def threadStep (s : State n T) (t : T) (a : Act n) : Option (State n T) :=
  let th := s.threads t
  match a, th.unwinding with
  | .readerCriticalSection, false =>
    some { s.fetchAdd th.shard 1 |>.setThread t { th with frames := .section s.entered th.shard :: th.frames } with
      entered := s.entered + 1 }
  | .setCurrentThreadShardIndex i, false => some (s.setThread t { th with shard := i })
  | .catchUnwind, false => some (s.setThread t { th with frames := .catchUnwind :: th.frames })
  | .finish, false      => s.pop t
  | .panic, false       => some (s.setThread t { th with unwinding := true })
  | .unwind, true       => s.pop t
  | .drop, true         =>
    some (s.setThread t { th with frames := .destructor :: th.frames, unwinding := false })
  | _, _                => none

-- The next load of the collector in the spin, or its call.
def collectorStep (s : State n T) : State n T :=
  match s.pc with
  | .idle => s.goto (.first 0 [])
  | .first i shards =>
    if h : i < n
    then s.goto (.first (i + 1) (if s.counters ⟨i, h⟩ ≠ 0 then shards ++ [⟨i, h⟩] else shards))
    else s.goto (.spin shards)
  | .spin []            => s.goto .idle
  | .spin (i :: shards) => if s.counters i = 0 then s.goto (.spin shards) else s

def next (s : State n T) : Label n T → Option (State n T)
  | .thread t a => s.threadStep t a
  | .collector  => some s.collectorStep

-- Every thread starts with whichever shard the hash of its id gives.
structure Initial (s : State n T) : Prop where
  counters : ∀ i, s.counters i = 0
  threads  : ∀ t, (s.threads t).frames = [] ∧ (s.threads t).unwinding = false
  pc       : s.pc = .idle
  entered  : s.entered = 0

-- The sections that were entered on shard `i` and are still open.
def opened [Fintype T] (s : State n T) (i : Fin n) : Nat :=
  ∑ t, (s.threads t).frames.countP (Frame.isOn i)

def IsOpen (s : State n T) (id : Nat) : Prop :=
  ∃ t i, .section id i ∈ (s.threads t).frames

end State

def system (n : Nat) (T : Type) [DecidableEq T] : System (State n T) (Label n T) :=
  .ofNext State.Initial State.next

end ReaderCriticalSection
