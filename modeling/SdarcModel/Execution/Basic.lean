import SdarcModel.Library.System
import SdarcModel.Execution.Thread
import SdarcModel.Execution.Collector

namespace Sdarc

inductive Label (n : Nat) (T C : Type)
  | thread (t : Thread T) (a : Act n C)
  | collector

-- The thread step in which a compare-and-set exchanges its pointer.
def Label.isCompareAndSet : Label n T C → Bool
  | .thread _ a => a.isCompareAndSet
  | .collector  => false

namespace State

variable {n : Nat} {T C : Type} [DecidableEq T] [DecidableEq C]

-- The collector thread runs user code only inside the destructor of a payload.
def mayStart (s : State n T C) : Thread T → Bool
  | some _ => true
  | none   =>
    match s.col.pc with
    | .dropData _ p => s.mem.isUser p
    | _             => false

-- `on_sdarc_drop` on the collector thread.
def notify (s : State n T C) (t : Thread T) (a : Act n C) : Collector n :=
  match t, a, s.mem.pc none with
  | none, .run _, .onSdarcDrop c =>
    { s.col with countersToRecheck := insert c s.col.countersToRecheck }
  | _, _, _ => s.col

def next [Fintype T] (s : State n T C) : Label n T C → Option (State n T C)
  | .thread t a =>
    if s.mem.pc t = .idle ∧ s.mayStart t = false then none
    else (s.mem.threadStep t a).map fun m => { mem := m, col := s.notify t a }
  | .collector => if s.mem.pc none = .idle then s.collectorStep else none

structure Initial (s : State n T C) : Prop where
  mem : s.mem.Initial
  col : s.col = {}

def empty : State n T C where
  mem := .empty
  col := {}

omit [DecidableEq T] [DecidableEq C] in
theorem empty_initial : (empty : State n T C).Initial where
  mem := Memory.empty_initial
  col := rfl

end State

variable (n : Nat) (T C : Type) [DecidableEq T] [Fintype T] [DecidableEq C]

def system : System (State n T C) (Label n T C) :=
  .ofNext State.Initial State.next

-- The runs without `compare_and_set`.
def systemNoCas : System (State n T C) (Label n T C) :=
  system n T C |>.restrict fun _ l _ => l.isCompareAndSet = false

variable {n T C}

-- The next `k` accesses of a thread, where there is only one shard.
def runs (t : Bool) (k : Nat) : List (Label 1 Bool Unit) :=
  .replicate k (.thread (some t) (.run 0))

theorem reachable_of_exec {s : State n T C} {labels : List (Label n T C)}
    (h : System.exec State.next .empty labels = some s) : (system n T C).Reachable s :=
  System.reachable_of_exec (.init State.empty_initial) h

end Sdarc
