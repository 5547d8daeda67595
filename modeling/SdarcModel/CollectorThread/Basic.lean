import SdarcModel.CollectorStatus.Basic
import SdarcModel.Execution.Basic

namespace Sdarc

def CollectorPc.isParked : CollectorPc n → Bool
  | .parked => true
  | _       => false

namespace CollectorThread

open CollectorStatus (CollectorAct CallerAct)

-- `collector_thread_main` with each step of `update`, and the user threads, which call
-- `collector_update_now_and_wait` between their other calls.
structure State (n : Nat) (T C : Type) where
  status : CollectorStatus.State T
  exec   : Sdarc.State n T C

inductive Label (n : Nat) (T C : Type)
  | thread (t : Thread T) (a : Act n C)
  | caller (t : T) (a : CallerAct)
  | main   (a : CollectorAct)   -- the loop of `collector_thread_main`, and the maintenance of the allocator
  | update                      -- the rest of `update`

namespace State

variable {n : Nat} {T C : Type} [DecidableEq T] [Fintype T] [DecidableEq C]

-- What the step of `update` finishes.
def finishes (s s' : Sdarc.State n T C) : Option CollectorAct :=
  match s.col.pc, s'.col.pc with
  | .take _, .spin ..  => some .takeNewCountersToTrack
  | .collect _, _      => some .innerIteration
  | _, _               => none

def calls (s : State n T C) : Thread T → Bool
  | some t => s.status.caller t ≠ .idle
  | none   => false

def next (s : State n T C) : Label n T C → Option (State n T C)
  | .thread t a =>
    if s.calls t then none else (s.exec.next (.thread t a)).map fun e => { s with exec := e }
  | .caller t a =>
    if s.exec.mem.pc (some t) = .idle
    then (s.status.next (.caller t a)).map fun c => { s with status := c } else none
  | .main a =>
    if s.exec.col.pc.isParked = false ∨ a = .takeNewCountersToTrack ∨ a = .innerIteration then none
    else (s.status.next (.collector a)).map fun c => { s with status := c }
  | .update =>
    if s.exec.col.pc.isParked ∧ s.status.collector ≠ .take then none
    else (s.exec.next .collector).bind fun e =>
      match finishes s.exec e with
      | none   => some { s with exec := e }
      | some a => (s.status.next (.collector a)).map fun c => { status := c, exec := e }

structure Initial (s : State n T C) : Prop where
  status : s.status.Initial
  exec   : s.exec.Initial

end State

def system (n : Nat) (T C : Type) [DecidableEq T] [Fintype T] [DecidableEq C] : System (State n T C) (Label n T C) :=
  .ofNext State.Initial State.next

end CollectorThread
end Sdarc
