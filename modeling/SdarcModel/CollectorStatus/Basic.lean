import SdarcModel.Library.System
import Mathlib.Logic.Function.Basic

namespace CollectorStatus

inductive CollectorState
  | waiting (finishedIterationCounter : UInt64)
  | running (workingOnIterationCounter : UInt64)
  deriving DecidableEq

namespace CollectorState

def toSerialNumber : CollectorState → UInt64
  | .running k => k * 2
  | .waiting k => k * 2 + 1

def afterAtLeastOneFullCollection : CollectorState → CollectorState
  | .waiting nowFinished  => .waiting (nowFinished + 1)
  | .running nowWorkingOn => .waiting (nowWorkingOn + 1)

instance : LT CollectorState where
  lt a b := a.toSerialNumber < b.toSerialNumber

instance (a b : CollectorState) : Decidable (a < b) :=
  inferInstanceAs (Decidable (a.toSerialNumber < b.toSerialNumber))

end CollectorState

-- Where the collector is in the loop of `collector_thread_main`.
inductive CollectorPc
  | head
  | lockRunning
  | setRunning
  | unlockRunning
  | take                 -- `update` begins with `take_new_counters_to_track`
  | inner                -- the first inner iteration
  | innerAgain
  | lockWaiting
  | setWaiting
  | notify
  | unlockWaiting
  | parked
  deriving DecidableEq

inductive CollectorAct
  | beginIteration
  | lock
  | set                  -- writes the status
  | unlock
  | takeNewCountersToTrack
  | innerIteration
  | doMaintenance
  | notifyAll
  | wake                 -- `park_timeout` returns: unparked, after the interval, or for no reason
  deriving DecidableEq

-- Where a caller is in `collector_update_now_and_wait`.
inductive CallerPc
  | idle
  | lock
  | unpark
  | read
  | check  (stateToWaitUntil : CollectorState)   -- the condition of `wait_while`
  | asleep (stateToWaitUntil : CollectorState)
  | relock (stateToWaitUntil : CollectorState)
  | unlock
  deriving DecidableEq

inductive CallerAct
  | call
  | lock
  | run
  | wake                 -- the condvar wakes the caller: notified, or for no reason
  | relock
  | leave                -- drops the guard and returns
  deriving DecidableEq

inductive Label (T : Type)
  | collector (a : CollectorAct)
  | caller (t : T) (a : CallerAct)
  deriving DecidableEq

structure State (T : Type) where
  status                : CollectorState
  mutex                 : Option (Option T)   -- who holds `status_mutex`: the collector is `none`
  outerIterationCounter : UInt64
  iterations            : Nat                 -- the outer iterations begun
  collector             : CollectorPc
  caller                : T → CallerPc

namespace State

variable {T : Type}

abbrev goto (s : State T) (pc : CollectorPc) : State T :=
  { s with collector := pc }

abbrev setMutex (s : State T) (m : Option (Option T)) : State T :=
  { s with mutex := m }

def collectorStep (s : State T) (a : CollectorAct) : Option (State T) :=
  match s.collector, a with
  | .head, .beginIteration =>
    some { s with
      outerIterationCounter := s.outerIterationCounter + 1
      iterations            := s.iterations + 1
      collector             := .lockRunning }
  | .lockRunning, .lock => if s.mutex = none then some (s.setMutex (some none) |>.goto .setRunning) else none
  | .setRunning, .set =>
    some ({ s with status := .running s.outerIterationCounter }.goto .unlockRunning)
  | .unlockRunning, .unlock         => some (s.setMutex none |>.goto .take)
  | .take, .takeNewCountersToTrack  => some (s.goto .inner)
  | .inner, .innerIteration         => some (s.goto .innerAgain)
  | .innerAgain, .innerIteration    => some s
  | .innerAgain, .doMaintenance     => some (s.goto .lockWaiting)
  | .lockWaiting, .lock => if s.mutex = none then some (s.setMutex (some none) |>.goto .setWaiting) else none
  | .setWaiting, .set =>
    some ({ s with status := .waiting s.outerIterationCounter }.goto .notify)
  | .notify, .notifyAll     => some (s.goto .unlockWaiting)
  | .unlockWaiting, .unlock => some (s.setMutex none |>.goto .parked)
  | .parked, .wake          => some (s.goto .head)
  | _, _                    => none

variable [DecidableEq T]

abbrev setCaller (s : State T) (t : T) (pc : CallerPc) : State T :=
  { s with caller := Function.update s.caller t pc }

def callerStep (s : State T) (t : T) (a : CallerAct) : Option (State T) :=
  match s.caller t, a with
  | .idle, .call => some (s.setCaller t .lock)
  | .lock, .lock =>
    if s.mutex = none then some (s.setMutex (some (some t)) |>.setCaller t .unpark) else none
  | .unpark, .run => some (s.setCaller t .read)
  | .read, .run => some (s.setCaller t (.check s.status.afterAtLeastOneFullCollection))
  | .check target, .run =>
    if s.status < target then some (s.setMutex none |>.setCaller t (.asleep target))
    else some (s.setCaller t .unlock)
  | .asleep target, .wake => some (s.setCaller t (.relock target))
  | .relock target, .relock =>
    if s.mutex = none then some (s.setMutex (some (some t)) |>.setCaller t (.check target)) else none
  | .unlock, .leave => some (s.setMutex none |>.setCaller t .idle)
  | _, _ => none

def next (s : State T) : Label T → Option (State T)
  | .collector a => s.collectorStep a
  | .caller t a  => s.callerStep t a

structure Initial (s : State T) : Prop where
  status                : s.status = .waiting 0
  mutex                 : s.mutex = none
  outerIterationCounter : s.outerIterationCounter = 0
  iterations            : s.iterations = 0
  collector             : s.collector = .head
  caller                : ∀ t, s.caller t = .idle

end State

def system (T : Type) [DecidableEq T] : System (State T) (Label T) :=
  .ofNext State.Initial State.next

-- What the collector does in a part of a run.
def collectorActs (tr : List (State T × Label T)) : List CollectorAct :=
  tr.filterMap fun
    | (_, .collector a) => some a
    | _                 => none

end CollectorStatus
