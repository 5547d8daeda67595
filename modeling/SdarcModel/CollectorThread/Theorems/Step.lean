import SdarcModel.CollectorThread.Basic
import SdarcModel.CollectorStatus.Theorems.Step
import SdarcModel.Execution.Theorems.Liveness.Returns
import SdarcModel.Library.Simulation

namespace Sdarc

theorem CollectorPc.isParked_iff {pc : CollectorPc n} : pc.isParked = true ↔ pc = .parked := by
  cases pc <;> simp [isParked]

namespace CollectorThread.State

open CollectorStatus (CollectorAct)

variable {n : Nat} {T C : Type} [DecidableEq T] [Fintype T] [DecidableEq C] {s s' : State n T C}

-- One step of the system, by who takes it.
inductive Step (s : State n T C) : Label n T C → State n T C → Prop
  | thread (idle : s.calls t = false) (exec : s.exec.next (.thread t a) = some e) :
    Step s (.thread t a) { s with exec := e }
  | caller (status : s.status.next (.caller t a) = some c) : Step s (.caller t a) { s with status := c }
  | main (parked : s.exec.col.pc = .parked) (take : a ≠ .takeNewCountersToTrack) (inner : a ≠ .innerIteration)
      (status : s.status.next (.collector a) = some c) :
    Step s (.main a) { s with status := c }
  | update (awake : s.exec.col.pc = .parked → s.status.collector = .take) (exec : s.exec.next .collector = some e)
      (goesOn : finishes s.exec e = none) :
    Step s .update { s with exec := e }
  | finish (exec : s.exec.next .collector = some e) (act : finishes s.exec e = some a)
      (status : s.status.next (.collector a) = some c) :
    Step s .update { status := c, exec := e }

theorem Step.of_next {l : Label n T C} (h : s.next l = some s') : Step s l s' := by
  cases l <;> simp only [next] at h
  case thread t a =>
    split at h
    case isTrue => contradiction
    case isFalse idle =>
      obtain ⟨e, he, rfl⟩ := Option.map_eq_some_iff.mp h
      exact .thread (by simpa using idle) he
  case caller t a =>
    split at h
    case isFalse => contradiction
    case isTrue =>
      obtain ⟨c, hc, rfl⟩ := Option.map_eq_some_iff.mp h
      exact .caller hc
  case main a =>
    split at h
    case isTrue => contradiction
    case isFalse hn =>
      simp only [not_or, Bool.not_eq_false, CollectorPc.isParked_iff] at hn
      obtain ⟨c, hc, rfl⟩ := Option.map_eq_some_iff.mp h
      exact .main hn.left hn.right.left hn.right.right hc
  case update =>
    split at h
    case isTrue => contradiction
    case isFalse hn =>
      simp only [CollectorPc.isParked_iff, not_and, not_not] at hn
      obtain ⟨e, he, h⟩ := Option.bind_eq_some_iff.mp h
      split at h
      case h_1 hf => cases h; exact .update hn he hf
      case h_2 a hf =>
        obtain ⟨c, hc, rfl⟩ := Option.map_eq_some_iff.mp h
        exact .finish he hf hc

-- The steps seen by the objects, and those seen by the callers.
def execLabel : Label n T C → Option (Sdarc.Label n T C)
  | .thread t a => some (.thread t a)
  | .update     => some .collector
  | .caller ..  => none
  | .main _     => none

def statusLabel (s : State n T C) : Label n T C → Option (CollectorStatus.Label T)
  | .thread ..  => none
  | .caller t a => some (.caller t a)
  | .main a     => some (.collector a)
  | .update     => (s.exec.next .collector).bind fun e => (finishes s.exec e).map .collector

theorem Step.exec_next {l : Label n T C} (st : Step s l s') (h : execLabel l = some l') : s.exec.next l' = some s'.exec := by
  cases st <;> simp only [execLabel, Option.some.injEq, reduceCtorEq] at h <;> subst h
  case thread exec     => exact exec
  case update exec _   => exact exec
  case finish exec _ _ => exact exec

theorem Step.exec_eq {l : Label n T C} (st : Step s l s') (h : execLabel l = none) : s'.exec = s.exec := by
  cases st <;> simp [execLabel] at h ⊢

theorem exec_simulates :
    (Sdarc.system n T C).Simulates (system n T C) (·.exec) fun _ l => execLabel l where
  init _ h              := h.exec
  step _ _ _ _ _ stp h  := (Step.of_next stp).exec_next h
  stutter _ _ _ _ stp h := (Step.of_next stp).exec_eq h

theorem Step.status_next {l : Label n T C} (st : Step s l s') (h : s.statusLabel l = some l') :
    s.status.next l' = some s'.status := by
  cases st
  case thread => contradiction
  case caller status => cases h; exact status
  case main status   => cases h; exact status
  case update exec goesOn => simp [statusLabel, exec, goesOn] at h
  case finish exec act status =>
    obtain rfl : CollectorStatus.Label.collector _ = l' := by simpa [statusLabel, exec, act] using h
    exact status

theorem Step.status_eq {l : Label n T C} (st : Step s l s') (h : s.statusLabel l = none) : s'.status = s.status := by
  cases st
  case thread => rfl
  case caller => contradiction
  case main   => contradiction
  case update => rfl
  case finish exec act status => simp [statusLabel, exec, act] at h

theorem status_simulates :
    (CollectorStatus.system T).Simulates (system n T C) (·.status) statusLabel where
  init _ h              := h.status
  step _ _ _ _ _ stp h  := (Step.of_next stp).status_next h
  stutter _ _ _ _ stp h := (Step.of_next stp).status_eq h

end CollectorThread.State
end Sdarc
