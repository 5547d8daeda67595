import SdarcModel.CollectorThread.Theorems.Step
import SdarcModel.CollectorStatus.Theorems.Wait

namespace Sdarc

-- `take_new_counters_to_track` has not returned.
def CollectorPc.takes : CollectorPc n → Bool
  | .parked | .take _ | .insert .. => true
  | _ => false

attribute [grind] CollectorPc.takes

namespace CollectorThread.State

open Sdarc.State (WellFormed wellFormed of_next_thread of_next_collector notify_pc exists_next_collector
  removed_of_freed)

variable {n : Nat} {T C : Type} {s s' : State n T C}

-- Where `update` is, for each place in the loop around it.
def Coupled (s : State n T C) : Prop :=
  match s.status.collector with
  | .take       => s.exec.col.pc.takes = true
  | .inner      => s.exec.col.pc.takes = false ∧ s.exec.col.pc.loops = false
  | .innerAgain => s.exec.col.pc = .parked ∨ s.exec.col.pc.loops = true
  | _           => s.exec.col.pc = .parked

theorem Coupled.initial (h : s.Initial) : Coupled s := by
  simp [Coupled, h.status.collector, h.exec.col]

variable [DecidableEq T] [Fintype T] [DecidableEq C]

theorem Coupled.step (w : WellFormed s'.exec) (c : Coupled s) {l : Label n T C} (st : Step s l s') : Coupled s' := by
  have np := w.running
  cases st
  case thread e idle exec =>
    obtain ⟨-, m, -, rfl⟩ := of_next_thread exec
    simpa only [Coupled, notify_pc] using c
  case caller c' status =>
    have hc : c'.collector = s.status.collector := by
      cases CollectorStatus.State.CallerStep.of_callerStep status <;> rfl
    simpa only [Coupled, hc] using c
  case main a c' parked take inner status =>
    cases CollectorStatus.State.CollectorStep.of_collectorStep status <;>
      simp_all [Coupled, CollectorPc.takes]
  case update e awake exec goesOn =>
    obtain ⟨-, st⟩ := of_next_collector exec
    unfold Coupled at *
    split at c <;> cases st <;> simp_all [finishes, CollectorPc.takes, CollectorPc.loops, Pass.all_visit]
  case finish e a c' exec act status =>
    obtain ⟨-, st⟩ := of_next_collector exec
    have hs := CollectorStatus.State.CollectorStep.of_collectorStep status
    simp only [finishes] at act
    split at act <;> cases act
    case h_1 pc _ =>
      obtain rfl : e = s.exec.goto (.spin none 0 []) := by cases st <;> simp_all
      cases hs
      simp [Coupled, CollectorPc.takes, CollectorPc.loops]
    case h_2 pc _ =>
      have he : e.col.pc = .parked ∨ e.col.pc.loops = true := by cases st <;> simp_all [CollectorPc.loops]
      cases hs
      case inner           => exact he
      case innerAgain pc'  => simpa only [Coupled, pc'] using he

theorem coupled (h : (system n T C).Reachable s) : Coupled s := by
  refine h.invariant_with (J := fun s => WellFormed s.exec) (fun s h => wellFormed (exec_simulates |>.reachable h))
    (fun _ => .initial) fun s l s' _ w c stp => c.step w (.of_next stp)

theorem wellCounted (h : (system n T C).Reachable s) : s.status.WellCounted :=
  (status_simulates |>.reachable h).invariant (fun _ => CollectorStatus.State.WellCounted.initial) fun _ _ _ w stp =>
    w.step (.of_next stp)

omit [DecidableEq T] [Fintype T] [DecidableEq C] in
theorem Coupled.updating (c : Coupled s) (h : s.exec.col.pc ≠ .parked) :
    s.status.collector = .take ∨ s.status.collector = .inner ∨ s.status.collector = .innerAgain := by
  unfold Coupled at c
  split at c <;> simp_all

-- Inside `update` the loop around it does not hold the collector up.
theorem Coupled.exists_update (c : Coupled s) (w : WellFormed s.exec) (h : s.exec.col.pc ≠ .parked)
    (idle : s.exec.mem.pc none = .idle) : ∃ s', s.next .update = some s' := by
  obtain ⟨e, he⟩ := exists_next_collector w idle
  have hp : s.exec.col.pc.isParked = false := by simpa [← CollectorPc.isParked_iff] using h
  simp only [next, hp, Bool.false_eq_true, false_and, if_false, he, Option.bind_some]
  split
  case h_1 => exact ⟨_, rfl⟩
  case h_2 a act =>
    simp only [finishes] at act
    unfold Coupled at c
    split at act <;> cases act <;> split at c <;>
      simp_all [CollectorStatus.State.next, CollectorStatus.State.collectorStep, CollectorPc.takes, CollectorPc.loops]

-- Whoever reads under the mutex that the collector is waiting knows that no update is under way and nothing is
-- being freed. In an update the collector goes on, whoever holds the mutex.
theorem running_of_update (h : (system n T C).Reachable s) :
    (s.exec.col.pc ≠ .parked → s.status.status = .running (.ofNat s.status.iterations)) ∧
    (∀ l s' p, s.next l = some s' → s.exec.mem.freed p < s'.exec.mem.freed p → ∃ k, s.status.status = .running k) ∧
    (s.exec.col.pc ≠ .parked → s.exec.mem.pc none = .idle → ∃ s', s.next .update = some s') := by
  have c := coupled h
  have w := wellFormed (exec_simulates |>.reachable h)
  have running (hp : s.exec.col.pc ≠ .parked) : s.status.status = .running (.ofNat s.status.iterations) := by
    have hs := (wellCounted h).status
    rcases c.updating hp with pc | pc | pc <;> simp only [pc] at hs <;> exact hs.right
  refine ⟨running, fun l s' p stp hf => ⟨_, running fun parked => ?_⟩, c.exists_update w⟩
  have st := Step.of_next stp
  cases hl : execLabel l
  case none => exact absurd hf (by simp [st.exec_eq hl])
  case some l' =>
    obtain ⟨-, hr⟩ := removed_of_freed (st.exec_next hl) hf
    simp [parked, CollectorPc.Removed] at hr

def empty : State 1 Bool Unit where
  status := {
    status                := .waiting 0
    mutex                 := none
    outerIterationCounter := 0
    iterations            := 0
    collector             := .head
    caller _              := .idle }
  exec := .empty

theorem empty_initial : empty.Initial where
  status := ⟨rfl, rfl, rfl, rfl, rfl, fun _ => rfl⟩
  exec   := Sdarc.State.empty_initial

-- A thread makes an object and drops it.
def drops : List (Label 1 Bool Unit) :=
  .thread (some true) (.new 0) :: .replicate 2 (.thread (some true) (.run (Fin.last 0))) ++
    .thread (some true) (.drop 0) :: .replicate 5 (.thread (some true) (.run (Fin.last 0)))

-- The collector begins an iteration, and is to call `update`.
def begins : List (Label 1 Bool Unit) :=
  [.beginIteration, .lock, .set, .unlock].map .main

def updating : State 1 Bool Unit :=
  (System.exec next empty (drops ++ begins ++ .replicate 26 .update)).getD empty

theorem running_of_update_updating : updating.exec.mem.freed 0 = 1 ∧ updating.status.status = .running 1 :=
  have he : System.exec next empty (drops ++ begins ++ .replicate 26 .update) = some updating := rfl
  have h := running_of_update (System.reachable_of_exec (.init empty_initial) he)
  ⟨rfl, h.left fun pc => absurd (CollectorPc.isParked_iff |>.mpr pc) (by decide)⟩

end CollectorThread.State
end Sdarc
