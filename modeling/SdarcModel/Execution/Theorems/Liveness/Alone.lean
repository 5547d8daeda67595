import SdarcModel.Library.Execution
import SdarcModel.Execution.Theorems.Liveness.Calls
import SdarcModel.Execution.Theorems.Liveness.Enabled

namespace Sdarc

-- `Sdarc::drop` is under way, or nothing.
def Pc.drops : Pc n C → Bool
  | .idle | .dropRead _ | .dropLoad .. | .dropCas .. | .dropNotify _ | .onSdarcDrop _ => true
  | _ => false

namespace Memory

variable {n : Nat} {T C : Type} {m m' : Memory n T C} {t : Thread T}

-- What a drop leaves unchanged, and the collector's own code.
structure Untouched (m m' : Memory n T C) : Prop where
  handles : m'.handles = m.handles
  cell    : m'.cell = m.cell
  readers : m'.readers = m.readers

variable [DecidableEq T]

theorem drops_run (drops : (m.pc t).drops = true) (h : m.run t i = some m') :
    (m'.pc t).drops = true ∧ Untouched m m' := by
  cases pc : m.pc t <;> simp only [pc, Pc.drops, Bool.false_eq_true] at drops <;> simp only [run, pc] at h
  case idle    => contradiction
  case dropCas =>
    split at h <;> cases h <;> exact ⟨by simp [Pc.drops], rfl, rfl, rfl⟩
  all_goals
    cases h
    exact ⟨by simp [Pc.drops], rfl, rfl, rfl⟩

end Memory

namespace State

variable {n : Nat} {T C : Type} [DecidableEq T] [Fintype T] [DecidableEq C] {s s' : State n T C}

-- The collector thread goes on, its drops on shard `i`, and no other thread does.
def alone (i : Fin n) (s : State n T C) : Label n T C :=
  if s.mem.pc none = .idle then .collector else .thread none (.run i)

-- Nobody is in a critical section, and no destructor calls anything.
structure Alone (s : State n T C) : Prop where
  reachable : (systemNoCas n T C).Reachable s
  drops     : (s.mem.pc none).drops = true
  readers   : ∀ i, s.mem.readers i = 0

omit [Fintype T] [DecidableEq C] in
theorem CollectorStep.untouched (idle : s.mem.pc none = .idle) (st : CollectorStep s s') :
    (s'.mem.pc none).drops = true ∧ s.mem.Untouched s'.mem := by
  induction st <;> exact ⟨by simp [idle, Pc.drops], rfl, rfl, rfl⟩

theorem Alone.step (al : Alone s) (i : Fin n) :
    ∃ s', s.next (s.alone i) = some s' ∧ Alone s' ∧ s.mem.Untouched s'.mem := by
  have hr := al.reachable
  by_cases idle : s.mem.pc none = .idle
  case pos =>
    obtain ⟨s', hs⟩ := exists_next_collector (wellFormed hr.of_restrict) idle
    obtain ⟨drops, hu⟩ := (of_next_collector hs).right.untouched idle
    exact ⟨s', by rwa [alone, if_pos idle], ⟨hr.step ⟨hs, rfl⟩, drops, hu.readers ▸ al.readers⟩, hu⟩
  case neg =>
    have hd := al.drops
    obtain ⟨m, hm⟩ := Memory.run_isSome i idle (fun q pc => by simp [pc, Pc.drops] at hd)
      (fun q pc => by simp [pc, Pc.drops] at hd)
    have hs : s.next (.thread none (.run i)) = some { mem := m, col := s.notify none (.run i) } := by
      simp only [next, idle, false_and, if_false, Memory.threadStep, hm]
      rfl
    obtain ⟨drops, hu⟩ := Memory.drops_run hd hm
    exact ⟨_, by rwa [alone, if_neg idle], ⟨hr.step ⟨hs, rfl⟩, drops, hu.readers ▸ al.readers⟩, hu⟩

def Alone.execution (al : Alone s) (i : Fin n) : (system n T C).Execution :=
  .ofSchedule (I := Alone) (alone i) al fun _ h =>
    have ⟨s', hs, h, _⟩ := h.step i
    ⟨s', hs, h⟩

theorem Alone.execution_alone (al : Alone s) (i : Fin n) (k : Nat) : Alone ((al.execution i).state k) :=
  System.scheduled_invariant al (fun _ h => have ⟨s', hs, h, _⟩ := h.step i; ⟨s', hs, h⟩) k

theorem Alone.execution_untouched (al : Alone s) (i : Fin n) (k : Nat) :
    s.mem.Untouched ((al.execution i).state k).mem := by
  induction k
  case zero => exact ⟨rfl, rfl, rfl⟩
  case succ k ih =>
    obtain ⟨s', hs, -, hu⟩ := (al.execution_alone i k).step i
    have he : s' = (al.execution i).state (k + 1) := Option.some.inj (hs.symm.trans ((al.execution i).step k))
    exact he ▸ ⟨hu.handles.trans ih.handles, hu.cell.trans ih.cell, hu.readers.trans ih.readers⟩

-- Every drop on the collector thread ends, so that the collector goes on.
theorem Alone.exists_collector (al : Alone s) (i : Fin n) (k : Nat) :
    ∃ j, k ≤ j ∧ (al.execution i).label j = .collector := by
  have down j (busy : ((al.execution i).state j).mem.pc none ≠ .idle) :
      ((al.execution i).state (j + 1)).mem.cost none < ((al.execution i).state j).mem.cost none := by
    have stp := (al.execution i).step j
    have hl : (al.execution i).label j = .thread none (.run i) := if_neg busy
    rw [hl] at stp
    obtain ⟨-, m, hm, hs⟩ := of_next_thread stp
    exact hs ▸ Memory.cost_run hm
  obtain ⟨j, hj, idle⟩ := (al.execution i).exists_goal (·.mem.cost none) k (A := fun _ _ => True)
    (G := (·.mem.pc none = .idle)) (fun j _ _ => ⟨j, le_rfl, trivial⟩) (fun j _ h _ => down j h) (fun j _ h => (down j h).le)
  exact ⟨j, hj, if_pos idle⟩

end State
end Sdarc
