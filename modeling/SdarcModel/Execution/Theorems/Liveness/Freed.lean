import SdarcModel.Execution.Theorems.Liveness.Returns
import SdarcModel.Execution.Theorems.Collection.Basic

namespace Sdarc.State

variable {n : Nat} {T C : Type} [DecidableEq T] [Fintype T] [DecidableEq C] {s s' : State n T C} {o : Ownership C}
  {S : Finset Ptr} {ℓ : Ptr → Nat} {p : Ptr}

-- The garbage stays out of reach, also while the collector is in the middle of an update.
theorem Enclosed.next (h : (systemDefined n T C).Reachable s) (hℓ : ∀ q ∈ S, ∀ p ∈ S, 0 < o.sdarcs q p → ℓ q < ℓ p)
    (en : Enclosed o S ℓ s) (stp : (systemIsolated n T o S).Step s l s') : Enclosed o S ℓ s' := by
  have w := wellFormed h.of_restrict
  obtain ⟨⟨stp, -⟩, iso⟩ := stp
  cases l
  case thread t a =>
    obtain ⟨ready, m, hm, rfl⟩ := of_next_thread stp
    exact en.thread w hℓ ready iso hm
  case collector =>
    obtain ⟨idle, st⟩ := of_next_collector stp
    exact en.collector w iso idle st

-- What has been destroyed is not touched again.
theorem Destroyed.next (w : WellFormed s') (d : s.Destroyed p) (stp : s.next l = some s') :
    s'.Destroyed p := by
  obtain ⟨hf, hd⟩ := d
  cases l
  case thread t a =>
    obtain ⟨-, m, hm, rfl⟩ := of_next_thread stp
    exact ⟨(Memory.Step.of_threadStep hm).freed_eq ▸ hf, by rw [notify_pc]; exact hd⟩
  case collector =>
    have st := (of_next_collector stp).right
    refine ⟨hf.trans_le st.freed_le, ?_⟩
    by_cases hr : ∃ a, s.col.pc = .dropInner a p
    case pos =>
      -- It would be freed twice.
      obtain ⟨a, pc⟩ := hr
      have := w.freed_le p
      induction st <;> grind -linarith
    case neg => induction st <;> grind -linarith [CollectorPc.dropsInner]

theorem dropped_idle : ∀ t, dropped.mem.pc t = .idle := by
  decide

theorem dropped_garbage : ownsNothing.Garbage {0} 1 dropped.mem where
  published p hp := ⟨by revert p; decide, fun t h => by simp [dropped_idle t, Pc.Making] at h⟩
  unfreed        := by decide
  handles        := by decide
  cells          := by decide
  weak           := by decide
  calls p hp t h := by simp [dropped_idle t, Pc.Mentions] at h
  reads p hp t src i h := by simp [dropped_idle t] at h
  chains l hl hc := by
    match l with
    | [] | [_] => simp
    | q :: p :: l =>
      have no : ∀ q ∈ ({0} : Finset Ptr), ∀ p ∈ ({0} : Finset Ptr), ¬ownsNothing.Owns dropped.mem q p := by
        unfold Ownership.Owns
        decide
      simp only [List.mem_cons, forall_eq_or_imp] at hl
      exact absurd (List.isChain_cons_cons.mp hc).left (no q hl.left p hl.right.left)

theorem dropped_isolated (k : Nat) :
    ownsNothing.Isolated {0} ((dropped_alone.execution (Fin.last 0)).state k)
      ((dropped_alone.execution (Fin.last 0)).label k) := by
  change ownsNothing.Isolated {0} _ (alone (Fin.last 0) _)
  simp only [alone]
  split
  case isFalse => exact .inl trivial
  case isTrue =>
    intro q hq hd
    refine ⟨fun p hp => ?_, fun x h => by simp [ownsNothing] at h⟩
    rw [(dropped_alone.execution_untouched (Fin.last 0) k).handles, Finset.mem_singleton.mp hp]
    simp [ownsNothing]
    decide

theorem dropped_defined (k : Nat) :
    ((dropped_alone.execution (Fin.last 0)).state k).Defined ((dropped_alone.execution (Fin.last 0)).label k) :=
  defined_of_funded (funded_of_noCas (dropped_alone.execution_alone (Fin.last 0) k).reachable) _

theorem dropped_step (k : Nat) : (systemIsolated 1 Bool ownsNothing {0}).Step ((dropped_alone.execution (Fin.last 0)).state k)
    ((dropped_alone.execution (Fin.last 0)).label k) ((dropped_alone.execution (Fin.last 0)).state (k + 1)) :=
  ⟨⟨(dropped_alone.execution (Fin.last 0)).step k, dropped_defined k⟩, dropped_isolated k⟩

def droppedIsolated : (systemIsolated 1 Bool ownsNothing {0}).Execution where
  state := (dropped_alone.execution (Fin.last 0)).state
  label := (dropped_alone.execution (Fin.last 0)).label
  step  := dropped_step

end Sdarc.State
