import SdarcModel.Execution.Theorems.Reclamation.Basic

namespace Sdarc.State

variable {n : Nat} {T C : Type} {s : State n T C}

-- What a compare-and-set has put into a cell and not yet incremented is not freed, nor is anything
-- that its caller may have borrowed.
def CompareAndSetSafe (s : State n T C) : Prop :=
  (∀ t p, (s.mem.pc t).owes p = true → s.mem.freed p = 0) ∧ ∀ p, 0 < s.mem.handles p → s.mem.freed p = 0

-- The borrowed `Sdarc` protects its object as long as the counters stay above zero meanwhile.
theorem compareAndSet_safe [DecidableEq T] [Fintype T] [DecidableEq C] [Fintype C]
    (h : (systemFunded n T C).Reachable s) : s.CompareAndSetSafe := by
  have so := sound h
  refine ⟨fun t p ho => so.unfreed_of_mentions (Pc.mentions_of_owes ho) fun pc => ?_, fun p => so.unfreed_of_handles⟩
  simp [pc, Pc.owes] at ho

-- An `Sdarc` is made, and then set into a cell.
def creates : List (Label 1 Bool Unit) :=
  .thread (some true) (.new 0) :: runs true 2

def sets : Label 1 Bool Unit :=
  .thread (some true) (.compareAndSet () none (some 0))

def created : State 1 Bool Unit :=
  (System.exec next empty creates).getD empty

def setting : State 1 Bool Unit :=
  (System.exec next created [sets]).getD empty

theorem setting_reachable : (systemFunded 1 Bool Unit).Reachable setting := by
  have he : System.exec next empty creates = some created := rfl
  have hs : created.next sets = some setting := rfl
  have hr : (systemNoCas 1 Bool Unit).Reachable created :=
    (System.run_restrict_of_exec (by decide) he).reachable (.init empty_initial)
  exact (funded_of_noCas hr).step ⟨hs, (noCas hr).funded⟩

theorem compareAndSet_safe_setting :
    (setting.mem.pc (some true)).owes 0 = true ∧ setting.mem.freed 0 = 0 :=
  ⟨by decide, (compareAndSet_safe setting_reachable).left (some true) 0 (by decide)⟩

-- Before the increment, another thread takes the `Sdarc` out of the cell and drops it. The counters
-- are down at zero, although the first thread still has its own.
def replaces : List (Label 1 Bool Unit) :=
  .thread (some false) (.swap () none) :: .thread (some false) (.drop 0) :: runs false 5 ++
    List.replicate 26 .collector

def replaced : State 1 Bool Unit :=
  (System.exec next empty (creates ++ sets :: replaces)).getD empty

theorem replaced_reachable : (system 1 Bool Unit).Reachable replaced :=
  have he : System.exec next empty (creates ++ sets :: replaces) = some replaced := rfl
  reachable_of_exec he

theorem compareAndSet_freed : ¬∀ s, (system 1 Bool Unit).Reachable s → s.CompareAndSetSafe := by
  intro h
  have := (h replaced replaced_reachable).left (some true) 0 (by decide)
  exact absurd this (by decide)

end Sdarc.State
