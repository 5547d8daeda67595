import SdarcModel.ShardedAlloc.Theorems.Candidates

namespace ShardedAlloc

-- The call is inside `AllocUnitGroup::allocate`.
def Pc.Allocates : Pc n → Prop
  | .allocate _ | .scan .. | .init .. | .unwind .. | .dropNewUnit .. => True
  | _ => False

attribute [grind] Pc.Allocates

namespace State

variable {n : Nat} {T : Type} {s s' : State n T} {t v : T}

-- A bound on the accesses that a call of `allocate` still makes.
def work (s : State n T) : Pc n → Nat
  | .allocate i => (s.groups i).indexesOfUnitsToCheckForAllocation.length * 18 + n + 60
  | .scan i _ fresh j =>
    (slotCountPerUnit - j) + n + 23 +
      if fresh then 0 else ((s.groups i).indexesOfUnitsToCheckForAllocation.length - 1) * 18 + 38
  | .init _ _ _ _ k      => (n - k) + 22
  | .unwind ..           => 20
  | .dropNewUnit _ _ j   => (slotCountPerUnit - j) + 1
  | _ => 0

variable [DecidableEq T]

theorem work_step (st : Step s t s') (h : (s.pc t).Allocates) : s'.work (s'.pc t) < s.work (s.pc t) := by
  have hl := fun i => (s.groups i).length_removeFirstIndex
  induction st <;> simp only [‹s.pc t = _›, Pc.Allocates] at h <;>
    simp only [‹s.pc t = _›, Function.update_self, work] <;> first
      | omega
      | grind [slotCountPerUnit]

theorem WellLocked.work_eq (k : WellLocked s) (st : Step s v s') (hv : t ≠ v) :
    s'.work (s'.pc t) = s.work (s.pc t) := by
  rw [st.pc_of_ne hv]
  cases pc : s.pc t
  case allocate i | scan i _ _ _ => simp only [work, k.groups_eq (i := i) st (by simp [pc, Pc.Holds]) hv]
  all_goals rfl

-- A call that has the lock of its group is never held up.
theorem run_isSome (h : (s.pc t).Allocates) : (s.run t).isSome := by
  cases pc : s.pc t <;> simp only [pc, Pc.Allocates] at h <;> simp only [run, pc]
  case allocate => split <;> [rfl; (split <;> rfl)]
  case scan     => split <;> [rfl; (split <;> rfl)]
  case init     => split <;> rfl
  case unwind   => rfl
  case dropNewUnit => split <;> rfl

-- As long as the call lasts, it uses up its work with each of its accesses.
theorem work_run (so : Sound s) (r : (system n T).Run s tr s') (h : ∀ e ∈ tr, (e.1.pc t).Allocates) :
    tr.countP (·.2.1 = t) + s'.work (s'.pc t) ≤ s.work (s.pc t) := by
  induction r
  case refl => simp
  case step s₁ a s₂ tr s₃ stp _ ih =>
    have st := Step.of_nextOf so.flags stp
    have hs := h _ (List.mem_cons_self ..)
    have ih := ih (so.step st) fun e he => h e (List.mem_cons_of_mem _ he)
    rw [List.countP_cons]
    by_cases hv : a.1 = t
    case pos =>
      have := work_step st (hv ▸ hs)
      simp only [hv, decide_true, ite_true] at *
      omega
    case neg =>
      have := so.locked.work_eq st (Ne.symm hv)
      simp only [hv, decide_false, Bool.false_eq_true, ite_false]
      omega

end State
end ShardedAlloc
