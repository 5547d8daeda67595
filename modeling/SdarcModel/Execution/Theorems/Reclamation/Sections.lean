import SdarcModel.Execution.Theorems.Effect

open scoped BigOperators

namespace Sdarc

namespace Pc

-- The call is inside a reader critical section that it entered on shard `i`.
def inSection (pc : Pc n C) (i : Fin n) : Bool :=
  match pc with
  | .readLoad _ j | .incrRead _ (.read _ j) | .incrAdd _ _ _ (.read _ j) | .readLeave _ j _ => j == i
  | _ => false

-- The call has loaded the address of `p` in a reader critical section and not yet incremented.
def Reading : Pc n C → Ptr → Prop
  | .incrRead p (.read _ _), a | .incrAdd p _ _ (.read _ _), a => p = a
  | _, _ => False

attribute [grind] inSection Reading

@[grind =]
theorem inSection_incrAdd (k : Incr n C) : (incrAdd p c i k).inSection j = (incrRead p k).inSection j := by
  cases k <;> rfl

@[grind =]
theorem reading_incrAdd (k : Incr n C) : (incrAdd p c i k).Reading q ↔ (incrRead p k).Reading q := by
  cases k <;> rfl

end Pc

namespace Memory

variable {n : Nat} {T C : Type} [Fintype T] {m m' : Memory n T C} {t : Thread T}

def sections (m : Memory n T C) (i : Fin n) : Nat :=
  ∑ t, if (m.pc t).inSection i then 1 else 0

-- The counters of the reader critical section count the open sections.
def WellGated (m : Memory n T C) : Prop :=
  ∀ i, m.readers i = m.sections i

theorem sections_update [DecidableEq T] {pc : Pc n C} (h : m'.pc = Function.update m.pc t pc) (i : Fin n) :
    m'.sections i + (if (m.pc t).inSection i then 1 else 0) =
      m.sections i + if pc.inSection i then 1 else 0 := by
  rw [sections, h]
  exact Finset.sum_comp_update (Finset.mem_univ t) m.pc (if ·.inSection i then 1 else 0) pc

namespace WellGated

theorem initial (h : m.Initial) : WellGated m := by
  intro i
  simp [sections, h.pc, h.readers, Pc.inSection]

theorem idle (g : WellGated m) (h : m.readers i = 0) (t : Thread T) : (m.pc t).inSection i = false := by
  have hs : m.sections i = 0 := (g i).symm.trans h
  simpa using Finset.sum_eq_zero_iff.mp hs t (Finset.mem_univ t)

theorem pos (g : WellGated m) (h : (m.pc t).inSection i = true) : 0 < m.readers i := by
  by_contra hn
  simpa [h] using g.idle (Nat.eq_zero_of_not_pos hn) t

variable [DecidableEq T] [DecidableEq C]

-- The section a step enters or leaves is counted on its own shard.
theorem readers_step (g : WellGated m) (s : Step m t m') (i : Fin n) :
    m'.readers i + (if (m.pc t).inSection i then 1 else 0) =
      m.readers i + if (m'.pc t).inSection i then 1 else 0 := by
  have hp := g.pos (t := t) (i := i)
  induction s <;> simp only [‹m.pc t = _›, Function.update_self, Pc.inSection] at hp ⊢ <;> grind -linarith

theorem step (g : WellGated m) (s : Step m t m') : WellGated m' := by
  intro i
  have := g i
  have := g.readers_step s i
  have := sections_update s.pc_eq i
  omega

omit [DecidableEq C] in
theorem effect (g : WellGated m) (e : Effect m m') : WellGated m' := by
  intro i
  cases e
  case dropWeak p w pc _ _ =>
    have hu : (m.setWeakInnerRef p .uninit |>.setPc none (.dropRead w)).pc =
      Function.update m.pc none (.dropRead w) := rfl
    have := sections_update hu i
    simp only [pc, Pc.inSection] at this
    exact (g i).trans this.symm
  all_goals exact g i

end WellGated
end Memory
end Sdarc
