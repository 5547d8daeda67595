import SdarcModel.Execution.Theorems.Reclamation.Basic

namespace Sdarc

namespace Memory

variable {n : Nat} {T C : Type} {m m' : Memory n T C} {t : Thread T} {p w : Ptr}

-- `w` is the `SdarcInner` of a `WeakSdarcInner`.
def IsWeak (m : Memory n T C) (w : Ptr) : Prop :=
  w < m.next ∧ m.isUser w = false

instance (m : Memory n T C) (w : Ptr) : Decidable (m.IsWeak w) :=
  inferInstanceAs (Decidable (_ ∧ _))

-- The back reference of a dead object is cleared. One to an object that was freed would lead to a dead
-- object, and any other is that of an object that owns `w`.
theorem Dead.backRef_eq_none (wf : WellFormed m) (safe : m.Safe) (d : m.Dead w) : m.backRef w = none := by
  refine Option.eq_none_iff_forall_ne_some.mpr fun p h => ?_
  have hw := d.published.lt
  have hp := (wf.referenced.backRef w p hw h).lt
  by_cases hf : m.freed p = 0
  case neg => exact (safe p (Nat.pos_of_ne_zero hf)).closed w hw h
  case pos =>
    cases wf.weak.backRef w p hw h hf
    case inl hi => exact d.unowned.weak p hp hi
    case inr hm =>
      obtain ⟨t, hm⟩ := hm
      exact d.published.made t hm.making

-- The clearing is one-way.
theorem Step.backRef_eq_none [DecidableEq T] [DecidableEq C] (s : Step m t m') (hw : w < m.next)
    (h : m.backRef w = none) : w < m'.next ∧ m'.backRef w = none := by
  induction s <;> grind -linarith

theorem Effect.backRef_eq_none [DecidableEq T] (e : Effect m m') (hw : w < m.next) (h : m.backRef w = .none) :
    w < m'.next ∧ m'.backRef w = .none := by
  cases e <;> grind -linarith

end Memory

namespace State

variable {n : Nat} {T C : Type} [DecidableEq T] [Fintype T] [DecidableEq C] {s s' : State n T C} {w : Ptr}

theorem freed_of_dropData (h : (system n T C).Reachable s) : ∀ a p, s.col.pc = .dropData a p → 0 < s.mem.freed p := by
  refine h.invariant_with (I := fun s => ∀ a p, s.col.pc = .dropData a p → 0 < s.mem.freed p)
    (fun _ => wellFormed) (fun _ h => by simp [h.col]) ?_
  rintro s₁ l s₂ wf - ih stp
  cases Step.of_next stp
  case thread st =>
    simp only [notify_pc]
    exact st.freed_eq ▸ ih
  case collector idle st =>
    intro a p pc
    have := wf.linked.dropping a p
    induction st <;> grind -linarith

theorem backRef_stays_none (h : (system n T C).Reachable s) (r : (system n T C).Run s tr s') (hw : w < s.mem.next)
    (hb : s.mem.backRef w = none) : s'.mem.backRef w = none := by
  suffices hs : (system n T C).Reachable s' ∧ w < s'.mem.next ∧ s'.mem.backRef w = none from hs.right.right
  refine r.invariant (I := fun s => (system n T C).Reachable s ∧ w < s.mem.next ∧ s.mem.backRef w = none)
    ⟨h, hw, hb⟩ ?_
  rintro s₁ l s₂ ⟨h, hw, hb⟩ stp
  refine ⟨h.step stp, ?_⟩
  cases Step.of_next stp
  case thread st         => exact st.backRef_eq_none hw hb
  case collector idle st => exact (st.effect (wellFormed h) idle).backRef_eq_none hw hb

variable [Fintype C]

-- The back reference of a `WeakSdarcInner` is null or leads to an object that is not freed. Once null it
-- stays null, and it is null before the `WeakSdarcInner` is freed and when its own drop asserts it.
theorem backRef_valid (h : (systemNoCas n T C).Reachable s) :
    (∀ w p, s.mem.IsWeak w → s.mem.freed w = 0 → s.mem.backRef w = some p → p < s.mem.next ∧ s.mem.freed p = 0) ∧
    (∀ w, s.mem.IsWeak w → s.mem.backRef w = none →
      ∀ tr s', (systemNoCas n T C).Run s tr s' → s'.mem.backRef w = none) ∧
    (∀ l s' w, s.next l = some s' → s.mem.freed w < s'.mem.freed w → s.mem.IsWeak w → s.mem.backRef w = none) ∧
    (∀ a w, s.col.pc = .dropData a w → s.mem.IsWeak w → s.mem.backRef w = none) := by
  have so := sound (funded_of_noCas h)
  have wf := so.wellFormed.mem
  have safe := so.judged.safe
  refine ⟨fun w p hw hf hb => ?valid, fun w hw hb tr s' r => ?cleared, fun l s' w hs hf _ => ?freeing,
    fun a w pc hw => ?dropping⟩
  case valid =>
    refine ⟨(wf.referenced.backRef w p hw.left hb).lt, ?_⟩
    by_contra hp
    exact (safe p (Nat.pos_of_ne_zero hp)).closed w hw.left hb
  case cleared =>
    exact backRef_stays_none h.of_restrict r.of_restrict hw.left hb
  case freeing =>
    exact (so.judged.removed w (removed_of_freed hs hf).right).backRef_eq_none wf safe
  case dropping =>
    exact (safe w (freed_of_dropData h.of_restrict a w pc)).backRef_eq_none wf safe

theorem backRef_valid_upgraded : upgraded.mem.backRef 1 = some 0 ∧ upgraded.mem.freed 0 = 0 :=
  have hb : upgraded.mem.backRef 1 = some 0 := rfl
  ⟨hb, ((backRef_valid upgraded_reachable).left 1 0 (by decide) rfl hb).right⟩

end State
end Sdarc
