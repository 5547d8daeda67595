import SdarcModel.Execution.Theorems.Bookkeeping.Places

namespace Sdarc

namespace CollectorPc

-- What the pass has yet to look at.
def todo : CollectorPc n → List Slot
  | .next a | .readSum a _ _ _ | .clearTags a _ _ _ | .reCheck a _ _ _ | .clearWeak a _
  | .swapBackRef a _ _ => a.todo
  | _ => []

-- What the pass has found ready to free and not yet freed.
def toFree : CollectorPc n → List Slot
  | .next a | .readSum a _ _ _ | .clearTags a _ _ _ | .reCheck a _ _ _ | .clearWeak a _
  | .swapBackRef a _ _ | .free a | .dropInner a _ | .dropWeak a _ | .dropData a _ => a.toFree
  | _ => []

-- The call of `update_state` in progress: on which counters, and in which state.
def Visiting : CollectorPc n → Slot → TrackedCounterState → Prop
  | .readSum _ c _ _, d, st | .clearTags _ c _ _, d, st => c = d ∧ st = .defaultState
  | .reCheck _ c _ _, d, st | .clearWeak _ c, d, st | .swapBackRef _ c _, d, st =>
    c = d ∧ st = .requiresReChecking
  | _, _, _ => False

attribute [grind] todo toFree Visiting Pass.visit

end CollectorPc

namespace State

variable {n : Nat} {T C : Type} {s s' : State n T C} {p : Ptr} {c : Slot}

-- The states of the tracked counters fit the pass: what is ready to free is what the pass is going to
-- free, and what it visits has not been visited before.
structure WellVisited (s : State n T C) : Prop where
  ready    : ∀ c p, s.col.tracked.lookup c = some ⟨p, .readyToFree⟩ → c ∈ s.col.pc.toFree
  toFree   : ∀ c ∈ s.col.pc.toFree, ∃ p, s.col.tracked.lookup c = some ⟨p, .readyToFree⟩
  nodup    : s.col.pc.toFree.Nodup
  todo     : s.col.pc.todo.Nodup
  disjoint : ∀ c ∈ s.col.pc.todo, c ∉ s.col.pc.toFree
  visiting : ∀ c st, s.col.pc.Visiting c st →
    c ∉ s.col.pc.todo ∧ ∃ p, s.col.tracked.lookup c = some ⟨p, st⟩

-- What the collector goes on with when it clears a back reference or drops an inner.
structure WellLinked (s : State n T C) : Prop where
  swapping : ∀ a c w, s.col.pc = .swapBackRef a c w →
    ∃ p, s.col.tracked.lookup c = some ⟨p, .requiresReChecking⟩ ∧ (s.mem.inner p).weakInnerRef = .init w
  dropping : ∀ a p, s.col.pc = .dropWeak a p → 0 < s.mem.freed p

variable [DecidableEq T] [DecidableEq C]

namespace WellVisited

omit [DecidableEq T] [DecidableEq C] in
theorem thread (v : WellVisited s) (t : Thread T) (a : Act n C) :
    WellVisited { mem := m, col := s.notify t a } := by
  constructor <;> simp only [notify_pc, notify_tracked]
  case ready    => exact v.ready
  case toFree   => exact v.toFree
  case nodup    => exact v.nodup
  case todo     => exact v.todo
  case disjoint => exact v.disjoint
  case visiting => exact v.visiting

omit [DecidableEq C]

theorem ready_step (v : WellVisited s) (st : CollectorStep s s') (np : ∀ e, s'.col.pc ≠ .panicked e)
    (h : s'.col.tracked.lookup c = some ⟨p, .readyToFree⟩) : c ∈ s'.col.pc.toFree := by
  have hr := v.ready c p
  have hv := v.visiting c
  induction st <;> simp only [‹s.col.pc = _›, CollectorPc.toFree, CollectorPc.Visiting] at hr hv ⊢ <;> grind -linarith

theorem toFree_step (v : WellVisited s) (st : CollectorStep s s') (h : c ∈ s'.col.pc.toFree) :
    ∃ p, s'.col.tracked.lookup c = some ⟨p, .readyToFree⟩ := by
  have hn := v.nodup
  have hf := v.toFree c
  have hd := v.visiting c .defaultState
  have hv := v.visiting c .requiresReChecking
  have hl p (h : s.col.tracked.lookup c = some ⟨p, .requiresReChecking⟩) :
      (s.col.tracked.setState c .readyToFree).lookup c = some ⟨p, .readyToFree⟩ :=
    TrackedCounters.lookup_setState_self h
  induction st <;> simp only [‹s.col.pc = _›, CollectorPc.toFree, CollectorPc.Visiting] at h hn hf hd hv <;>
    grind -linarith

theorem nodup_step (v : WellVisited s) (st : CollectorStep s s') : s'.col.pc.toFree.Nodup := by
  have hn := v.nodup
  have hv c (h : s.col.pc.Visiting c .requiresReChecking) : c ∉ s.col.pc.toFree := fun hc => by
    have := v.toFree c hc
    have := v.visiting c _ h
    grind -linarith
  induction st
  case clearWeakNone a c _ pc _ _ =>
    have := hv c (by simp [pc, CollectorPc.Visiting])
    simp_all [CollectorPc.toFree, Pass.visit, List.nodup_append]
    grind -linarith
  case swapBackRefNull a c _ pc _ =>
    have := hv c (by simp [pc, CollectorPc.Visiting])
    simp_all [CollectorPc.toFree, Pass.visit, List.nodup_append]
    grind -linarith
  all_goals
    simp only [‹s.col.pc = _›, CollectorPc.toFree] at hn ⊢
    grind -linarith

theorem todo_step (v : WellVisited s) (st : CollectorStep s s') : s'.col.pc.todo.Nodup := by
  have ht := v.todo
  induction st
  case startAll      => exact Finset.nodup_ascending s.col.tracked.keys.toFinset
  case startSpecific => exact Finset.nodup_ascending _
  all_goals
    simp only [‹s.col.pc = _›, CollectorPc.todo] at ht ⊢
    grind -linarith

theorem disjoint_step (v : WellVisited s) (st : CollectorStep s s') (h : c ∈ s'.col.pc.todo) :
    c ∉ s'.col.pc.toFree := by
  have hd := v.disjoint c
  have hv := v.visiting c .requiresReChecking
  induction st <;>
    simp only [‹s.col.pc = _›, CollectorPc.todo, CollectorPc.toFree, CollectorPc.Visiting] at h hd hv ⊢ <;>
    grind -linarith

theorem visiting_step (v : WellVisited s) (st : CollectorStep s s') (h : s'.col.pc.Visiting c state) :
    c ∉ s'.col.pc.todo ∧ ∃ p, s'.col.tracked.lookup c = some ⟨p, state⟩ := by
  have hv := v.visiting c state
  have ht := v.todo
  induction st <;> simp only [‹s.col.pc = _›, CollectorPc.todo, CollectorPc.Visiting] at h hv ht ⊢ <;> grind -linarith

theorem collector (v : WellVisited s) (st : CollectorStep s s') (np : ∀ e, s'.col.pc ≠ .panicked e) :
    WellVisited s' where
  ready _ _    := v.ready_step st np
  toFree _     := v.toFree_step st
  nodup        := v.nodup_step st
  todo         := v.todo_step st
  disjoint _   := v.disjoint_step st
  visiting _ _ := v.visiting_step st

end WellVisited

namespace WellLinked

theorem thread (wk : s.mem.WellWeak) (w : WellTracked s) (l : WellLinked s) (st : s.mem.Step t m)
    (a : Act n C) : WellLinked { mem := m, col := s.notify t a } where
  swapping a c r h := by
    rw [notify_pc] at h
    have ⟨p, hl, hi⟩ := l.swapping a c r h
    exact ⟨p, by rwa [notify_tracked], wk.init_step st (w.completed hl).lt hi⟩
  dropping a p h := by
    rw [notify_pc] at h
    exact st.freed_eq ▸ l.dropping a p h

omit [DecidableEq C] in
theorem collector (v : WellVisited s) (l : WellLinked s) (st : CollectorStep s s') : WellLinked s' where
  swapping a c r h := by
    have := v.visiting c .requiresReChecking
    have := l.swapping a c r
    induction st <;> grind -linarith
  dropping a p h := by
    have := l.dropping a p
    induction st <;> grind -linarith

end WellLinked

end State
end Sdarc
