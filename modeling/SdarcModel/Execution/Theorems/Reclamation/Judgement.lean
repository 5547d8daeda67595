import SdarcModel.Execution.Theorems.Bookkeeping.Basic
import SdarcModel.Execution.Theorems.Reclamation.Grace

open scoped BigOperators

namespace Sdarc

-- The shards whose readers the collector has not yet seen leave, as far as the check of `c` is
-- concerned: outside of the spin and after the check, all of them.
def CollectorPc.Unseen (pc : CollectorPc n) (c : Slot) (i : Fin n) : Prop :=
  match pc with
  | .spin _ j shards    => j ≤ i.val ∨ i ∈ shards
  | .spinAgain _ shards => i ∈ shards
  | pc                  => c ∉ pc.todo

attribute [grind] CollectorPc.Unseen

namespace State

variable {n : Nat} {T C : Type} [Fintype T] [Fintype C] {s s' : State n T C} {p : Ptr} {c : Slot}

-- What the collector may conclude about a counter at each point of its check.
structure Judged (s : State n T C) : Prop where
  rechecking : ∀ c p, s.col.tracked.lookup c = some ⟨p, .requiresReChecking⟩ →
    s.mem.Observed p (s.col.pc.Unseen c)
  checking   : ∀ a c j sum p, s.col.pc = .reCheck a c j sum →
    s.col.tracked.lookup c = some ⟨p, .requiresReChecking⟩ →
    AtLeast (s.mem.word p) (Scan.rest n j) (1 - sum) ∨ s.mem.Open p ∨ s.mem.Dead p
  clearing   : ∀ a c p, (s.col.pc = .clearWeak a c ∨ ∃ w, s.col.pc = .swapBackRef a c w) →
    s.col.tracked.lookup c = some ⟨p, .requiresReChecking⟩ → s.mem.Open p ∨ s.mem.Dead p
  ready      : ∀ c p, s.col.tracked.lookup c = some ⟨p, .readyToFree⟩ → s.mem.Dead p
  removed    : ∀ p, s.col.pc.Removed p → s.mem.Dead p
  safe       : s.mem.Safe

omit [Fintype C] [Fintype T] in
theorem Judged.initial (h : s.Initial) : Judged s where
  rechecking := by simp [h.col]
  checking   := by simp [h.col]
  clearing   := by simp [h.col]
  ready      := by simp [h.col]
  removed    := by simp [h.col, CollectorPc.Removed]
  safe p     := by simp [h.mem.freed]

variable [DecidableEq T] [DecidableEq C]

theorem Judged.thread (w : WellFormed s) (f : s.mem.Funded) (b : s.mem.Balanced) (jd : Judged s)
    (st : s.mem.Step t m) (a : Act n C) : Judged { mem := m, col := s.notify t a } where
  rechecking c p h := by
    simp only [notify_tracked, notify_pc] at *
    exact (jd.rechecking c p h).step w.mem f b st (w.tracked.completed h) (w.tracked.unfreed h)
  checking a c j sum p h hl := by
    simp only [notify_tracked, notify_pc] at *
    rcases jd.checking a c j sum p h hl with ha | ho | hd
    · exact .inl (ha.later fun i _ =>
        st.word_later w.mem.slotted (w.tracked.completed hl).lt (w.tracked.unfreed hl) i)
    · exact .inr (.inl (ho.step w.mem st (w.tracked.completed hl).lt))
    · exact .inr (.inr (hd.step w.mem jd.safe st))
  clearing a c p h hl := by
    simp only [notify_tracked, notify_pc] at *
    cases jd.clearing a c p h hl
    case inl ho => exact .inl (ho.step w.mem st (w.tracked.completed hl).lt)
    case inr hd => exact .inr (hd.step w.mem jd.safe st)
  ready c p h := by
    rw [notify_tracked] at h
    exact (jd.ready c p h).step w.mem jd.safe st
  removed p h := by
    rw [notify_pc] at h
    exact (jd.removed p h).step w.mem jd.safe st
  safe p h := by
    rw [st.freed_eq] at h
    exact (jd.safe p h).step w.mem jd.safe st

omit [Fintype T] [Fintype C] [DecidableEq T] [DecidableEq C] in
-- Two objects under check do not share a `WeakSdarcInner`.
theorem Open.clearBackRef (wk : s.mem.WellWeak) {q r : Ptr} (hq : q < s.mem.next) (hne : p ≠ q)
    (hi : (s.mem.inner q).weakInnerRef = .init r) (h : s.mem.Open p) : (s.mem.clearBackRef r).Open p := by
  have ⟨v, hv, hb⟩ := h
  have := wk.init q r hq hi
  refine ⟨v, ?_, ?_⟩ <;> grind -linarith

omit [Fintype T] [Fintype C] [DecidableEq C] in
-- A shard is seen when its readers are at zero.
theorem CollectorStep.unseen (st : CollectorStep s s') {i : Fin n} (h : s.col.pc.Unseen c i) :
    s'.col.pc.Unseen c i ∨ s.mem.readers i = 0 := by
  induction st
  case spinAgainBusy => exact .inl h
  all_goals
    simp_all only [CollectorPc.Unseen, CollectorPc.todo]
    grind -linarith

omit [Fintype T] [Fintype C] [DecidableEq C] in
theorem CollectorStep.observed {U : Fin n → Prop} (w : WellFormed s) (st : CollectorStep s s') (hl : s.col.tracked.lookup c = some ⟨p, .requiresReChecking⟩)
    (hs : ∀ a r, s.col.pc ≠ .swapBackRef a c r) (h : s.mem.Observed p U) : s'.mem.Observed p U := by
  have hc := w.tracked.slot c _ hl
  induction st
  case clearTag a d j sum pc hj =>
    have hne : s.mem.counters p ≠ d :=
      hc ▸ WellScanned.visiting_ne w.visited (by simp [pc, CollectorPc.Visiting]) hl
    refine h.imp_left (·.later fun i _ => ?_)
    rw [Memory.word, Memory.word, Memory.counter_modifyCounter, if_neg (hne ·.left)]
    exact .refl _
  case swapBackRef a d r q pc old =>
    obtain ⟨o, ho, hi⟩ := w.linked.swapping a d r pc
    have hne : p ≠ o := by
      have := w.tracked.slot d _ ho
      grind -linarith
    rcases h with h | h | h
    · refine .inl (h.later fun i _ => ?_)
      rw [show (s.modifyMem _ |>.visited a d _).mem.word p = s.mem.word p by grind -linarith]
      exact .refl _
    · exact .inr (.inl (Open.clearBackRef w.mem.weak (w.tracked.completed ho).lt hne hi h))
    · exact .inr (.inr h)
  case dropWeakInit a q r pc init =>
    have hne : p ≠ q := by
      have := w.linked.dropping a q pc
      have := w.tracked.unfreed hl
      grind -linarith
    rcases h with h | ⟨v, hi, hb⟩ | h
    · refine .inl (h.later fun i _ => ?_)
      rw [show (s.modifyMem _ |>.goto (.dropData a q)).mem.word p = s.mem.word p by grind -linarith]
      exact .refl _
    · exact .inr (.inl ⟨v, by grind -linarith, by grind -linarith⟩)
    · refine .inr (.inr fun t i hr hs => h t i ?_ ?_) <;> grind -linarith
  all_goals exact h

omit [DecidableEq C] in
theorem Judged.collector (w : WellFormed s) (g : s.mem.WellGated) (f : s.mem.Funded) (b : s.mem.Balanced)
    (jd : Judged s) (idle : s.mem.pc none = .idle) (st : CollectorStep s s') : Judged s' where
  rechecking c p h := by
    by_cases hall : ∀ i, s'.col.pc.Unseen c i
    case pos => exact .of_all hall
    case neg =>
      obtain ⟨i, hi⟩ := not_forall.mp hall
      have hv := w.visited.visiting c .requiresReChecking
      have hd := w.visited.visiting c .defaultState
      have hl : s.col.tracked.lookup c = some ⟨p, .requiresReChecking⟩ := by
        induction st <;> first | exact h | contradiction | grind -linarith
      have hs a r : s.col.pc ≠ .swapBackRef a c r := by
        induction st <;> simp only [‹s.col.pc = _›, ne_eq, reduceCtorEq, not_false_eq_true] <;> grind -linarith
      refine st.observed w hl hs ((jd.rechecking c p hl).refine fun t i hi hu => ?_)
      exact (st.unseen hu).resolve_right fun h => by simp [g.idle h t] at hi
  checking a c j sum p h hl := by
    have hs := jd.checking
    induction st
    case nextReCheck a d cs q pc todo old =>
      simp only [CollectorPc.reCheck.injEq] at h
      obtain ⟨-, rfl, rfl, rfl⟩ := h
      rw [Scan.rest_zero, Int.sub_zero]
      refine (jd.rechecking _ p hl).judge w.mem f b (w.tracked.completed hl) (w.tracked.unfreed hl) fun i hu => ?_
      simp [pc, CollectorPc.Unseen, CollectorPc.todo, todo] at hu
    case reCheck a d j sum pc hj tag =>
      simp only [CollectorPc.reCheck.injEq] at h
      obtain ⟨-, rfl, rfl, rfl⟩ := h
      refine (hs _ _ _ _ p pc hl).imp_left fun ha => ?_
      rw [Scan.rest_eq hj] at ha
      have hc : s.mem.word p = s.mem.counter d := by rw [← w.tracked.slot d _ hl]
      rw [hc] at ha ⊢
      exact (ha.read (Scan.notMem_rest hj) tag).mono (by omega)
    all_goals first | contradiction | grind -linarith
  clearing a c p h hl := by
    have hc := jd.clearing a c p
    induction st
    case reCheckZero a d j sum pc hj zero =>
      have : d = c := by grind -linarith
      subst this
      refine (jd.checking a d j sum p pc hl).resolve_left fun ha => ?_
      rw [Scan.rest_of_le (Nat.le_of_not_lt hj), AtLeast, Scan.AtLeast.empty] at ha
      omega
    all_goals first | exact hc h hl | grind -linarith
  ready c p h := by
    have e := st.effect w idle
    have hr := jd.ready c p
    have hv := w.visited.visiting c .requiresReChecking
    suffices hd : s.mem.Dead p from hd.effect w.mem.referenced e
    induction st
    case clearWeakNone a d tc pc old none =>
      by_cases hd : c = d
      case neg => exact hr (by grind -linarith)
      case pos =>
        subst hd
        have hl : s.col.tracked.lookup c = some ⟨p, .requiresReChecking⟩ := by grind -linarith
        refine (jd.clearing a c p (.inl pc) hl).resolve_left fun ho => ?_
        obtain ⟨v, _, _⟩ := ho
        grind -linarith
    case swapBackRefNull a d r pc null =>
      by_cases hd : c = d
      case neg => exact hr (by grind -linarith)
      case pos =>
        subst hd
        obtain ⟨q, hq, hi⟩ := w.linked.swapping a c r pc
        have hl : s.col.tracked.lookup c = some ⟨p, .requiresReChecking⟩ := by grind -linarith
        refine (jd.clearing a c p (.inr ⟨r, pc⟩) hl).resolve_left fun ho => ?_
        obtain ⟨v, _, _⟩ := ho
        grind -linarith
    all_goals first | exact hr h | grind -linarith
  removed p h := by
    have e := st.effect w idle
    have hr := jd.removed p
    suffices hd : s.mem.Dead p from hd.effect w.mem.referenced e
    induction st
    case free a c cs q pc toFree old counters =>
      exact jd.ready c p (by grind -linarith)
    all_goals first | exact h.elim | grind -linarith
  safe p h := by
    have e := st.effect w idle
    have hr := jd.removed p
    have hs := jd.safe p
    suffices hd : s.mem.Dead p from hd.effect w.mem.referenced e
    induction st <;> first | exact hs h | grind -linarith

end State
end Sdarc
