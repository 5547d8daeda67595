import SdarcModel.Execution.Theorems.Reclamation.Basic

open scoped BigOperators

namespace Sdarc

namespace Memory

variable {n : Nat} {T C : Type} {m m' : Memory n T C} {t : Thread T} {p : Ptr}

-- An object that is still being made was never downgraded.
def WellMade (m : Memory n T C) : Prop :=
  ∀ t p, (m.pc t).Making p → (m.inner p).weakInnerRef = .uninit

theorem WellMade.initial (h : m.Initial) : WellMade m := by
  simp [WellMade, h.pc, Pc.Making]

variable [DecidableEq T]

theorem WellMade.effect (h : WellMade m) (e : Effect m m') : WellMade m' := by
  intro t p hm
  have := h t p
  cases e <;> grind -linarith

theorem Effect.total_eq (e : Effect m m') : m'.total p = m.total p := by
  cases e
  case clearTag => rw [total_modifyCounter]; simp
  case dropWeak => exact total_setWeakInnerRef ..
  case clearBackRef =>
    simp only [total, word, counters]
    grind -linarith
  all_goals rfl

variable [DecidableEq C]

theorem WellMade.step (r : WellReferenced m) (h : WellMade m) (s : Step m t m') : WellMade m' := by
  intro u p hm
  rcases s.making_cases hm with hu | ⟨_, _, _, hi⟩
  · have hi := h u p hu
    have := (r.making u p hu).left
    have := r.pc t p
    induction s <;> first | exact hi | grind -linarith
  · exact hi

-- One step changes one counter by one.
theorem Step.total_le (w : WellSlotted m) (s : Step m t m') (hp : p < m.next) (hf : m.freed p = 0) :
    m.total p ≤ m'.total p + 1 := by
  have hu := w.used p hp hf
  have ha {d c} (h : m.used c = false) : (m.alloc c d).total p = m.total p :=
    total_alloc hp (by rintro rfl; simp [hu] at h) d
  have hm c i f (h : ∀ w, w.refCount ≤ (f w).refCount + 1) : m.total p ≤ (m.modifyCounter c i f).total p + 1 := by
    rw [total_modifyCounter]
    have := h (m.counter c i)
    split <;> omega
  have hi (w : TaggedCounter) : w.refCount ≤ w.incrementRefCount.refCount + 1 := by simp; omega
  have hd (w : TaggedCounter) : w.refCount ≤ w.decrementRefCountAndSetTag.refCount + 1 := by simp
  have he (h : m'.total p = m.total p) : m.total p ≤ m'.total p + 1 := by omega
  induction s
  case new hu           => exact he (ha hu)
  case alloc hu         => exact he (ha hu)
  case newIncrement     => exact hm _ _ _ hi
  case addClone         => exact hm _ _ _ hi
  case addDowngrade     => exact hm _ _ _ hi
  case addRead          => exact hm _ _ _ hi
  case addCompareAndSet => exact hm _ _ _ hi
  case dropCas          => exact hm _ _ _ hd
  case downgradeUninit  => exact he (total_setWeakInnerRef ..)
  case downgradeSet     => exact he (total_setWeakInnerRef ..)
  all_goals exact Int.le_add_of_nonneg_right (by decide)

end Memory

namespace State

variable {n : Nat} {T C : Type} {s s' : State n T C} {p : Ptr}

-- The collector is not going to free `p` and has left its back reference alone.
structure Kept (s : State n T C) (p : Ptr) : Prop where
  lt       : p < s.mem.next
  unfreed  : s.mem.freed p = 0
  removed  : ¬s.col.pc.Removed p
  ready    : ∀ c, s.col.tracked.lookup c ≠ some ⟨p, .readyToFree⟩
  checking : ∀ a c j sum, s.col.pc = .reCheck a c j sum →
    s.col.tracked.lookup c = some ⟨p, .requiresReChecking⟩ → AtLeast (s.mem.word p) (Scan.rest n j) (1 - sum)
  clearing : ∀ a c, (s.col.pc = .clearWeak a c ∨ ∃ w, s.col.pc = .swapBackRef a c w) →
    s.col.tracked.lookup c ≠ some ⟨p, .requiresReChecking⟩
  backRef  : ∀ w, (s.mem.inner p).weakInnerRef = .init w → s.mem.backRef w = some p

variable [DecidableEq T] [DecidableEq C]

theorem Kept.thread (w : WellFormed s) (k : Kept s p) (st : s.mem.Step t m) (a : Act n C) :
    Kept { mem := m, col := s.notify t a } p where
  lt       := st.lt_next k.lt
  unfreed  := st.freed_eq ▸ k.unfreed
  removed  := by rw [notify_pc]; exact k.removed
  ready    := by simp only [notify_tracked]; exact k.ready
  checking a c j sum h hl := by
    simp only [notify_tracked, notify_pc] at *
    exact (k.checking a c j sum h hl).later fun i _ => st.word_later w.mem.slotted k.lt k.unfreed i
  clearing := by simp only [notify_tracked, notify_pc]; exact k.clearing
  backRef v h := by
    have := k.lt
    have hb := k.backRef v
    have := w.mem.referenced.weak p v k.lt
    have := w.mem.weak.makingFor t v p
    induction st <;> first | exact hb h | grind -linarith

omit [DecidableEq C] in
theorem Kept.collector (w : WellFormed s) (k : Kept s p) (pos : 0 < s.mem.total p) (st : CollectorStep s s') :
    Kept s' p where
  lt := by have := k.lt; induction st <;> exact this
  unfreed := by
    have hf := k.unfreed
    have := k.removed
    induction st <;> first | exact hf | grind -linarith
  removed := by
    have := k.removed
    have := k.ready
    induction st <;> first | exact id | grind -linarith
  ready c := by
    have hr := k.ready c
    have := fun a (pc : s.col.pc = .clearWeak a c) => k.clearing a c (.inl pc)
    have := fun a w (pc : s.col.pc = .swapBackRef a c w) => k.clearing a c (.inr ⟨w, pc⟩)
    have := w.visited.visiting c .requiresReChecking
    induction st <;> first | exact hr | grind -linarith
  checking a c j sum h hl := by
    have hs := k.checking
    induction st
    case nextReCheck a d cs q pc todo old =>
      simp only [CollectorPc.reCheck.injEq] at h
      obtain ⟨-, rfl, rfl, rfl⟩ := h
      rw [Scan.rest_zero, Int.sub_zero]
      exact .of_count pos
    case reCheck a d j sum pc hj tag =>
      simp only [CollectorPc.reCheck.injEq] at h
      obtain ⟨-, rfl, rfl, rfl⟩ := h
      have ha := hs _ _ _ _ pc hl
      rw [Scan.rest_eq hj] at ha
      have hc : s.mem.word p = s.mem.counter d := by rw [← w.tracked.slot d _ hl]
      rw [hc] at ha ⊢
      exact (ha.read (Scan.notMem_rest hj) tag).mono (by omega)
    all_goals first | contradiction | grind -linarith
  clearing a c h hl := by
    have hc := k.clearing a c
    induction st
    case reCheckZero a d j sum pc hj zero =>
      have : d = c := by grind -linarith
      subst this
      have ha := k.checking a d j sum pc hl
      rw [Scan.rest_of_le (Nat.le_of_not_lt hj), AtLeast, Scan.AtLeast.empty] at ha
      omega
    all_goals first | exact hc h | grind -linarith
  backRef v h := by
    have hb := k.backRef v
    have hf := k.unfreed
    induction st
    case swapBackRef a d r q pc old =>
      obtain ⟨o, ho, hi⟩ := w.linked.swapping a d r pc
      have hne : p ≠ o := by
        have := k.clearing a d
        grind -linarith
      have := w.mem.weak.init o r
      have := (w.tracked.completed ho).lt
      grind -linarith
    case dropWeakInit a q r pc init =>
      have := w.linked.dropping a q pc
      grind -linarith
    all_goals exact hb h

omit [DecidableEq T] [DecidableEq C] in
-- The collector does not know an object yet whose `Sdarc::new` is about to hand it over.
theorem Kept.created (w : WellFormed s) (wm : s.mem.WellMade) (pc : s.mem.pc t = .newPush p k) : Kept s p := by
  have hm := wm t p (by simp [pc, Pc.Making])
  have hn := w.tracked.never p fun h => h.made t (by simp [pc, Pc.Creating])
  have ht : s.inTracked p = 0 := by omega
  have hr : s.inRemoved p = 0 := by omega
  have hl c tc (hl : s.col.tracked.lookup c = some tc) : tc.ptr ≠ p := by
    rintro rfl
    have := w.tracked.inTracked_eq_one hl
    omega
  simp only [inRemoved] at hr
  exact {
    lt               := (w.mem.referenced.making t p (by simp [pc, Pc.Making])).left
    unfreed          := by omega
    removed h        := by simp [h] at hr
    ready c h        := hl c _ h rfl
    checking _ c _ _ _ h := absurd rfl (hl c _ h)
    clearing _ c _ h := hl c _ h rfl
    backRef v h      := by simp [hm] at h }

theorem Kept.step (w : WellFormed s) (k : Kept s p) (pos : 0 < s.mem.total p) (st : Step s l s')
    (ne : s'.mem.total p ≠ 0) : Kept s' p ∧ 0 < s'.mem.total p := by
  induction st
  case thread t m a _ st =>
    have ht : s.mem.total p ≤ m.total p + 1 := st.total_le w.mem.slotted k.lt k.unfreed
    have hn : m.total p ≠ 0 := ne
    exact ⟨k.thread w st a, show 0 < m.total p by omega⟩
  case collector idle st =>
    have ht := (st.effect w idle).total_eq (p := p)
    exact ⟨k.collector w pos st, by omega⟩

theorem Kept.init_step (w : WellFormed s) (k : Kept s p) (st : Step s l s')
    (h : (s.mem.inner p).weakInnerRef = .init v) : (s'.mem.inner p).weakInnerRef = .init v := by
  induction st
  case thread st => exact w.mem.weak.init_step st k.lt h
  case collector idle st =>
    have hf := k.unfreed
    induction st
    case dropWeakInit a q _ pc init =>
      have := w.linked.dropping a q pc
      grind -linarith
    all_goals first | exact h | grind -linarith

-- The runs in which the counter sum of `p` is never zero.
def systemCounted [Fintype T] (p : Ptr) : System (State n T C) (Label n T C) :=
  system n T C |>.restrict fun s _ s' => s.mem.total p ≠ 0 ∧ s'.mem.total p ≠ 0

-- What holds of `p` while its counter sum has never been zero.
structure Counted (s : State n T C) (p : Ptr) : Prop where
  wellFormed : WellFormed s
  kept       : Kept s p
  pos        : 0 < s.mem.total p

variable [Fintype T]

theorem Counted.step (h : Counted s p) (st : (systemCounted p).Step s l s') : Counted s' p := by
  obtain ⟨st, -, ne⟩ := st
  have hk := h.kept.step h.wellFormed h.pos (.of_next st) ne
  exact ⟨h.wellFormed.step (.of_next st), hk.left, hk.right⟩

theorem Counted.init_of_run (r : (systemCounted p).Run s tr s') (h : Counted s p)
    (hi : (s.mem.inner p).weakInnerRef = .init v) : (s'.mem.inner p).weakInnerRef = .init v := by
  refine (r.invariant (I := fun s => Counted s p ∧ (s.mem.inner p).weakInnerRef = .init v) ⟨h, hi⟩ ?_).right
  rintro s₁ l s₂ ⟨h, hi⟩ st
  exact ⟨h.step st, h.kept.init_step h.wellFormed (.of_next st.left) hi⟩

theorem wellMade (h : (system n T C).Reachable s) : s.mem.WellMade := by
  refine h.invariant_with (I := (·.mem.WellMade)) (fun _ => wellFormed) (fun _ h => .initial h.mem) ?_
  rintro s₁ l s₂ w - h st
  cases Step.of_next st
  case thread hm            => exact h.step w.mem.referenced hm
  case collector idle hs    => exact h.effect (hs.effect w idle)

-- The first increment puts the counter sum from zero to one.
theorem Counted.created (h : (system n T C).Reachable x) (pc : x.mem.pc t = .newIncrement p k)
    (fresh : x.mem.total p = 0) (st : x.next (.thread t (.run i)) = some y) : Counted y p := by
  have hy : (system n T C).Reachable y := h.step st
  have hm : y.mem = (x.mem.modifyCounter (x.mem.counters p) i .incrementRefCount |>.setPc t (.newPush p k)) := by
    simp only [next, pc, reduceCtorEq, false_and, if_false, Memory.threadStep, Memory.run, Option.map_some,
      Option.some.injEq] at st
    rw [← st]
  refine ⟨State.wellFormed hy, .created (t := t) (k := k) (State.wellFormed hy) (wellMade hy) (by simp [hm]), ?_⟩
  have ht : y.mem.total p = x.mem.total p + 1 := by
    rw [hm]
    refine (Memory.total_modifyCounter ..).trans ?_
    simp
  omega

-- The call of `t`, which has loaded `p` from `src` in the section on shard `i`, returns it with the
-- `k`th of its next steps.
def Returns (s : State n T C) (t : Thread T) (src : Source C) (i : Fin n) (p : Ptr) : Nat → Prop
  | 3 => s.mem.pc t = .incrRead p (.read src i)
  | 2 => ∃ c j, s.mem.pc t = .incrAdd p c j (.read src i)
  | 1 => s.mem.pc t = .readLeave src i (some p)
  | _ => True

end State

def Label.isOf [DecidableEq T] (t : Thread T) : Label n T C → Bool
  | .thread u _ => u = t
  | .collector  => false

namespace State

variable {n : Nat} {T C : Type} [DecidableEq T] [DecidableEq C] {s s' : State n T C} {p : Ptr}

omit [DecidableEq C] in
-- The collector's own code moves none of the calls in progress.
theorem CollectorStep.pc_eq (st : CollectorStep s s') (idle : s.mem.pc none = .idle) (h : s.mem.pc t ≠ .idle) :
    s'.mem.pc t = s.mem.pc t := by
  induction st
  case dropWeakInit => exact Function.update_of_ne (by rintro rfl; exact h idle) ..
  all_goals rfl

omit [DecidableEq T] [DecidableEq C] in
theorem Returns.congr (h : s.Returns t src i p k) (pc : s'.mem.pc t = s.mem.pc t) : s'.Returns t src i p k := by
  unfold Returns at *
  simpa only [pc] using h

omit [DecidableEq T] [DecidableEq C] in
theorem Returns.ne_idle (h : s.Returns t src i p (k + 1)) (hk : k < 3) : s.mem.pc t ≠ .idle := by
  intro pc
  match k, hk with
  | 0, _ | 1, _ | 2, _ => simp [Returns, pc] at h

theorem Returns.step (h : s.Returns t src i p (k + 1)) (hk : k < 3) (st : Step s l s') :
    s'.Returns t src i p (if l.isOf t then k else k + 1) := by
  induction st
  case thread u m a _ st =>
    by_cases hu : u = t
    case neg =>
      simp only [Label.isOf, hu, decide_false, Bool.false_eq_true, if_false]
      exact h.congr (by rw [st.pc_eq, Function.update_of_ne (Ne.symm hu)])
    case pos =>
      subst hu
      simp only [Label.isOf, decide_true, if_true]
      match k, hk with
      | 0, _ => trivial
      | 1, _ =>
        obtain ⟨c, j, pc⟩ := h
        induction st <;> simp_all [Returns]
      | 2, _ =>
        have pc : s.mem.pc u = .incrRead p (.read src i) := h
        induction st <;> simp_all [Returns]
  case collector idle st =>
    simp only [Label.isOf, Bool.false_eq_true, if_false]
    exact h.congr (st.pc_eq idle (h.ne_idle hk))

-- The last of the steps returns.
theorem Returns.enabled [Fintype T] (h : s.Returns t src i p (k + 1)) (hk : k < 3) (j : Fin n) :
    ∃ s', s.next (.thread t (.run j)) = some s' ∧
      (k = 0 → s'.mem.pc t = .idle ∧ s'.mem.handles p = s.mem.handles p + 1) := by
  match k, hk with
  | 0, _ =>
    have pc : s.mem.pc t = .readLeave src i (some p) := h
    simp [next, Memory.threadStep, Memory.run, pc]
  | 1, _ =>
    obtain ⟨c, j, pc⟩ := h
    simp [next, Memory.threadStep, Memory.run, pc]
  | 2, _ =>
    have pc : s.mem.pc t = .incrRead p (.read src i) := h
    simp [next, Memory.threadStep, Memory.run, pc]

-- The call is delayed by the others' steps but goes on with its own.
theorem Returns.of_run [Fintype T] (r : (system n T C).Run s tr s') (h : s.Returns t src i p (k + 1)) (hk : k < 3)
    (hc : tr.countP (·.2.isOf t) ≤ k) : s'.Returns t src i p (k + 1 - tr.countP (·.2.isOf t)) := by
  induction r generalizing k
  case refl => exact h
  case step s₁ l s₂ tr s₃ stp _ ih =>
    have hs := h.step hk (.of_next stp)
    rw [List.countP_cons] at hc ⊢
    cases hl : l.isOf t <;> simp only [hl, Bool.false_eq_true, if_false, if_true] at hs hc ⊢
    case false => exact ih hs hk hc
    case true =>
      obtain ⟨k, rfl⟩ : ∃ k', k = k' + 1 := ⟨k - 1, by omega⟩
      have := ih hs (by omega) (by omega)
      rwa [show k + 1 + 1 - (tr.countP (·.2.isOf t) + 1) = k + 1 - tr.countP (·.2.isOf t) by omega]

omit [DecidableEq T] [DecidableEq C] in
-- An object that is being made has no owner yet, so that its counters are as new.
theorem total_eq_zero_of_making [Fintype T] [Fintype C] (w : WellFormed s) (b : s.mem.Balanced)
    (pc : s.mem.pc t = .newIncrement p k) : s.mem.total p = 0 := by
  have r := w.mem.referenced
  have hm : (s.mem.pc t).Making p := by simp [pc, Pc.Making]
  have hn : ¬s.mem.Published p := fun h => h.made t hm
  have hf : s.mem.freed p = 0 := by
    have := w.tracked.never p fun h => h.made t (by simp [pc, Pc.Creating])
    simp only [inRemoved] at this
    omega
  have hp : s.mem.Unowned p := {
    handles   := Nat.eq_zero_of_not_pos (mt (r.handles p) hn)
    cell x    := mt (r.cell x p) hn
    weak q hq := mt (r.weak q p hq) hn
    owns u    := by
      refine eq_false_of_ne_true fun h => ?_
      have := (Pc.mentions_of_owns h).resolve_left (mt (r.pc u p) hn)
      have := (r.making t p hm).right u this
      grind -linarith
    owes u    := eq_false_of_ne_true fun h => hn (r.pc u p (Pc.mentions_of_owes h)) }
  exact hp.balance_eq.symm.trans (b p (r.making t p hm).left hf)

-- Nobody changes the counters of an object after it was freed.
def Defined (s : State n T C) : Label n T C → Prop
  | .thread t _ => ∀ p, (s.mem.pc t).Counts p → s.mem.freed p = 0
  | .collector  => True

theorem balanced_of_defined [Fintype T] [Fintype C]
    (h : (system n T C |>.restrict fun s l _ => s.Defined l).Reachable s) : s.mem.Balanced := by
  refine h.invariant_with (I := (·.mem.Balanced)) (fun _ h => wellFormed h.of_restrict)
    (fun _ h => .initial h.mem) ?_
  rintro s₁ l s₂ w - b ⟨st, hd⟩
  cases Step.of_next st
  case thread hm         => exact b.step w.mem.referenced w.mem.slotted w.mem.weak hd hm
  case collector idle hs => exact b.effect w.mem.referenced (hs.effect w idle)

-- Only changing a counter after free can keep `SdarcInner::new` from finding its counters as new.
theorem fresh_of_defined [Fintype T] [Fintype C]
    (h : (system n T C |>.restrict fun s l _ => s.Defined l).Reachable s) (pc : s.mem.pc t = .newIncrement p k) :
    s.mem.total p = 0 :=
  total_eq_zero_of_making (wellFormed h.of_restrict) (balanced_of_defined h) pc

-- The object of `upgrades`, right before its first increment, right after it, and right before and
-- right after the load of its back reference.
def creating : State 1 Bool Unit :=
  (System.exec next empty (upgrades.take 1)).getD empty

def counted : State 1 Bool Unit :=
  (System.exec next creating (runs true 1)).getD empty

def loading : State 1 Bool Unit :=
  (System.exec next counted ((upgrades.drop 2).take 10)).getD empty

def loaded : State 1 Bool Unit :=
  (System.exec next loading (runs true 1)).getD empty

end State
end Sdarc
