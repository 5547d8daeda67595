import SdarcModel.Execution.Ownership
import SdarcModel.Execution.Theorems.Reclamation.Drop

open scoped BigOperators

namespace Sdarc

namespace Memory

variable {n : Nat} {T C : Type} {m m' : Memory n T C} {t : Thread T} {p : Ptr}

-- What a step of `t` leaves of the references to `p`.
structure Shrinks (m m' : Memory n T C) (t : Thread T) (p : Ptr) : Prop where
  handles : m'.handles p ≤ m.handles p
  cell    : ∀ x, m'.cell x = some p → m.cell x = some p
  weak    : ∀ q, q < m'.next → (m'.inner q).weakInnerRef = .init p →
    q < m.next ∧ (m.inner q).weakInnerRef = .init p
  reads   : ∀ src i, m'.pc t = .readLoad src i → m'.read src ≠ some p

variable [DecidableEq T] [DecidableEq C]

-- A call that avoids `p` does not get hold of it.
theorem Shrinks.of_start [Fintype T] {S : Finset Ptr} (hp : p ∈ S) {a : Act n C} (av : a.Avoids S m)
    (pc : m.pc t = .idle) (h : m.start t a = some m') : Shrinks m m' t p ∧ ¬(m'.pc t).Mentions p := by
  cases a <;> simp only [start, Option.ite_none_right_eq_some, Option.some.injEq, reduceCtorEq] at h
  case load x i =>
    subst h
    have := av p hp
    exact ⟨⟨le_rfl, fun _ => id, fun _ hq h => ⟨hq, h⟩, by grind -linarith⟩, by grind -linarith⟩
  case store x r =>
    obtain ⟨_, rfl⟩ := h
    have := av p hp
    cases hx : m.cell x <;> simp only [dropNullable] <;> exact ⟨by constructor <;> grind -linarith, by grind -linarith⟩
  case compareAndSet x r v =>
    obtain ⟨_, rfl⟩ := h
    have := av p hp
    simp only [compareExchange]
    split
    case isFalse => exact ⟨by constructor <;> grind -linarith, by grind -linarith⟩
    case isTrue  => cases v <;> exact ⟨by constructor <;> grind -linarith, by grind -linarith⟩
  all_goals
    obtain ⟨_, rfl⟩ := h
    simp only [Act.Avoids] at av
    exact ⟨by constructor <;> grind -linarith, by grind -linarith⟩

-- Nor does a call in progress that has not got hold of it.
theorem Shrinks.of_running (s : Step m t m') (hi : m.pc t ≠ .idle) (hp : m.Published p) (hm : ¬(m.pc t).Mentions p)
    (hr : ∀ src i, m.pc t = .readLoad src i → m.read src ≠ some p)
    (hw : ∀ q, m.pc t = .downgradeGet q → (m.inner q).weakInnerRef ≠ .init p) :
    Shrinks m m' t p ∧ ¬(m'.pc t).Mentions p := by
  have := hp.made t
  have := hp.lt
  induction s <;> first | exact absurd ‹_› hi | refine ⟨⟨?_, ?_, ?_, ?_⟩, ?_⟩
  all_goals first | exact le_rfl | exact fun _ => id | exact fun _ hq h => ⟨hq, h⟩ | grind -linarith

-- A drop of `p` goes on.
theorem Shrinks.of_dropping (s : Step m t m') (hd : (m.pc t).dropping p = true) :
    Shrinks m m' t p ∧ ((m'.pc t).Mentions p → (m'.pc t).dropping p = true) := by
  refine ⟨⟨?handles, ?cell, ?weak, ?reads⟩, ?mentions⟩
  case handles  => induction s <;> simp_all [Pc.dropping]
  case cell     => induction s <;> simp_all [Pc.dropping]
  case weak     => induction s <;> simp_all [Pc.dropping]
  case reads    => induction s <;> simp_all [Pc.dropping]
  case mentions => induction s <;> simp_all [Pc.dropping, Pc.Mentions]

theorem Step.backRef_eq (s : Step m t m') (hw : w < m.next) : m'.backRef w = m.backRef w := by
  induction s <;> first | rfl | grind -linarith

theorem Shrinks.read (r : WellReferenced m) (sh : Shrinks m m' t p) (s : Step m t m') (pc : m.pc u = .readLoad src i)
    (h : m'.read src = some p) : m.read src = some p := by
  cases src
  case cell x => exact sh.cell x h
  case weak w => exact (s.backRef_eq (r.pc u w (by simp [pc, Pc.Mentions])).lt).symm.trans h

theorem start_of_idle [Fintype T] (pc : m.pc t = .idle) (h : m.threadStep t a = some m') : m.start t a = some m' := by
  cases a <;> simp_all [threadStep, run]

end Memory

namespace State

variable {n : Nat} {T C : Type} {s s' : State n T C} {o : Ownership C} {S : Finset Ptr} {ℓ : Ptr → Nat} {p : Ptr}

-- The payload of an object below `p` is being dropped, on the collector thread.
def DropsBelow (s : State n T C) (S : Finset Ptr) (ℓ : Ptr → Nat) (p : Ptr) : Prop :=
  ∃ a q, s.col.pc = .dropData a q ∧ q ∈ S ∧ ℓ q < ℓ p

-- Whatever refers to an object of `S` is owned by one of a lower level that is not destroyed, or is being
-- dropped with its payload.
structure Enclosed (o : Ownership C) (S : Finset Ptr) (ℓ : Ptr → Nat) (s : State n T C) : Prop where
  published : ∀ p ∈ S, s.mem.Published p
  reads     : ∀ p ∈ S, ∀ t src i, s.mem.pc t = .readLoad src i → s.mem.read src ≠ some p
  calls     : ∀ p ∈ S, ∀ t, (s.mem.pc t).Mentions p →
    t = none ∧ (s.mem.pc t).dropping p = true ∧ s.DropsBelow S ℓ p
  handles   : ∀ p ∈ S, s.mem.handles p ≤ ∑ q ∈ S with ¬s.Destroyed q, o.sdarcs q p
  cells     : ∀ p ∈ S, ∀ x, s.mem.cell x = some p →
    ∃ q ∈ S, o.cells x = some q ∧ ℓ q < ℓ p ∧ ¬s.Destroyed q
  weak      : ∀ p ∈ S, ∀ q, q < s.mem.next → (s.mem.inner q).weakInnerRef = .init p →
    q ∈ S ∧ ℓ q < ℓ p ∧ (s.mem.freed q = 0 ∨ ∃ a, s.col.pc = .dropWeak a q)

variable [DecidableEq T] [Fintype T] [DecidableEq C]

theorem Enclosed.drops (e : Enclosed o S ℓ s) (hℓ : ∀ q ∈ S, ∀ p ∈ S, 0 < o.sdarcs q p → ℓ q < ℓ p) (hp : p ∈ S)
    (hd : o.Drops S s a) (h : s.mem.start none a = some m) :
    s.mem.Shrinks m none p ∧ ((m.pc none).Mentions p → (m.pc none).dropping p = true ∧ s.DropsBelow S ℓ p) := by
  unfold Ownership.Drops at hd
  split at hd
  case h_1 r =>
    obtain ⟨q, hq, hd, ho⟩ := hd
    obtain ⟨a, pc⟩ := CollectorPc.dropsData_iff.mp hd
    simp only [Memory.start, Option.ite_none_right_eq_some, Option.some.injEq] at h
    obtain ⟨-, rfl⟩ := h
    refine ⟨⟨by grind -linarith, fun _ => id, fun _ hq h => ⟨hq, h⟩, by simp⟩, fun hm => ?_⟩
    obtain rfl : r = p := by simpa [Pc.Mentions] using hm
    exact ⟨by simp [Pc.dropping], a, q, pc, hq, hℓ q hq r hp ho⟩
  case h_2 x =>
    obtain ⟨q, hq, hd, ho⟩ := hd
    obtain ⟨a, pc⟩ := CollectorPc.dropsData_iff.mp hd
    simp only [Memory.start, Option.ite_none_right_eq_some, Option.some.injEq] at h
    obtain ⟨-, rfl⟩ := h
    cases hx : s.mem.cell x <;> simp only [Memory.dropNullable]
    case none => exact ⟨⟨by grind -linarith, by grind -linarith, fun _ hq h => ⟨hq, h⟩, by simp⟩, by simp [Pc.Mentions]⟩
    case some r =>
      refine ⟨⟨by grind -linarith, by grind -linarith, fun _ hq h => ⟨hq, h⟩, by simp⟩, fun hm => ?_⟩
      obtain rfl : r = p := by simpa [Pc.Mentions] using hm
      obtain ⟨q', -, ho', hq', -⟩ := e.cells r hp x hx
      obtain rfl : q = q' := by simpa [ho] using ho'
      exact ⟨by simp [Pc.dropping], a, q, pc, hq, hq'⟩
  case h_3 => exact hd.elim

theorem Enclosed.shrinks (w : WellFormed s) (e : Enclosed o S ℓ s)
    (hℓ : ∀ q ∈ S, ∀ p ∈ S, 0 < o.sdarcs q p → ℓ q < ℓ p) (hp : p ∈ S)
    (iso : o.Isolated S s (.thread t a)) (h : s.mem.threadStep t a = some m) :
    s.mem.Shrinks m t p ∧ ((m.pc t).Mentions p → t = none ∧ (m.pc t).dropping p = true ∧ s.DropsBelow S ℓ p) := by
  have st := Memory.Step.of_threadStep h
  by_cases hi : s.mem.pc t = .idle
  case pos =>
    have h := Memory.start_of_idle hi h
    cases iso
    case inl av =>
      have hs := Memory.Shrinks.of_start hp av hi h
      exact ⟨hs.left, fun h => absurd h hs.right⟩
    case inr hd =>
      obtain ⟨rfl, hd⟩ := hd
      have hs := e.drops hℓ hp hd h
      exact ⟨hs.left, fun h => ⟨rfl, hs.right h⟩⟩
  case neg =>
    by_cases hm : (s.mem.pc t).Mentions p
    case pos =>
      obtain ⟨rfl, hd, hb⟩ := e.calls p hp t hm
      have hs := Memory.Shrinks.of_dropping st hd
      exact ⟨hs.left, fun h => ⟨rfl, hs.right h, hb⟩⟩
    case neg =>
      have hs := Memory.Shrinks.of_running st hi (e.published p hp) hm (e.reads p hp t) fun q pc hw => ?_
      exact ⟨hs.left, fun h => absurd h hs.right⟩
      -- Nobody downgrades an object whose `weak_inner_ref` is in `S`, which is one of `S` itself.
      have hq : (s.mem.pc t).Mentions q := by simp [pc, Pc.Mentions]
      have hq' := (e.weak p hp q (w.mem.referenced.pc t q hq).lt hw).left
      have := (e.calls q hq' t hq).right.left
      simp [pc, Pc.dropping] at this

theorem Enclosed.thread (w : WellFormed s) (e : Enclosed o S ℓ s)
    (hℓ : ∀ q ∈ S, ∀ p ∈ S, 0 < o.sdarcs q p → ℓ q < ℓ p)
    (ready : s.mem.pc t = .idle → s.mayStart t = true) (iso : o.Isolated S s (.thread t a))
    (h : s.mem.threadStep t a = some m) : Enclosed o S ℓ { mem := m, col := s.notify t a } := by
  have st := Memory.Step.of_threadStep h
  have hpc : m.pc = Function.update s.mem.pc t (m.pc t) := st.pc_eq
  have sh p (hp : p ∈ S) := e.shrinks w hℓ hp iso h
  have hd q : State.Destroyed { mem := m, col := s.notify t a } q ↔ s.Destroyed q := by
    simp only [Destroyed, st.freed_eq, notify_pc]
  constructor <;> simp only [hd, DropsBelow, notify_pc, st.freed_eq]
  case published => exact fun p hp => (e.published p hp).step st
  case reads =>
    intro p hp u src i pc
    by_cases hu : u = t
    case pos => exact (sh p hp).left.reads src i (hu ▸ pc)
    case neg =>
      rw [hpc, Function.update_of_ne hu] at pc
      exact fun hr => e.reads p hp u src i pc ((sh p hp).left.read w.mem.referenced st pc hr)
  case calls =>
    intro p hp u hm
    by_cases hu : u = t
    case pos => subst hu; exact (sh p hp).right hm
    case neg =>
      rw [hpc, Function.update_of_ne hu] at hm ⊢
      exact e.calls p hp u hm
  case handles => exact fun p hp => (sh p hp).left.handles.trans (e.handles p hp)
  case cells => exact fun p hp x hx => e.cells p hp x ((sh p hp).left.cell x hx)
  case weak =>
    intro p hp q hq hw
    obtain ⟨hq, hw⟩ := (sh p hp).left.weak q hq hw
    exact e.weak p hp q hq hw

omit [Fintype T] [DecidableEq C] in
theorem CollectorStep.destroyed (st : CollectorStep s s') (h : s'.Destroyed p) :
    s.Destroyed p ∨ ∃ a, s.col.pc = .dropData a p := by
  obtain ⟨hf, hd⟩ := h
  induction st <;> simp_all [Destroyed, CollectorPc.dropsInner]
  all_goals grind -linarith

omit [Fintype T] [DecidableEq C] in
theorem CollectorStep.of_dropData (st : CollectorStep s s') (pc : s.col.pc = .dropData a q) : s' = s.goto (.free a) := by
  induction st <;> simp_all

omit [Fintype T] [DecidableEq C] in
theorem CollectorStep.handles_eq (st : CollectorStep s s') : s'.mem.handles = s.mem.handles := by
  induction st <;> rfl

omit [Fintype T] [DecidableEq C] in
theorem Enclosed.collector (w : WellFormed s) (e : Enclosed o S ℓ s) (iso : o.Isolated S s .collector)
    (idle : s.mem.pc none = .idle) (st : CollectorStep s s') : Enclosed o S ℓ s' := by
  have ef := st.effect w idle
  have hn p (hp : p ∈ S) t : ¬(s.mem.pc t).Mentions p := fun hm => by
    obtain ⟨rfl, hd, -⟩ := e.calls p hp t hm
    simp [idle, Pc.dropping] at hd
  have hi a q (pc : s.col.pc = .dropData a q) (hq : q ∈ S) : o.Dropped S s.mem q :=
    iso q hq (CollectorPc.dropsData_iff.mpr ⟨a, pc⟩)
  constructor
  case published => exact fun p hp => (e.published p hp).effect ef
  case reads =>
    intro p hp t src i pc
    have := e.reads p hp t src i
    cases src <;> induction st <;> first | exact this pc | grind -linarith
  case calls =>
    intro p hp t hm
    have := hn p hp t
    induction st
    case dropWeakInit a q r pc init =>
      by_cases ht : t = none
      case neg => grind -linarith
      case pos =>
        obtain rfl : r = p := by simpa [ht, Pc.Mentions] using hm
        have hq := w.mem.referenced.freed q (w.linked.dropping a q pc)
        have hw := e.weak r hp q hq init
        exact ⟨ht, by simp [ht, Pc.dropping], a, q, rfl, hw.left, hw.right.left⟩
    all_goals exact absurd hm this
  case handles =>
    intro p hp
    rw [st.handles_eq]
    by_cases hd : ∃ a q, s.col.pc = .dropData a q ∧ q ∈ S
    case pos =>
      obtain ⟨a, q, pc, hq⟩ := hd
      rw [(hi a q pc hq).left p hp, st.of_dropData pc]
      refine Finset.sum_le_sum_of_subset fun r hr => ?_
      rw [Finset.mem_filter] at hr ⊢
      exact ⟨hr.left, fun h => absurd hr.right h.left.ne'⟩
    case neg =>
      refine (e.handles p hp).trans (Finset.sum_le_sum_of_subset fun r hr => ?_)
      rw [Finset.mem_filter] at hr ⊢
      refine ⟨hr.left, fun h => ?_⟩
      obtain ⟨a, pc⟩ := st.destroyed h |>.resolve_left hr.right
      exact hd ⟨a, r, pc, hr.left⟩
  case cells =>
    intro p hp x hx
    have hx' : s.mem.cell x = some p := by induction st <;> exact hx
    obtain ⟨q, hq, ho, hl, hd⟩ := e.cells p hp x hx'
    refine ⟨q, hq, ho, hl, fun h => ?_⟩
    obtain ⟨a, pc⟩ := st.destroyed h |>.resolve_left hd
    simp [(hi a q pc hq).right x ho] at hx'
  case weak =>
    intro p hp q hq hw
    have := e.weak p hp q
    have unfreed (h : (s.mem.inner q).weakInnerRef = .init p) (hd : ∀ a, s.col.pc ≠ .dropWeak a q) :
        q ∈ S ∧ ℓ q < ℓ p ∧ s.mem.freed q = 0 := by
      obtain ⟨hS, hl, hf⟩ := this (st.next_eq ▸ hq) h
      exact ⟨hS, hl, hf.resolve_right fun h => h.elim hd⟩
    induction st
    case dropInner a r pc =>
      by_cases hr : q = r
      case pos => subst hr; exact ⟨(this hq hw).left, (this hq hw).right.left, .inr ⟨a, rfl⟩⟩
      case neg => grind -linarith
    case swapBackRef | dropWeakInit | dropWeakNone => grind -linarith
    all_goals
      obtain ⟨hS, hl, hf⟩ := unfreed hw (by simp [‹s.col.pc = _›])
      exact ⟨hS, hl, .inl hf⟩

end State
end Sdarc
