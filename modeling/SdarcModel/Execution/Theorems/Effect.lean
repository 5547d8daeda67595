import SdarcModel.Execution.Theorems.Accounting
import SdarcModel.Execution.Collector

namespace Sdarc.Memory

variable {n : Nat} {T C : Type} [DecidableEq T]

-- What a step of the collector's own code does to the memory.
inductive Effect (m : Memory n T C) : Memory n T C → Prop
  | none : Effect m m
  | takePending : Effect m (m.takePending i)
  | clearTag : Effect m (m.modifyCounter c i .clearTag)
  | clearBackRef (lt : p < m.next) (init : (m.inner p).weakInnerRef = .init w) :
    Effect m (m.clearBackRef w)
  | dropCounters (lt : p < m.next) (unfreed : m.freed p = 0) :
    Effect m (m.dropCounters p)
  | dropWeak (pc : m.pc .none = .idle) (freed : 0 < m.freed p) (init : (m.inner p).weakInnerRef = .init w) :
    Effect m (m.setWeakInnerRef p .uninit |>.setPc .none (.dropRead w))

variable {m m' : Memory n T C} {p q : Ptr}

theorem Published.effect (h : m.Published p) (e : Effect m m') : m'.Published p := by
  have := h.lt
  have := h.made
  cases e <;> grind -linarith

theorem WellReferenced.effect (r : WellReferenced m) (e : Effect m m') : WellReferenced m' where
  handles p h   := (r.handles p (by cases e <;> exact h)).effect e
  cell x p h    := (r.cell x p (by cases e <;> exact h)).effect e
  weak q w hq h := (r.weak q w (by cases e <;> exact hq) (by cases e <;> grind -linarith)).effect e
  backRef w p hw h :=
    (r.backRef w p (by cases e <;> exact hw) (by cases e <;> grind -linarith)).effect e
  pc t p h := by
    suffices hp : m.Published p from hp.effect e
    have := r.pc t p
    have := r.weak
    have := r.freed
    cases e <;> grind -linarith
  making t p h := by
    have h' : (m.pc t).Making p := by cases e <;> grind -linarith
    obtain ⟨hp, hu⟩ := r.making t p h'
    refine ⟨by cases e <;> exact hp, fun u h => hu u ?_⟩
    cases e <;> grind -linarith
  freed p h := by
    have := r.freed p
    cases e <;> grind -linarith

theorem WellBorrowed.effect (b : WellBorrowed m) (e : Effect m m') : WellBorrowed m' := by
  intro t p h
  have hb : (m.pc t).borrows p := by cases e <;> grind -linarith
  have := b t p hb
  cases e <;> exact this

theorem WellSlotted.effect (w : WellSlotted m) (e : Effect m m') : WellSlotted m' where
  holds t p c h := by
    have := w.holds t p c
    cases e <;> grind -linarith
  used p hp hf := by
    have := w.used p
    have := w.inj p
    cases e <;> grind -linarith
  inj p q := by
    have := w.inj p q
    cases e <;> grind -linarith

theorem WellWeak.effect (r : WellReferenced m) (w : WellWeak m) (e : Effect m m') : WellWeak m' where
  initing t q h := by
    have h' : (m.pc t).Initing q := by cases e <;> grind -linarith
    obtain ⟨hq, hu⟩ := w.initing t q h'
    clear h h'
    refine ⟨by cases e <;> grind -linarith, fun u h => hu u ?_⟩
    cases e <;> grind -linarith
  makingFor t v q h := by
    have := w.makingFor t v q
    have := r.weak
    cases e <;> grind -linarith
  backRef v p hv hb hf := by
    have hb' : m.backRef v = some p := by cases e <;> grind -linarith
    cases w.backRef v p (by cases e <;> exact hv) hb' (by cases e <;> grind -linarith)
    case inl h => exact .inl (by cases e <;> grind -linarith)
    case inr h =>
      obtain ⟨t, h⟩ := h
      exact .inr ⟨t, by cases e <;> grind -linarith⟩
  init p v hp h := by
    have := w.init p v
    cases e <;> grind -linarith
  cloning t v q h hf := by
    have := w.cloning t v q
    cases e <;> grind -linarith

-- What holds of the memory in every run, whatever the collector frees.
structure WellFormed (m : Memory n T C) : Prop where
  referenced : WellReferenced m
  borrowed   : WellBorrowed m
  slotted    : WellSlotted m
  weak       : WellWeak m

namespace WellFormed

omit [DecidableEq T] in
theorem initial (h : m.Initial) : WellFormed m where
  referenced := .initial h
  borrowed   := .initial h
  slotted    := .initial h
  weak       := .initial h

theorem step [DecidableEq C] (w : WellFormed m) (s : Step m t m') : WellFormed m' where
  referenced := w.referenced.step s
  borrowed   := w.borrowed.step s
  slotted    := w.slotted.step w.referenced s
  weak       := w.weak.step w.referenced s

theorem effect (w : WellFormed m) (e : Effect m m') : WellFormed m' where
  referenced := w.referenced.effect e
  borrowed   := w.borrowed.effect e
  slotted    := w.slotted.effect e
  weak       := w.weak.effect w.referenced e

end WellFormed

variable [Fintype T] [Fintype C]

omit [DecidableEq T] in
theorem balance_clearBackRef (w : Ptr) : (m.clearBackRef w).balance p = m.balance p := by
  have ht : (m.clearBackRef w).total p = m.total p := by
    simp only [total, word, counters]
    grind -linarith
  have hw : (m.clearBackRef w).weakInnerRefs p = m.weakInnerRefs p := by
    simp only [weakInnerRefs]
    grind -linarith
  simp only [balance, owners, ht, hw]
  rfl

theorem Balanced.effect (r : WellReferenced m) (b : Balanced m) (e : Effect m m') : Balanced m' := by
  intro p hp hf
  have := b p
  cases e
  case dropWeak pc hq hw =>
    have := r.freed _ hq
    rw [balance_setPc, balance_setWeakInnerRef this, pc]
    simp only [Pc.owes, Pc.owns, hw]
    grind -linarith
  case clearTag => rw [balance_modifyCounter]; grind -linarith
  case clearBackRef => rw [balance_clearBackRef]; exact this hp hf
  case dropCounters => exact this hp (by grind -linarith)
  all_goals exact this hp hf

end Sdarc.Memory
