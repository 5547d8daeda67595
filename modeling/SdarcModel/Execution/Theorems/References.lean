import SdarcModel.Execution.Theorems.Step

namespace Sdarc

namespace Pc

-- The object whose `Sdarc::new` has not yet returned.
def Making : Pc n C → Ptr → Prop
  | .newIncrement p _, a | .newPush p _, a | .downgradeSet _ p, a => p = a
  | _, _ => False

-- The downgrade of `q` is making its `WeakSdarcInner`, or about to.
def Initing : Pc n C → Ptr → Prop
  | .downgradeNew q, a | .downgradeSet q _, a => q = a
  | .newIncrement _ k, a | .newPush _ k, a => k = .downgrade a
  | _, _ => False

-- The `WeakSdarcInner` that the downgrade of `q` is making is `w`.
def MakingFor : Pc n C → Ptr → Ptr → Prop
  | .newIncrement w k, a, b | .newPush w k, a, b => w = a ∧ k = .downgrade b
  | .downgradeSet q w, a, b => w = a ∧ q = b
  | _, _, _ => False

-- The call is going to access the object, which it did not make itself.
def Mentions : Pc n C → Ptr → Prop
  | .newIncrement _ k, a | .newPush _ k, a => k = .downgrade a
  | .incrRead p k, a | .incrAdd p _ _ k, a =>
    p = a ∨ k = .downgrade a ∨ (∃ i, k = .read (.weak a) i) ∨ k = .compareAndSet (some a)
  | .dropRead p, a | .dropLoad p _ _, a | .dropCas p _ _ _, a | .dropNotify p, a => p = a
  | .readLoad src _, a => src = .weak a
  | .readLeave src _ r, a => src = .weak a ∨ r = some a
  | .downgradeGet q, a | .downgradeNew q, a | .downgradeSet q _, a => q = a
  | .idle, _ | .onSdarcDrop _, _ => False

-- The call has read the counters of the object and goes on with their slot.
def Holds : Pc n C → Ptr → Slot → Prop
  | .incrAdd p c _ _, a, b | .dropLoad p c _, a, b | .dropCas p c _ _, a, b => p = a ∧ c = b
  | _, _, _ => False

-- The downgrade of `q` has read `weak_inner_ref` and goes on with what it found there.
def Cloning : Pc n C → Ptr → Ptr → Prop
  | .incrRead w k, a, b | .incrAdd w _ _ k, a, b => w = a ∧ k = .downgrade b
  | _, _, _ => False

attribute [grind] Making Initing MakingFor Mentions Holds Cloning

@[grind →]
theorem Holds.mentions (h : Holds pc p c) : pc.Mentions p := by
  cases pc <;> simp_all [Holds, Mentions]

@[grind →]
theorem Initing.mentions (h : Initing pc q) : pc.Mentions q := by
  cases pc <;> simp_all [Initing, Mentions]

@[grind →]
theorem MakingFor.making (h : MakingFor pc w q) : pc.Making w := by
  cases pc <;> simp_all [MakingFor, Making]

@[grind →]
theorem MakingFor.initing (h : MakingFor pc w q) : pc.Initing q := by
  cases pc <;> simp_all [MakingFor, Initing]

@[grind →]
theorem Cloning.mentions (h : Cloning pc w q) : pc.Mentions q := by
  cases pc <;> simp_all [Cloning, Mentions]

end Pc

attribute [grind] Pc.borrows Incr.borrows Source.borrows Creation.borrows SdarcInner.backRef Memory.read
  Memory.CanPass Memory.CanBorrow Memory.CanTake

attribute [grind =] Function.update_apply

namespace Memory

variable {n : Nat} {T C : Type} {m m' : Memory n T C} {p q : Ptr} {t : Thread T}

@[grind]
structure Published (m : Memory n T C) (p : Ptr) : Prop where
  lt   : p < m.next
  made : ∀ t, ¬(m.pc t).Making p

-- Whatever can be reached was published, and each unpublished object has one maker.
structure WellReferenced (m : Memory n T C) : Prop where
  handles : ∀ p, 0 < m.handles p → m.Published p
  cell    : ∀ x p, m.cell x = some p → m.Published p
  weak    : ∀ q w, q < m.next → (m.inner q).weakInnerRef = .init w → m.Published w
  backRef : ∀ w p, w < m.next → m.backRef w = some p → m.Published p
  pc      : ∀ t p, (m.pc t).Mentions p → m.Published p
  making  : ∀ t p, (m.pc t).Making p → p < m.next ∧ ∀ u, (m.pc u).Making p → u = t
  freed   : ∀ p, 0 < m.freed p → p < m.next

-- While a call borrows an `Sdarc`, there is one.
def WellBorrowed (m : Memory n T C) : Prop :=
  ∀ t p, (m.pc t).borrows p = true → 0 < m.handles p

structure WellSlotted (m : Memory n T C) : Prop where
  holds : ∀ t p c, (m.pc t).Holds p c → c = m.counters p
  used  : ∀ p, p < m.next → m.freed p = 0 → m.used (m.counters p) = true
  inj   : ∀ p q, p < m.next → q < m.next → m.freed p = 0 → m.freed q = 0 →
    m.counters p = m.counters q → p = q

-- The link between an object and its `WeakSdarcInner`.
structure WellWeak (m : Memory n T C) : Prop where
  initing   : ∀ t q, (m.pc t).Initing q →
    (m.inner q).weakInnerRef = .running ∧ ∀ u, (m.pc u).Initing q → u = t
  makingFor : ∀ t w q, (m.pc t).MakingFor w q → m.backRef w = some q
  backRef   : ∀ w p, w < m.next → m.backRef w = some p → m.freed p = 0 →
    (m.inner p).weakInnerRef = .init w ∨ ∃ t, (m.pc t).MakingFor w p
  init      : ∀ p w, p < m.next → (m.inner p).weakInnerRef = .init w →
    m.backRef w = some p ∨ m.backRef w = none
  cloning   : ∀ t w q, (m.pc t).Cloning w q → m.freed q = 0 → (m.inner q).weakInnerRef = .init w

section

variable [DecidableEq T] [DecidableEq C]

theorem Step.pc_of_ne (s : Step m t m') (h : u ≠ t) : m'.pc u = m.pc u := by
  rw [s.pc_eq, Function.update_of_ne h]

theorem Step.counters_eq (s : Step m t m') (hp : p < m.next) : m'.counters p = m.counters p := by
  induction s <;> first | rfl | grind -linarith

theorem Step.lt_next (s : Step m t m') (hp : p < m.next) : p < m'.next := by
  induction s <;> first | exact hp | exact Nat.lt_succ_of_lt hp

-- Only an allocation makes an object.
theorem Step.making_cases (s : Step m t m') (h : (m'.pc u).Making p) :
    (m.pc u).Making p ∨ (u = t ∧ p = m.next ∧ p < m'.next ∧ (m'.inner p).weakInnerRef = .uninit) := by
  by_cases hu : u = t
  case neg => exact .inl (s.pc_of_ne hu ▸ h)
  case pos =>
    subst hu
    induction s <;> simp only [‹m.pc u = _›, Function.update_self, Pc.Making] at h ⊢ <;> grind -linarith

theorem Published.step (h : m.Published p) (s : Step m t m') : m'.Published p where
  lt := s.lt_next h.lt
  made u hu := by
    rcases s.making_cases hu with hu | ⟨_, hp, _⟩
    · exact h.made u hu
    · exact absurd h.lt (hp ▸ Nat.lt_irrefl _)

end

namespace WellReferenced

theorem initial (h : m.Initial) : WellReferenced m where
  handles p hp := by simp [h.handles] at hp
  cell x p hx  := by simp [h.cell] at hx
  weak q w hq  := by simp [h.next] at hq
  backRef w p  := by simp [h.next]
  pc t p hp    := by simp [h.pc, Pc.Mentions] at hp
  making t p   := by simp [h.pc, Pc.Making]
  freed p hp   := by simp [h.freed] at hp

variable [DecidableEq T] [DecidableEq C]

theorem making_step (r : WellReferenced m) (s : Step m t m') (h : (m'.pc v).Making p) :
    p < m'.next ∧ ∀ u, (m'.pc u).Making p → u = v := by
  have hv := r.making v p
  constructor
  case left =>
    rcases s.making_cases h with h | ⟨_, _, hp, _⟩
    · exact s.lt_next (hv h).left
    · exact hp
  case right =>
    intro u hu
    rcases s.making_cases h with h | ⟨ht, hp, _⟩ <;> rcases s.making_cases hu with hu | ⟨hut, hp', _⟩
    · exact (hv h).right u hu
    · exact absurd (hv h).left (hp' ▸ Nat.lt_irrefl _)
    · exact absurd (r.making u p hu).left (hp ▸ Nat.lt_irrefl _)
    · exact hut.trans ht.symm

theorem handles_step (r : WellReferenced m) (s : Step m t m') (h : 0 < m'.handles p) :
    m'.Published p := by
  by_cases hp : m.Published p
  case pos => exact hp.step s
  case neg =>
    have hr := r.handles p
    have := r.cell
    have := r.pc t
    have := r.making t
    induction s <;> first | exact absurd (hr h) hp | grind -linarith

theorem cell_step (r : WellReferenced m) (s : Step m t m') (h : m'.cell x = some p) :
    m'.Published p := by
  suffices hp : m.Published p from hp.step s
  have := r.handles
  have hc := r.cell x p
  induction s <;> first | exact hc h | grind -linarith

theorem weak_step (r : WellReferenced m) (s : Step m t m') (hq : q < m'.next)
    (h : (m'.inner q).weakInnerRef = .init w) : m'.Published w := by
  by_cases hp : m.Published w
  case pos => exact hp.step s
  case neg =>
    have hr := r.weak q w
    have := r.making t w
    induction s <;> first | exact absurd (hr hq h) hp | grind -linarith

theorem backRef_step (r : WellReferenced m) (s : Step m t m') (hw : w < m'.next)
    (h : m'.backRef w = some p) : m'.Published p := by
  suffices hp : m.Published p from hp.step s
  have hb := r.backRef w p
  have := r.pc t
  induction s <;> first | exact hb hw h | grind -linarith

omit [DecidableEq T] [DecidableEq C] in
theorem of_readLoad (r : WellReferenced m) (pc : m.pc t = .readLoad src i)
    (h : m.read src = some p) : m.Published p := by
  cases src
  case cell x => exact r.cell x p h
  case weak w => exact r.backRef w p (r.pc t w (by simp [pc, Pc.Mentions])).lt h

omit [DecidableEq T] [DecidableEq C] in
theorem of_downgradeGet (r : WellReferenced m) (pc : m.pc t = .downgradeGet q)
    (h : (m.inner q).weakInnerRef = .init w) : m.Published w :=
  r.weak q w (r.pc t q (by simp [pc, Pc.Mentions])).lt h

theorem pc_step (r : WellReferenced m) (s : Step m t m') (h : (m'.pc u).Mentions p) :
    m'.Published p := by
  by_cases hp : m.Published p
  case pos => exact hp.step s
  case neg =>
    by_cases hu : u = t
    case neg => exact absurd (r.pc u p (s.pc_of_ne hu ▸ h)) hp
    case pos =>
      subst hu
      have := r.handles
      have := r.cell
      have hm := r.pc u p
      have := r.making u
      induction s
      case readSome pc hr      => have := r.of_readLoad pc hr; grind -linarith
      case downgradeInit pc hl => have := r.of_downgradeGet pc hl; grind -linarith
      all_goals simp only [‹m.pc u = _›, Function.update_self, Pc.Mentions] at h hm <;> grind -linarith

theorem step (r : WellReferenced m) (s : Step m t m') : WellReferenced m' where
  handles _   := r.handles_step s
  cell _ _    := r.cell_step s
  weak _ _    := r.weak_step s
  backRef _ _ := r.backRef_step s
  pc _ _      := r.pc_step s
  making _ _  := r.making_step s
  freed p h   := s.lt_next (r.freed p (s.freed_eq ▸ h))

end WellReferenced

namespace WellBorrowed

theorem initial (h : m.Initial) : WellBorrowed m := by
  simp [WellBorrowed, h.pc, Pc.borrows]

variable [DecidableEq T] [DecidableEq C]

theorem step (b : WellBorrowed m) (s : Step m t m') : WellBorrowed m' := by
  intro u p h
  by_cases hu : u = t
  case neg =>
    rw [s.pc_of_ne hu] at h
    have hp := b u p h
    induction s <;> first | exact hp | grind -linarith
  case pos =>
    subst hu
    have hp := b u p
    induction s <;> simp only [‹m.pc u = _›, Function.update_self, Pc.borrows] at h hp ⊢ <;> grind -linarith

end WellBorrowed

namespace WellSlotted

theorem initial (h : m.Initial) : WellSlotted m where
  holds t p c := by simp [h.pc, Pc.Holds]
  used p      := by simp [h.next]
  inj p q     := by simp [h.next]

variable [DecidableEq T] [DecidableEq C]

theorem holds_step (r : WellReferenced m) (w : WellSlotted m) (s : Step m t m') (h : (m'.pc u).Holds p c) :
    c = m'.counters p := by
  by_cases hu : u = t
  case neg =>
    rw [s.pc_of_ne hu] at h
    rw [s.counters_eq (r.pc u p h.mentions).lt]
    exact w.holds u p c h
  case pos =>
    subst hu
    have hc := w.holds u p c
    induction s <;> simp only [‹m.pc u = _›, Function.update_self, Pc.Holds] at h hc <;> grind -linarith

theorem step (r : WellReferenced m) (w : WellSlotted m) (s : Step m t m') : WellSlotted m' where
  holds _ _ _  := w.holds_step r s
  used p       := by
    have hu := w.used p
    induction s <;> first | exact hu | grind -linarith
  inj p q      := by
    have hi := w.inj p q
    have := w.used p
    have := w.used q
    induction s <;> first | exact hi | grind -linarith

end WellSlotted

namespace WellWeak

theorem initial (h : m.Initial) : WellWeak m where
  initing t q     := by simp [h.pc, Pc.Initing]
  makingFor t w q := by simp [h.pc, Pc.MakingFor]
  backRef w p     := by simp [h.next]
  init p w        := by simp [h.next]
  cloning t w q   := by simp [h.pc, Pc.Cloning]

variable [DecidableEq T] [DecidableEq C]

theorem init_step (w : WellWeak m) (s : Step m t m') (hp : p < m.next)
    (h : (m.inner p).weakInnerRef = .init v) : (m'.inner p).weakInnerRef = .init v := by
  have := w.initing t p
  induction s <;> first | exact h | grind -linarith

theorem makingFor_step (s : Step m t m') (h : (m.pc u).MakingFor v p) :
    (m'.inner p).weakInnerRef = .init v ∨ (m'.pc u).MakingFor v p := by
  by_cases hu : u = t
  case neg => exact .inr (s.pc_of_ne hu ▸ h)
  case pos =>
    subst hu
    induction s <;> simp only [‹m.pc u = _›, Function.update_self, Pc.MakingFor] at h ⊢ <;> grind -linarith

theorem backRef_step (s : Step m t m') (hv : v < m'.next) (h : m'.backRef v = some p) :
    (v < m.next ∧ m.backRef v = some p) ∨ (v = m.next ∧ (m'.pc t).MakingFor v p) := by
  by_cases hb : v < m.next ∧ m.backRef v = some p
  case pos => exact .inl hb
  case neg => induction s <;> first | exact (hb ⟨hv, h⟩).elim | grind -linarith

-- Only the call that finds `weak_inner_ref` not yet set begins to set it.
theorem initing_cases (s : Step m t m') (h : (m'.pc u).Initing q) :
    (m.pc u).Initing q ∨ (u = t ∧ (m.inner q).weakInnerRef = .uninit ∧ (m'.inner q).weakInnerRef = .running) := by
  by_cases hu : u = t
  case neg => exact .inl (s.pc_of_ne hu ▸ h)
  case pos =>
    subst hu
    induction s <;> simp only [‹m.pc u = _›, Function.update_self, Pc.Initing] at h ⊢ <;> grind -linarith

theorem initing_step (r : WellReferenced m) (w : WellWeak m) (s : Step m t m') (h : (m'.pc u).Initing q) :
    (m'.inner q).weakInnerRef = .running ∧ ∀ v, (m'.pc v).Initing q → v = u := by
  constructor
  case left =>
    rcases initing_cases s h with hu | ⟨_, _, hq⟩
    · have hi := w.initing u q hu
      have hr := hi.left
      have hlt := (r.pc u q hu.mentions).lt
      induction s
      case downgradeSet q' w' pc =>
        have := hi.right t
        grind -linarith
      all_goals first | exact hr | grind -linarith
    · exact hq
  case right =>
    intro v hv
    have := w.initing
    have := initing_cases s h
    have := initing_cases s hv
    grind -linarith

theorem makingFor_cases (s : Step m t m') (h : (m'.pc u).MakingFor v q) :
    (m.pc u).MakingFor v q ∨ (v = m.next ∧ m'.backRef v = some q) := by
  by_cases hu : u = t
  case neg => exact .inl (s.pc_of_ne hu ▸ h)
  case pos =>
    subst hu
    induction s <;> simp only [‹m.pc u = _›, Function.update_self, Pc.MakingFor] at h ⊢ <;> grind -linarith

theorem cloning_step (r : WellReferenced m) (w : WellWeak m) (s : Step m t m') (h : (m'.pc u).Cloning v q)
    (hf : m.freed q = 0) : (m'.inner q).weakInnerRef = .init v := by
  by_cases hu : u = t
  case neg =>
    rw [s.pc_of_ne hu] at h
    exact w.init_step s (r.pc u q h.mentions).lt (w.cloning u v q h hf)
  case pos =>
    subst hu
    have hw := w.cloning u v q
    induction s <;> simp only [‹m.pc u = _›, Function.update_self, Pc.Cloning] at h hw ⊢ <;> grind -linarith

theorem step (r : WellReferenced m) (w : WellWeak m) (s : Step m t m') : WellWeak m' where
  initing _ _ h  := w.initing_step r s h
  makingFor u v q h := by
    rcases makingFor_cases s h with h | ⟨_, hb⟩
    · have hb := w.makingFor u v q h
      have := (r.making u v h.making).left
      induction s <;> first | exact hb | grind -linarith
    · exact hb
  backRef v p hv hb hf := by
    have hf' : m.freed p = 0 := by induction s <;> exact hf
    cases backRef_step s hv hb
    case inr h => exact .inr ⟨t, h.right⟩
    case inl h =>
      have ⟨hv', h⟩ := h
      cases w.backRef v p hv' h hf'
      case inl hi => exact .inl (w.init_step s (r.backRef v p hv' h).lt hi)
      case inr hm =>
        have ⟨u, hm⟩ := hm
        exact (makingFor_step s hm).imp_right (⟨u, ·⟩)
  init p v hp h := by
    have hi := w.init p v
    have := w.makingFor t v p
    have := r.weak p v
    induction s <;> first | exact hi hp h | grind -linarith
  cloning _ _ _ h hf := w.cloning_step r s h (s.freed_eq ▸ hf)

end WellWeak
end Memory
end Sdarc
