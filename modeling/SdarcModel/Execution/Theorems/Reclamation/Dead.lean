import SdarcModel.Execution.Theorems.Reclamation.Sections

namespace Sdarc

-- Why a call may mention an object.
theorem Pc.mentions_cases {pc : Pc n C} (h : pc.Mentions p) :
    pc.borrows p = true ∨ pc.owns p = true ∨ pc.owes p = true ∨ pc.Reading p ∨
      (∃ q, pc.Cloning p q ∧ pc.borrows q = true) ∨ pc = .dropNotify p := by
  cases pc
  case incrRead k =>
    cases k <;> simp_all [Mentions, borrows, Incr.borrows, Source.borrows, owns, owes, Reading, Cloning] <;> grind -linarith
  case incrAdd k =>
    cases k <;> simp_all [Mentions, borrows, Incr.borrows, Source.borrows, owns, owes, Reading, Cloning] <;> grind -linarith
  all_goals simp_all [Mentions, borrows, owns, owes, Reading, Cloning]
  all_goals grind -linarith

namespace Memory

variable {n : Nat} {T C : Type} {m m' : Memory n T C} {t : Thread T} {p : Ptr}

-- Nobody can reach `p` any more. A drop that has decremented may still look up its counters.
structure Dead (m : Memory n T C) (p : Ptr) : Prop where
  published : m.Published p
  unowned   : m.Unowned p
  unread    : ∀ t, ¬(m.pc t).Reading p
  closed    : ∀ w, w < m.next → m.backRef w ≠ some p

-- Everything freed is dead.
def Safe (m : Memory n T C) : Prop :=
  ∀ p, 0 < m.freed p → m.Dead p

-- `upgrade` finds `p` behind its `WeakSdarcInner`.
def Open (m : Memory n T C) (p : Ptr) : Prop :=
  ∃ w, (m.inner p).weakInnerRef = .init w ∧ m.backRef w = some p

namespace Dead

variable (w : WellFormed m) (safe : m.Safe) (d : m.Dead p)
include w safe d

-- Whoever still mentions a dead object is done with it but for `on_sdarc_drop`.
theorem dropNotify (h : (m.pc t).Mentions p) : m.pc t = .dropNotify p := by
  have hh := d.unowned.handles
  rcases Pc.mentions_cases h with h | h | h | h | ⟨q, h, hq⟩ | h
  · have := w.borrowed t p h
    omega
  · simp [d.unowned.owns t] at h
  · simp [d.unowned.owes t] at h
  · exact absurd h (d.unread t)
  · -- The downgrade of `q` found `p` in `weak_inner_ref`, which still owns it.
    have hl := w.borrowed t q hq
    have hf : m.freed q = 0 := by
      by_contra hf
      have := (safe q (Nat.pos_of_ne_zero hf)).unowned.handles
      omega
    exact absurd (w.weak.cloning t p q h hf) (d.unowned.weak q (w.referenced.pc t q h.mentions).lt)
  · exact h

omit safe in
theorem read_ne (pc : m.pc t = .readLoad src i) : m.read src ≠ some p := by
  cases src
  case cell x => exact d.unowned.cell x
  case weak v => exact d.closed v (w.referenced.pc t v (by simp [pc, Pc.Mentions])).lt

variable [DecidableEq T] [DecidableEq C]

theorem owns_step (s : Step m t m') : (m'.pc u).owns p = false := by
  have ho := d.unowned.owns u
  by_cases hu : u = t
  case neg => rwa [s.pc_of_ne hu]
  case pos =>
    subst hu
    have := d.unowned.handles
    have := d.unowned.cell
    have := d.dropNotify (t := u) w safe
    have := d.published.made u
    induction s <;> simp only [‹m.pc u = _›, Function.update_self, Pc.owns] at ho ⊢ <;> grind -linarith

theorem owes_step (s : Step m t m') : (m'.pc u).owes p = false := by
  have ho := d.unowned.owes u
  by_cases hu : u = t
  case neg => rwa [s.pc_of_ne hu]
  case pos =>
    subst hu
    have := d.unowned.handles
    have := d.dropNotify (t := u) w safe
    induction s <;> simp only [‹m.pc u = _›, Function.update_self, Pc.owes] at ho ⊢ <;> grind -linarith

theorem unowned_step (s : Step m t m') : m'.Unowned p where
  handles := by
    have hh := d.unowned.handles
    have := d.unowned.cell
    have := d.dropNotify (t := t) w safe
    have := d.published.made t
    induction s <;> first | exact hh | grind -linarith
  cell x := by
    have hc := d.unowned.cell x
    have := d.unowned.handles
    induction s <;> first | exact hc | grind -linarith
  weak q hq := by
    have hw := d.unowned.weak q
    have := d.published.made t
    induction s <;> first | exact hw hq | grind -linarith
  owns _ := d.owns_step w safe s
  owes _ := d.owes_step w safe s

theorem unread_step (s : Step m t m') : ¬(m'.pc u).Reading p := by
  have hr := d.unread u
  by_cases hu : u = t
  case neg => rwa [s.pc_of_ne hu]
  case pos =>
    subst hu
    have := d.dropNotify (t := u) w safe
    induction s
    case readSome pc h => have := d.read_ne w pc; grind -linarith
    all_goals
      simp only [‹m.pc u = _›, Function.update_self, Pc.Reading] at hr ⊢
      grind -linarith

theorem step (s : Step m t m') : m'.Dead p where
  published   := d.published.step s
  unowned     := d.unowned_step w safe s
  unread _    := d.unread_step w safe s
  closed q hq := by
    have hc := d.closed q
    have := d.dropNotify (t := t) w safe
    induction s <;> first | exact hc hq | grind -linarith

end Dead

variable [DecidableEq T]

theorem Dead.effect (r : WellReferenced m) (d : m.Dead p) (e : Effect m m') : m'.Dead p where
  published := d.published.effect e
  unowned   := {
    handles   := by have := d.unowned.handles; cases e <;> exact this
    cell x    := by have := d.unowned.cell x; cases e <;> exact this
    weak q hq := by have := d.unowned.weak q; cases e <;> grind -linarith
    owns t    := by
      have := d.unowned.owns t
      have := d.unowned.weak
      have := r.freed
      cases e <;> grind -linarith
    owes t    := by have := d.unowned.owes t; cases e <;> grind -linarith }
  unread t  := by have := d.unread t; cases e <;> grind -linarith
  closed q hq := by have := d.closed q; cases e <;> grind -linarith

end Memory
end Sdarc
