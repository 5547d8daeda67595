import SdarcModel.Library.RefCount
import SdarcModel.Library.Simulation
import SdarcModel.Execution.Theorems.Reclamation.Basic
import Mathlib.Algebra.BigOperators.Ring.Finset

open scoped BigOperators

namespace Sdarc

namespace Pc

-- The running call has a reference to `p`, whether or not the counters of `p` have it.
def refers (pc : Pc n C) (p : Ptr) : Bool :=
  match pc with
  | .newIncrement q _ | .newPush q _ | .dropRead q | .dropLoad q _ _ | .dropCas q _ _ _ | .downgradeSet _ q
  | .incrRead q (.read _ _) | .incrAdd q _ _ (.read _ _) => q == p
  | .incrRead _ (.compareAndSet o) | .incrAdd _ _ _ (.compareAndSet o) => o == some p
  | .readLeave _ _ r => r == some p
  | _ => false

-- The running call has yet to count a reference to `p`.
def uncounted (pc : Pc n C) (p : Ptr) : Bool :=
  match pc with
  | .newIncrement q _ | .incrRead q (.read _ _) | .incrAdd q _ _ (.read _ _)
  | .incrRead q (.compareAndSet _) | .incrAdd q _ _ (.compareAndSet _) => q == p
  | _ => false

attribute [grind] refers

@[grind =]
theorem refers_incrAdd (k : Incr n C) : (incrAdd p c i k).refers q = (incrRead p k).refers q := by
  cases k <;> rfl

end Pc

namespace Memory

variable {n : Nat} {T C : Type} [Fintype T] [Fintype C] {m m' : Memory n T C} {t : Thread T} {p q : Ptr}

-- The references to `p`: those at rest, those of `weak_inner_ref`, those of running calls and those in cells.
def refs (m : Memory n T C) (p : Ptr) : Nat :=
  m.handles p + (∑ q ∈ Finset.range m.next, if (m.inner q).weakInnerRef = .init p then 1 else 0) +
    (∑ t, if (m.pc t).refers p then 1 else 0) + ∑ x, if m.cell x = some p then 1 else 0

-- The references to `p` that its counters do not have yet.
def uncounted (m : Memory n T C) (p : Ptr) : Nat :=
  ∑ t, if (m.pc t).uncounted p then 1 else 0

theorem refs_enter (i : Fin n) : (m.enter i).refs p = m.refs p := rfl

theorem refs_leave (i : Fin n) : (m.leave i).refs p = m.refs p := rfl

theorem refs_push (i : Fin n) (q : Ptr) : (m.push i q).refs p = m.refs p := rfl

theorem refs_modifyCounter (c : Slot) (i : Fin n) (f : TaggedCounter → TaggedCounter) :
    (m.modifyCounter c i f).refs p = m.refs p := rfl

theorem refs_giveHandle (r : Option Ptr) :
    ((m.giveHandle r).refs p : Int) = m.refs p + if r = some p then 1 else 0 := by
  simp only [refs]
  grind -linarith

theorem refs_takeHandle {r : Option Ptr} (h : r = some p → 0 < m.handles p) :
    ((m.takeHandle r).refs p : Int) = m.refs p - if r = some p then 1 else 0 := by
  simp only [refs]
  grind -linarith

theorem refs_exchange [DecidableEq C] (x : C) (r : Option Ptr) :
    ((m.exchange x r).refs p : Int) =
      m.refs p + (if r = some p then 1 else 0) - if m.cell x = some p then 1 else 0 := by
  have := Finset.sum_comp_update (Finset.mem_univ x) m.cell (if · = some p then 1 else 0) r
  simp only [refs]
  grind -linarith

theorem refs_setPc [DecidableEq T] (t : Thread T) (pc : Pc n C) :
    ((m.setPc t pc).refs p : Int) =
      m.refs p + (if pc.refers p then 1 else 0) - if (m.pc t).refers p then 1 else 0 := by
  have := Finset.sum_comp_update (Finset.mem_univ t) m.pc (if ·.refers p then 1 else 0) pc
  simp only [refs]
  grind -linarith

theorem refs_setWeakInnerRef (hq : q < m.next) (l : OnceLock Ptr) :
    ((m.setWeakInnerRef q l).refs p : Int) =
      m.refs p + (if l = .init p then 1 else 0) - if (m.inner q).weakInnerRef = .init p then 1 else 0 := by
  have := Finset.sum_comp_update (Finset.mem_range.mpr hq) m.inner
    (if ·.weakInnerRef = .init p then 1 else 0) { m.inner q with weakInnerRef := l }
  simp only [refs]
  grind -linarith

theorem refs_alloc (c : Slot) (d : Data) : (m.alloc c d).refs p = m.refs p := by
  have := Finset.sum_comp_update_of_notMem (Finset.notMem_range_self (n := m.next)) m.inner
    (if ·.weakInnerRef = .init p then 1 else 0) { counters := c, data := d }
  simp only [refs, Finset.sum_range_succ]
  grind -linarith

-- Nobody has a reference to `p`.
structure Unreferenced (m : Memory n T C) (p : Ptr) : Prop where
  handles : m.handles p = 0
  weak    : ∀ q, q < m.next → (m.inner q).weakInnerRef ≠ .init p
  refers  : ∀ t, (m.pc t).refers p = false
  cell    : ∀ x, m.cell x ≠ some p

theorem refs_eq_zero : m.refs p = 0 ↔ m.Unreferenced p := by
  constructor
  case mp =>
    intro h
    simp only [refs, Nat.add_eq_zero_iff, Finset.sum_eq_zero_iff, Finset.mem_range, Finset.mem_univ] at h
    constructor <;> simp_all
  case mpr =>
    intro ⟨handles, weak, refers, cell⟩
    have : ∑ q ∈ Finset.range m.next, (if (m.inner q).weakInnerRef = .init p then 1 else 0) = 0 :=
      Finset.sum_eq_zero fun q hq => if_neg (weak q (Finset.mem_range.mp hq))
    simp [refs, handles, refers, cell, this]

-- The counters of an object that is not freed lag behind its references.
theorem Balanced.refs_eq (b : Balanced m) (hp : p < m.next) (hf : m.freed p = 0) :
    (m.refs p : Int) = m.total p + m.uncounted p := by
  have hb := b p hp hf
  have hc : (∑ t, if (m.pc t).refers p then (1 : Int) else 0) + m.owed p = m.held p + m.uncounted p := by
    simp only [owed, held, uncounted, Nat.cast_sum, ← Finset.sum_add_distrib]
    refine Finset.sum_congr rfl fun t _ => ?_
    cases m.pc t
    case incrRead k => cases k <;> simp [Pc.refers, Pc.owes, Pc.owns, Pc.uncounted]
    case incrAdd k  => cases k <;> simp [Pc.refers, Pc.owes, Pc.owns, Pc.uncounted]
    all_goals simp [Pc.refers, Pc.owes, Pc.owns, Pc.uncounted]
  simp only [balance, owners, weakInnerRefs, stored] at hb
  simp only [refs]
  push_cast
  omega

-- What the memory is to those who only count.
def refCount (m : Memory n T C) : RefCount.State Ptr where
  made   := {p | p < m.next}
  count  := m.refs
  linked := {p | p < m.next ∧ m.Open p}
  freed  := {p | 0 < m.freed p}

theorem refCount_eq (next : m'.next = m.next) (freed : m'.freed = m.freed)
    (opened : ∀ p, p < m.next → (m'.Open p ↔ m.Open p)) (refs : ∀ p, (m'.refs p : Int) = m.refs p) :
    m'.refCount = m.refCount := by
  simp only [refCount, RefCount.State.mk.injEq, next, freed, true_and, and_true]
  exact ⟨funext fun p => by exact_mod_cast refs p, Set.ext fun p => and_congr_right (opened p)⟩

omit [Fintype T] [Fintype C] in
theorem WellReferenced.unreferenced (r : WellReferenced m) : m.Unreferenced m.next where
  handles := by have := r.handles m.next; grind -linarith
  weak q hq := by have := r.weak q m.next; grind -linarith
  refers t := by
    have := r.pc t m.next
    have := r.making t m.next
    cases pc : m.pc t
    case incrRead k => cases k <;> grind -linarith
    case incrAdd k  => cases k <;> grind -linarith
    all_goals grind -linarith
  cell x := by have := r.cell x m.next; grind -linarith

theorem refCount_acquire (next : m'.next = m.next) (freed : m'.freed = m.freed)
    (opened : ∀ p, p < m.next → (m'.Open p ↔ m.Open p)) (refs : ∀ p, (m'.refs p : Int) = m.refs p + if q = p then 1 else 0)
    (reached : 0 < m.refs q ∨ (q < m.next ∧ m.Open q)) : ∃ op, RefCount.State.Step m.refCount op m'.refCount := by
  have he : m'.refCount = { m.refCount with count := Function.update m.refCount.count q (m.refCount.count q + 1) } := by
    simp only [refCount, RefCount.State.mk.injEq, next, freed, true_and, and_true]
    refine ⟨funext fun p => ?_, Set.ext fun p => and_congr_right (opened p)⟩
    have := refs p
    grind -linarith
  exact he ▸ ⟨_, .acquire reached⟩

theorem refCount_release (next : m'.next = m.next) (freed : m'.freed = m.freed)
    (opened : ∀ p, p < m.next → (m'.Open p ↔ m.Open p)) (refs : ∀ p, (m'.refs p : Int) = m.refs p - if q = p then 1 else 0)
    (owned : 0 < m.refs q) : ∃ op, RefCount.State.Step m.refCount op m'.refCount := by
  have he : m'.refCount = { m.refCount with count := Function.update m.refCount.count q (m.refCount.count q - 1) } := by
    simp only [refCount, RefCount.State.mk.injEq, next, freed, true_and, and_true]
    refine ⟨funext fun p => ?_, Set.ext fun p => and_congr_right (opened p)⟩
    have := refs p
    grind -linarith
  exact he ▸ ⟨_, .release owned⟩

theorem refs_pos (h : 0 < m.handles p) : 0 < m.refs p := by
  refine Nat.pos_of_ne_zero fun hz => ?_
  have := (refs_eq_zero |>.mp hz).handles
  omega

variable [DecidableEq T] [DecidableEq C]

omit [Fintype T] [Fintype C] [DecidableEq T] [DecidableEq C] in
theorem WellReferenced.open_alloc (r : WellReferenced m) :
    p < m.next + 1 ∧ (m.alloc c d).Open p ↔ p < m.next ∧ m.Open p := by
  have weak := r.weak p m.next
  constructor
  case mp =>
    rintro ⟨hp, v, hv, hr⟩
    have hne : p ≠ m.next := by grind -linarith
    have hp : p < m.next := (Nat.lt_succ_iff_lt_or_eq.mp hp).resolve_right hne
    exact ⟨hp, v, by grind -linarith, by grind -linarith⟩
  case mpr =>
    rintro ⟨hp, v, hv, hr⟩
    exact ⟨Nat.lt_succ_of_lt hp, v, by grind -linarith, by grind -linarith⟩

omit [DecidableEq C] in
theorem refCount_make (r : WellReferenced m) (pc : ∀ p, (m.pc t).refers p = false) :
    ∃ op, RefCount.State.Step m.refCount op (m.alloc c d |>.setPc t (.newIncrement m.next k)).refCount := by
  refine ⟨.make m.next, ?_⟩
  have he : (m.alloc c d |>.setPc t (.newIncrement m.next k)).refCount =
      { m.refCount with
        made  := insert m.next m.refCount.made
        count := Function.update m.refCount.count m.next 1 } := by
    have hz := refs_eq_zero |>.mpr r.unreferenced
    simp only [refCount, RefCount.State.mk.injEq, and_true]
    refine ⟨Set.ext fun p => by grind, funext fun p => ?_, Set.ext fun p => r.open_alloc⟩
    have h := refs_setPc (m := m.alloc c d) (p := p) t (.newIncrement m.next k)
    rw [refs_alloc, pc p] at h
    grind -linarith [Pc.refers]
  exact he ▸ .make (by simp [refCount])

omit [Fintype T] [Fintype C] in
theorem Step.open_iff (w : WellFormed m) (s : Step m t m') (hp : p < m.next) (hs : ∀ v, m.pc t ≠ .downgradeSet p v) :
    m'.Open p ↔ m.Open p := by
  refine ⟨fun ⟨v, hv, hr⟩ => ?_, Open.step w s hp⟩
  have := w.referenced.weak p v hp
  induction s <;> grind [Open]

-- Whoever is about to read `p` can reach it.
omit [DecidableEq T] [DecidableEq C] in
theorem reached_of_read (w : WellFormed m) (safe : m.Safe) (pc : m.pc t = .readLoad src i) (h : m.read src = some p) :
    0 < m.refs p ∨ (p < m.next ∧ m.Open p) := by
  cases src
  case cell x => exact .inl (Nat.pos_of_ne_zero fun hz => (refs_eq_zero |>.mp hz).cell x h)
  case weak v =>
    have hv := w.referenced.pc t v (by simp [pc, Pc.Mentions])
    have hf : m.freed p = 0 := by
      by_contra hf
      exact (safe p (Nat.pos_of_ne_zero hf)).closed v hv.lt h
    rcases w.weak.backRef v p hv.lt h hf with hi | ⟨u, hu⟩
    case inl => exact .inr ⟨(w.referenced.backRef v p hv.lt h).lt, v, hi, h⟩
    case inr => exact absurd hu.making (hv.made u)

theorem refCount_step (w : WellFormed m) (safe : m.Safe) (s : Step m t m') :
    m'.refCount = m.refCount ∨ ∃ op, RefCount.State.Step m.refCount op m'.refCount := by
  have ho p (hp : p < m.next) := s.open_iff w hp
  have hf := s.freed_eq
  have hb p := w.borrowed t p
  induction s
  case new c pc unused   => exact .inr (refCount_make w.referenced (by simp [pc, Pc.refers]))
  case alloc q c pc unused => exact .inr (refCount_make w.referenced (by simp [pc, Pc.refers]))
  case downgradeSet q v pc =>
    have hq := w.referenced.pc t q (by simp [pc, Pc.Mentions])
    have hr := (w.weak.initing t q (by simp [pc, Pc.Initing])).left
    have hv := w.weak.makingFor t v q (by simp [pc, Pc.MakingFor])
    have he : (m.setWeakInnerRef q (.init v) |>.setPc t (.incrRead v (.downgrade q))).refCount =
        { m.refCount with linked := insert q m.refCount.linked } := by
      simp only [refCount, RefCount.State.mk.injEq, true_and, and_true]
      refine ⟨funext fun p => ?_, Set.ext fun p => ?_⟩
      · have h := refs_setPc (m := m.setWeakInnerRef q (.init v)) (p := p) t (.incrRead v (.downgrade q))
        rw [refs_setWeakInnerRef hq.lt] at h
        grind -linarith
      · by_cases hp : p = q
        case pos => subst hp; simpa using ⟨hq.lt, v, by simp, by grind -linarith⟩
        case neg =>
          have := ho p
          grind -linarith
    exact .inr ⟨.link q, he ▸ .link (refs_pos (hb q (by simp [pc, Pc.borrows])))⟩
  case readSome src i p pc hr =>
    refine .inr (refCount_acquire (q := p) rfl hf (fun q hq => ho q hq (by simp [pc])) (fun q => ?_)
      (reached_of_read w safe pc hr))
    simp only [refs_setPc, pc, Pc.refers]
    grind -linarith
  case casSome x r q pc hx _ _ live =>
    refine .inr (refCount_acquire (q := q) rfl hf (fun q hq => ho q hq (by simp [pc])) (fun q => ?_) (.inl (refs_pos live)))
    simp only [refs_setPc, refs_exchange, pc, Pc.refers, hx]
    grind -linarith
  case addClone p c i pc =>
    have live := hb p (by simp [pc, Pc.borrows, Incr.borrows])
    refine .inr (refCount_acquire (q := p) rfl hf (fun q hq => ho q hq (by simp [pc])) (fun q => ?_) (.inl (refs_pos live)))
    simp only [refs_setPc, refs_giveHandle, refs_modifyCounter, pc, Pc.refers]
    grind -linarith
  case addDowngrade p c i q pc =>
    have live := hb q (by simp [pc, Pc.borrows, Incr.borrows])
    have unfreed : m.freed q = 0 := by
      by_contra hq
      have := (safe q (Nat.pos_of_ne_zero hq)).unowned.handles
      omega
    have hq := (w.referenced.pc t q (by simp [pc, Pc.Mentions])).lt
    have hi := w.weak.cloning t p q (by simp [pc, Pc.Cloning]) unfreed
    refine .inr (refCount_acquire (q := p) rfl hf (fun q hq => ho q hq (by simp [pc])) (fun q => ?_)
      (.inl (Nat.pos_of_ne_zero fun hz => (refs_eq_zero |>.mp hz).weak q hq hi)))
    simp only [refs_setPc, refs_giveHandle, refs_modifyCounter, pc, Pc.refers]
    grind -linarith
  case dropCas p c i v pc _ =>
    refine .inr (refCount_release (q := p) rfl hf (fun q hq => ho q hq (by simp [pc])) (fun q => ?_)
      (Nat.pos_of_ne_zero fun hz => by simpa [pc, Pc.refers] using (refs_eq_zero |>.mp hz).refers t))
    simp only [refs_setPc, refs_modifyCounter, pc, Pc.refers]
    grind -linarith
  case drop p pc take =>
    refine .inl (refCount_eq rfl hf (fun q hq => ho q hq (by simp [pc])) fun q => ?_)
    rw [refs_setPc, refs_takeHandle] <;> grind -linarith
  case swap x r pc pass =>
    refine .inl (refCount_eq rfl hf (fun q hq => ho q hq (by simp [pc])) fun q => ?_)
    rw [refs_giveHandle, refs_exchange, refs_takeHandle] <;> grind -linarith
  case storeNull x r pc pass old =>
    refine .inl (refCount_eq rfl hf (fun q hq => ho q hq (by simp [pc])) fun q => ?_)
    rw [refs_setPc, refs_exchange, refs_takeHandle] <;> grind -linarith
  case storeSome x r p pc pass old =>
    refine .inl (refCount_eq rfl hf (fun q hq => ho q hq (by simp [pc])) fun q => ?_)
    rw [refs_setPc, refs_exchange, refs_takeHandle] <;> grind -linarith
  case downgradeUninit q pc uninit =>
    have hq := (w.referenced.pc t q (by simp [pc, Pc.Mentions])).lt
    refine .inl (refCount_eq rfl hf (fun q hq => ho q hq (by simp [pc])) fun p => ?_)
    rw [refs_setPc, refs_setWeakInnerRef hq]
    grind -linarith
  all_goals
    refine .inl (refCount_eq rfl hf (fun q hq => ho q hq (by simp [*])) fun q => ?_)
    simp only [refs_setPc, refs_giveHandle, refs_exchange, refs_enter, refs_leave, refs_push, refs_modifyCounter, *, Pc.refers]
    try grind -linarith

omit [Fintype T] [Fintype C] [DecidableEq T] [DecidableEq C] in
theorem Dead.unreferenced (d : m.Dead p) : m.Unreferenced p where
  handles := d.unowned.handles
  weak    := d.unowned.weak
  refers t := by
    have := d.unowned.owns t
    have := d.unread t
    have := d.published.made t
    cases pc : m.pc t
    case incrRead k => cases k <;> grind -linarith
    case incrAdd k  => cases k <;> grind -linarith
    all_goals grind -linarith
  cell    := d.unowned.cell

omit [Fintype T] [Fintype C] [DecidableEq T] [DecidableEq C] in
theorem Dead.not_open (r : WellReferenced m) (d : m.Dead p) : ¬m.Open p := fun ⟨v, hv, hr⟩ =>
  d.closed v (r.weak p v d.published.lt hv).lt hr

omit [Fintype T] [Fintype C] [DecidableEq T] [DecidableEq C] in
theorem weakInnerRef_clearBackRef : ((m.clearBackRef v).inner q).weakInnerRef = (m.inner q).weakInnerRef := by
  grind -linarith

omit [DecidableEq T] [DecidableEq C] in
theorem refs_clearBackRef : (m.clearBackRef v).refs p = m.refs p := by
  have h : ∑ q ∈ Finset.range m.next, (if ((m.clearBackRef v).inner q).weakInnerRef = .init p then 1 else 0) =
      ∑ q ∈ Finset.range m.next, if (m.inner q).weakInnerRef = .init p then 1 else 0 :=
    Finset.sum_congr rfl fun q _ => if_congr (by rw [weakInnerRef_clearBackRef]) rfl rfl
  exact congrArg (m.handles p + · + _ + _) h

omit [Fintype T] [Fintype C] [DecidableEq T] [DecidableEq C] in
theorem open_clearBackRef : (m.clearBackRef v).Open p ↔ m.Open p ∧ (m.inner p).weakInnerRef ≠ .init v := by
  grind [Open]

omit [DecidableEq C] in
theorem refCount_effect (w : WellFormed m) (safe : m.Safe) (dead : ∀ p, m.freed p < m'.freed p → m.Dead p)
    (e : Effect m m') : m'.refCount = m.refCount ∨ ∃ op, RefCount.State.Step m.refCount op m'.refCount := by
  cases e
  case none        => exact .inl rfl
  case takePending => exact .inl rfl
  case clearTag    => exact .inl rfl
  case clearBackRef p v hp hv =>
    by_cases ho : m.backRef v = some p
    case pos =>
      have he : (m.clearBackRef v).refCount = { m.refCount with linked := m.refCount.linked \ {p} } := by
        simp only [refCount, RefCount.State.mk.injEq, true_and, and_true, open_clearBackRef]
        refine ⟨funext fun q => refs_clearBackRef, Set.ext fun q => ?_⟩
        by_cases hq : q = p
        case pos => simp [hq, hv]
        case neg =>
          have hne (h : m.Open q) : (m.inner q).weakInnerRef ≠ .init v := by grind [Open]
          simpa [hq] using fun _ => hne
      exact .inr ⟨.unlink p, he ▸ .unlink ⟨hp, v, hv, ho⟩⟩
    case neg =>
      refine .inl (refCount_eq rfl rfl (fun q hq => ?_) fun q => ?_)
      · refine open_clearBackRef |>.trans (and_iff_left_of_imp fun h hi => ?_)
        have := w.weak.init p v hp hv
        grind [Open]
      · rw [refs_clearBackRef]
  case dropCounters p hp unfreed =>
    have d := dead p (by simp)
    have he : (m.dropCounters p).refCount = { m.refCount with freed := insert p m.refCount.freed } := by
      simp only [refCount, RefCount.State.mk.injEq, true_and]
      exact ⟨rfl, rfl, Set.ext fun q => by by_cases hq : q = p <;> simp [hq]⟩
    exact .inr ⟨.free p, he ▸ .free hp (refs_eq_zero |>.mpr d.unreferenced) (fun h => d.not_open w.referenced h.right)
      (by simp [refCount, unfreed])⟩
  case dropWeak p v pc freed hv =>
    have d := safe p freed
    refine .inl (refCount_eq rfl rfl (fun q hq => ?_) fun q => ?_)
    case refine_1 =>
      have := d.not_open w.referenced
      grind [Open]
    case refine_2 =>
      rw [refs_setPc, refs_setWeakInnerRef d.published.lt]
      grind -linarith

omit [DecidableEq T] [DecidableEq C] in
theorem refCount_initial (h : m.Initial) : m.refCount.Initial where
  made   := by simp [refCount, h.next]
  count p := refs_eq_zero |>.mpr ⟨h.handles p, by simp [h.next], by simp [h.pc, Pc.refers], by simp [h.cell]⟩
  linked := by simp [refCount, h.next]
  freed  := by simp [refCount, h.freed]

end Memory

namespace State

variable {n : Nat} {T C : Type} [DecidableEq T] [Fintype T] [DecidableEq C] [Fintype C] {s s' : State n T C}

theorem refCount_next (so : Sound s) (h : s.next l = some s') :
    s'.mem.refCount = s.mem.refCount ∨ ∃ op, RefCount.State.Step s.mem.refCount op s'.mem.refCount := by
  have dead p (hf : s.mem.freed p < s'.mem.freed p) := so.judged.removed p (removed_of_freed h hf).right
  cases Step.of_next h
  case thread st         => exact Memory.refCount_step so.wellFormed.mem so.judged.safe st
  case collector idle st => exact Memory.refCount_effect so.wellFormed.mem so.judged.safe dead (st.effect so.wellFormed idle)

theorem refCount_refines : (systemFunded n T C).Refines (RefCount.system Ptr) (·.mem.refCount) where
  init _ h         := Memory.refCount_initial (State.Initial.mem h)
  step _ _ _ h stp := refCount_next (sound h) stp.left

end State
end Sdarc
