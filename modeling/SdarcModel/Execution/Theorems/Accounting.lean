import SdarcModel.Execution.Theorems.References
import SdarcModel.Library.Sum

open scoped BigOperators

namespace Sdarc

namespace Pc

-- The references to `p` that the running call holds in its locals.
def owns (pc : Pc n C) (p : Ptr) : Bool :=
  match pc with
  | .newPush q _ | .dropRead q | .dropLoad q _ _ | .dropCas q _ _ _ | .downgradeSet _ q => q == p
  | .incrRead _ (.compareAndSet o) | .incrAdd _ _ _ (.compareAndSet o) => o == some p
  | .readLeave _ _ r => r == some p
  | _ => false

-- A compare-and-set has put `p` into a cell and has not yet incremented its counter.
def owes (pc : Pc n C) (p : Ptr) : Bool :=
  match pc with
  | .incrRead q (.compareAndSet _) | .incrAdd q _ _ (.compareAndSet _) => q == p
  | _ => false

-- The next access may change a counter of the object.
def Counts : Pc n C → Ptr → Prop
  | .newIncrement p _, a | .incrAdd p _ _ _, a | .dropCas p _ _ _, a => p = a
  | _, _ => False

attribute [grind] owns owes Counts

@[grind →]
theorem mentions_of_owes {pc : Pc n C} (h : pc.owes p = true) : pc.Mentions p := by
  unfold owes at h
  split at h <;> simp_all [Mentions]

theorem mentions_of_owns {pc : Pc n C} (h : pc.owns p = true) : pc.Mentions p ∨ pc.Making p := by
  unfold owns at h
  split at h <;> simp_all [Mentions, Making]

@[grind =]
theorem owns_incrAdd (k : Incr n C) : (incrAdd p c i k).owns q = (incrRead p k).owns q := by
  cases k <;> rfl

@[grind =]
theorem owes_incrAdd (k : Incr n C) : (incrAdd p c i k).owes q = (incrRead p k).owes q := by
  cases k <;> rfl

end Pc

namespace Memory

variable {n : Nat} {T C : Type}

-- The sum of the counter shards.
def total (m : Memory n T C) (p : Ptr) : Int :=
  ∑ i, (m.word p i).refCount

-- The references held in the locals of running calls.
def held [Fintype T] (m : Memory n T C) (p : Ptr) : Int :=
  ∑ t, if (m.pc t).owns p then 1 else 0

-- The compare-and-sets that have exchanged `p` into a cell and not yet incremented.
def owed [Fintype T] (m : Memory n T C) (p : Ptr) : Int :=
  ∑ t, if (m.pc t).owes p then 1 else 0

def stored [Fintype C] (m : Memory n T C) (p : Ptr) : Int :=
  ∑ x, if m.cell x = some p then 1 else 0

def weakInnerRefs (m : Memory n T C) (p : Ptr) : Int :=
  ∑ q ∈ Finset.range m.next, if (m.inner q).weakInnerRef = .init p then 1 else 0

variable [Fintype T] [Fintype C] {m m' : Memory n T C} {p : Ptr}

def owners (m : Memory n T C) (p : Ptr) : Int :=
  m.handles p + m.weakInnerRefs p + m.held p + m.stored p

def balance (m : Memory n T C) (p : Ptr) : Int :=
  m.total p + m.owed p - m.owners p

def Balanced (m : Memory n T C) : Prop :=
  ∀ p, p < m.next → m.freed p = 0 → m.balance p = 0

theorem balance_enter (i : Fin n) : (m.enter i).balance p = m.balance p := rfl

theorem balance_leave (i : Fin n) : (m.leave i).balance p = m.balance p := rfl

theorem balance_push (i : Fin n) (q : Ptr) : (m.push i q).balance p = m.balance p := rfl

theorem balance_giveHandle (r : Option Ptr) :
    (m.giveHandle r).balance p = m.balance p - if r = some p then 1 else 0 := by
  simp only [balance, owners, total, owed, held, stored, weakInnerRefs]
  grind -linarith

theorem balance_takeHandle {r : Option Ptr} (h : r = some p → 0 < m.handles p) :
    (m.takeHandle r).balance p = m.balance p + if r = some p then 1 else 0 := by
  simp only [balance, owners, total, owed, held, stored, weakInnerRefs]
  grind -linarith

theorem balance_exchange [DecidableEq C] (x : C) (r : Option Ptr) :
    (m.exchange x r).balance p =
      m.balance p + (if r = some p then -1 else 0) + if m.cell x = some p then 1 else 0 := by
  have := Finset.sum_comp_update (Finset.mem_univ x) m.cell (if · = some p then (1 : Int) else 0) r
  simp only [balance, owners, total, owed, held, stored, weakInnerRefs, word, counters]
  grind -linarith

theorem balance_setPc [DecidableEq T] (t : Thread T) (pc : Pc n C) :
    (m.setPc t pc).balance p = m.balance p
      + ((if pc.owes p then 1 else 0) - if pc.owns p then 1 else 0)
      - ((if (m.pc t).owes p then 1 else 0) - if (m.pc t).owns p then 1 else 0) := by
  have := Finset.sum_comp_update (Finset.mem_univ t) m.pc (if ·.owes p then (1 : Int) else 0) pc
  have := Finset.sum_comp_update (Finset.mem_univ t) m.pc (if ·.owns p then (1 : Int) else 0) pc
  simp only [balance, owners, total, owed, held, stored, weakInnerRefs, word, counters]
  grind -linarith

omit [Fintype T] [Fintype C] in
theorem total_setWeakInnerRef (q : Ptr) (l : OnceLock Ptr) :
    (m.setWeakInnerRef q l).total p = m.total p := by
  simp only [total, word, counters]
  grind -linarith

theorem balance_setWeakInnerRef (hq : q < m.next) (l : OnceLock Ptr) :
    (m.setWeakInnerRef q l).balance p = m.balance p + (if l = .init p then -1 else 0)
      + if (m.inner q).weakInnerRef = .init p then 1 else 0 := by
  have := Finset.sum_comp_update (Finset.mem_range.mpr hq) m.inner
    (if ·.weakInnerRef = .init p then (1 : Int) else 0) { m.inner q with weakInnerRef := l }
  simp only [balance, owners, owed, held, stored, weakInnerRefs, total_setWeakInnerRef]
  grind -linarith

omit [Fintype T] [Fintype C] in
theorem total_modifyCounter (c : Slot) (i : Fin n) (f : TaggedCounter → TaggedCounter) :
    (m.modifyCounter c i f).total p = m.total p +
      if c = m.counters p then (f (m.counter c i)).refCount - (m.counter c i).refCount else 0 := by
  simp only [total, word, counters]
  split
  case isTrue hc =>
    have := Finset.sum_comp_update (Finset.mem_univ i) (m.counter c) (·.refCount) (f (m.counter c i))
    simp only [← hc, Function.update_self]
    omega
  case isFalse hc => simp [Function.update_of_ne (Ne.symm hc)]

theorem balance_modifyCounter (c : Slot) (i : Fin n) (f : TaggedCounter → TaggedCounter) :
    (m.modifyCounter c i f).balance p = m.balance p +
      if c = m.counters p then (f (m.counter c i)).refCount - (m.counter c i).refCount else 0 := by
  simp only [balance, owners, owed, held, stored, weakInnerRefs, total_modifyCounter]
  grind -linarith

omit [Fintype T] [Fintype C] in
theorem total_alloc (hp : p < m.next) (hc : c ≠ m.counters p) (d : Data) :
    (m.alloc c d).total p = m.total p := by
  simp only [total, word, counters]
  rw [Function.update_of_ne hp.ne, Function.update_of_ne hc.symm]

omit [Fintype T] [Fintype C] in
theorem weakInnerRefs_alloc (c : Slot) (d : Data) :
    (m.alloc c d).weakInnerRefs p = m.weakInnerRefs p := by
  have := Finset.sum_comp_update_of_notMem (Finset.notMem_range_self (n := m.next)) m.inner
    (if ·.weakInnerRef = .init p then (1 : Int) else 0) { counters := c, data := d }
  simp only [weakInnerRefs, Finset.sum_range_succ]
  grind -linarith

theorem balance_alloc (hp : p < m.next) (hc : c ≠ m.counters p) (d : Data) :
    (m.alloc c d).balance p = m.balance p := by
  have hw : (m.alloc c d).weakInnerRefs p = m.weakInnerRefs p := weakInnerRefs_alloc c d
  simp only [balance, owners, owed, held, stored, total_alloc hp hc, hw]

-- Nobody owns `p` or owes it an increment.
structure Unowned (m : Memory n T C) (p : Ptr) : Prop where
  handles : m.handles p = 0
  cell    : ∀ x, m.cell x ≠ some p
  weak    : ∀ q, q < m.next → (m.inner q).weakInnerRef ≠ .init p
  owns    : ∀ t, (m.pc t).owns p = false
  owes    : ∀ t, (m.pc t).owes p = false

theorem Unowned.balance_eq (u : Unowned m p) : m.balance p = m.total p := by
  have hw : m.weakInnerRefs p = 0 := Finset.sum_eq_zero fun q hq =>
    if_neg <| u.weak q <| Finset.mem_range.mp hq
  simp [balance, owners, owed, held, stored, hw, u.handles, u.cell, u.owns, u.owes]

omit [Fintype T] [Fintype C] in
theorem WellReferenced.unowned_alloc (r : WellReferenced m) (c : Slot) (d : Data) :
    (m.alloc c d).Unowned m.next where
  handles := by have := r.handles m.next; grind -linarith
  cell x  := by have := r.cell x m.next; grind -linarith
  weak q hq := by have := r.weak q m.next; grind -linarith
  owns t  := by
    have := r.pc t m.next
    have := r.making t m.next
    have := (m.pc t).mentions_of_owns (p := m.next)
    grind -linarith
  owes t  := by
    have := r.pc t m.next
    grind -linarith

theorem balance_alloc_next (r : WellReferenced m) (c : Slot) (d : Data) :
    (m.alloc c d).balance m.next = 0 := by
  rw [(r.unowned_alloc c d).balance_eq]
  simp [total, word, counters]

namespace Balanced

theorem initial (h : m.Initial) : Balanced m := by
  simp [Balanced, h.next]

variable [DecidableEq T] [DecidableEq C]

omit [DecidableEq T] [DecidableEq C] in
theorem alloc (r : WellReferenced m) (w : WellSlotted m) (b : Balanced m) (hc : m.used c = false)
    (d : Data) : Balanced (m.alloc c d) := by
  intro p hp hf
  by_cases h : p < m.next
  case pos =>
    have hne : c ≠ m.counters p := by have := w.used p; grind -linarith
    rw [balance_alloc h hne]
    exact b p h hf
  case neg =>
    have : p = m.next := by grind -linarith
    rw [this]
    exact balance_alloc_next r c d

omit [Fintype T] [Fintype C] [DecidableEq T] [DecidableEq C] in
theorem counts_of_incrAdd (r : WellReferenced m) (w : WellSlotted m)
    (safe : ∀ p, (m.pc t).Counts p → m.freed p = 0) (pc : m.pc t = .incrAdd q c i k) :
    c = m.counters q ∧ q < m.next ∧ m.freed q = 0 :=
  ⟨w.holds t q c (by simp [pc, Pc.Holds]), (r.pc t q (by simp [pc, Pc.Mentions])).lt,
    safe q (by simp [pc, Pc.Counts])⟩

omit [Fintype T] [Fintype C] [DecidableEq T] [DecidableEq C] in
theorem counts_of_dropCas (r : WellReferenced m) (w : WellSlotted m)
    (safe : ∀ p, (m.pc t).Counts p → m.freed p = 0) (pc : m.pc t = .dropCas q c i v) :
    c = m.counters q ∧ q < m.next ∧ m.freed q = 0 :=
  ⟨w.holds t q c (by simp [pc, Pc.Holds]), (r.pc t q (by simp [pc, Pc.Mentions])).lt,
    safe q (by simp [pc, Pc.Counts])⟩

omit [DecidableEq T] [DecidableEq C] in
-- Changing a counter of an object in use changes the sum of no other object.
theorem balance_counts (w : WellSlotted m) (hp : p < m.next) (hf : m.freed p = 0)
    (hq : c = m.counters q ∧ q < m.next ∧ m.freed q = 0) (f : TaggedCounter → TaggedCounter) :
    (m.modifyCounter c i f).balance p = m.balance p +
      if q = p then (f (m.counter c i)).refCount - (m.counter c i).refCount else 0 := by
  have := w.inj p q
  rw [balance_modifyCounter]
  grind -linarith

theorem step (r : WellReferenced m) (w : WellSlotted m) (wk : WellWeak m) (b : Balanced m)
    (safe : ∀ p, (m.pc t).Counts p → m.freed p = 0) (s : Step m t m') : Balanced m' := by
  intro p hp hf
  induction s
  case new pc hu     => rw [balance_setPc, b.alloc r w hu _ p hp hf, pc]; simp [Pc.owns, Pc.owes]
  case alloc pc hu   => rw [balance_setPc, b.alloc r w hu _ p hp hf, pc]; simp [Pc.owns, Pc.owes]
  case casFail       => exact b p hp hf
  all_goals have hb : m.balance p = 0 := b p hp hf
  case drop pc ht    =>
    rw [balance_setPc, balance_takeHandle (by grind -linarith), hb, pc]
    simp only [Pc.owns, Pc.owes]
    grind -linarith
  case swap pc ht =>
    rw [balance_giveHandle, balance_exchange, balance_takeHandle (by grind -linarith), hb]
    grind -linarith
  case storeNull pc ht _ =>
    rw [balance_setPc, balance_exchange, balance_takeHandle (by grind -linarith), hb, pc]
    simp only [Pc.owns, Pc.owes]
    grind -linarith
  case storeSome pc ht _ =>
    rw [balance_setPc, balance_exchange, balance_takeHandle (by grind -linarith), hb, pc]
    simp only [Pc.owns, Pc.owes]
    grind -linarith
  case newIncrement q k i pc =>
    have hq := r.making t q (by simp [pc, Pc.Making])
    rw [balance_setPc, balance_counts w hp hf ⟨rfl, hq.left, safe q (by simp [pc, Pc.Counts])⟩, hb, pc]
    simp only [Pc.owns, Pc.owes]
    grind -linarith
  case addClone pc =>
    rw [balance_setPc, balance_giveHandle, balance_counts w hp hf (counts_of_incrAdd r w safe pc), hb, pc]
    simp only [Pc.owns, Pc.owes]
    grind -linarith
  case addDowngrade pc =>
    rw [balance_setPc, balance_giveHandle, balance_counts w hp hf (counts_of_incrAdd r w safe pc), hb, pc]
    simp only [Pc.owns, Pc.owes]
    grind -linarith
  case addRead pc =>
    rw [balance_setPc, balance_counts w hp hf (counts_of_incrAdd r w safe pc), hb, pc]
    simp only [Pc.owns, Pc.owes]
    grind -linarith
  case addCompareAndSet pc =>
    rw [balance_setPc, balance_giveHandle, balance_counts w hp hf (counts_of_incrAdd r w safe pc), hb, pc]
    simp only [Pc.owns, Pc.owes]
    grind -linarith
  case dropCas pc _ =>
    rw [balance_setPc, balance_counts w hp hf (counts_of_dropCas r w safe pc), hb, pc]
    simp only [Pc.owns, Pc.owes]
    grind -linarith
  case downgradeUninit q pc hl =>
    have hq := (r.pc t q (by simp [pc, Pc.Mentions])).lt
    rw [balance_setPc, balance_setWeakInnerRef hq, hb, pc]
    simp only [Pc.owns, Pc.owes]
    grind -linarith
  case downgradeSet q _ pc =>
    have hq := (r.pc t q (by simp [pc, Pc.Mentions])).lt
    have := wk.initing t q
    rw [balance_setPc, balance_setWeakInnerRef hq, hb, pc]
    simp only [Pc.owns, Pc.owes]
    grind -linarith
  all_goals
    simp only [balance_setPc, balance_giveHandle, balance_exchange, balance_enter, balance_leave,
      balance_push, hb, ‹m.pc t = _›, Pc.owns, Pc.owes]
    grind -linarith

end Balanced
end Memory
end Sdarc
