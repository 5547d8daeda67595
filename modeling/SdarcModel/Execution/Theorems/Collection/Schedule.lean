import SdarcModel.Execution.Theorems.Collection.Enclosed
import SdarcModel.Execution.Theorems.Collection.WorkList
import SdarcModel.Execution.Theorems.Upgrade

open scoped BigOperators

namespace Sdarc

namespace Memory

variable {n : Nat} {T C : Type} {m m' : Memory n T C} {t : Thread T} {p : Ptr} [DecidableEq T] [DecidableEq C]

-- The counters of an object change only where a call counts on it.
theorem Step.word_eq (r : WellReferenced m) (w : WellSlotted m) (safe : ∀ q, (m.pc t).Counts q → m.freed q = 0)
    (s : Step m t m') (hp : p < m.next) (hf : m.freed p = 0) (hn : ¬(m.pc t).Counts p) (i : Fin n) :
    m'.word p i = m.word p i := by
  have hm q c j f (hq : (m.pc t).Counts q ∧ c = m.counters q ∧ q < m.next) : (m.modifyCounter c j f).word p i = m.word p i := by
    have hne : m.counters p ≠ c := fun h => hn (w.inj p q hp hq.right.right hf (safe q hq.left) (h.trans hq.right.left) ▸ hq.left)
    rw [word, counter_modifyCounter, if_neg (hne ·.left)]
  have ha q c j k (pc : m.pc t = .incrAdd q c j k) : (m.pc t).Counts q ∧ c = m.counters q ∧ q < m.next :=
    ⟨by simp [pc, Pc.Counts], w.holds t q c (by simp [pc, Pc.Holds]), (r.pc t q (by simp [pc, Pc.Mentions])).lt⟩
  have hu c d (hc : m.used c = false) : (m.alloc c d).word p i = m.word p i := by
    have hne : m.counters p ≠ c := fun h => by simp [← h, w.used p hp hf] at hc
    simp only [word, counters]
    rw [Function.update_of_ne hp.ne, Function.update_of_ne hne]
  induction s
  case new hc              => exact hu _ _ hc
  case alloc hc            => exact hu _ _ hc
  case newIncrement q k j pc =>
    exact hm q _ _ _ ⟨by simp [pc, Pc.Counts], rfl, (r.making t q (by simp [pc, Pc.Making])).left⟩
  case addClone pc         => exact hm _ _ _ _ (ha _ _ _ _ pc)
  case addDowngrade pc     => exact hm _ _ _ _ (ha _ _ _ _ pc)
  case addRead pc          => exact hm _ _ _ _ (ha _ _ _ _ pc)
  case addCompareAndSet pc => exact hm _ _ _ _ (ha _ _ _ _ pc)
  case dropCas q c j v pc _ =>
    exact hm q c _ _ ⟨by simp [pc, Pc.Counts], w.holds t q c (by simp [pc, Pc.Holds]), (r.pc t q (by simp [pc, Pc.Mentions])).lt⟩
  all_goals grind

end Memory
-- A shard of `pending_to_track` that `take_new_counters_to_track` has yet to empty.
def CollectorPc.Takes : CollectorPc n → Fin n → Prop
  | .take i, j     => i ≤ j.val
  | .insert i _, j => i < j.val
  | _, _           => False

attribute [grind] CollectorPc.Takes

namespace State

variable {n : Nat} {T C : Type} {s s' : State n T C} {o : Ownership C} {S : Finset Ptr} {ℓ : Ptr → Nat} {p : Ptr}

-- The passes of this update that were over when `a` began.
def rounds (s : State n T C) (a : Pass) : Nat :=
  if a.all then 0 else s.col.loopCounter + 1

abbrev TrackedAs (s : State n T C) (p : Ptr) (st : TrackedCounterState) : Prop :=
  s.col.tracked.lookup (s.mem.counters p) = some ⟨p, st⟩

-- After `j` passes, the object needs no more than up to the `b`th to be found ready to free.
def Within (s : State n T C) (p : Ptr) (j b : Nat) : Prop :=
  j + 3 ≤ b ∨ (s.TrackedAs p .requiresReChecking ∧ (j + 2 ≤ b ∨ (¬s.mem.Open p ∧ j + 1 ≤ b))) ∨
    (s.TrackedAs p .readyToFree ∧ j ≤ b)

-- The object is put down for the next visit, which comes in time.
def Scheduled (s : State n T C) (p : Ptr) (b : Nat) : Prop :=
  match s.col.pc.phase with
  | .preparing    => True
  | .waiting r    => s.mem.counters p ∈ r ∧ s.Within p (s.col.loopCounter + 1) b
  | .visiting a d =>
    ((s.mem.counters p ∈ a.todo ∨ d = some (s.mem.counters p)) ∧ s.Within p (s.rounds a) b) ∨
    ((s.mem.counters p ∈ a.newToReCheck ∨ s.mem.counters p ∈ a.toFree) ∧ s.Within p (s.rounds a + 1) b)
  | .freeing a =>
    (s.mem.counters p ∈ a.newToReCheck ∨ s.mem.counters p ∈ s.col.pc.toFree ∨ s.Noted p) ∧
      s.Within p (s.rounds a + 1) b
  | .over => False

-- What the collector has read of an object's counters, which only it changes itself.
structure Scanned (s : State n T C) (p : Ptr) : Prop where
  pending   : ∀ j, ∀ e ∈ s.mem.pending j, e.1 = p → s.col.pc.Takes j
  tracked   : s.TrackedAs p .requiresReChecking → s.mem.total p = 0 ∧ ∀ i, (s.mem.word p i).tag = false
  ready     : s.TrackedAs p .readyToFree → s.mem.total p = 0
  readSum   : ∀ a i sum, s.col.pc = .readSum a (s.mem.counters p) i sum →
    sum = ∑ j ∈ Scan.before n i, (s.mem.word p j).refCount
  clearTags : ∀ a i sum, s.col.pc = .clearTags a (s.mem.counters p) i sum →
    sum = ∑ j ∈ Scan.before n i, (s.mem.word p j).refCount ∧ ∀ j ∈ Scan.before n i, (s.mem.word p j).tag = false
  reCheck   : ∀ a i sum, s.col.pc = .reCheck a (s.mem.counters p) i sum →
    sum = ∑ j ∈ Scan.before n i, (s.mem.word p j).refCount

theorem Enclosed.dropCas (e : Enclosed o S ℓ s) (hp : p ∈ S) (hc : (s.mem.pc t).Counts p) :
    t = none ∧ (∃ c i v, s.mem.pc t = .dropCas p c i v) ∧ s.DropsBelow S ℓ p := by
  have hm := (e.published p hp).made t
  have he := e.calls p hp t
  cases pc : s.mem.pc t <;> simp_all [Pc.Counts, Pc.Making, Pc.Mentions, Pc.dropping]

section

variable [Fintype T] [Fintype C]

theorem Enclosed.total_eq (e : Enclosed o S ℓ s) (b : s.mem.Balanced) (hp : p ∈ S) (hf : s.mem.freed p = 0) :
    s.mem.total p = s.mem.owners p := by
  have ho : s.mem.owed p = 0 := Finset.sum_eq_zero fun t _ => if_neg fun h => by
    have := (e.calls p hp t (Pc.mentions_of_owes h)).right.left
    cases pc : s.mem.pc t <;> simp_all [Pc.owes, Pc.dropping]
  have := b p (e.published p hp).lt hf
  simp only [Memory.balance] at this
  omega

theorem Enclosed.unowned (e : Enclosed o S ℓ s) (b : s.mem.Balanced) (hp : p ∈ S) (hf : s.mem.freed p = 0)
    (zero : s.mem.total p = 0) : s.mem.Unowned p := by
  refine .of_owners (e.total_eq b hp hf ▸ zero.le) (Finset.sum_eq_zero fun t _ => if_neg fun h => ?_)
  have := (e.calls p hp t (Pc.mentions_of_owes h)).right.left
  cases pc : s.mem.pc t <;> simp_all [Pc.owes, Pc.dropping]

end

variable [DecidableEq T] [DecidableEq C]

theorem trackedAs_thread (st : s.mem.Step t m) (a : Act n C) (hp : p < s.mem.next) :
    TrackedAs { mem := m, col := s.notify t a } p state ↔ s.TrackedAs p state := by
  rw [TrackedAs, TrackedAs, notify_tracked, st.counters_eq hp]

theorem Scanned.thread [Fintype T] [Fintype C] (w : WellFormed s) (b : s.mem.Balanced) (e : Enclosed o S ℓ s) (hp : p ∈ S)
    (hf : s.mem.freed p = 0) (sc : Scanned s p) (safe : ∀ q, (s.mem.pc t).Counts q → s.mem.freed q = 0)
    (st : s.mem.Step t m) (a : Act n C) : Scanned { mem := m, col := s.notify t a } p := by
  have hlt := (e.published p hp).lt
  have hpending j q (h : q ∈ m.pending j) (hq : q.1 = p) : q ∈ s.mem.pending j := by
    have := (e.published p hp).made t
    induction st <;> grind
  by_cases hc : (s.mem.pc t).Counts p
  case pos =>
    obtain ⟨rfl, ⟨c, i, v, pc⟩, d, q, cpc, -⟩ := e.dropCas hp hc
    have hz : s.mem.total p ≠ 0 := fun hz => by
      have := (e.unowned b hp hf hz).owns none
      simp [pc, Pc.owns] at this
    constructor <;> simp only [trackedAs_thread st a hlt, notify_pc, cpc, reduceCtorEq, false_implies, implies_true]
    case pending => exact fun j q h hq => cpc ▸ sc.pending j q (hpending j q h hq) hq
    case tracked => exact fun h => absurd (sc.tracked h).left hz
    case ready   => exact fun h => absurd (sc.ready h) hz
  case neg =>
    have hw := st.word_eq w.mem.referenced w.mem.slotted safe hlt hf hc
    have hz : m.total p = s.mem.total p := Finset.sum_congr rfl fun i _ => by rw [hw]
    constructor <;> simp only [trackedAs_thread st a hlt, st.counters_eq hlt, notify_pc, hw, hz]
    case pending   => exact fun j q h hq => sc.pending j q (hpending j q h hq) hq
    case tracked   => exact sc.tracked
    case ready     => exact sc.ready
    case readSum   => exact sc.readSum
    case clearTags => exact sc.clearTags
    case reCheck   => exact sc.reCheck

theorem Enclosed.open_of_step (w : WellFormed s) (e : Enclosed o S ℓ s) (hp : p ∈ S) (st : s.mem.Step t m)
    (h : m.Open p) : s.mem.Open p := by
  obtain ⟨v, hi, hb⟩ := h
  have hlt := (e.published p hp).lt
  have hi' : (s.mem.inner p).weakInnerRef = .init v := by
    have he := e.calls p hp t
    induction st
    case downgradeSet q r pc =>
      by_cases hq : p = q
      case pos => simp [pc, Pc.Mentions, Pc.dropping, hq] at he
      case neg => grind
    all_goals grind
  have hv := (w.mem.referenced.weak p v hlt hi').lt
  exact ⟨v, hi', st.backRef_eq hv ▸ hb⟩

theorem Within.thread (w : WellFormed s) (e : Enclosed o S ℓ s) (hp : p ∈ S) (st : s.mem.Step t m) (a : Act n C)
    (h : s.Within p j b) : Within { mem := m, col := s.notify t a } p j b := by
  simp only [Within, trackedAs_thread st a (e.published p hp).lt]
  exact h.imp_right (·.imp_left (·.imp_right (·.imp_right (·.imp_left (mt (e.open_of_step w hp st))))))

theorem Scheduled.thread [Fintype T] (w : WellFormed s) (e : Enclosed o S ℓ s) (hp : p ∈ S)
    (h : s.mem.threadStep t a = some m) (sc : s.Scheduled p b) : Scheduled { mem := m, col := s.notify t a } p b := by
  have st := Memory.Step.of_threadStep h
  have hlt := (e.published p hp).lt
  have hr c : rounds { mem := m, col := s.notify t a } c = s.rounds c := by simp [rounds]
  have hw j (h : s.Within p j b) : Within { mem := m, col := s.notify t a } p j b := h.thread w e hp st a
  unfold Scheduled at *
  simp only [notify_pc, st.counters_eq hlt, notify_loopCounter, hr]
  cases hph : s.col.pc.phase <;> simp only [hph] at sc ⊢
  case waiting r  => exact sc.imp_right (hw _)
  case visiting d => exact sc.imp (·.imp_right (hw _)) (·.imp_right (hw _))
  case freeing d =>
    refine ⟨?_, hw _ sc.right⟩
    exact sc.left.imp_right (·.imp_right (·.thread hlt h))

-- What holds during an update, of every object of `S` that is not yet freed.
structure Collecting (o : Ownership C) (S : Finset Ptr) (ℓ : Ptr → Nat) (s : State n T C) : Prop where
  enclosed  : Enclosed o S ℓ s
  scanned   : ∀ p ∈ S, s.mem.freed p = 0 → Scanned s p
  scheduled : ∀ p ∈ S, s.mem.freed p = 0 → ¬s.col.pc.Removed p → s.mem.total p = 0 → s.Scheduled p (3 * ℓ p)
  dropping  : ∀ p ∈ S, ∀ a, s.col.pc = .dropInner a p ∨ s.col.pc = .dropWeak a p ∨ s.col.pc = .dropData a p →
    s.rounds a + 1 ≤ 3 * ℓ p

theorem Collecting.scheduled_thread [Fintype T] [Fintype C] (w : WellFormed s) (b : s.mem.Balanced)
    (c : Collecting o S ℓ s) (safe : s.Defined (.thread t a)) (h : s.mem.threadStep t a = some m) (hp : p ∈ S)
    (hf : s.mem.freed p = 0) (hr : ¬s.col.pc.Removed p) (hz : m.total p = 0) :
    Scheduled { mem := m, col := s.notify t a } p (3 * ℓ p) := by
  have e := c.enclosed
  have st := Memory.Step.of_threadStep h
  have hlt := (e.published p hp).lt
  by_cases hc : (s.mem.pc t).Counts p
  case neg =>
    have hw := st.word_eq w.mem.referenced w.mem.slotted safe hlt hf hc
    have hz' : m.total p = s.mem.total p := Finset.sum_congr rfl fun i _ => by rw [hw]
    exact (c.scheduled p hp hf hr (hz' ▸ hz)).thread w e hp h
  case pos =>
    -- The last reference goes with the payload that owned it, which was found ready to free in this pass.
    obtain ⟨rfl, ⟨d, i, v, pc⟩, x, q, cpc, hq, hl⟩ := e.dropCas hp hc
    have hne : s.mem.total p ≠ 0 := fun hz => by
      have := (e.unowned b hp hf hz).owns none
      simp [pc, Pc.owns] at this
    have hn : m.pc none = .dropNotify p := by
      induction st
      case dropRetry => exact absurd hz hne
      all_goals simp_all
    have hx : s.rounds x + 1 ≤ 3 * ℓ q := c.dropping q hq x (.inr (.inr cpc))
    simp only [Scheduled, notify_pc, cpc, CollectorPc.phase]
    refine ⟨.inr (.inr (.inl (by simp [hn, Pc.dropping]))), .inl ?_⟩
    simp only [rounds, notify_loopCounter] at hx ⊢
    omega

theorem Collecting.thread [Fintype T] [Fintype C] (w : WellFormed s) (b : s.mem.Balanced) (c : Collecting o S ℓ s)
    (hℓ : ∀ q ∈ S, ∀ p ∈ S, 0 < o.sdarcs q p → ℓ q < ℓ p) (ready : s.mem.pc t = .idle → s.mayStart t = true)
    (safe : s.Defined (.thread t a)) (iso : o.Isolated S s (.thread t a)) (h : s.mem.threadStep t a = some m) :
    Collecting o S ℓ { mem := m, col := s.notify t a } := by
  have st := Memory.Step.of_threadStep h
  constructor
  case enclosed => exact c.enclosed.thread w hℓ ready iso h
  case scanned =>
    intro p hp hf
    rw [st.freed_eq] at hf
    exact (c.scanned p hp hf).thread w b c.enclosed hp hf safe st a
  case scheduled =>
    intro p hp hf hr hz
    rw [st.freed_eq] at hf
    rw [notify_pc] at hr
    exact c.scheduled_thread w b safe h hp hf hr hz
  case dropping =>
    intro p hp d h
    simp only [notify_pc, rounds, notify_loopCounter] at h ⊢
    exact c.dropping p hp d h

end State
end Sdarc
