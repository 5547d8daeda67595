import SdarcModel.Execution.Theorems.Bookkeeping.Visits
import SdarcModel.Library.Scan

open scoped BigOperators

namespace Sdarc

-- The scan of one counter after the other, over the words of an `Sdarc`'s counters.
abbrev Later : TaggedCounter → TaggedCounter → Prop :=
  Scan.Later TaggedCounter.refCount TaggedCounter.tag

abbrev AtLeast (w : Fin n → TaggedCounter) (U : Finset (Fin n)) (lo : Int) : Prop :=
  Scan.AtLeast TaggedCounter.refCount TaggedCounter.tag w U lo

namespace Memory

variable {n : Nat} {T C : Type} {m m' : Memory n T C}

theorem counter_modifyCounter (c d : Slot) (i j : Fin n) (f : TaggedCounter → TaggedCounter) :
    (m.modifyCounter c i f).counter d j = if d = c ∧ j = i then f (m.counter d j) else m.counter d j := by
  by_cases hc : d = c <;> by_cases hi : j = i <;> simp_all []

theorem later_modifyCounter {c d : Slot} {i j : Fin n} {f : TaggedCounter → TaggedCounter}
    (hf : ∀ w, Later w (f w)) : Later (m.counter d j) ((m.modifyCounter c i f).counter d j) := by
  rw [counter_modifyCounter]
  split
  case isTrue  => exact hf _
  case isFalse => exact .refl _

theorem later_alloc {c d : Slot} {i : Fin n} {a : Data} (h : d ≠ c) :
    Later (m.counter d i) ((m.alloc c a).counter d i) := by
  rw [show (m.alloc c a).counter d = m.counter d from Function.update_of_ne h ..]
  exact .refl _

variable [DecidableEq T] [DecidableEq C]

-- While a slot is in use, its counters only go up or get tagged.
theorem Step.later (s : Step m t m') (h : m.used c = true) (i : Fin n) :
    Later (m.counter c i) (m'.counter c i) := by
  induction s
  case new d _ hu         => exact later_alloc (a := .user) (fun h => by simp_all)
  case alloc q d _ hu     => exact later_alloc (a := .weak (some q)) (fun h => by simp_all)
  case newIncrement       => exact later_modifyCounter TaggedCounter.later_incrementRefCount
  case addClone           => exact later_modifyCounter TaggedCounter.later_incrementRefCount
  case addDowngrade       => exact later_modifyCounter TaggedCounter.later_incrementRefCount
  case addRead            => exact later_modifyCounter TaggedCounter.later_incrementRefCount
  case addCompareAndSet   => exact later_modifyCounter TaggedCounter.later_incrementRefCount
  case dropCas            => exact later_modifyCounter TaggedCounter.later_decrementRefCountAndSetTag
  all_goals exact .refl _

end Memory

namespace State

variable {n : Nat} {T C : Type} {s s' : State n T C} {c : Slot}

-- What is known of the counters under check, so that their sum cannot come out negative.
structure WellScanned (s : State n T C) : Prop where
  tracked  : ∀ c p, s.col.tracked.lookup c = some ⟨p, .requiresReChecking⟩ →
    AtLeast (s.mem.counter c) Finset.univ 0
  clearing : ∀ a c j sum, s.col.pc = .clearTags a c j sum →
    AtLeast (s.mem.counter c) (Scan.before n j) sum
  checking : ∀ a c j sum, s.col.pc = .reCheck a c j sum →
    AtLeast (s.mem.counter c) (Scan.rest n j) (-sum)

variable [DecidableEq T] [DecidableEq C]

-- No assertion of the collector fires.
omit [DecidableEq C] in
theorem CollectorStep.not_panicked (sl : s.mem.WellSlotted) (w : WellTracked s) (v : WellVisited s)
    (sc : WellScanned s) (st : CollectorStep s s') : s'.col.pc ≠ .panicked e := by
  induction st
  case insertReplaced pc old => simp [w.not_replaced sl pc] at old
  case nextReady a c cs p pc todo old =>
    have := v.ready c p old
    have := v.disjoint c
    grind -linarith
  case reCheckNegative a c j sum pc h neg =>
    have := sc.checking a c j sum pc
    rw [Scan.rest_of_le (Nat.le_of_not_lt h), AtLeast, Scan.AtLeast.empty] at this
    omega
  case freeUntracked a c cs pc toFree old =>
    have := v.toFree c
    grind -linarith
  case freeNotReady a c cs tc pc toFree old state =>
    have := v.toFree c
    grind -linarith
  case freeMismatch pc toFree old counters => exact absurd (w.slot _ _ old) counters
  case spinAgainBusy pc busy => simp [pc]
  all_goals simp

namespace WellScanned

omit [DecidableEq T] [DecidableEq C] in
theorem used (sl : s.mem.WellSlotted) (w : WellTracked s) (h : s.col.tracked.lookup c = some tc) :
    s.mem.used c = true := by
  rw [← w.slot c tc h]
  exact sl.used tc.ptr (w.completed h).lt (w.unfreed h)

omit [DecidableEq T] [DecidableEq C] in
theorem visiting_used (sl : s.mem.WellSlotted) (w : WellTracked s) (v : WellVisited s)
    (h : s.col.pc.Visiting c state) : s.mem.used c = true :=
  have ⟨_, _, h⟩ := v.visiting c state h
  used sl w h

theorem thread (sl : s.mem.WellSlotted) (w : WellTracked s) (v : WellVisited s) (sc : WellScanned s)
    (st : s.mem.Step t m) (a : Act n C) : WellScanned { mem := m, col := s.notify t a } where
  tracked c p h := by
    rw [notify_tracked] at h
    exact (sc.tracked c p h).later fun i _ => st.later (used sl w h) i
  clearing a c j sum h := by
    rw [notify_pc] at h
    have hv : s.col.pc.Visiting c .defaultState := by simp [h, CollectorPc.Visiting]
    have hu := visiting_used sl w v hv
    exact (sc.clearing a c j sum h).later fun i _ => st.later hu i
  checking a c j sum h := by
    rw [notify_pc] at h
    have hv : s.col.pc.Visiting c .requiresReChecking := by simp [h, CollectorPc.Visiting]
    have hu := visiting_used sl w v hv
    exact (sc.checking a c j sum h).later fun i _ => st.later hu i

omit [DecidableEq T] [DecidableEq C] in
theorem visiting_ne (v : WellVisited s) (hv : s.col.pc.Visiting c .defaultState)
    (h : s.col.tracked.lookup d = some ⟨p, .requiresReChecking⟩) : d ≠ c := by
  have := (v.visiting c _ hv).right
  grind -linarith

omit [DecidableEq C] in
theorem collector (v : WellVisited s) (sc : WellScanned s) (st : CollectorStep s s') : WellScanned s' where
  tracked d p h := by
    have hd := sc.tracked d
    induction st
    case clearTag a c j sum pc hj =>
      have hne := visiting_ne (c := c) v (by simp [pc, CollectorPc.Visiting]) h
      exact (hd p h).later fun i _ => by
        rw [Memory.counter_modifyCounter, if_neg (hne ·.left)]
        exact .refl _
    case clearTagsZero a c j sum pc hj zero =>
      have := sc.clearing a c j sum pc
      rw [Scan.before_of_le (Nat.le_of_not_lt hj), zero] at this
      grind -linarith
    case swapBackRef a c w q pc old =>
      have ⟨_, r, hr⟩ := v.visiting c .requiresReChecking (by simp [pc, CollectorPc.Visiting])
      grind -linarith
    all_goals first | exact hd p h | grind -linarith
  clearing a c j sum h := by
    have hs := sc.clearing
    induction st
    case readSumZero =>
      simp only [CollectorPc.clearTags.injEq] at h
      obtain ⟨-, -, rfl, rfl⟩ := h
      rw [Scan.before_zero]
      exact Scan.AtLeast.empty.mpr le_rfl
    case clearTag a c i sum pc hi =>
      simp only [CollectorPc.clearTags.injEq] at h
      obtain ⟨-, rfl, rfl, rfl⟩ := h
      rw [Scan.before_succ hi]
      have := (sc.clearing _ _ _ _ pc).clear (Scan.notMem_before hi) (s.mem.counter c ⟨i, hi⟩).clearTag
      rwa [← Function.update_self c (Function.update (s.mem.counter c) _ _) s.mem.counter] at this
    all_goals first | contradiction | grind -linarith
  checking a c j sum h := by
    have hs := sc.checking
    induction st
    case nextReCheck old =>
      simp only [CollectorPc.reCheck.injEq] at h
      obtain ⟨-, rfl, rfl, rfl⟩ := h
      rw [Scan.rest_zero]
      exact sc.tracked _ _ old
    case reCheck a c i sum pc hi tag =>
      simp only [CollectorPc.reCheck.injEq] at h
      obtain ⟨-, rfl, rfl, rfl⟩ := h
      have := sc.checking _ _ _ _ pc
      rw [Scan.rest_eq hi] at this
      exact (this.read (Scan.notMem_rest hi) tag).mono (by omega)
    all_goals first | contradiction | grind -linarith

end WellScanned
end State
end Sdarc
