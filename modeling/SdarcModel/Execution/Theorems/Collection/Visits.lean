import SdarcModel.Execution.Theorems.Collection.Schedule

open scoped BigOperators

namespace Sdarc

namespace Scan

theorem sum_before_succ {n i : Nat} (h : i < n) (f : Fin n → Int) :
    ∑ j ∈ Scan.before n (i + 1), f j = ∑ j ∈ Scan.before n i, f j + f ⟨i, h⟩ := by
  rw [Scan.before_succ h, Finset.sum_insert (Scan.notMem_before h), add_comm]

end Scan

namespace State

variable {n : Nat} {T C : Type} {s s' : State n T C} {o : Ownership C} {S : Finset Ptr} {ℓ : Ptr → Nat} {p : Ptr}
  [DecidableEq T] [DecidableEq C]

omit [DecidableEq C] in
-- The collector's own code changes nothing of a counter but its tag.
theorem CollectorStep.word_eq (st : CollectorStep s s') (i : Fin n) :
    s'.mem.word p i = s.mem.word p i ∨
      (∃ a j sum, s.col.pc = .clearTags a (s.mem.counters p) j sum) ∧ s'.mem.word p i = (s.mem.word p i).clearTag := by
  induction st
  case clearTag a c j sum pc h =>
    rw [Memory.word, Memory.word, Memory.counter_modifyCounter]
    split
    case isTrue hc  => exact .inr ⟨⟨a, j, sum, hc.left ▸ pc⟩, rfl⟩
    case isFalse    => exact .inl rfl
  all_goals
    left
    first | rfl | grind -linarith

omit [DecidableEq C] in
theorem CollectorStep.refCount_eq (st : CollectorStep s s') (i : Fin n) :
    (s'.mem.word p i).refCount = (s.mem.word p i).refCount := by
  rcases st.word_eq (p := p) i with h | ⟨-, h⟩ <;> simp [h]

omit [DecidableEq C] in
theorem CollectorStep.total_eq (st : CollectorStep s s') : s'.mem.total p = s.mem.total p :=
  Finset.sum_congr rfl fun i _ => st.refCount_eq i

omit [DecidableEq C] in
theorem CollectorStep.tag_eq (st : CollectorStep s s') (i : Fin n) (h : (s.mem.word p i).tag = false) :
    (s'.mem.word p i).tag = false := by
  rcases st.word_eq (p := p) i with h' | ⟨-, h'⟩ <;> simp [h', h]

omit [DecidableEq C] in
theorem Scanned.collector (w : WellFormed s) (sc : Scanned s p) (st : CollectorStep s s') (np : ∀ e, s'.col.pc ≠ .panicked e) :
    Scanned s' p := by
  have hc := st.counters_eq (p := p)
  constructor
  case pending =>
    intro j e h he
    have hp := sc.pending j e
    induction st <;> first | exact hp h he | grind -linarith
  case tracked =>
    intro h
    rw [st.total_eq]
    suffices ht : s.mem.total p = 0 ∧ ∀ i, (s.mem.word p i).tag = false from
      ht.imp_right fun ht i => st.tag_eq i (ht i)
    by_cases hp : s.TrackedAs p .requiresReChecking
    case pos => exact sc.tracked hp
    case neg =>
      have hs := sc.clearTags
      rw [TrackedAs, hc] at h
      induction st
      case clearTagsZero a c j sum pc hj zero =>
        by_cases hd : s.mem.counters p = c
        case neg => grind -linarith
        case pos =>
          have := hs a j sum (hd ▸ pc)
          rw [Scan.before_of_le (Nat.le_of_not_lt hj)] at this
          exact ⟨this.left.symm.trans zero, fun i => this.right i (Finset.mem_univ i)⟩
      case swapBackRef a c v q pc old =>
        obtain ⟨_, r, hr⟩ := w.visited.visiting c .requiresReChecking (by simp [pc, CollectorPc.Visiting])
        grind -linarith
      all_goals first | exact absurd h hp | grind -linarith
  case ready =>
    intro h
    rw [st.total_eq]
    by_cases hp : s.TrackedAs p .readyToFree
    case pos => exact sc.ready hp
    case neg =>
      rw [TrackedAs, hc] at h
      have hr : s.TrackedAs p .requiresReChecking := by
        have := w.visited.visiting (s.mem.counters p) .requiresReChecking
        induction st <;> first | exact absurd h hp | grind -linarith
      exact (sc.tracked hr).left
  case readSum =>
    intro a i sum h
    rw [hc] at h
    simp only [st.refCount_eq]
    have hs := sc.readSum
    induction st
    case nextDefault =>
      simp only [CollectorPc.readSum.injEq] at h
      obtain ⟨-, -, rfl, rfl⟩ := h
      simp
    case readSum a c j sum pc hj =>
      simp only [CollectorPc.readSum.injEq] at h
      obtain ⟨rfl, rfl, rfl, rfl⟩ := h
      rw [Scan.sum_before_succ hj, hs a j sum pc]
    all_goals first | contradiction | grind -linarith
  case clearTags =>
    intro a i sum h
    rw [hc] at h
    simp only [st.refCount_eq]
    have hs := sc.clearTags
    induction st
    case readSumZero =>
      simp only [CollectorPc.clearTags.injEq] at h
      obtain ⟨-, -, rfl, rfl⟩ := h
      simp
    case clearTag a c j sum pc hj =>
      simp only [CollectorPc.clearTags.injEq] at h
      obtain ⟨rfl, rfl, rfl, rfl⟩ := h
      obtain ⟨hsum, htag⟩ := hs a j sum pc
      rw [Scan.sum_before_succ hj, Scan.before_succ hj, hsum]
      refine ⟨rfl, fun k hk => ?_⟩
      rw [Memory.word, Memory.counter_modifyCounter]
      split
      case isTrue     => rfl
      case isFalse hn => exact htag k ((Finset.mem_insert.mp hk).resolve_left fun h => hn ⟨rfl, h⟩)
    all_goals first | contradiction | grind -linarith
  case reCheck =>
    intro a i sum h
    rw [hc] at h
    simp only [st.refCount_eq]
    have hs := sc.reCheck
    induction st
    case nextReCheck =>
      simp only [CollectorPc.reCheck.injEq] at h
      obtain ⟨-, -, rfl, rfl⟩ := h
      simp
    case reCheck a c j sum pc hj _ =>
      simp only [CollectorPc.reCheck.injEq] at h
      obtain ⟨rfl, rfl, rfl, rfl⟩ := h
      rw [Scan.sum_before_succ hj, hs a j sum pc]
    all_goals first | contradiction | grind -linarith

end State
end Sdarc
