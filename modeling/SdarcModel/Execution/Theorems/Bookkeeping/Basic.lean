import SdarcModel.Execution.Theorems.Bookkeeping.Scans

open scoped BigOperators

namespace Sdarc

-- Where the collector can hold an object.
inductive Place (n : Nat)
  | pending (i : Fin n)
  | batch
  | tracked
  | removed

namespace State

variable {n : Nat} {T C : Type} {s s' : State n T C} {p : Ptr}

def At (s : State n T C) (p : Ptr) : Place n → Prop
  | .pending i => (p, s.mem.counters p) ∈ s.mem.pending i
  | .batch     => (p, s.mem.counters p) ∈ s.col.pc.batch
  | .tracked   => ∃ tc, s.col.tracked.lookup (s.mem.counters p) = some tc ∧ tc.ptr = p
  | .removed   => s.col.pc.Removed p ∨ 0 < s.mem.freed p

namespace WellTracked

variable (w : WellTracked s)
include w

theorem at_pending : s.At p (.pending i) ↔ 0 < (s.mem.pending i).countP (·.1 = p) := by
  rw [List.countP_pos_iff]
  constructor
  case mp  => exact fun h => ⟨_, h, by simp⟩
  case mpr =>
    rintro ⟨e, h, he⟩
    simp only [decide_eq_true_eq] at he
    have := w.pending i e h
    subst he
    rwa [At, ← this]

theorem at_batch : s.At p .batch ↔ 0 < s.inBatch p := by
  rw [inBatch, List.countP_pos_iff]
  constructor
  case mp  => exact fun h => ⟨_, h, by simp⟩
  case mpr =>
    rintro ⟨e, h, he⟩
    simp only [decide_eq_true_eq] at he
    have := w.batch e h
    subst he
    rwa [At, ← this]

omit w in
theorem at_tracked : s.At p .tracked ↔ 0 < s.inTracked p := by
  simp [At, inTracked, TrackedCounters.tracks, Nat.pos_iff_ne_zero]

omit w in
theorem at_removed : s.At p .removed ↔ 0 < s.inRemoved p := by
  simp only [At, inRemoved]
  grind

theorem exists_at (h : s.mem.Completed p) : ∃ l, s.At p l := by
  have := w.once p h
  by_cases hp : s.mem.inPending p = 0
  case neg =>
    have ⟨i, _, hi⟩ := Finset.exists_ne_zero_of_sum_ne_zero hp
    exact ⟨.pending i, w.at_pending.mpr (Nat.pos_of_ne_zero hi)⟩
  case pos =>
    have : 0 < s.inBatch p ∨ 0 < s.inTracked p ∨ 0 < s.inRemoved p := by omega
    rcases this with h | h | h
    · exact ⟨.batch, w.at_batch.mpr h⟩
    · exact ⟨.tracked, at_tracked |>.mpr h⟩
    · exact ⟨.removed, at_removed |>.mpr h⟩

omit w in
theorem le_inPending (i : Fin n) : (s.mem.pending i).countP (·.1 = p) ≤ s.mem.inPending p :=
  Finset.single_le_sum (f := fun i => (s.mem.pending i).countP (·.1 = p)) (fun _ _ => Nat.zero_le _)
    (Finset.mem_univ i)

omit w in
theorem add_le_inPending {i j : Fin n} (h : i ≠ j) :
    (s.mem.pending i).countP (·.1 = p) + (s.mem.pending j).countP (·.1 = p) ≤ s.mem.inPending p := by
  rw [Memory.inPending, ← Finset.add_sum_erase _ _ (Finset.mem_univ i)]
  have := Finset.single_le_sum (f := fun i => (s.mem.pending i).countP (·.1 = p)) (fun _ _ => Nat.zero_le _)
    (Finset.mem_erase.mpr ⟨h.symm, Finset.mem_univ j⟩)
  omega

theorem at_unique (h : s.mem.Completed p) {l l' : Place n} (hl : s.At p l) (hl' : s.At p l') : l = l' := by
  have := w.once p h
  have hp i := w.at_pending (p := p) (i := i)
  have hle i := le_inPending (s := s) (p := p) i
  have hadd i j := add_le_inPending (s := s) (p := p) (i := i) (j := j)
  have hb := w.at_batch (p := p)
  have ht := at_tracked (s := s) (p := p)
  have hr := at_removed (s := s) (p := p)
  cases l <;> cases l'
  case pending.pending i j =>
    by_contra hne
    have := hadd i j fun h => hne (h ▸ rfl)
    have := (hp i).mp hl
    have := (hp j).mp hl'
    omega
  all_goals grind

end WellTracked
variable [DecidableEq T] [DecidableEq C]

-- What holds in every run, whatever the threads do.
structure WellFormed (s : State n T C) : Prop where
  mem     : s.mem.WellFormed
  tracked : s.WellTracked
  visited : s.WellVisited
  scanned : s.WellScanned
  linked  : s.WellLinked
  running : ∀ e, s.col.pc ≠ .panicked e

omit [DecidableEq T] [DecidableEq C] in
theorem WellFormed.of_dropInner (w : WellFormed s) (pc : s.col.pc = .dropInner a p) :
    p < s.mem.next ∧ s.mem.freed p = 0 := by
  have hr : 1 ≤ s.inRemoved p := by simp [inRemoved, pc, CollectorPc.Removed]
  have hc : s.mem.Completed p := by
    by_contra hc
    have := w.tracked.never p hc
    omega
  have := w.tracked.once p hc
  simp only [inRemoved, pc, CollectorPc.Removed, if_true] at this
  exact ⟨hc.lt, by omega⟩

omit [DecidableEq C] in
theorem CollectorStep.effect (w : WellFormed s) (idle : s.mem.pc none = .idle) (st : CollectorStep s s') :
    s.mem.Effect s'.mem := by
  induction st
  case take     => exact .takePending
  case clearTag => exact .clearTag
  case swapBackRef a c r q pc old =>
    have ⟨p, hl, hi⟩ := w.linked.swapping a c r pc
    exact .clearBackRef (w.tracked.completed hl).lt hi
  case dropInner a p pc =>
    obtain ⟨lt, unfreed⟩ := w.of_dropInner pc
    exact .dropCounters lt unfreed
  case dropWeakInit a p _ pc init => exact .dropWeak idle (w.linked.dropping a p pc) init
  all_goals exact .none

namespace WellFormed

omit [DecidableEq T] [DecidableEq C] in
theorem initial (h : s.Initial) : WellFormed s where
  mem     := .initial h.mem
  tracked := {
    slot c tc hl  := by simp [h.col] at hl
    pending i e   := by simp [h.mem.pending]
    batch e       := by simp [h.col, CollectorPc.batch]
    once p hp     := by simpa [h.mem.next] using hp.lt
    never p _     := by
      simp [Memory.inPending, inBatch, inTracked, inRemoved, TrackedCounters.tracks, CollectorPc.batch,
        CollectorPc.Removed, h.col, h.mem.pending, h.mem.freed] }
  visited := by
    constructor <;> simp [h.col, CollectorPc.toFree, CollectorPc.todo, CollectorPc.Visiting]
  scanned := by constructor <;> simp [h.col]
  linked  := by constructor <;> simp [h.col]
  running := by simp [h.col]

theorem step (w : WellFormed s) (st : Step s l s') : WellFormed s' := by
  induction st
  case thread t m a _ st =>
    exact {
      mem     := w.mem.step st
      tracked := w.tracked.thread w.mem.referenced st
      visited := w.visited.thread t a
      scanned := w.scanned.thread w.mem.slotted w.tracked w.visited st a
      linked  := w.linked.thread w.mem.weak w.tracked st a
      running := by simpa using w.running }
  case collector idle st =>
    have np e := st.not_panicked (e := e) w.mem.slotted w.tracked w.visited w.scanned
    exact {
      mem     := w.mem.effect (st.effect w idle)
      tracked := w.tracked.collector idle st np
      visited := w.visited.collector st np
      scanned := w.scanned.collector w.visited st
      linked  := w.linked.collector w.visited st
      running := np }

end WellFormed

theorem wellFormed [Fintype T] (h : (system n T C).Reachable s) : WellFormed s :=
  h.invariant (fun _ => .initial) fun _ _ _ w st => w.step (.of_next st)

omit [DecidableEq T] [DecidableEq C] in
theorem WellFormed.freed_le (w : WellFormed s) (p : Ptr) : s.mem.freed p ≤ 1 := by
  have hr : s.inRemoved p ≤ 1 := by
    by_cases hp : s.mem.Completed p
    case pos => exact (Nat.le_add_left ..).trans (w.tracked.once p hp).le
    case neg => exact (Nat.le_add_left ..).trans ((w.tracked.never p hp).le.trans (Nat.zero_le 1))
  exact (Nat.le_add_left ..).trans hr

-- The books of the collector are in order in every run.
theorem bookkeeping [Fintype T] (h : (system n T C).Reachable s) :
    (∀ p, s.mem.Completed p → ∃! l, s.At p l) ∧
    (∀ p i, (s.mem.pending i).countP (·.1 = p) ≤ 1 ∧ s.col.pc.batch.countP (·.1 = p) ≤ 1) ∧
    (∀ c tc, s.col.tracked.lookup c = some tc → s.mem.counters tc.ptr = c) ∧
    (∀ p, s.mem.freed p ≤ 1) ∧
    (∀ e, s.col.pc ≠ .panicked e) := by
  have w := wellFormed h
  have once p : s.mem.inPending p + s.inBatch p + s.inTracked p + s.inRemoved p ≤ 1 := by
    by_cases hp : s.mem.Completed p
    case pos => exact (w.tracked.once p hp).le
    case neg => exact (w.tracked.never p hp).le.trans (Nat.zero_le 1)
  refine ⟨fun p hp => ?exactlyOne, fun p i => ?entries, w.tracked.slot, fun p => ?freed, w.running⟩
  case exactlyOne =>
    have ⟨l, hl⟩ := w.tracked.exists_at hp
    exact ⟨l, hl, fun _ h => w.tracked.at_unique hp h hl⟩
  case entries =>
    have := WellTracked.le_inPending (s := s) (p := p) i
    have : s.col.pc.batch.countP (·.1 = p) = s.inBatch p := rfl
    have := once p
    omega
  case freed =>
    have := once p
    simp only [inRemoved] at this
    omega

-- An object is made, dropped and collected.
def collects : List (Label 1 Bool Unit) :=
  .thread (some true) (.new 0) :: runs true 2 ++ .thread (some true) (.drop 0) :: runs true 5 ++
    List.replicate 26 .collector

def collected : State 1 Bool Unit :=
  (System.exec next empty collects).getD empty

theorem collected_reachable : (system 1 Bool Unit).Reachable collected :=
  have h : System.exec next empty collects = some collected := rfl
  reachable_of_exec h

theorem bookkeeping_collected : collected.mem.freed 0 = 1 ∧ ∃! l, collected.At 0 l :=
  ⟨by decide, (bookkeeping collected_reachable).left 0 ⟨by decide, by decide⟩⟩

end State
end Sdarc
