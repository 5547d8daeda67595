import SdarcModel.Execution.Theorems.CollectorStep
import SdarcModel.Execution.Theorems.Effect

open scoped BigOperators

namespace Sdarc

-- The object's `Sdarc::new` has yet to hand it to the collector.
def Pc.Creating : Pc n C → Ptr → Prop
  | .newIncrement p _, a | .newPush p _, a => p = a
  | _, _ => False

instance (pc : Pc n C) (p : Ptr) : Decidable (pc.Creating p) := by
  unfold Pc.Creating
  split <;> infer_instance

@[grind →]
theorem Pc.Creating.making {pc : Pc n C} (h : pc.Creating p) : pc.Making p := by
  cases pc <;> simp_all [Creating, Making]

namespace CollectorPc

-- What `take_new_counters_to_track` has taken out of a shard and not yet inserted.
def batch : CollectorPc n → List (Ptr × Slot)
  | .insert _ b => b
  | _           => []

-- Taken out of `tracked_counters` and about to be freed.
def Removed : CollectorPc n → Ptr → Prop
  | .dropInner _ p, q => p = q
  | _, _ => False

instance (pc : CollectorPc n) (p : Ptr) : Decidable (pc.Removed p) := by
  unfold Removed
  split <;> infer_instance

attribute [grind] batch Removed

end CollectorPc

attribute [grind] Pc.Creating

namespace Memory

variable {n : Nat} {T C : Type} {m m' : Memory n T C} {p : Ptr}

@[grind]
structure Completed (m : Memory n T C) (p : Ptr) : Prop where
  lt   : p < m.next
  made : ∀ t, ¬(m.pc t).Creating p

def inPending (m : Memory n T C) (p : Ptr) : Nat :=
  ∑ i, (m.pending i).countP (·.1 = p)

end Memory

namespace TrackedCounters

variable {tr : TrackedCounters} {c d : Slot} {p q : Ptr} {st : TrackedCounterState}

-- How often `p` is tracked under `c`.
def tracks (tr : TrackedCounters) (c : Slot) (p : Ptr) : Nat :=
  if (tr.lookup c).map (·.ptr) = some p then 1 else 0

theorem tracks_insert (new : tr.lookup d = none) :
    tracks (tr.insert d ⟨q, st⟩) c p = tr.tracks c p + if c = d ∧ q = p then 1 else 0 := by
  simp only [tracks, lookup_insert]
  grind -linarith

theorem tracks_erase (old : tr.lookup d = some ⟨q, st⟩) :
    tracks (tr.erase d) c p + (if c = d ∧ q = p then 1 else 0) = tr.tracks c p := by
  simp only [tracks, lookup_erase]
  grind -linarith

theorem tracks_setState : tracks (tr.setState d st) c p = tr.tracks c p := by
  simp only [tracks, map_ptr_setState]

end TrackedCounters

namespace State

variable {n : Nat} {T C : Type} {s s' : State n T C} {p : Ptr} {c : Slot}

def inBatch (s : State n T C) (p : Ptr) : Nat :=
  s.col.pc.batch.countP (·.1 = p)

def inTracked (s : State n T C) (p : Ptr) : Nat :=
  s.col.tracked.tracks (s.mem.counters p) p

def inRemoved (s : State n T C) (p : Ptr) : Nat :=
  (if s.col.pc.Removed p then 1 else 0) + s.mem.freed p

-- Every completed object is in one place, once.
structure WellTracked (s : State n T C) : Prop where
  slot    : ∀ c tc, s.col.tracked.lookup c = some tc → s.mem.counters tc.ptr = c
  pending : ∀ i e, e ∈ s.mem.pending i → e.2 = s.mem.counters e.1
  batch   : ∀ e ∈ s.col.pc.batch, e.2 = s.mem.counters e.1
  once    : ∀ p, s.mem.Completed p →
    s.mem.inPending p + s.inBatch p + s.inTracked p + s.inRemoved p = 1
  never   : ∀ p, ¬s.mem.Completed p →
    s.mem.inPending p + s.inBatch p + s.inTracked p + s.inRemoved p = 0

namespace WellTracked

theorem inTracked_le : s.inTracked p ≤ 1 := by
  simp only [inTracked, TrackedCounters.tracks]
  split <;> omega

theorem inTracked_iff (hs : ∀ c tc, s.col.tracked.lookup c = some tc → s.mem.counters tc.ptr = c) :
    s.inTracked p = 1 ↔ ∃ c tc, s.col.tracked.lookup c = some tc ∧ tc.ptr = p := by
  simp only [inTracked, TrackedCounters.tracks, ite_eq_left_iff, Nat.zero_ne_one, imp_false, not_not, Option.map_eq_some_iff]
  constructor
  case mp  => exact fun ⟨tc, h⟩ => ⟨_, tc, h⟩
  case mpr =>
    intro ⟨c, tc, h, hp⟩
    have := hs c tc h
    subst this hp
    exact ⟨tc, h, rfl⟩

theorem inTracked_eq_one (w : WellTracked s) (h : s.col.tracked.lookup c = some tc) :
    s.inTracked tc.ptr = 1 :=
  inTracked_iff w.slot |>.mpr ⟨c, tc, h, rfl⟩

theorem completed (w : WellTracked s) (h : s.col.tracked.lookup c = some tc) : s.mem.Completed tc.ptr := by
  by_contra hc
  have := w.never tc.ptr hc
  have := w.inTracked_eq_one h
  omega

theorem unfreed (w : WellTracked s) (h : s.col.tracked.lookup c = some tc) : s.mem.freed tc.ptr = 0 := by
  have := w.once tc.ptr (w.completed h)
  have := w.inTracked_eq_one h
  simp only [inRemoved] at *
  omega

theorem completed_of_pending (w : WellTracked s) (h : e ∈ s.mem.pending i) : s.mem.Completed e.1 := by
  by_contra hc
  have hz := w.never e.1 hc
  have hs : s.mem.inPending e.1 = 0 := by omega
  have := Finset.sum_eq_zero_iff.mp hs i (Finset.mem_univ i)
  rw [List.countP_eq_zero] at this
  simpa using this e h

theorem completed_of_batch (w : WellTracked s) (h : e ∈ s.col.pc.batch) : s.mem.Completed e.1 := by
  by_contra hc
  have hz := w.never e.1 hc
  have hs : s.inBatch e.1 = 0 := by omega
  rw [inBatch, List.countP_eq_zero] at hs
  simpa using hs e h

end WellTracked

end State

namespace Memory

variable {n : Nat} {T C : Type} {m m' : Memory n T C} {p q : Ptr}

theorem inPending_push (i : Fin n) :
    (m.push i q).inPending p = m.inPending p + if q = p then 1 else 0 := by
  have := Finset.sum_comp_update (Finset.mem_univ i) m.pending (·.countP (·.1 = p)) (m.pending i ++ [(q, m.counters q)])
  simp only [inPending]
  simp only [List.countP_append, List.countP_singleton, decide_eq_true_eq] at this
  omega

theorem inPending_takePending (i : Fin n) :
    (m.takePending i).inPending p + (m.pending i).countP (·.1 = p) = m.inPending p := by
  have := Finset.sum_comp_update (Finset.mem_univ i) m.pending (·.countP (·.1 = p)) []
  simpa [inPending, takePending] using this

variable [DecidableEq T] [DecidableEq C]

theorem Step.creating_cases (s : Step m t m') (h : (m'.pc u).Creating p) :
    (m.pc u).Creating p ∨ p = m.next := by
  by_cases hu : u = t
  case neg => exact .inl (s.pc_of_ne hu ▸ h)
  case pos =>
    subst hu
    induction s <;> simp only [‹m.pc u = _›, Function.update_self, Pc.Creating] at h ⊢ <;> grind -linarith

theorem Completed.step (h : m.Completed p) (s : Step m t m') : m'.Completed p where
  lt := s.lt_next h.lt
  made u hu := by
    rcases s.creating_cases hu with hu | hp
    · exact h.made u hu
    · exact absurd h.lt (hp ▸ Nat.lt_irrefl _)

-- Nothing is completed but by a push.
theorem Completed.of_step (s : Step m t m') (h : m'.Completed p) :
    m.Completed p ∨ ∃ k, m.pc t = .newPush p k := by
  have ht := h.made t
  by_cases hp : ∃ k, m.pc t = .newPush p k
  case pos => exact .inr hp
  case neg =>
    refine .inl ⟨?_, fun u hu => ?_⟩
    case refine_1 =>
      have hp := h.lt
      induction s <;> first | exact hp | grind -linarith
    case refine_2 =>
      have hm := h.made u
      by_cases ht : u = t
      case neg => exact hm (s.pc_of_ne ht ▸ hu)
      case pos =>
        subst ht
        induction s <;> simp only [‹m.pc u = _›, Function.update_self, Pc.Creating] at hu hm <;> grind -linarith

theorem Completed.of_newPush (r : WellReferenced m) (s : Step m t m') (pc : m.pc t = .newPush q k) :
    m'.Completed q ∧ ¬m.Completed q ∧ ∃ i, m'.pending = (m.push i q).pending := by
  have hm := r.making t q (by simp [pc, Pc.Making])
  refine ⟨⟨?_, fun u hu => ?_⟩, fun h => h.made t (by simp [pc, Pc.Creating]), ?_⟩
  case refine_1 => exact s.lt_next hm.left
  case refine_2 =>
    rcases s.creating_cases hu with h | h
    · obtain rfl := hm.right u h.making
      induction s <;> simp only [Function.update_self, Pc.Creating] at hu <;> grind -linarith
    · exact absurd hm.left (h ▸ Nat.lt_irrefl _)
  case refine_3 =>
    induction s
    case newPush pc'     => rw [pc] at pc'; cases pc'; exact ⟨_, rfl⟩
    case newPushWeak pc' => rw [pc] at pc'; cases pc'; exact ⟨_, rfl⟩
    all_goals grind -linarith

-- A step completes an object by pushing it, once, or keeps it as it is.
theorem Step.completes_or_keeps (r : WellReferenced m) (s : Step m t m') (p : Ptr) :
    (¬m.Completed p ∧ m'.Completed p ∧ m'.inPending p = m.inPending p + 1) ∨
    ((m'.Completed p ↔ m.Completed p) ∧ m'.inPending p = m.inPending p) := by
  by_cases hp : ∃ k, m.pc t = .newPush p k
  case pos =>
    have ⟨k, pc⟩ := hp
    have ⟨hc, hn, i, hi⟩ := Completed.of_newPush r s pc
    refine .inl ⟨hn, hc, ?_⟩
    have := m.inPending_push (p := p) (q := p) i
    simpa [inPending, hi] using this
  case neg =>
    refine .inr ⟨⟨fun h => (h.of_step s).resolve_right hp, (·.step s)⟩, ?_⟩
    induction s
    case newPush q i pc =>
      have : q ≠ p := fun h => hp ⟨_, h ▸ pc⟩
      exact (m.inPending_push i).trans (by simp [this])
    case newPushWeak q _ i pc =>
      have : q ≠ p := fun h => hp ⟨_, h ▸ pc⟩
      exact (m.inPending_push i).trans (by simp [this])
    all_goals rfl

end Memory

namespace State

variable {n : Nat} {T C : Type} [DecidableEq T] [DecidableEq C] {s s' : State n T C} {p : Ptr}

omit [DecidableEq T] [DecidableEq C] in
@[simp] theorem notify_pc (t : Thread T) (a : Act n C) : (s.notify t a).pc = s.col.pc := by
  unfold notify
  split <;> rfl

omit [DecidableEq T] [DecidableEq C] in
@[simp] theorem notify_tracked (t : Thread T) (a : Act n C) : (s.notify t a).tracked = s.col.tracked := by
  unfold notify
  split <;> rfl

namespace WellTracked

omit [DecidableEq T] [DecidableEq C] in
theorem inTracked_congr (w : WellTracked s) (h : s'.col.tracked = s.col.tracked)
    (hs : ∀ c tc, s'.col.tracked.lookup c = some tc → s'.mem.counters tc.ptr = c) :
    s'.inTracked p = s.inTracked p := by
  have h₁ := inTracked_iff (p := p) hs
  have h₂ := inTracked_iff (p := p) w.slot
  rw [h, ← h₂] at h₁
  have := inTracked_le (s := s) (p := p)
  have := inTracked_le (s := s') (p := p)
  omega

theorem thread (r : s.mem.WellReferenced) (w : WellTracked s) (st : s.mem.Step t m) :
    WellTracked { mem := m, col := s.notify t a } := by
  have slot c tc (h : (s.notify t a).tracked.lookup c = some tc) : m.counters tc.ptr = c := by
    rw [notify_tracked] at h
    exact (st.counters_eq (w.completed h).lt).trans (w.slot c tc h)
  have tracked p : State.inTracked ⟨m, s.notify t a⟩ p = s.inTracked p :=
    w.inTracked_congr (notify_tracked ..) slot
  have batch p : State.inBatch ⟨m, s.notify t a⟩ p = s.inBatch p := by simp [inBatch]
  have removed p : State.inRemoved ⟨m, s.notify t a⟩ p = s.inRemoved p := by
    simp [inRemoved, st.freed_eq]
  constructor
  case slot => exact slot
  case pending =>
    intro i e h
    by_cases he : e ∈ s.mem.pending i
    case pos => exact (w.pending i e he).trans (st.counters_eq (w.completed_of_pending he).lt).symm
    case neg => induction st <;> first | exact absurd h he | grind -linarith
  case batch =>
    intro e h
    rw [notify_pc] at h
    exact (w.batch e h).trans (st.counters_eq (w.completed_of_batch h).lt).symm
  all_goals
    intro p hp
    rw [tracked, batch, removed]
    have := w.once p
    have := w.never p
    cases st.completes_or_keeps r p <;> grind -linarith

end WellTracked

omit [DecidableEq C] in
theorem CollectorStep.next_eq (st : CollectorStep s s') : s'.mem.next = s.mem.next := by
  induction st <;> rfl

omit [DecidableEq C] in
theorem CollectorStep.counters_eq (st : CollectorStep s s') : s'.mem.counters p = s.mem.counters p := by
  induction st <;> first | rfl | grind -linarith

omit [DecidableEq C] in
theorem CollectorStep.completed_iff (idle : s.mem.pc none = .idle) (st : CollectorStep s s') :
    s'.mem.Completed p ↔ s.mem.Completed p := by
  have hn := st.next_eq
  have hp : ∀ t, (s'.mem.pc t).Creating p ↔ (s.mem.pc t).Creating p := by
    intro t
    induction st <;> first | exact Iff.rfl | grind -linarith
  exact ⟨fun h => ⟨hn ▸ h.lt, fun t => (hp t).not.mp (h.made t)⟩, fun h => ⟨hn ▸ h.lt, fun t => (hp t).not.mpr (h.made t)⟩⟩

omit [DecidableEq T] [DecidableEq C] in
theorem WellTracked.not_replaced (sl : s.mem.WellSlotted) (w : WellTracked s)
    (pc : s.col.pc = .insert i ((p, c) :: b)) : s.col.tracked.lookup c = none := by
  have hb : (p, c) ∈ s.col.pc.batch := by simp [pc, CollectorPc.batch]
  have hc : c = s.mem.counters p := w.batch _ hb
  have hp : s.mem.Completed p := w.completed_of_batch hb
  by_contra hn
  have ⟨tc, ht⟩ := Option.ne_none_iff_exists'.mp hn
  have hi : 1 ≤ s.inBatch p := by simp [inBatch, pc, CollectorPc.batch]
  have hf : s.mem.freed p = 0 := by
    have := w.once p hp
    simp only [inRemoved] at this
    omega
  have he := sl.inj p tc.ptr hp.lt (w.completed ht).lt hf (w.unfreed ht) (by rw [w.slot c tc ht, hc])
  have := w.inTracked_eq_one ht
  have := w.once p hp
  rw [← he] at *
  omega

-- Objects only move from place to place.
omit [DecidableEq C] in
theorem WellTracked.places_eq (w : WellTracked s) (st : CollectorStep s s')
    (np : ∀ e, s'.col.pc ≠ .panicked e) :
    s'.mem.inPending p + s'.inBatch p + s'.inTracked p + s'.inRemoved p =
      s.mem.inPending p + s.inBatch p + s.inTracked p + s.inRemoved p := by
  have ht : s.inTracked p = s.col.tracked.tracks (s.mem.counters p) p := rfl
  have ht' : s'.inTracked p = s'.col.tracked.tracks (s.mem.counters p) p := by rw [inTracked, st.counters_eq]
  induction st
  case insertReplaced => exact absurd rfl (np _)
  case freeNotReady   => exact absurd rfl (np _)
  case freeMismatch   => exact absurd rfl (np _)
  case take i pc h =>
    have := s.mem.inPending_takePending (p := p) ⟨i, h⟩
    simp only [inBatch, inRemoved, ht, ht', pc, CollectorPc.batch, CollectorPc.Removed]
    simp
    omega
  case insert q c batch pc new =>
    have hc := w.batch (q, c) (by simp [pc, CollectorPc.batch])
    simp only [inBatch, inRemoved, ht, ht', pc, CollectorPc.batch, CollectorPc.Removed,
      TrackedCounters.tracks_insert new, List.countP_cons, decide_eq_true_eq]
    grind -linarith
  case free q pc toFree old counters =>
    have := TrackedCounters.tracks_erase (c := s.mem.counters p) (p := p) old
    simp only [inBatch, inRemoved, ht, ht', pc, CollectorPc.batch, CollectorPc.Removed]
    grind -linarith
  case dropInner q pc =>
    simp only [inBatch, inRemoved, ht, ht', pc, CollectorPc.batch, CollectorPc.Removed, Memory.inPending]
    grind -linarith
  all_goals
    simp only [inBatch, inRemoved, *, CollectorPc.batch, CollectorPc.Removed,
      TrackedCounters.tracks_setState]
    try rfl

omit [DecidableEq C] in
theorem WellTracked.collector (w : WellTracked s) (idle : s.mem.pc none = .idle) (st : CollectorStep s s')
    (np : ∀ e, s'.col.pc ≠ .panicked e) : WellTracked s' where
  slot c tc h := by
    rw [st.counters_eq]
    have hs := w.slot
    have hb i q d b (h : s.col.pc = .insert i ((q, d) :: b)) : d = s.mem.counters q :=
      w.batch (q, d) (by simp [h, CollectorPc.batch])
    induction st <;> first | exact hs c tc h | grind -linarith
  pending i e h := by
    rw [st.counters_eq]
    have hp := w.pending i e
    induction st <;> first | exact hp h | grind -linarith
  batch e h := by
    rw [st.counters_eq]
    have := w.batch e
    have := w.pending
    induction st <;> first | exact absurd h List.not_mem_nil | grind -linarith
  once p h := by
    rw [st.completed_iff idle] at h
    rw [w.places_eq st np, w.once p h]
  never p h := by
    rw [st.completed_iff idle] at h
    rw [w.places_eq st np, w.never p h]

end State
end Sdarc
