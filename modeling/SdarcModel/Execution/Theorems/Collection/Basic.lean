import SdarcModel.Execution.Theorems.Collection.Rounds
import SdarcModel.Execution.Theorems.Reclamation.CompareAndSet
import SdarcModel.Library.Level
import Mathlib.Data.Finset.Max

open scoped BigOperators

namespace Sdarc

namespace State

variable {n : Nat} {T C : Type} {s s' : State n T C} {o : Ownership C} {S : Finset Ptr} {ℓ : Ptr → Nat} {p : Ptr}

section

variable [DecidableEq T]

theorem CollectorStep.freed_le (st : CollectorStep s s') : s.mem.freed p ≤ s'.mem.freed p := by
  induction st <;> grind -linarith

theorem CollectorStep.not_removed (st : CollectorStep s s') (h : s'.mem.freed p = 0) : ¬s.col.pc.Removed p := by
  induction st <;> grind -linarith

end

variable [DecidableEq T] [DecidableEq C]

omit [DecidableEq C] in
theorem Collecting.scheduled_collector (w : WellFormed s) (c : Collecting o S ℓ s) (pos : ∀ p ∈ S, 0 < ℓ p)
    (idle : s.mem.pc none = .idle) (st : CollectorStep s s') (np : ∀ e, s'.col.pc ≠ .panicked e)
    (goesOn : s'.col.pc ≠ .parked) (hp : p ∈ S) (hf : s'.mem.freed p = 0) (hr : ¬s'.col.pc.Removed p)
    (hz : s'.mem.total p = 0) : s'.Scheduled p (3 * ℓ p) := by
  have hf' : s.mem.freed p = 0 := Nat.le_zero.mp (hf ▸ st.freed_le)
  have hr' := st.not_removed hf
  have hc : s.mem.Completed p := ⟨(c.enclosed.published p hp).lt, fun t h => (c.enclosed.published p hp).made t h.making⟩
  rw [st.total_eq] at hz
  have := pos p hp
  exact (c.scheduled p hp hf' hr' hz).collector w (c.scanned p hp hf') hc hf' hr' hz (by omega) idle st np hr goesOn

omit [DecidableEq C] in
theorem Collecting.collector (w : WellFormed s) (c : Collecting o S ℓ s) (pos : ∀ p ∈ S, 0 < ℓ p)
    (iso : o.Isolated S s .collector) (idle : s.mem.pc none = .idle) (st : CollectorStep s s')
    (np : ∀ e, s'.col.pc ≠ .panicked e) (goesOn : s'.col.pc ≠ .parked) : Collecting o S ℓ s' where
  enclosed := c.enclosed.collector w iso idle st
  scanned p hp hf := (c.scanned p hp (Nat.le_zero.mp (hf ▸ st.freed_le))).collector w st np
  scheduled p hp hf hr hz := c.scheduled_collector w pos idle st np goesOn hp hf hr hz
  dropping p hp a h := by
    have hd := c.dropping p hp a
    simp only [rounds] at hd ⊢
    induction st
    case free b d cs q pc toFree old counters =>
      have hf := w.tracked.unfreed old
      obtain ⟨rfl, rfl⟩ : { b with toFree := cs } = a ∧ q = p := by simpa using h
      have ht : s.TrackedAs q .readyToFree := by rw [TrackedAs, counters]; exact old
      have hs := c.scheduled q hp hf (by simp [pc, CollectorPc.Removed]) ((c.scanned q hp hf).ready ht)
      simp only [Scheduled, pc, CollectorPc.phase] at hs
      exact hs.right.le
    all_goals grind -linarith

omit [DecidableEq T] [DecidableEq C] in
-- Of those that are left when a pass returns, an object of the lowest level has no reference.
theorem Enclosed.unowned_of_minimal (e : Enclosed o S ℓ s) (hℓ : ∀ q ∈ S, ∀ p ∈ S, 0 < o.sdarcs q p → ℓ q < ℓ p)
    (pc : s.col.pc = .collect a) (hp : p ∈ S) (least : ∀ q ∈ S, s.mem.freed q = 0 → ℓ p ≤ ℓ q) : s.mem.Unowned p := by
  have left q (hq : q ∈ S) (hd : ¬s.Destroyed q) : ℓ p ≤ ℓ q := least q hq (by
    simpa [Destroyed, pc, CollectorPc.dropsInner] using hd)
  have calls t : ¬(s.mem.pc t).Mentions p := fun hm => by
    obtain ⟨-, -, b, q, pc', -⟩ := e.calls p hp t hm
    simp [pc] at pc'
  constructor
  case handles =>
    refine Nat.le_zero.mp ((e.handles p hp).trans_eq (Finset.sum_eq_zero fun q hq => ?_))
    obtain ⟨hq, hd⟩ := Finset.mem_filter.mp hq
    by_contra ho
    have := hℓ q hq p hp (Nat.pos_of_ne_zero ho)
    have := left q hq hd
    omega
  case cell =>
    intro x hx
    obtain ⟨q, hq, -, hl, hd⟩ := e.cells p hp x hx
    have := left q hq hd
    omega
  case weak =>
    intro q hq hw
    obtain ⟨hq, hl, hf⟩ := e.weak p hp q hq hw
    have hf := hf.resolve_right (by simp [pc])
    have := least q hq hf
    omega
  case owns =>
    intro t
    by_contra h
    exact calls t ((Pc.mentions_of_owns (by simpa using h)).resolve_right ((e.published p hp).made t))
  case owes =>
    intro t
    by_contra h
    exact calls t (Pc.mentions_of_owes (by simpa using h))

omit [DecidableEq C] in
-- So the loop does not end before everything is freed.
theorem Collecting.freed_of_parked [Fintype T] [Fintype C] (b : s.mem.Balanced) (c : Collecting o S ℓ s)
    (hℓ : ∀ q ∈ S, ∀ p ∈ S, 0 < o.sdarcs q p → ℓ q < ℓ p) (limit : ∀ p ∈ S, 3 * ℓ p ≤ maxLoopCounter)
    (idle : s.mem.pc none = .idle) (st : CollectorStep s s') (running : s.col.pc ≠ .parked)
    (parked : s'.col.pc = .parked) : ∀ p ∈ S, 0 < s'.mem.freed p := by
  by_contra! hn
  have hn : (S.filter (s.mem.freed · = 0)).Nonempty := by
    obtain ⟨p, hp, hf⟩ := hn
    exact ⟨p, Finset.mem_filter.mpr ⟨hp, Nat.le_zero.mp (st.freed_le.trans hf)⟩⟩
  obtain ⟨p, hp, least⟩ := Finset.exists_min_image _ ℓ hn
  simp only [Finset.mem_filter, and_imp] at hp least
  obtain ⟨hp, hf⟩ := hp
  induction st
  case collectEnd a l pc loop stop =>
    have hz : s.mem.total p = 0 :=
      (c.enclosed.unowned_of_minimal hℓ pc hp least).balance_eq.symm.trans (b p (c.enclosed.published p hp).lt hf)
    have hs := c.scheduled p hp hf (by simp [pc, CollectorPc.Removed]) hz
    simp only [Scheduled, pc, CollectorPc.phase, CollectorPc.toFree, List.not_mem_nil, false_or, rounds, ← loop] at hs
    obtain ⟨hm, hw⟩ := hs
    have hl : l = maxLoopCounter := stop.resolve_right <| Finset.ne_empty_of_mem (a := s.mem.counters p) <| by
      simpa [Noted, idle, Pc.dropping] using hm
    have := hw.le
    have := limit p hp
    omega
  case spinAgainBusy => exact absurd parked running
  all_goals simp at parked

omit [DecidableEq T] [DecidableEq C] in
theorem Enclosed.of_garbage (g : o.Garbage S L s.mem) (hℓ : ∀ q ∈ S, ∀ p ∈ S, o.Owns s.mem q p → ℓ q < ℓ p) :
    Enclosed o S ℓ s where
  published := g.published
  reads     := g.reads
  calls p hp t h := absurd h (g.calls p hp t)
  handles p hp := by
    rw [g.handles p hp, Finset.filter_true_of_mem fun q hq h => absurd h.left (g.unfreed q hq).not_gt]
  cells p hp x hx := by
    obtain ⟨q, hq, ho⟩ := g.cells p hp x hx
    exact ⟨q, hq, ho, hℓ q hq p hp (.inr (.inl ⟨x, ho, hx⟩)), fun h => absurd h.left (g.unfreed q hq).not_gt⟩
  weak p hp q hq hw := by
    have hq := g.weak p hp q hq hw
    exact ⟨hq, hℓ q hq p hp (.inr (.inr hw)), .inl (g.unfreed q hq)⟩

omit [DecidableEq T] [DecidableEq C] in
-- An update begins.
theorem Collecting.start (w : WellFormed s) (l : WellListed s) (e : Enclosed o S ℓ s) (pc : s.col.pc = .take 0)
    (ended : s.col.loopCounter ≠ maxLoopCounter) : Collecting o S ℓ s where
  enclosed := e
  scanned p hp hf := by
    constructor
    case pending => simp [pc, CollectorPc.Takes]
    case tracked =>
      intro h
      have := l.reCheck _ p h
      simp only [Listed, pc, CollectorPc.phase] at this
      exact absurd this ended
    case ready =>
      intro h
      simpa [pc, CollectorPc.toFree] using w.visited.ready _ p h
    all_goals simp [pc]
  scheduled p hp hf hr hz := by simp [Scheduled, pc, CollectorPc.phase]
  dropping p hp a h := by simp [pc] at h

end State

section

variable (n : Nat) (T C : Type) [DecidableEq T] [Fintype T] [DecidableEq C]

-- The runs in which nobody changes the counters of an object after it was freed.
def systemDefined : System (State n T C) (Label n T C) :=
  system n T C |>.restrict fun s l _ => s.Defined l

variable {C}

-- Of those, the runs that leave the garbage `S` to the collector.
def systemIsolated (o : Ownership C) (S : Finset Ptr) : System (State n T C) (Label n T C) :=
  systemDefined n T C |>.restrict fun s l _ => o.Isolated S s l

end

namespace State

variable {n : Nat} {T C : Type} [DecidableEq T] [Fintype T] [DecidableEq C] [Fintype C] {s : State n T C}
  {o : Ownership C} {S : Finset Ptr} {ℓ : Ptr → Nat}

theorem defined_of_funded (h : (systemFunded n T C).Reachable s) (l : Label n T C) : s.Defined l := by
  have so := sound h
  cases l
  case thread    => exact fun p => Memory.Dead.unfreed_of_counts so.wellFormed.mem so.judged.safe
  case collector => trivial

theorem reachable_defined (h : (systemFunded n T C).Reachable s) : (systemDefined n T C).Reachable s := by
  induction h
  case init h          => exact .init h
  case step hr stp ih  => exact ih.step ⟨stp.left, defined_of_funded hr _⟩

-- What holds of `S` from the beginning of the update on: it is collected, or has been.
theorem Collecting.run (hr : (systemDefined n T C).Reachable s₁) (r : (systemIsolated n T o S).Run s₁ tr s₂)
    (hℓ : ∀ q ∈ S, ∀ p ∈ S, 0 < o.sdarcs q p → ℓ q < ℓ p) (pos : ∀ p ∈ S, 0 < ℓ p)
    (limit : ∀ p ∈ S, 3 * ℓ p ≤ maxLoopCounter) (c : Collecting o S ℓ s₁) (running : s₁.col.pc ≠ .parked) :
    (∀ p ∈ S, 0 < s₂.mem.freed p) ∨ (Collecting o S ℓ s₂ ∧ s₂.col.pc ≠ .parked) := by
  refine (r.invariant (I := fun s => (systemDefined n T C).Reachable s ∧
    ((∀ p ∈ S, 0 < s.mem.freed p) ∨ (Collecting o S ℓ s ∧ s.col.pc ≠ .parked))) ⟨hr, .inr ⟨c, running⟩⟩ ?_).right
  rintro s l s' ⟨hr, hc⟩ ⟨stp, iso⟩
  have w := wellFormed hr.of_restrict
  have w' := wellFormed (hr.step stp).of_restrict
  have b := balanced_of_defined hr
  obtain ⟨stp, safe⟩ := stp
  refine ⟨hr.step ⟨stp, safe⟩, ?_⟩
  cases l
  case thread t a =>
    obtain ⟨ready, m, h, rfl⟩ := of_next_thread stp
    rw [(Memory.Step.of_threadStep h).freed_eq, notify_pc]
    exact hc.imp_right (.imp_left fun c => c.thread w b hℓ ready safe iso h)
  case collector =>
    obtain ⟨idle, st⟩ := of_next_collector stp
    cases hc
    case inl hf => exact .inl fun p hp => (hf p hp).trans_le st.freed_le
    case inr hc =>
      by_cases parked : s'.col.pc = .parked
      case pos => exact .inl (hc.left.freed_of_parked b hℓ limit idle st hc.right parked)
      case neg => exact .inr ⟨hc.left.collector w pos iso idle st w'.running parked, parked⟩

-- Garbage without cycles is freed by a single update, every object of it once.
theorem update_frees (h : (systemDefined n T C).Reachable s₁) (update : s₁.col.pc = .take 0)
    (ended : s₁.col.loopCounter ≠ maxLoopCounter) (g : o.Garbage S L s₁.mem) (limit : 3 * L ≤ maxLoopCounter)
    (r : (systemIsolated n T o S).Run s₁ tr s₂) (returned : s₂.col.pc = .parked) :
    ∀ p ∈ S, s₂.mem.freed p = 1 ∧ s₂.Destroyed p := by
  let ℓ := Chain.level (o.Owns s₁.mem) (· ∈ S) L
  have hℓ q (hq : q ∈ S) p (hp : p ∈ S) (ho : o.Owns s₁.mem q p) : ℓ q < ℓ p :=
    Chain.level_lt g.chains hq hp ho
  have hmax p (hp : p ∈ S) : 3 * ℓ p ≤ maxLoopCounter :=
    (Nat.mul_le_mul_left 3 (Chain.level_le g.chains hp)).trans limit
  have c : Collecting o S ℓ s₁ :=
    .start (wellFormed h.of_restrict) (wellListed h.of_restrict) (.of_garbage g hℓ) update ended
  have hf := (Collecting.run h r (fun q hq p hp ho => hℓ q hq p hp (.inl ho)) (fun p _ => Chain.level_pos) hmax c
    (by simp [update])).resolve_right (·.right returned)
  have w := wellFormed (r.of_restrict.reachable h).of_restrict
  exact fun p hp => ⟨(w.freed_le p).antisymm (hf p hp), hf p hp, by simp [returned, CollectorPc.dropsInner]⟩

-- An update begins after the drop of an object whose payload owns another one.
def dropsParent : List (Label 1 Bool Unit) :=
  makesParent.take 12 ++ [.collector]

def collectsParent : List (Label 1 Bool Unit) :=
  .replicate 19 .collector ++ freesParent ++ .replicate 26 .collector

def parentDropped : State 1 Bool Unit :=
  (System.exec next empty dropsParent).getD empty

def parentCollected : State 1 Bool Unit :=
  (System.exec next parentDropped collectsParent).getD empty

def parentOwns : Ownership Unit where
  sdarcs q p := if q = 0 ∧ p = 1 then 1 else 0
  cells _    := none

theorem parentDropped_reachable : (systemNoCas 1 Bool Unit).Reachable parentDropped :=
  have he : System.exec next empty dropsParent = some parentDropped := rfl
  (System.run_restrict_of_exec (by decide) he).reachable (.init empty_initial)

theorem parentDropped_idle : ∀ t, parentDropped.mem.pc t = .idle := by
  decide

theorem parentDropped_owns : ∀ q ∈ ({0, 1} : Finset Ptr), ∀ p ∈ ({0, 1} : Finset Ptr),
    parentOwns.Owns parentDropped.mem q p → q = 0 ∧ p = 1 := by
  unfold Ownership.Owns
  decide

theorem parentDropped_garbage : parentOwns.Garbage {0, 1} 2 parentDropped.mem where
  published p hp := ⟨by revert p; decide, fun t h => by simp [parentDropped_idle t, Pc.Making] at h⟩
  unfreed        := by decide
  handles        := by decide
  cells          := by decide
  weak           := by decide
  calls p hp t h := by simp [parentDropped_idle t, Pc.Mentions] at h
  reads p hp t src i h := by simp [parentDropped_idle t] at h
  chains l hl hc := by
    match l with
    | [] | [_] | [_, _] => simp
    | q :: p :: r :: l =>
      simp only [List.mem_cons, forall_eq_or_imp] at hl
      simp only [List.isChain_cons_cons] at hc
      have h  := parentDropped_owns q hl.left p hl.right.left hc.left
      have h' := parentDropped_owns p hl.right.left r hl.right.right.left hc.right.left
      exact absurd (h.right.symm.trans h'.left) (by decide)

theorem update_frees_parent : parentCollected.mem.freed 0 = 1 ∧ parentCollected.mem.freed 1 = 1 := by
  have he : System.exec next parentDropped collectsParent = some parentCollected := rfl
  have iso : ∀ e ∈ System.trace next parentDropped collectsParent, parentOwns.Isolated {0, 1} e.1 e.2 := by
    decide
  have hr := funded_of_noCas parentDropped_reachable
  have nc : (systemNoCas 1 Bool Unit).Run parentDropped (System.trace next parentDropped collectsParent) parentCollected :=
    System.run_restrict_of_exec (by decide) he
  have df : ∀ e ∈ System.trace next parentDropped collectsParent, e.1.Defined e.2 := fun e h => by
    obtain ⟨_, _, _, r, -⟩ := nc.split h
    exact defined_of_funded (funded_of_noCas (r.reachable parentDropped_reachable)) e.2
  have r : (systemIsolated 1 Bool parentOwns {0, 1}).Run parentDropped
      (System.trace next parentDropped collectsParent) parentCollected :=
    nc.of_restrict.restrict df |>.restrict iso
  have h := update_frees (reachable_defined hr) rfl (by decide) parentDropped_garbage (by decide) r rfl
  exact ⟨(h 0 (by decide)).left, (h 1 (by decide)).left⟩

-- A compare-and-set is about to increment the counters of an object that the collector has freed meanwhile.
-- Another object has taken their slot since, and has been dropped when an update begins.
def reusesSlot : List (Label 1 Bool Unit) :=
  creates ++ sets :: runs true 1 ++ replaces ++ .replicate 4 .collector ++
    .thread (some false) (.new 0) :: runs false 2 ++ .thread (some false) (.drop 1) :: runs false 5 ++ [.collector]

def incrementsLate : List (Label 1 Bool Unit) :=
  runs true 1 ++ .replicate 13 .collector

def slotReused : State 1 Bool Unit :=
  (System.exec next empty reusesSlot).getD empty

def incrementedLate : State 1 Bool Unit :=
  (System.exec next slotReused incrementsLate).getD empty

def ownsNothing : Ownership Unit where
  sdarcs _ _ := 0
  cells _    := none

theorem slotReused_pc : ∀ t, slotReused.mem.pc t = .idle ∨ slotReused.mem.pc t = .incrAdd 0 0 0 (.compareAndSet none) := by
  decide

theorem slotReused_garbage : ownsNothing.Garbage {1} 1 slotReused.mem where
  published p hp := by
    refine ⟨by revert p; decide, fun t h => ?_⟩
    rcases slotReused_pc t with pc | pc <;> simp [pc, Pc.Making] at h
  unfreed        := by decide
  handles        := by decide
  cells          := by decide
  weak           := by decide
  calls p hp t h := by
    obtain rfl := Finset.mem_singleton.mp hp
    rcases slotReused_pc t with pc | pc <;> simp [pc, Pc.Mentions] at h
  reads p hp t src i h := by
    rcases slotReused_pc t with pc | pc <;> simp [pc] at h
  chains l hl hc := by
    match l with
    | [] | [_] => simp
    | q :: p :: l =>
      have no : ∀ q ∈ ({1} : Finset Ptr), ∀ p ∈ ({1} : Finset Ptr), ¬ownsNothing.Owns slotReused.mem q p := by
        unfold Ownership.Owns
        decide
      simp only [List.mem_cons, forall_eq_or_imp] at hl
      exact absurd (List.isChain_cons_cons.mp hc).left (no q hl.left p hl.right.left)

-- The update finds the late increment in the counters, and leaves the object.
theorem update_leaks : ¬∀ (o : Ownership Unit) (S : Finset Ptr) (L : Nat) (s₁ s₂ : State 1 Bool Unit)
    (tr : List (State 1 Bool Unit × Label 1 Bool Unit)),
    (system 1 Bool Unit).Reachable s₁ → s₁.col.pc = .take 0 → s₁.col.loopCounter ≠ maxLoopCounter →
    o.Garbage S L s₁.mem → 3 * L ≤ maxLoopCounter →
    (system 1 Bool Unit |>.restrict fun s l _ => o.Isolated S s l).Run s₁ tr s₂ → s₂.col.pc = .parked →
    ∀ p ∈ S, s₂.mem.freed p = 1 ∧ s₂.Destroyed p := by
  intro h
  have he : System.exec next empty reusesSlot = some slotReused := rfl
  have he' : System.exec next slotReused incrementsLate = some incrementedLate := rfl
  have iso : ∀ e ∈ System.trace next slotReused incrementsLate, ownsNothing.Isolated {1} e.1 e.2 := by
    decide
  have r : (system 1 Bool Unit |>.restrict fun s l _ => ownsNothing.Isolated {1} s l).Run slotReused
      (System.trace next slotReused incrementsLate) incrementedLate :=
    System.run_restrict_of_trace iso he'
  have := (h ownsNothing {1} 1 slotReused incrementedLate _ (reachable_of_exec he) rfl (by decide) slotReused_garbage
    (by decide) r rfl 1 (by decide)).left
  exact absurd this (by decide)

end State
end Sdarc
