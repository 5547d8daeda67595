import SdarcModel.Execution.Theorems.Bookkeeping.Basic
import Mathlib.Data.Finset.Lattice.Fold

namespace Sdarc

namespace Memory

variable {n : Nat} {T C : Type} {m m' : Memory n T C} {t u : Thread T} {p q : Ptr}

-- What is taken is in use: a slot by an object that is not freed, and a `OnceLock` by a thread that runs its
-- closure.
structure WellUsed (m : Memory n T C) : Prop where
  slot   : ∀ c, m.used c = true → ∃ p, p < m.next ∧ m.freed p = 0 ∧ m.counters p = c
  initer : ∀ q, q < m.next → (m.inner q).weakInnerRef = .running → ∃ t, (m.pc t).Initing q

namespace WellUsed

theorem initial (h : m.Initial) : WellUsed m where
  slot c hc   := by simp [h.used] at hc
  initer q hq := by simp [h.next] at hq

-- The allocator always has a slot to hand out.
theorem exists_unused (w : WellUsed m) : ∃ c, m.used c = false := by
  refine ⟨(Finset.range m.next).sup m.counters + 1, ?_⟩
  by_contra hc
  obtain ⟨p, hp, -, he⟩ := w.slot _ (by simpa using hc)
  have : m.counters p ≤ (Finset.range m.next).sup m.counters := Finset.le_sup (Finset.mem_range.mpr hp)
  exact Nat.not_succ_le_self _ (he ▸ this)

variable [DecidableEq T] [DecidableEq C]

theorem slot_step (r : WellReferenced m) (w : WellUsed m) (s : Step m t m') (h : m'.used c = true) :
    ∃ p, p < m'.next ∧ m'.freed p = 0 ∧ m'.counters p = c := by
  have unfreed : m.freed m.next = 0 := by
    by_contra hf
    exact lt_irrefl _ (r.freed _ (Nat.pos_of_ne_zero hf))
  by_cases hc : m.used c = true
  case pos =>
    obtain ⟨p, hp, hf, he⟩ := w.slot c hc
    exact ⟨p, s.lt_next hp, s.freed_eq ▸ hf, s.counters_eq hp ▸ he⟩
  case neg =>
    refine ⟨m.next, ?_⟩
    induction s <;> first
      | exact absurd h hc
      | grind -linarith

theorem initer_step (w : WellUsed m) (s : Step m t m') (hq : q < m'.next)
    (h : (m'.inner q).weakInnerRef = .running) : ∃ u, (m'.pc u).Initing q := by
  by_cases hr : ∃ u, (m.pc u).Initing q
  case pos =>
    obtain ⟨u, hu⟩ := hr
    refine ⟨u, ?_⟩
    by_cases ht : u = t
    case neg => exact s.pc_of_ne ht ▸ hu
    case pos =>
      subst ht
      induction s <;> simp only [‹m.pc u = _›, Function.update_self, Pc.Initing] at hu ⊢ <;> grind -linarith
  case neg =>
    have hw := w.initer q
    refine ⟨t, ?_⟩
    induction s <;> first
      | exact absurd (hw hq h) hr
      | grind -linarith

theorem step (r : WellReferenced m) (w : WellUsed m) (s : Step m t m') : WellUsed m' where
  slot _      := w.slot_step r s
  initer _ hq := w.initer_step s hq

omit [DecidableEq C] in
theorem effect (w : WellUsed m) (e : Effect m m') : WellUsed m' where
  slot c h := by
    have hw := w.slot c
    cases e <;> first
      | exact hw h
      | grind -linarith
  initer q hq h := by
    obtain ⟨t, ht⟩ := w.initer q (by cases e <;> exact hq) (by cases e <;> first | exact h | grind -linarith)
    exact ⟨t, by cases e <;> first | exact ht | grind -linarith⟩

end WellUsed

-- `t` waits in `get_or_init` for the closure that `u` runs.
def WaitsFor (m : Memory n T C) (t u : Thread T) : Prop :=
  ∃ q, m.pc t = .downgradeGet q ∧ (m.inner q).weakInnerRef = .running ∧ (m.pc u).Initing q

variable [DecidableEq T]

-- A call in progress can make its next access, unless it waits for a closure or wants a slot.
theorem run_isSome (i : Fin n) (busy : m.pc t ≠ .idle)
    (get : ∀ q, m.pc t = .downgradeGet q → (m.inner q).weakInnerRef ≠ .running)
    (alloc : ∀ q, m.pc t ≠ .downgradeNew q) : ∃ m', m.run t i = some m' := by
  cases pc : m.pc t <;> simp only [run, pc]
  case idle => exact absurd pc busy
  case dropCas => split <;> exact ⟨_, rfl⟩
  case readLoad => split <;> exact ⟨_, rfl⟩
  case downgradeGet q =>
    have := get q pc
    split
    case h_3 h => exact absurd h this
    all_goals exact ⟨_, rfl⟩
  case downgradeNew q => exact absurd pc (alloc q)
  all_goals exact ⟨_, rfl⟩

end Memory

namespace State

variable {n : Nat} {T C : Type} [DecidableEq T] [Fintype T] [DecidableEq C] {s s' : State n T C} {t u : Thread T}

theorem wellUsed (h : (system n T C).Reachable s) : s.mem.WellUsed := by
  refine h.invariant_with (I := (·.mem.WellUsed)) (J := WellFormed) (fun _ => wellFormed) (fun _ h => .initial h.mem)
    fun s₁ l s₂ w w' wu stp => ?_
  cases Step.of_next stp
  case thread st         => exact wu.step w.mem.referenced st
  case collector idle st => exact wu.effect (st.effect w idle)

-- The call of `t` goes on with its next access: on shard `i`, if it picks one, or in a slot for its allocation.
def GoesOn (s : State n T C) (t : Thread T) (i : Fin n) : Prop :=
  ∃ a s', (a = .run i ∨ ∃ c, a = .alloc c) ∧ s.next (.thread t a) = some s'

theorem GoesOn.of_run (busy : s.mem.pc t ≠ .idle) (h : s.mem.run t i = some m) : s.GoesOn t i :=
  ⟨.run i, _, .inl rfl, by simp only [next, busy, false_and, if_false, Memory.threadStep, h]; rfl⟩

theorem GoesOn.of_initing (w : s.mem.WellUsed) (i : Fin n) (h : (s.mem.pc t).Initing q) : s.GoesOn t i := by
  have busy : s.mem.pc t ≠ .idle := fun pc => by simp [pc, Pc.Initing] at h
  by_cases hn : ∃ r, s.mem.pc t = .downgradeNew r
  case pos =>
    obtain ⟨r, pc⟩ := hn
    obtain ⟨c, hc⟩ := w.exists_unused
    exact ⟨.alloc c, _, .inr ⟨c, rfl⟩, by simp only [next, Memory.threadStep, pc, hc, if_true]; rfl⟩
  case neg =>
    obtain ⟨m, hm⟩ := Memory.run_isSome i busy (fun r pc => by simp [pc, Pc.Initing] at h) (fun r pc => hn ⟨r, pc⟩)
    exact .of_run busy hm

omit [Fintype T] [DecidableEq C] in
-- The collector finds every entry that it looks up.
theorem collectorStep_isSome (w : WellFormed s) : ∃ s', s.collectorStep = some s' := by
  cases pc : s.col.pc <;> simp only [collectorStep, pc]
  case clearWeak a c =>
    obtain ⟨-, p, hl⟩ := w.visited.visiting c .requiresReChecking (by rw [pc]; exact ⟨rfl, rfl⟩)
    simp only [hl]
    split <;> exact ⟨_, rfl⟩
  case panicked e => exact absurd pc (w.running e)
  case insert i batch =>
    cases batch <;> simp only
    case nil  => exact ⟨_, rfl⟩
    case cons => split <;> exact ⟨_, rfl⟩
  case spinAgain k shards =>
    cases shards <;> simp only
    case nil  => cases k <;> exact ⟨_, rfl⟩
    case cons => split <;> exact ⟨_, rfl⟩
  all_goals (repeat' split) <;> exact ⟨_, rfl⟩

theorem exists_next_collector (w : WellFormed s) (idle : s.mem.pc none = .idle) : ∃ s', s.next .collector = some s' := by
  obtain ⟨s', hs⟩ := collectorStep_isSome w
  exact ⟨s', by simp only [next, idle, if_true, hs]⟩

-- Two threads downgrade the same object for the first time.
def downgradesTwice : List (Label 1 Bool Unit) :=
  .thread (some true) (.new 0) :: runs true 2 ++ .thread (some true) (.downgrade 0) :: runs true 1 ++
    [.thread (some false) (.downgrade 0)]

def downgradedTwice : State 1 Bool Unit :=
  (System.exec next empty downgradesTwice).getD empty

end State
end Sdarc
