import SdarcModel.Library.Pool
import SdarcModel.Library.Simulation
import SdarcModel.Execution.Theorems.Liveness.Enabled

namespace Sdarc

namespace Memory

variable {n : Nat} {T C : Type} [DecidableEq T] [DecidableEq C] {m m' : Memory n T C} {t : Thread T}

def slots (m : Memory n T C) : Set Slot :=
  {c | m.used c = true}

omit [DecidableEq T] [DecidableEq C] in
theorem slots_update (b : Bool) (h : m'.used = Function.update m.used c b) :
    m'.slots = if b then insert c m.slots else m.slots \ {c} := by
  ext d
  cases b <;> by_cases hd : d = c <;> simp [slots, h, hd]

theorem used_run (h : m.run t i = some m') : m'.used = m.used := by
  have st := Step.of_run h
  induction st
  case new pc _    => simp [run, pc] at h
  case alloc pc _  => simp [run, pc] at h
  all_goals rfl

variable [Fintype T]

theorem used_new (h : m.threadStep t (.new c) = some m') : m.used c = false ∧ m'.used = Function.update m.used c true := by
  simp only [threadStep, start, Option.ite_none_right_eq_some, Option.some.injEq] at h
  obtain ⟨-, hc, rfl⟩ := h
  exact ⟨hc, rfl⟩

theorem used_alloc (h : m.threadStep t (.alloc c) = some m') : m.used c = false ∧ m'.used = Function.update m.used c true := by
  simp only [threadStep] at h
  split at h <;> simp only [Option.ite_none_right_eq_some, Option.some.injEq, reduceCtorEq] at h
  obtain ⟨hc, rfl⟩ := h
  exact ⟨hc, rfl⟩

-- Nothing else a thread does takes a slot.
theorem used_eq {a : Act n C} (new : ∀ c, a ≠ .new c) (alloc : ∀ c, a ≠ .alloc c) (h : m.threadStep t a = some m') :
    m'.used = m.used := by
  cases a <;> simp only [threadStep, start, Option.ite_none_right_eq_some, Option.some.injEq] at h
  case new c   => exact absurd rfl (new c)
  case alloc c => exact absurd rfl (alloc c)
  case run     => exact used_run h
  case runFail => split at h <;> cases h; rfl
  case store x _ =>
    obtain ⟨-, -, rfl⟩ := h
    cases m.cell x <;> rfl
  case compareAndSet x o r =>
    obtain ⟨-, -, rfl⟩ := h
    simp only [compareExchange]
    split
    case isTrue  => cases r <;> rfl
    case isFalse => rfl
  case load => exact h.right ▸ rfl
  all_goals exact h.right.right ▸ rfl

end Memory

namespace State

variable {n : Nat} {T C : Type} [DecidableEq T] [Fintype T] [DecidableEq C] {s s' : State n T C}

omit [Fintype T] [DecidableEq C] in
theorem CollectorStep.used (st : CollectorStep s s') :
    (∃ a p, s.col.pc = .dropInner a p ∧ s'.mem.used = Function.update s.mem.used (s.mem.counters p) false) ∨
      (∀ a p, s.col.pc ≠ .dropInner a p) ∧ s'.mem.used = s.mem.used := by
  induction st
  case dropInner a p pc => exact .inl ⟨a, p, pc, rfl⟩
  all_goals exact .inr ⟨by simp [*], rfl⟩

-- A slot is in use by exactly one object that is not freed.
theorem used_iff (h : (system n T C).Reachable s) :
    s.mem.used c = true ↔ ∃! p, p < s.mem.next ∧ s.mem.freed p = 0 ∧ s.mem.counters p = c := by
  have w := (wellFormed h).mem.slotted
  constructor
  case mp =>
    intro hc
    obtain ⟨p, hp, hf, hs⟩ := (wellUsed h).slot c hc
    exact ⟨p, ⟨hp, hf, hs⟩, fun q ⟨hq, hqf, hqs⟩ => w.inj q p hq hp hqf hf (hqs.trans hs.symm)⟩
  case mpr =>
    rintro ⟨p, ⟨hp, hf, hs⟩, -⟩
    exact hs ▸ w.used p hp hf

-- `Sdarc::new` has its slot when it begins, and the drop of a `SdarcInner` gives the slot back first.
def slotOp (s : State n T C) : Label n T C → Option (Pool.Op (Thread T) Slot)
  | .thread t (.new c) | .thread t (.alloc c) => some (.take t c)
  | .thread _ _ => none
  | .collector =>
    match s.col.pc with
    | .dropInner _ p => some (.give none (s.mem.counters p))
    | _              => none

-- The objects take their slots from a pool: each takes one when it is made and gives it back once.
theorem slots_simulates : (Pool.system (Thread T) Slot).Simulates (system n T C) (·.mem.slots) slotOp where
  init s h := by
    simp [Pool.system, Memory.slots, h.mem.used]
  step s₁ l s₂ op hr stp hop := by
    cases l
    case thread t a =>
      obtain ⟨-, m, hm, rfl⟩ := of_next_thread stp
      cases a <;> simp only [slotOp, reduceCtorEq, Option.some.injEq] at hop
      case new c =>
        obtain ⟨hc, hu⟩ := Memory.used_new hm
        rw [← hop, Memory.slots_update true hu]
        exact .take (by simp [Memory.slots, hc])
      case alloc c =>
        obtain ⟨hc, hu⟩ := Memory.used_alloc hm
        rw [← hop, Memory.slots_update true hu]
        exact .take (by simp [Memory.slots, hc])
    case collector =>
      rcases (of_next_collector stp).right.used with ⟨a, p, pc, hu⟩ | ⟨hn, _⟩
      case inl =>
        have w := wellFormed hr
        obtain ⟨hp, hf⟩ := w.of_dropInner pc
        simp only [slotOp, pc, Option.some.injEq] at hop
        rw [← hop, Memory.slots_update false hu]
        exact .give (w.mem.slotted.used p hp hf)
      case inr => simp [slotOp] at hop
  stutter s₁ l s₂ hr stp hop := by
    suffices hu : s₂.mem.used = s₁.mem.used by simp only [Memory.slots, hu]
    cases l
    case thread t a =>
      obtain ⟨-, m, hm, rfl⟩ := of_next_thread stp
      exact Memory.used_eq (fun c ha => by simp [slotOp, ha] at hop) (fun c ha => by simp [slotOp, ha] at hop) hm
    case collector =>
      rcases (of_next_collector stp).right.used with ⟨a, p, pc, _⟩ | ⟨_, hu⟩
      case inl => simp [slotOp, pc] at hop
      case inr => exact hu

end State
end Sdarc
