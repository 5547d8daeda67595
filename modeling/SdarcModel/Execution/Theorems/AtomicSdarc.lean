import SdarcModel.Execution.AtomicSdarc
import SdarcModel.Execution.Theorems.Reclamation.Basic

namespace Sdarc

variable {n : Nat} {T C : Type} {x : C}

theorem Act.cell?_of_sets {a : Act n C} (h : a.sets x v) : a.cell? = some x := by
  cases a <;> simp_all [sets, cell?]

namespace AtomicSdarc

theorem Call.sets_ne {a : Act n C} (c : Call x a) : ¬a.sets x none := by
  cases c <;> simp [AtomicSdarc.load, AtomicSdarc.swap, AtomicSdarc.store, AtomicSdarc.compareAndSet, Act.sets]

-- The cell has a pointer, and so has every load that has read it.
structure NonNull (x : C) (m : Memory n T C) : Prop where
  cell  : m.cell x ≠ none
  loads : ∀ t i, m.pc t ≠ .readLeave (.cell x) i none

end AtomicSdarc

variable [DecidableEq T] [DecidableEq C]

namespace Memory

variable {m m' : Memory n T C} {t : Thread T} {a : Act n C}

omit [DecidableEq T] in
theorem exchange_cell (m : Memory n T C) (x y : C) (v : Option Ptr) :
    (m.exchange y v).cell x = m.cell x ∨ y = x ∧ v = (m.exchange y v).cell x := by
  by_cases hx : y = x
  case pos => exact .inr ⟨hx, by simp [hx]⟩
  case neg => exact .inl (by simp [Ne.symm hx])

theorem run_cell (h : m.run t i = some m') : m'.cell = m.cell := by
  cases Step.of_run h <;> try rfl
  all_goals simp_all [run]

-- A cell is changed by a call that sets it only.
theorem threadStep_cell [Fintype T] (h : m.threadStep t a = some m') :
    m'.cell x = m.cell x ∨ a.sets x (m'.cell x) := by
  cases a <;> simp only [threadStep, start, Option.ite_none_right_eq_some, Option.some.injEq] at h
  case swap y r =>
    obtain ⟨-, -, rfl⟩ := h
    exact exchange_cell (m.takeHandle r) x y r
  case store y r =>
    obtain ⟨-, -, rfl⟩ := h
    have := exchange_cell (m.takeHandle r) x y r
    cases m.cell y <;> exact this
  case compareAndSet y r r' =>
    obtain ⟨-, -, rfl⟩ := h
    simp only [compareExchange]
    split
    case isTrue  => cases r' <;> exact exchange_cell m x y _
    case isFalse => exact .inl rfl
  case run => exact .inl (congrFun (run_cell h) x)
  case runFail =>
    split at h <;> cases h
    exact .inl rfl
  case alloc =>
    split at h <;> try contradiction
    obtain ⟨-, h⟩ := Option.ite_none_right_eq_some.mp h
    cases h
    exact .inl rfl
  case load => obtain ⟨-, rfl⟩ := h; exact .inl rfl
  all_goals obtain ⟨-, -, rfl⟩ := h; exact .inl rfl

end Memory

namespace AtomicSdarc
namespace NonNull

variable {m m' : Memory n T C} {t : Thread T} {a : Act n C} (nn : NonNull x m)
include nn

theorem loads_step (st : m.Step t m') (u : Thread T) (i : Fin n) : m'.pc u ≠ .readLeave (.cell x) i none := by
  have := nn.cell
  have := nn.loads u i
  induction st
  case readNull pc null => grind -linarith [Memory.read]
  all_goals grind -linarith

theorem threadStep [Fintype T] (call : a.cell? = some x → Call x a) (h : m.threadStep t a = some m') : NonNull x m' where
  cell := by
    rcases Memory.threadStep_cell (x := x) h with hc | hc
    case inl => exact hc ▸ nn.cell
    case inr => exact fun hn => (call (Act.cell?_of_sets hc)).sets_ne (hn ▸ hc)
  loads := nn.loads_step (.of_threadStep h)

omit [DecidableEq C] in
theorem effect (e : m.Effect m') : NonNull x m' where
  cell := by cases e <;> exact nn.cell
  loads t i := by
    have := nn.loads t i
    cases e <;> grind -linarith

end NonNull

variable [Fintype T] {s s' : State n T C}

theorem NonNull.next (nn : NonNull x s.mem) (w : State.WellFormed s) (only : Only x l) (h : s.next l = some s') :
    NonNull x s'.mem := by
  cases l
  case thread t a =>
    obtain ⟨-, m, hm, rfl⟩ := State.of_next_thread h
    exact nn.threadStep only hm
  case collector =>
    obtain ⟨idle, st⟩ := State.of_next_collector h
    exact nn.effect (st.effect w idle)

variable [Fintype C]

theorem run_funded (h : (systemNoCas n T C).Reachable s) (r : (systemNoCas n T C).Run s tr s') :
    (systemFunded n T C).Run s tr s' := by
  induction r
  case refl => exact .refl
  case step stp r ih => exact .step ⟨stp.left, (State.noCas h).funded⟩ (ih (h.step stp))

-- One thread makes an `AtomicSdarc`, and another one loads it while the first one stores a new object.
def makes : List (Label 1 Bool Unit) :=
  .thread (some true) (.new 0) :: runs true 2 ++ [.thread (some true) (swap () 0)]

def loads : List (Label 1 Bool Unit) :=
  .thread (some false) (load () (Fin.last 0)) :: runs false 1 ++
    .thread (some true) (.new 1) :: runs true 2 ++ [.thread (some true) (store () 1)] ++ runs true 5 ++ runs false 2

def made : State 1 Bool Unit :=
  (System.exec State.next .empty makes).getD .empty

def loaded : State 1 Bool Unit :=
  (System.exec State.next made loads).getD .empty

end AtomicSdarc
end Sdarc
