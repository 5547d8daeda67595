import SdarcModel.Execution.Theorems.CollectorStep

namespace Sdarc

-- The accesses that follow the increment.
def Incr.left : Incr n C → Nat
  | .read .. => 1
  | .clone | .downgrade _ | .compareAndSet _ => 0

-- The accesses that follow `on_new_sdarc_allocated`.
def Creation.left : Creation → Nat
  | .user        => 0
  | .downgrade _ => 3

-- The accesses that a call still makes, if none of its `compare_exchange_weak`s fails.
def Pc.left : Pc n C → Nat
  | .idle             => 0
  | .newIncrement _ k => k.left + 2
  | .newPush _ k      => k.left + 1
  | .incrRead _ k     => k.left + 2
  | .incrAdd _ _ _ k  => k.left + 1
  | .dropRead _       => 5
  | .dropLoad ..      => 4
  | .dropCas ..       => 3
  | .dropNotify _     => 2
  | .onSdarcDrop _    => 1
  | .readLoad ..      => 4
  | .readLeave ..     => 1
  | .downgradeGet _   => 7
  | .downgradeNew _   => 6
  | .downgradeSet ..  => 3

attribute [grind] Incr.left Creation.left Pc.left

namespace Label

variable {n : Nat} {T C : Type} [DecidableEq T]

def isBy (l : Label n T C) (t : Thread T) : Bool :=
  match l with
  | .thread u _ => u = t
  | .collector  => false

-- The `compare_exchange_weak` of `t` fails though it finds what it expects.
def isSpurious (l : Label n T C) (t : Thread T) : Bool :=
  match l with
  | .thread u .runFail => u = t
  | _                  => false

end Label

namespace Memory

variable {n : Nat} {T C : Type} {m m' : Memory n T C} {t u : Thread T}

-- The counter that `t` is about to exchange is not what it has read.
def Behind (m : Memory n T C) (t : Thread T) : Prop :=
  match m.pc t with
  | .dropCas _ c i v => m.counter c i ≠ v
  | _                => False

instance (m : Memory n T C) (t : Thread T) : Decidable (m.Behind t) := by
  unfold Behind
  split <;> infer_instance

-- The accesses of the call, with the one that is going to be repeated.
def cost (m : Memory n T C) (t : Thread T) : Nat :=
  (m.pc t).left + if m.Behind t then 1 else 0

theorem cost_le : m.cost t ≤ 7 := by
  cases pc : m.pc t <;> simp only [cost, Behind, pc]
  case newIncrement k => cases k <;> simp [Pc.left, Creation.left]
  case newPush k      => cases k <;> simp [Pc.left, Creation.left]
  case incrRead k     => cases k <;> simp [Pc.left, Incr.left]
  case incrAdd k      => cases k <;> simp [Pc.left, Incr.left]
  case dropCas        => split <;> simp [Pc.left]
  all_goals simp [Pc.left]

variable [DecidableEq T]

-- Each access of a call takes it nearer to its end, also the one that reads a counter again.
theorem cost_run (h : m.run t i = some m') : m'.cost t < m.cost t := by
  cases pc : m.pc t <;> simp only [run, pc] at h
  case idle         => contradiction
  case downgradeNew => contradiction
  case newPush k =>
    cases h
    cases k <;> simp [cost, Behind, created, pc, Pc.left, Creation.left]
  case incrAdd k =>
    cases h
    cases k <;> simp [cost, Behind, incremented, pc, Pc.left, Incr.left]
  case dropCas p c j v =>
    split at h <;> cases h
    case isTrue hv  => simp [cost, Behind, pc, Pc.left, hv]
    case isFalse hv => simp [cost, Behind, pc, Pc.left, hv]
  case readLoad =>
    split at h <;> cases h <;> simp [cost, Behind, pc, Pc.left, Incr.left]
  case downgradeGet =>
    split at h <;> cases h <;> simp [cost, Behind, pc, Pc.left, Incr.left]
  all_goals
    cases h
    simp [cost, Behind, pc, Pc.left, Incr.left]

-- But for a spurious failure.
theorem cost_threadStep [Fintype T] [DecidableEq C] (busy : m.pc t ≠ .idle) (h : m.threadStep t a = some m') :
    m'.cost t + 1 ≤ m.cost t + if a = .runFail then 1 else 0 := by
  cases a <;> simp only [threadStep, busy, if_false, reduceCtorEq] at h
  case run i => simpa using Nat.succ_le_of_lt (cost_run h)
  case runFail =>
    split at h <;> cases h
    case h_1 p c j v pc => simp [cost, Behind, pc, Pc.left]
  case alloc c =>
    split at h
    case h_2 => contradiction
    case h_1 q pc =>
      split at h <;> cases h
      simp [cost, Behind, pc, Pc.left, Creation.left]

end Memory

namespace State

variable {n : Nat} {T C : Type} [DecidableEq T] [Fintype T] [DecidableEq C] {s s' s₁ s₂ : State n T C} {t u : Thread T}

-- Somebody else changes the counter that `t` is about to exchange.
def Interferes (s : State n T C) (t : Thread T) (l : Label n T C) : Bool :=
  match s.mem.pc t with
  | .dropCas _ c i _ => !l.isBy t && (s.next l).any (·.mem.counter c i ≠ s.mem.counter c i)
  | _                => false

theorem cost_of_others (busy : s.mem.pc t ≠ .idle) (hl : l.isBy t = false) (h : s.next l = some s') :
    s'.mem.cost t ≤ s.mem.cost t + if s.Interferes t l then 1 else 0 := by
  have pc' : s'.mem.pc t = s.mem.pc t := by
    cases Step.of_next h
    case thread u m a _ st =>
      have hu : t ≠ u := fun he => by simp [Label.isBy, he] at hl
      rw [st.pc_eq, Function.update_of_ne hu]
    case collector idle st =>
      have ht : t ≠ none := fun he => busy (he ▸ idle)
      induction st <;> simp [Function.update_of_ne ht]
  cases pc : s.mem.pc t
  case dropCas p c i v =>
    by_cases hc : s'.mem.counter c i = s.mem.counter c i
    case pos => simp [Memory.cost, Memory.Behind, pc', pc, hc]
    case neg =>
      have hi : s.Interferes t l = true := by simp [Interferes, pc, hl, h, hc]
      simp only [hi, if_true, Memory.cost, pc', pc]
      split <;> split <;> omega
  all_goals simp [Memory.cost, Memory.Behind, pc', pc]

theorem cost_of_own (busy : s.mem.pc t ≠ .idle) (hl : l.isBy t = true) (h : s.next l = some s') :
    s'.mem.cost t + 1 ≤ s.mem.cost t + if l.isSpurious t then 1 else 0 := by
  cases l
  case collector => simp [Label.isBy] at hl
  case thread u a =>
    obtain rfl : u = t := by simpa [Label.isBy] using hl
    obtain ⟨-, m, hm, rfl⟩ := of_next_thread h
    have := Memory.cost_threadStep busy hm
    cases a <;> simpa [Label.isSpurious] using this

theorem cost_run (r : (system n T C).Run s₁ tr s₂) (busy : ∀ e ∈ tr, e.1.mem.pc t ≠ .idle) :
    tr.countP (·.2.isBy t) + s₂.mem.cost t ≤
      s₁.mem.cost t + tr.countP (·.2.isSpurious t) + tr.countP fun e => e.1.Interferes t e.2 := by
  induction r
  case refl => simp
  case step s l s' tr s₃ stp r ih =>
    rw [List.forall_mem_cons] at busy
    have ih := ih busy.right
    rw [List.countP_cons, List.countP_cons, List.countP_cons]
    dsimp only at busy ⊢
    cases hl : l.isBy t
    case false =>
      have := cost_of_others busy.left hl stp
      simp only [Bool.false_eq_true, if_false]
      omega
    case true =>
      have := cost_of_own busy.left hl stp
      simp only [if_true]
      omega

-- A clone comes in between the two accesses of a drop to the counter.
def dropsContended : List (Label 1 Bool Unit) :=
  runs true 2 ++ .thread (some false) (.clone 0) :: runs false 2 ++ runs true 4

def contending : State 1 Bool Unit :=
  (System.exec next empty (.thread (some true) (.new 0) :: runs true 2 ++ [.thread (some true) (.clone 0)] ++ runs true 2 ++
    [.thread (some true) (.drop 0)])).getD empty

def contended : State 1 Bool Unit :=
  (System.exec next contending dropsContended).getD empty

end State
end Sdarc
