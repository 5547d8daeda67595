import SdarcModel.Library.Sum
import SdarcModel.ShardedRwLock.Theorems.Progress

open scoped BigOperators

namespace ShardedRwLock

variable {n : Nat} {τ : Type}

-- How often a thread still has to advance until it is done with the call it is in and with the guard.
def Call.work : Call n → Nat
  | .idle        => 0
  | .reading _   => 2
  | .readGuard _ => 1
  | .writing k   => n - k + n + 3
  | .writeGuard  => n + 2
  | .dropping k  => n - k + 1

@[simp] theorem Call.work_eq_zero {c : Call n} : c.work = 0 ↔ c = .idle := by
  cases c <;> simp [work]

instance : (a : Act n τ) → Decidable a.Advances
  | .lockShared _ | .lockExclusive _ | .finishWrite _ | .dropRead _ | .dropWrite _ | .unlock _ | .finishDrop _ =>
    isTrue trivial
  | .setShard _ _ | .read _ | .tryRead _ | .write _ => isFalse id

namespace State

variable [DecidableEq τ] {π : Policy n τ} {s s' : State n τ} {a : Act n τ} {t : τ}

-- What a step that starts a call adds.
def begun (π : Policy n τ) (s : State n τ) : Act n τ → Nat
  | .read _    => 2
  | .write _   => 2 * n + 3
  | .tryRead t => if (s.acquireShared π t (s.shard t)).isSome then 1 else 0
  | _          => 0

theorem acquireShared_call (h : s.acquireShared π t i = some s') :
    s'.call = Function.update s.call t (.readGuard i) := by
  simp only [acquireShared, Option.ite_none_left_eq_some, Option.map_eq_some_iff] at h
  obtain ⟨-, _, -, rfl⟩ := h
  rfl

-- In a step one thread at most gets on.
theorem next_call (h : s.next π a = some s') :
    ∃ t c, s'.call = Function.update s.call t c ∧
      c.work + (if a.Advances then 1 else 0) = (s.call t).work + s.begun π a := by
  cases a <;> simp only [next] at h
  case setShard t i => cases h; exact ⟨t, s.call t, by simp, by simp [Act.Advances, begun]⟩
  case tryRead t =>
    split at h <;> cases h
    case isTrue hc =>
      cases ha : s.acquireShared π t (s.shard t) <;> simp only [begun, ha, Option.getD_none, Option.getD_some]
      case none    => exact ⟨t, s.call t, by simp, by simp [Act.Advances]⟩
      case some s' => exact ⟨t, _, acquireShared_call ha, by simp [hc, Call.work, Act.Advances]⟩
  case lockShared t =>
    split at h
    case h_1 i hc => exact ⟨t, _, acquireShared_call h, by simp [hc, Call.work, begun, Act.Advances]⟩
    case h_2      => contradiction
  case lockExclusive t =>
    split at h <;> try contradiction
    case h_1 k hc =>
      simp only [acquireExclusive, Option.dite_none_right_eq_some, Option.map_eq_some_iff] at h
      obtain ⟨hk, _, -, rfl⟩ := h
      refine ⟨t, _, rfl, ?_⟩
      simp only [hc, Call.work, begun, Act.Advances, ↓reduceIte]
      omega
  case unlock t =>
    split at h <;> try contradiction
    case h_1 k hc =>
      split at h <;> cases h
      refine ⟨t, _, rfl, ?_⟩
      simp only [hc, Call.work, begun, Act.Advances, ↓reduceIte]
      omega
  all_goals
    split at h <;> cases h
    exact ⟨_, _, rfl, by simp [*, Call.work, begun, Act.Advances] <;> omega⟩

variable [Fintype τ]

def work (s : State n τ) : Nat :=
  ∑ t, (s.call t).work

omit [DecidableEq τ] in
theorem work_eq_zero : s.work = 0 ↔ ∀ t, s.call t = .idle := by
  simp [work]

theorem work_next (h : s.next π a = some s') :
    s'.work + (if a.Advances then 1 else 0) = s.work + s.begun π a := by
  obtain ⟨t, c, hc, hw⟩ := next_call h
  have := Finset.sum_comp_update (Finset.mem_univ t) s.call Call.work c
  simp only [work, hc]
  omega

theorem work_run (r : (system π).Run s tr s') :
    s'.work + tr.countP (fun e => e.2.Advances) = s.work + (tr.map fun e => e.1.begun π e.2).sum := by
  induction r
  case refl => simp
  case step s a s₁ tr s₂ stp _ ih =>
    have := work_next stp
    simp only [List.countP_cons, List.map_cons, List.sum_cons, decide_eq_true_eq]
    omega

end State

-- A thread that is in a call or holds a guard gets on, or keeps another from it that does.
theorem canAdvance_of_call {s : State n τ} [DecidableEq τ] {π : Policy n τ} (hi : Inv s) (h : s.call t ≠ .idle) :
    s.CanAdvance π := by
  cases hc : s.call t
  case idle       => exact absurd hc h
  case reading    => exact canAdvance_of_reading hi hc
  case readGuard  => exact canAdvance_of_readGuard hc
  case writing    => exact canAdvance_of_writing hi hc
  case writeGuard => exact canAdvance_of_writeGuard hc
  case dropping   => exact canAdvance_of_dropping hi hc

theorem Inv.unlocked {s : State n τ} (hi : Inv s) (idle : ∀ t, s.call t = .idle) (i : Fin n) : s.locks i = {} := by
  have writer : (s.locks i).writer = none :=
    Option.eq_none_iff_forall_ne_some.mpr fun t ht => by simpa [idle, Call.Holds] using hi.writer i t |>.mp ht
  have readers : (s.locks i).readers = ∅ :=
    Finset.eq_empty_of_forall_notMem fun t ht => by simpa [idle] using hi.readers i t |>.mp ht
  cases hl : s.locks i
  simp_all

theorem not_canAdvance_of_idle [DecidableEq τ] {π : Policy n τ} {s : State n τ} (idle : ∀ t, s.call t = .idle) :
    ¬s.CanAdvance π := by
  rintro ⟨a, ha, hs⟩
  cases a <;> simp_all [State.next, Act.Advances]

-- The writer drops its guard, and the reader that waits for it gets one and drops it.
def drops : List (Act 2 Bool) :=
  [.dropWrite true, .unlock true, .unlock true, .finishDrop true, .lockShared false, .dropRead false]

def released : State 2 Bool :=
  (System.exec (State.next (.writerPreference 2 Bool)) writerHeld drops).getD allIdle

end ShardedRwLock
