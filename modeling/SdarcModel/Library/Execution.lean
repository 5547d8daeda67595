import SdarcModel.Library.System
import Mathlib.Order.WellFounded

namespace System

variable {σ α β : Type*}

-- A run without end: the state at every time, and the label of the step taken there.
structure Execution (S : System σ α) where
  state : Nat → σ
  label : Nat → α
  step  : ∀ k, S.Step (state k) (label k) (state (k + 1))

namespace Execution

variable {S : System σ α} {c : σ → α → σ → Prop} (e : S.Execution) {I G : σ → Prop} {A B : σ → α → Prop}

def ofRestrict (e : (S.restrict c).Execution) : S.Execution where
  state  := e.state
  label  := e.label
  step k := (e.step k).left

theorem reachable (h : S.Reachable (e.state 0)) (k : Nat) : S.Reachable (e.state k) := by
  induction k
  case zero      => exact h
  case succ k ih => exact ih.step (e.step k)

theorem exists_run (h : i ≤ j) : ∃ tr, S.Run (e.state i) tr (e.state j) := by
  induction j, h using Nat.le_induction
  case base => exact ⟨[], .refl⟩
  case succ j _ ih =>
    obtain ⟨tr, r⟩ := ih
    exact ⟨_, r.trans (.step (e.step j) .refl)⟩

-- A property that every step keeps holds from the time on at which it holds first.
theorem invariant (hi : I (e.state i)) (step : ∀ k, i ≤ k → I (e.state k) → I (e.state (k + 1))) (h : i ≤ j) :
    I (e.state j) := by
  induction j, h using Nat.le_induction
  case base          => exact hi
  case succ j hj ih  => exact step j hj ih

-- Steps of a kind that is taken again and again.
def Often (A : σ → α → Prop) : Prop :=
  ∀ k, ∃ j, k ≤ j ∧ A (e.state j) (e.label j)

-- If a property of the state changes in steps of the kind `A` only, then steps of the kind `B` are taken
-- while it holds, or a step of the kind `A` is.
theorem exists_or (often : e.Often B) (hi : I (e.state i))
    (keep : ∀ k, i ≤ k → I (e.state k) → ¬A (e.state k) (e.label k) → I (e.state (k + 1))) :
    ∃ j, i ≤ j ∧ (A (e.state j) (e.label j) ∨ (I (e.state j) ∧ B (e.state j) (e.label j))) := by
  by_contra! hn
  obtain ⟨j, hj, hb⟩ := often i
  have := e.invariant hi (fun k hk h => keep k hk h (hn k hk).left) hj
  exact (hn j hj).right this hb

-- A property that only steps of the kind `A` change holds when the next one is taken.
theorem exists_first (often : e.Often A) (hi : I (e.state i))
    (keep : ∀ k, i ≤ k → I (e.state k) → ¬A (e.state k) (e.label k) → I (e.state (k + 1))) :
    ∃ j, i ≤ j ∧ I (e.state j) ∧ A (e.state j) (e.label j) := by
  let B s l := I s ∧ A s l
  obtain ⟨j, hj, hb | ⟨hi, ha⟩⟩ := e.exists_or (A := B) often hi fun k hk h hn => keep k hk h fun ha => hn ⟨h, ha⟩
  case inl => exact ⟨j, hj, hb⟩
  case inr => exact ⟨j, hj, hi, ha⟩

-- What is measured cannot go down for ever: steps that take it down lead to the goal `G` if they are taken
-- again and again until then, and no other step takes it up.
theorem exists_goal [Preorder β] [WellFoundedLT β] (μ : σ → β) (k : Nat)
    (often : ∀ i, k ≤ i → ¬G (e.state i) → ∃ j, i ≤ j ∧ A (e.state j) (e.label j))
    (down : ∀ i, k ≤ i → ¬G (e.state i) → A (e.state i) (e.label i) → μ (e.state (i + 1)) < μ (e.state i))
    (keep : ∀ i, k ≤ i → ¬G (e.state i) → μ (e.state (i + 1)) ≤ μ (e.state i)) :
    ∃ j, k ≤ j ∧ G (e.state j) := by
  by_contra! hn
  have never (b : β) : ∀ i, k ≤ i → μ (e.state i) = b → False := by
    induction b using WellFoundedLT.induction
    case ind b ih =>
      rintro i hi rfl
      obtain ⟨j, hj, ha⟩ := often i hi (hn i hi)
      have hk := hi.trans hj
      have le : μ (e.state j) ≤ μ (e.state i) :=
        e.invariant (I := fun s => μ s ≤ μ (e.state i)) le_rfl
          (fun m hm h => (keep m (hi.trans hm) (hn m (hi.trans hm))).trans h) hj
      exact ih _ ((down j hk (hn j hk) ha).trans_le le) (j + 1) (hk.trans (Nat.le_succ j)) rfl
  exact never _ k le_rfl rfl

end Execution

-- The state after `k` steps, each with the label that `schedule` picks.
def scheduled (next : σ → α → Option σ) (schedule : σ → α) (s : σ) : Nat → σ
  | 0     => s
  | k + 1 =>
    let s' := scheduled next schedule s k
    (next s' (schedule s')).getD s'

variable {init : σ → Prop} {next : σ → α → Option σ} {schedule : σ → α} {I : σ → Prop}

theorem scheduled_invariant (hi : I s) (step : ∀ s, I s → ∃ s', next s (schedule s) = some s' ∧ I s') (k : Nat) :
    I (scheduled next schedule s k) := by
  induction k
  case zero => exact hi
  case succ k ih =>
    obtain ⟨s', hs, h⟩ := step _ ih
    simpa [scheduled, hs] using h

-- A schedule that never picks a label which is not enabled gives an execution.
def Execution.ofSchedule (schedule : σ → α) (hi : I s)
    (step : ∀ s, I s → ∃ s', next s (schedule s) = some s' ∧ I s') :
    (ofNext init next).Execution where
  state  := scheduled next schedule s
  label k := schedule (scheduled next schedule s k)
  step k := by
    obtain ⟨s', hs, -⟩ := step _ (scheduled_invariant hi step k)
    simp [ofNext, scheduled, hs]

end System
