import SdarcModel.Library.Simulation

namespace System

variable {σ₁ α₁ σ₂ α₂ τ β : Type*}

inductive SyncLabel (α₁ α₂ : Type*)
  | left  (a : α₁)
  | right (b : α₂)
  | both  (a : α₁) (b : α₂)

-- Two systems side by side: steps to which `g₁` and `g₂` give a name are taken together, under the same
-- name, and all others apart.
inductive SyncStep (S₁ : System σ₁ α₁) (S₂ : System σ₂ α₂) (g₁ : σ₁ → α₁ → Option β) (g₂ : σ₂ → α₂ → Option β)
    (s : σ₁ × σ₂) : SyncLabel α₁ α₂ → σ₁ × σ₂ → Prop
  | left (stp : S₁.Step s.1 a s₁) (own : g₁ s.1 a = none) : SyncStep S₁ S₂ g₁ g₂ s (.left a) (s₁, s.2)
  | right (stp : S₂.Step s.2 b s₂) (own : g₂ s.2 b = none) : SyncStep S₁ S₂ g₁ g₂ s (.right b) (s.1, s₂)
  | both (stp₁ : S₁.Step s.1 a s₁) (stp₂ : S₂.Step s.2 b s₂) (name₁ : g₁ s.1 a = some c) (name₂ : g₂ s.2 b = some c) :
    SyncStep S₁ S₂ g₁ g₂ s (.both a b) (s₁, s₂)

def sync (S₁ : System σ₁ α₁) (S₂ : System σ₂ α₂) (g₁ : σ₁ → α₁ → Option β) (g₂ : σ₂ → α₂ → Option β) :
    System (σ₁ × σ₂) (SyncLabel α₁ α₂) where
  Init s := S₁.Init s.1 ∧ S₂.Init s.2
  Step   := SyncStep S₁ S₂ g₁ g₂

variable {S₁ : System σ₁ α₁} {S₂ : System σ₂ α₂} {g₁ : σ₁ → α₁ → Option β} {g₂ : σ₂ → α₂ → Option β} {s : σ₁ × σ₂}

theorem reachable_of_sync (h : (S₁.sync S₂ g₁ g₂).Reachable s) : S₁.Reachable s.1 ∧ S₂.Reachable s.2 := by
  induction h
  case init h => exact ⟨.init h.left, .init h.right⟩
  case step stp ih =>
    cases stp
    case left stp _       => exact ⟨ih.left.step stp, ih.right⟩
    case right stp _      => exact ⟨ih.left, ih.right.step stp⟩
    case both stp₁ stp₂ _ _ => exact ⟨ih.left.step stp₁, ih.right.step stp₂⟩

-- One side goes on alone.
theorem sync_right (h : (S₁.sync S₂ g₁ g₂).Reachable (s₁, s₂)) (r : S₂.Run s₂ tr s₂') (own : ∀ e ∈ tr, g₂ e.1 e.2 = none) :
    (S₁.sync S₂ g₁ g₂).Reachable (s₁, s₂') := by
  induction r
  case refl => exact h
  case step stp _ ih =>
    rw [List.forall_mem_cons] at own
    exact ih (h.step (.right stp own.left)) own.right

-- Two sides that simulate one deterministic system in the steps they take together see it in the same state.
theorem eq_of_sync {A : System τ β} {f₁ : σ₁ → τ} {f₂ : σ₂ → τ} (sim₁ : Simulates A S₁ f₁ g₁)
    (sim₂ : Simulates A S₂ f₂ g₂) (init : ∀ a a', A.Init a → A.Init a' → a = a')
    (det : ∀ a b a₁ a₂, A.Step a b a₁ → A.Step a b a₂ → a₁ = a₂) (h : (S₁.sync S₂ g₁ g₂).Reachable s) :
    f₁ s.1 = f₂ s.2 := by
  induction h
  case init h => exact init _ _ (sim₁.init _ h.left) (sim₂.init _ h.right)
  case step s a s' h stp ih =>
    obtain ⟨h₁, h₂⟩ := reachable_of_sync h
    cases stp
    case left stp own  => exact (sim₁.stutter _ _ _ h₁ stp own).trans ih
    case right stp own => exact ih.trans (sim₂.stutter _ _ _ h₂ stp own).symm
    case both stp₁ stp₂ name₁ name₂ =>
      have st₁ := sim₁.step _ _ _ _ h₁ stp₁ name₁
      have st₂ := sim₂.step _ _ _ _ h₂ stp₂ name₂
      exact det _ _ _ _ st₁ (ih ▸ st₂)

end System
