import SdarcModel.Library.System

namespace System

variable {σ α τ β : Type*}

-- Seen through `f`, the steps of `S` are steps of `A` with the labels that `g` gives them, or change nothing.
structure Simulates (A : System τ β) (S : System σ α) (f : σ → τ) (g : σ → α → Option β) : Prop where
  init    : ∀ s, S.Init s → A.Init (f s)
  step    : ∀ s₁ a s₂ b, S.Reachable s₁ → S.Step s₁ a s₂ → g s₁ a = some b → A.Step (f s₁) b (f s₂)
  stutter : ∀ s₁ a s₂, S.Reachable s₁ → S.Step s₁ a s₂ → g s₁ a = none → f s₂ = f s₁

-- The same where it is left open which step of `A` it is.
structure Refines (S : System σ α) (A : System τ β) (f : σ → τ) : Prop where
  init : ∀ s, S.Init s → A.Init (f s)
  step : ∀ s₁ a s₂, S.Reachable s₁ → S.Step s₁ a s₂ → f s₂ = f s₁ ∨ ∃ b, A.Step (f s₁) b (f s₂)

theorem Refines.run {A : System τ β} {S : System σ α} {f : σ → τ} (ref : S.Refines A f) (h : S.Reachable s₁)
    (r : S.Run s₁ tr s₂) : ∃ tr', A.Run (f s₁) tr' (f s₂) := by
  induction r
  case refl => exact ⟨[], .refl⟩
  case step stp r ih =>
    obtain ⟨tr', r'⟩ := ih (h.step stp)
    rcases ref.step _ _ _ h stp with he | ⟨b, stp'⟩
    case inl => exact ⟨tr', he ▸ r'⟩
    case inr => exact ⟨_, .step stp' r'⟩

namespace Simulates

variable {A : System τ β} {S : System σ α} {f : σ → τ} {g : σ → α → Option β}

theorem reachable (sim : Simulates A S f g) (h : S.Reachable s) : A.Reachable (f s) := by
  induction h
  case init h => exact .init (sim.init _ h)
  case step s₁ a s₂ hr stp ih =>
    cases hg : g s₁ a
    case none   => exact sim.stutter _ _ _ hr stp hg ▸ ih
    case some b => exact ih.step (sim.step _ _ _ _ hr stp hg)

-- What a run looks like.
def image (f : σ → τ) (g : σ → α → Option β) (tr : List (σ × α)) : List (τ × β) :=
  tr.filterMap fun e => (g e.1 e.2).map (f e.1, ·)

theorem run (sim : Simulates A S f g) (h : S.Reachable s₁) (r : S.Run s₁ tr s₂) :
    A.Run (f s₁) (image f g tr) (f s₂) := by
  induction r
  case refl => exact .refl
  case step s₁ a s₂ tr s₃ stp r ih =>
    have ih := ih (h.step stp)
    cases hg : g s₁ a
    case none =>
      rw [sim.stutter _ _ _ h stp hg] at ih
      simpa [image, hg] using ih
    case some b =>
      have r := Run.step (sim.step _ _ _ _ h stp hg) ih
      simpa [image, hg] using r

end Simulates
end System
