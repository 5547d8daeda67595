import SdarcModel.Library.System
import Mathlib.Data.Set.Insert

-- A pool: whoever takes something from it gets what nobody has.
namespace Pool

variable {τ α : Type*}

inductive Op (τ α : Type*)
  | take (t : τ) (a : α)
  | give (t : τ) (a : α)
  deriving DecidableEq

-- The state is the set of what is in use.
inductive Step (s : Set α) : Op τ α → Set α → Prop
  | take (unused : a ∉ s) : Step s (.take t a) (insert a s)
  | give (used : a ∈ s) : Step s (.give t a) (s \ {a})

def system (τ α : Type*) : System (Set α) (Op τ α) where
  Init s := s = ∅
  Step   := Step

theorem Step.eq {s s₁ s₂ : Set α} {op : Op τ α} (h₁ : Step s op s₁) (h₂ : Step s op s₂) : s₁ = s₂ := by
  cases h₁ <;> cases h₂ <;> rfl

end Pool
