import SdarcModel.Library.System
import Mathlib.Data.Set.Insert
import Mathlib.Logic.Function.Basic

-- Reference counting as it is meant to be: each reference is counted at once, by one counter, and whoever
-- has none can only follow a link.
namespace RefCount

variable {α : Type*}

structure State (α : Type*) where
  made   : Set α
  count  : α → Nat
  linked : Set α
  freed  : Set α

inductive Op (α : Type*)
  | make    (a : α)
  | acquire (a : α)
  | release (a : α)
  | link    (a : α)
  | unlink  (a : α)
  | free    (a : α)

namespace State

structure Initial (s : State α) : Prop where
  made   : s.made = ∅
  count  : ∀ a, s.count a = 0
  linked : s.linked = ∅
  freed  : s.freed = ∅

inductive Step [DecidableEq α] (s : State α) : Op α → State α → Prop
  | make (new : a ∉ s.made) :
    Step s (.make a) { s with made := insert a s.made, count := Function.update s.count a 1 }
  | acquire (reached : 0 < s.count a ∨ a ∈ s.linked) :
    Step s (.acquire a) { s with count := Function.update s.count a (s.count a + 1) }
  | release (owned : 0 < s.count a) :
    Step s (.release a) { s with count := Function.update s.count a (s.count a - 1) }
  | link (owned : 0 < s.count a) : Step s (.link a) { s with linked := insert a s.linked }
  | unlink (linked : a ∈ s.linked) : Step s (.unlink a) { s with linked := s.linked \ {a} }
  | free (made : a ∈ s.made) (unowned : s.count a = 0) (unlinked : a ∉ s.linked) (once : a ∉ s.freed) :
    Step s (.free a) { s with freed := insert a s.freed }

-- Nothing leads to the object any more.
structure Lost (s : State α) (a : α) : Prop where
  made     : a ∈ s.made
  unowned  : s.count a = 0
  unlinked : a ∉ s.linked

theorem Lost.step [DecidableEq α] {s s' : State α} (h : s.Lost a) (st : Step s op s') : s'.Lost a := by
  have ⟨made, unowned, unlinked⟩ := h
  cases st
  case make b new =>
    have hb : a ≠ b := fun he => new (he ▸ made)
    exact ⟨.inr made, by simpa [hb] using unowned, unlinked⟩
  case acquire b reached =>
    have hb : a ≠ b := by rintro rfl; exact reached.elim (by omega) unlinked
    exact ⟨made, by simpa [hb] using unowned, unlinked⟩
  case release b owned =>
    have hb : a ≠ b := by rintro rfl; omega
    exact ⟨made, by simpa [hb] using unowned, unlinked⟩
  case link b owned =>
    have hb : a ≠ b := by rintro rfl; omega
    exact ⟨made, unowned, by simp [hb, unlinked]⟩
  case unlink => exact ⟨made, unowned, fun h => unlinked h.left⟩
  case free   => exact ⟨made, unowned, unlinked⟩

end State

def system (α : Type*) [DecidableEq α] : System (State α) (Op α) where
  Init := State.Initial
  Step := State.Step

variable [DecidableEq α] {s₁ s₂ : State α}

theorem State.Lost.run (h : s₁.Lost a) (r : (system α).Run s₁ tr s₂) : s₂.Lost a :=
  r.invariant (I := (State.Lost · a)) h fun _ _ _ h st => h.step st

end RefCount
