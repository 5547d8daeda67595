import Mathlib.Algebra.BigOperators.Group.Finset.Basic
import Mathlib.Algebra.BigOperators.Group.Finset.Piecewise
import Mathlib.Algebra.Order.BigOperators.Group.Finset
import Mathlib.Algebra.Order.Group.Int
import Mathlib.Tactic.Abel

open scoped BigOperators

namespace Finset

-- Counting by a sum of ones.
section Count

variable {ι : Type*} {s : Finset ι} (P : ι → Prop) [DecidablePred P]

theorem count_nonneg : (0 : Int) ≤ ∑ x ∈ s, if P x then 1 else 0 :=
  sum_nonneg fun _ _ => by split <;> decide

variable {P}

theorem count_eq_zero (h : ∑ x ∈ s, (if P x then (1 : Int) else 0) = 0) (hx : x ∈ s) : ¬P x := by
  have := (sum_eq_zero_iff_of_nonneg fun _ _ => by split <;> decide).mp h x hx
  simpa using this

theorem count_pos (hx : x ∈ s) (h : P x) : (0 : Int) < ∑ x ∈ s, if P x then 1 else 0 := by
  refine lt_of_le_of_ne (count_nonneg P) fun he => ?_
  exact count_eq_zero he.symm hx h

end Count

variable {ι β M : Type*} [DecidableEq ι] [AddCommMonoid M]

-- How a sum over the values of a function changes with one of the values.
theorem sum_comp_update {s : Finset ι} {i : ι} (h : i ∈ s) (f : ι → β) (g : β → M) (b : β) :
    ∑ x ∈ s, g (Function.update f i b x) + g (f i) = ∑ x ∈ s, g (f x) + g b := by
  have hr : ∑ x ∈ s.erase i, g (Function.update f i b x) = ∑ x ∈ s.erase i, g (f x) :=
    sum_congr rfl fun x hx => by rw [Function.update_of_ne (ne_of_mem_erase hx)]
  rw [← add_sum_erase _ _ h, ← add_sum_erase s (fun x => g (f x)) h, hr, Function.update_self]
  abel

theorem sum_comp_update_of_notMem {s : Finset ι} {i : ι} (h : i ∉ s) (f : ι → β) (g : β → M) (b : β) :
    ∑ x ∈ s, g (Function.update f i b x) = ∑ x ∈ s, g (f x) :=
  sum_congr rfl fun x hx => by rw [Function.update_of_ne (ne_of_mem_of_not_mem hx h)]

end Finset
