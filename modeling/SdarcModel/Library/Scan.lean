import Mathlib.Algebra.Order.BigOperators.Group.Finset
import Mathlib.Algebra.Order.Group.Int
import Mathlib.Data.Fintype.Basic
import Mathlib.Order.Interval.Finset.Fin

open scoped BigOperators

-- A count kept in shards, which a reader can only read one after the other. A shard may go up at any
-- time, and every time it goes down it is marked. Only the reader takes marks away.
namespace Scan

-- `b` is a later content of a shard that held `a`.
def Later {α : Type*} (count : α → Int) (marked : α → Bool) (a b : α) : Prop :=
  marked b = true ∨ (marked a = false ∧ count a ≤ count b)

-- The shards of `U` hold at least `lo`, unless one of them was marked.
def AtLeast {α ι : Type*} (count : α → Int) (marked : α → Bool) (w : ι → α) (U : Finset ι) (lo : Int) :
    Prop :=
  (∃ i ∈ U, marked (w i) = true) ∨ lo ≤ ∑ i ∈ U, count (w i)

variable {α ι : Type*} {count : α → Int} {marked : α → Bool}

theorem Later.refl (a : α) : Later count marked a a := by
  cases h : marked a <;> simp [Later, h]

theorem Later.trans {a b c : α} (h₁ : Later count marked a b) (h₂ : Later count marked b c) :
    Later count marked a c := by
  simp only [Later] at *
  grind

namespace AtLeast

variable {w w' : ι → α} {U : Finset ι} {lo hi : Int} {i : ι}

theorem mono (h : AtLeast count marked w U hi) (hl : lo ≤ hi) : AtLeast count marked w U lo :=
  h.imp_right hl.trans

theorem of_count (h : lo ≤ ∑ i ∈ U, count (w i)) : AtLeast count marked w U lo :=
  .inr h

theorem later (h : AtLeast count marked w U lo) (hl : ∀ i ∈ U, Later count marked (w i) (w' i)) :
    AtLeast count marked w' U lo := by
  by_cases hm : ∃ i ∈ U, marked (w' i) = true
  case pos => exact .inl hm
  case neg =>
    simp only [not_exists, not_and, Bool.not_eq_true] at hm
    have hs i (hi : i ∈ U) : marked (w i) = false ∧ count (w i) ≤ count (w' i) :=
      (hl i hi).resolve_left (by simp [hm i hi])
    cases h
    case inl h =>
      have ⟨i, hi, h⟩ := h
      simp [(hs i hi).left] at h
    case inr h => exact .inr <| h.trans <| Finset.sum_le_sum fun i hi => (hs i hi).right

theorem empty : AtLeast count marked w ∅ lo ↔ lo ≤ 0 := by
  simp [AtLeast]

theorem le (h : AtLeast count marked w U lo) (hm : ∀ i ∈ U, marked (w i) = false) :
    lo ≤ ∑ i ∈ U, count (w i) := by
  refine h.resolve_left ?_
  rintro ⟨i, hi, h⟩
  simp [hm i hi] at h

variable [DecidableEq ι]

-- Reading a shard that is not marked moves it from what is still to be read into the sum read.
theorem read (h : AtLeast count marked w (insert i U) lo) (hi : i ∉ U) (hm : marked (w i) = false) :
    AtLeast count marked w U (lo - count (w i)) := by
  cases h
  case inl h =>
    have ⟨j, hj, h⟩ := h
    refine .inl ⟨j, (Finset.mem_insert.mp hj).resolve_left ?_, h⟩
    intro he
    simp [he, hm] at h
  case inr h =>
    rw [Finset.sum_insert hi] at h
    exact .inr (by omega)

-- Taking a shard's mark away while reading it adds it to the shards known to hold what was read.
theorem clear (h : AtLeast count marked w U lo) (hi : i ∉ U) (a : α) :
    AtLeast count marked (Function.update w i a) (insert i U) (lo + count a) := by
  have he j (hj : j ∈ U) : Function.update w i a j = w j :=
    Function.update_of_ne (ne_of_mem_of_not_mem hj hi) ..
  cases h
  case inl h =>
    have ⟨j, hj, h⟩ := h
    exact .inl ⟨j, Finset.mem_insert_of_mem hj, by rwa [he j hj]⟩
  case inr h =>
    refine .inr ?_
    rw [Finset.sum_insert hi, Function.update_self, Finset.sum_congr rfl fun j hj => by rw [he j hj]]
    omega

end AtLeast

-- The shards before and from the `j`th, when they are read in the order of their index.
def before (n j : Nat) : Finset (Fin n) :=
  Finset.univ.filter (·.val < j)

def rest (n j : Nat) : Finset (Fin n) :=
  Finset.univ.filter (j ≤ ·.val)

variable {n j : Nat}

@[simp] theorem before_zero : before n 0 = ∅ := by
  simp [before]

@[simp] theorem rest_zero : rest n 0 = Finset.univ := by
  simp [rest]

theorem before_of_le (h : n ≤ j) : before n j = Finset.univ := by
  ext i
  simp only [before, Finset.mem_filter, Finset.mem_univ, true_and, iff_true]
  omega

theorem rest_of_le (h : n ≤ j) : rest n j = ∅ := by
  ext i
  simp only [rest, Finset.mem_filter, Finset.mem_univ, true_and, Finset.notMem_empty, iff_false]
  omega

theorem before_succ (h : j < n) : before n (j + 1) = insert ⟨j, h⟩ (before n j) := by
  ext i
  simp only [before, Finset.mem_filter, Finset.mem_univ, true_and, Finset.mem_insert, Fin.ext_iff]
  omega

theorem rest_eq (h : j < n) : rest n j = insert ⟨j, h⟩ (rest n (j + 1)) := by
  ext i
  simp only [rest, Finset.mem_filter, Finset.mem_univ, true_and, Finset.mem_insert, Fin.ext_iff]
  omega

theorem notMem_before (h : j < n) : (⟨j, h⟩ : Fin n) ∉ before n j := by
  simp [before]

theorem notMem_rest (h : j < n) : (⟨j, h⟩ : Fin n) ∉ rest n (j + 1) := by
  simp [rest]

end Scan
