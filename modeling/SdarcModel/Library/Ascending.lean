import Mathlib.Data.List.Sort
import Mathlib.Data.Finset.Dedup

-- The elements of a finite set in ascending order, by a sort that reduces in the kernel.
namespace Finset

variable {α : Type*} [LinearOrder α]

def ascending (s : Finset α) : List α :=
  Quot.liftOn s.val (·.insertionSort (· ≤ ·)) fun _ _ h =>
    (List.perm_insertionSort .. |>.trans h |>.trans (List.perm_insertionSort ..).symm).eq_of_pairwise'
      (List.pairwise_insertionSort ..) (List.pairwise_insertionSort ..)

theorem coe_ascending (s : Finset α) : (s.ascending : Multiset α) = s.val := by
  cases s with | mk v _ =>
  induction v using Quot.ind
  exact Multiset.coe_eq_coe.mpr (List.perm_insertionSort ..)

@[simp] theorem mem_ascending {s : Finset α} : a ∈ s.ascending ↔ a ∈ s := by
  rw [← Multiset.mem_coe, coe_ascending, Finset.mem_val]

theorem nodup_ascending (s : Finset α) : s.ascending.Nodup := by
  rw [← Multiset.coe_nodup, coe_ascending]
  exact s.nodup

end Finset
