import SdarcModel.Objects.TaggedCounter
import Mathlib.Algebra.Ring.Int.Defs
import Mathlib.Algebra.Ring.Nat

namespace TaggedCounter

-- The word that stores a counter.
def toWord (c : TaggedCounter) : Word :=
  BitVec.ofInt 64 (2 * c.refCount + c.tag.toInt)

-- The count has room in 63 bits.
def Fits (c : TaggedCounter) : Prop :=
  -2 ^ 62 ≤ c.refCount ∧ c.refCount < 2 ^ 62

namespace Word

variable (w : Word)

theorem toNat_or_one : (w ||| 1).toNat = w.toNat / 2 * 2 + 1 := by
  have h : (w ||| 1).toNat = w.toNat ||| 1 := by simp
  have hd : (w.toNat ||| 1) / 2 = w.toNat / 2 := by rw [Nat.or_div_two]; simp
  have hm : (w.toNat ||| 1) % 2 = 1 := Nat.or_mod_two_eq_one.mpr (.inr rfl)
  omega

theorem toNat_clearTag : w.clearTag.toNat = w.toNat / 2 * 2 := by
  have h : w.clearTag.toNat = w.toNat &&& (2 ^ 64 - 2) := by simp [clearTag]
  have hd : (w.toNat &&& (2 ^ 64 - 2)) / 2 = w.toNat / 2 := by
    rw [Nat.and_div_two, show (2 ^ 64 - 2) / 2 = 2 ^ 63 - 1 by decide, Nat.and_two_pow_sub_one_eq_mod]
    have := w.isLt
    omega
  have hm : (w.toNat &&& (2 ^ 64 - 2)) % 2 ≠ 1 := by simp [Nat.and_mod_two_eq_one]
  omega

theorem toNat_decrementRefCountAndSetTag :
    w.decrementRefCountAndSetTag.toNat = (w.toNat / 2 * 2 + (2 ^ 64 - 1)) % 2 ^ 64 := by
  have := w.isLt
  rw [decrementRefCountAndSetTag, BitVec.toNat_sub, toNat_or_one]
  simp only [BitVec.ofNat_eq_ofNat, BitVec.toNat_ofNat]
  omega

theorem tag_iff : w.tag = true ↔ w.toNat % 2 = 1 := by
  have h : (w &&& 1).toNat = w.toNat % 2 := by simp [Nat.and_one_is_mod]
  rw [tag, bne_iff_ne, ne_eq, ← BitVec.toNat_inj, h]
  simp only [BitVec.ofNat_eq_ofNat, BitVec.toNat_ofNat]
  omega

-- The shift keeps the sign: it rounds down.
theorem toInt_refCount : w.refCount.toInt = w.toInt / 2 := by
  rw [refCount, BitVec.toInt_sshiftRight, Int.shiftRight_eq_div_pow]
  rfl

end Word

variable (c : TaggedCounter)

theorem toNat_toWord : (c.toWord.toNat : Int) = (2 * c.refCount + c.tag.toInt) % 2 ^ 64 := by
  rw [toWord, BitVec.toNat_ofInt]
  omega

-- Each operation on the word is the one on the counter it stores, even where the count wraps around.
theorem toWord_incrementRefCount : c.incrementRefCount.toWord = c.toWord.incrementRefCount := by
  have h := c.toNat_toWord
  have h' := c.incrementRefCount.toNat_toWord
  apply BitVec.eq_of_toNat_eq
  rw [Word.incrementRefCount, BitVec.toNat_add]
  simp only [incrementRefCount_refCount, incrementRefCount_tag, BitVec.ofNat_eq_ofNat, BitVec.toNat_ofNat] at h' ⊢
  omega

theorem toWord_decrementRefCountAndSetTag :
    c.decrementRefCountAndSetTag.toWord = c.toWord.decrementRefCountAndSetTag := by
  have h := c.toNat_toWord
  have h' := c.decrementRefCountAndSetTag.toNat_toWord
  apply BitVec.eq_of_toNat_eq
  rw [Word.toNat_decrementRefCountAndSetTag]
  simp only [decrementRefCountAndSetTag_refCount, decrementRefCountAndSetTag_tag, Bool.toInt_true] at h'
  cases ht : c.tag <;> simp only [ht, Bool.toInt_true, Bool.toInt_false] at h <;> omega

theorem toWord_clearTag : c.clearTag.toWord = c.toWord.clearTag := by
  have h := c.toNat_toWord
  have h' := c.clearTag.toNat_toWord
  apply BitVec.eq_of_toNat_eq
  rw [Word.toNat_clearTag]
  simp only [clearTag_refCount, clearTag_tag, Bool.toInt_false] at h'
  cases ht : c.tag <;> simp only [ht, Bool.toInt_true, Bool.toInt_false] at h <;> omega

theorem toWord_or_one : c.toWord ||| 1 = { c with tag := true : TaggedCounter }.toWord := by
  have h := c.toNat_toWord
  have h' := { c with tag := true : TaggedCounter }.toNat_toWord
  apply BitVec.eq_of_toNat_eq
  rw [Word.toNat_or_one]
  simp only [Bool.toInt_true] at h'
  cases ht : c.tag <;> simp only [ht, Bool.toInt_true, Bool.toInt_false] at h <;> omega

theorem tag_toWord : c.toWord.tag = c.tag := by
  have h := c.toNat_toWord
  rw [Bool.eq_iff_iff, Word.tag_iff]
  cases ht : c.tag <;> simp only [ht, Bool.toInt_true, Bool.toInt_false, Bool.false_eq_true, iff_true, iff_false] at h ⊢ <;> omega

variable {c}

theorem toInt_toWord (h : c.Fits) : c.toWord.toInt = 2 * c.refCount + c.tag.toInt := by
  obtain ⟨hl, hu⟩ := h
  rw [toWord, BitVec.toInt_ofInt]
  cases c.tag <;> exact Int.bmod_eq_of_le (by simp; omega) (by simp; omega)

theorem toInt_refCount_toWord (h : c.Fits) : c.toWord.refCount.toInt = c.refCount := by
  rw [Word.toInt_refCount, toInt_toWord h]
  cases c.tag
  case false => simp
  case true  => rw [Bool.toInt_true]; omega

theorem toInt_or_one (h : c.Fits) : (c.toWord ||| 1).toInt = 2 * c.refCount + 1 := by
  rw [toWord_or_one]
  exact toInt_toWord (c := { c with tag := true }) h

-- The word gives the counter back.
theorem toTaggedCounter_toWord (h : c.Fits) : c.toWord.toTaggedCounter = c := by
  ext
  · exact toInt_refCount_toWord h
  · exact tag_toWord c

end TaggedCounter
