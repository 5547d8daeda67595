import SdarcModel.Library.Scan
import Mathlib.Data.Int.Order.Basic
import Mathlib.Data.Fintype.Basic

-- The content of one `AtomicTaggedCounter`: the signed count of the upper 63 bits and the tag in the
-- lowest bit. One value is one word, so comparing two values is comparing two words.
@[ext]
structure TaggedCounter where
  refCount : Int  := 0
  tag      : Bool := false
  deriving DecidableEq, Repr

namespace TaggedCounter

def incrementRefCount (c : TaggedCounter) : TaggedCounter :=
  { c with refCount := c.refCount + 1 }

def decrementRefCountAndSetTag (c : TaggedCounter) : TaggedCounter :=
  { refCount := c.refCount - 1, tag := true }

def clearTag (c : TaggedCounter) : TaggedCounter :=
  { c with tag := false }

variable (c : TaggedCounter)

@[simp, grind =] theorem incrementRefCount_refCount : c.incrementRefCount.refCount = c.refCount + 1 := rfl

@[simp, grind =] theorem incrementRefCount_tag : c.incrementRefCount.tag = c.tag := rfl

@[simp, grind =] theorem decrementRefCountAndSetTag_refCount :
    c.decrementRefCountAndSetTag.refCount = c.refCount - 1 := rfl

@[simp, grind =] theorem decrementRefCountAndSetTag_tag : c.decrementRefCountAndSetTag.tag = true := rfl

@[simp, grind =] theorem clearTag_refCount : c.clearTag.refCount = c.refCount := rfl

@[simp, grind =] theorem clearTag_tag : c.clearTag.tag = false := rfl

-- Both leave what a scan of the counters relies on: a counter goes down only with its tag set.
theorem later_incrementRefCount : Scan.Later refCount tag c c.incrementRefCount := by
  cases h : c.tag <;> simp [Scan.Later, h]

theorem later_decrementRefCountAndSetTag : Scan.Later refCount tag c c.decrementRefCountAndSetTag :=
  .inl rfl

-- The 64-bit word that `AtomicTaggedCounter` stores, with the operations the code performs on it.
abbrev Word := BitVec 64

namespace Word

def refCount (w : Word) : Word := w.sshiftRight 1

def tag (w : Word) : Bool := w &&& 1 != 0

def incrementRefCount (w : Word) : Word := w + 2

def decrementRefCountAndSetTag (w : Word) : Word := (w ||| 1) - 2

def clearTag (w : Word) : Word := w &&& ~~~1

def toTaggedCounter (w : Word) : TaggedCounter where
  refCount := w.refCount.toInt
  tag      := w.tag

end Word
end TaggedCounter
