import SdarcModel.Objects.TaggedCounter

namespace Sdarc

-- A `SdarcInner` is named by the allocation it came from. Names are never reused, so a pointer to an
-- object that was freed stays recognizable.
abbrev Ptr := Nat

-- A `ShardedDataPtr<AtomicTaggedCounter>`. Unlike a `Ptr` it is an address, and free addresses are
-- handed out again.
abbrev Slot := Nat

inductive OnceLock (α : Type)
  | uninit
  | running
  | init (a : α)
  deriving DecidableEq

-- The payload: a value of the user, or a `WeakSdarcInner` with its `back_ref`.
inductive Data
  | user
  | weak (backRef : Option Ptr)
  deriving DecidableEq

structure SdarcInner where
  counters     : Slot
  weakInnerRef : OnceLock Ptr := .uninit
  data         : Data
  deriving DecidableEq

def SdarcInner.backRef (r : SdarcInner) : Option Ptr :=
  match r.data with
  | .weak b => b
  | .user   => none

-- What the reader critical section is entered for: `AtomicNullableSdarc::load` of a cell, or
-- `WeakSdarc::upgrade`.
inductive Source (C : Type)
  | cell (x : C)
  | weak (w : Ptr)
  deriving DecidableEq

-- Who called `Sdarc::new`: user code, or `Sdarc::downgrade` of `q` for its `WeakSdarcInner`.
inductive Creation
  | user
  | downgrade (q : Ptr)
  deriving DecidableEq

-- Which call an `increment_ref_count_relaxed` is part of.
inductive Incr (n : Nat) (C : Type)
  | clone
  | downgrade     (q : Ptr)
  | read          (src : Source C) (i : Fin n)
  | compareAndSet (original : Option Ptr)
  deriving DecidableEq

-- The next atomic access of a thread, with the locals it still needs.
inductive Pc (n : Nat) (C : Type)
  | idle
  | newIncrement (p : Ptr) (k : Creation)
  | newPush      (p : Ptr) (k : Creation)
  | incrRead     (p : Ptr) (k : Incr n C)
  | incrAdd      (p : Ptr) (c : Slot) (i : Fin n) (k : Incr n C)
  | dropRead     (p : Ptr)
  | dropLoad     (p : Ptr) (c : Slot) (i : Fin n)
  | dropCas      (p : Ptr) (c : Slot) (i : Fin n) (value : TaggedCounter)
  | dropNotify   (p : Ptr)
  | onSdarcDrop  (c : Slot)
  | readLoad     (src : Source C) (i : Fin n)
  | readLeave    (src : Source C) (i : Fin n) (result : Option Ptr)
  | downgradeGet (q : Ptr)
  | downgradeNew (q : Ptr)
  | downgradeSet (q w : Ptr)
  deriving DecidableEq

namespace Source

def borrows (src : Source C) (p : Ptr) : Bool :=
  match src with
  | .cell _ => false
  | .weak w => w == p

end Source

namespace Creation

def borrows (k : Creation) (p : Ptr) : Bool :=
  match k with
  | .user        => false
  | .downgrade q => q == p

end Creation

namespace Incr

def borrows (k : Incr n C) (a p : Ptr) : Bool :=
  match k with
  | .clone           => a == p
  | .downgrade q     => q == p
  | .read src _      => src.borrows p
  | .compareAndSet o => a == p || o == some p

end Incr

namespace Pc

-- The `Sdarc`s the running call holds a reference to. They stay alive until it returns.
def borrows (pc : Pc n C) (p : Ptr) : Bool :=
  match pc with
  | .newIncrement _ k | .newPush _ k     => k.borrows p
  | .incrRead a k | .incrAdd a _ _ k     => k.borrows a p
  | .readLoad src _ | .readLeave src _ _ => src.borrows p
  | .downgradeGet q | .downgradeNew q | .downgradeSet q _ => q == p
  | _ => false

end Pc
end Sdarc
