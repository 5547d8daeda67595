import SdarcModel.Execution.Basic

namespace Sdarc

-- What a call puts into a cell.
def Act.sets (x : C) (v : Option Ptr) : Act n C → Prop
  | .swap y r | .store y r | .compareAndSet y _ r => y = x ∧ r = v
  | _                                             => False

-- The cell a call is about.
def Act.cell? : Act n C → Option C
  | .load x _ | .swap x _ | .store x _ | .compareAndSet x _ _ => some x
  | _                                                         => none

-- An `AtomicSdarc` is an `AtomicNullableSdarc` that is made with a value, and given no null by its functions.
namespace AtomicSdarc

variable {n : Nat} {T C : Type}

def load (x : C) (i : Fin n) : Act n C :=
  .load x i

def swap (x : C) (newSdarc : Ptr) : Act n C :=
  .swap x (some newSdarc)

def store (x : C) (newSdarc : Ptr) : Act n C :=
  .store x (some newSdarc)

def compareAndSet (x : C) (ifMatches thenSet : Ptr) : Act n C :=
  .compareAndSet x (some ifMatches) (some thenSet)

inductive Call (x : C) : Act n C → Prop
  | load          : Call x (load x i)
  | swap          : Call x (swap x newSdarc)
  | store         : Call x (store x newSdarc)
  | compareAndSet : Call x (compareAndSet x ifMatches thenSet)

-- Whatever a thread does with the cell `x`, it does by these functions.
def Only (x : C) : Label n T C → Prop
  | .thread _ a => a.cell? = some x → Call x a
  | .collector  => True

end AtomicSdarc
end Sdarc
