import SdarcModel.ShardedRwLock.Basic

namespace ShardedRwLock

-- The lock with its `data`, which the guards refer to.
structure DataState (n : Nat) (τ δ : Type) where
  lock : State n τ
  data : δ

inductive DataAct (n : Nat) (τ δ : Type)
  | lock     (a : Act n τ)
  | deref    (t : τ)            -- a read through the reference of a guard
  | derefMut (t : τ) (d : δ)    -- a write through the reference of a write guard

namespace DataState

variable {n : Nat} {τ δ : Type} [DecidableEq τ]

def next (π : Policy n τ) (s : DataState n τ δ) : DataAct n τ δ → Option (DataState n τ δ)
  | .lock a => (s.lock.next π a).map fun l => { s with lock := l }
  | .deref t =>
    match s.lock.call t with
    | .readGuard _ | .writeGuard => some s
    | _                          => none
  | .derefMut t d => if s.lock.call t = .writeGuard then some { s with data := d } else none

-- `ShardedRwLock::new` of any value.
structure Initial (s : DataState n τ δ) : Prop where
  lock : s.lock.Initial

end DataState

def dataSystem {n : Nat} {τ : Type} [DecidableEq τ] (π : Policy n τ) (δ : Type) :
    System (DataState n τ δ) (DataAct n τ δ) :=
  .ofNext DataState.Initial (DataState.next π)

end ShardedRwLock
