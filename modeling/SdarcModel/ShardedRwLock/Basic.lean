import SdarcModel.Library.System
import Mathlib.Data.Fintype.Basic
import Mathlib.Data.Fintype.Sets

namespace ShardedRwLock

-- One `RwLock<()>` shard, with the identity of whoever holds it. That at most one side is non-empty
-- is not built in: it is what the guards of `tryLockShared` and `tryLockExclusive` achieve.
structure RwLock (τ : Type) where
  readers : Finset τ  := ∅
  writer  : Option τ := none

namespace RwLock

variable {τ : Type} [DecidableEq τ]

def tryLockShared (l : RwLock τ) (t : τ) : Option (RwLock τ) :=
  if l.writer = none then some { l with readers := insert t l.readers } else none

def tryLockExclusive (l : RwLock τ) (t : τ) : Option (RwLock τ) :=
  if l.writer = none ∧ l.readers = ∅ then some { l with writer := some t } else none

def unlockShared (l : RwLock τ) (t : τ) : RwLock τ :=
  { l with readers := l.readers.erase t }

-- `make_write_guard_unchecked` and the drop of that guard: the lock does not check its caller.
def unlockExclusive (l : RwLock τ) : RwLock τ :=
  { l with writer := none }

end RwLock

-- Where a thread is with one guard: before the call, inside the call, holding the guard, or inside
-- its drop. A thread that holds several guards at once takes part with several members of `τ`.
inductive Call (n : Nat)
  | idle
  | reading    (i : Fin n)
  | readGuard  (i : Fin n)
  | writing    (k : Nat)   -- the shards below `k` are locked and their guards forgotten
  | writeGuard
  | dropping   (k : Nat)   -- the shards below `k` are unlocked again
  deriving DecidableEq

structure State (n : Nat) (τ : Type) where
  locks : Fin n → RwLock τ
  shard : τ → Fin n        -- `curr_thread_shard_index`
  call  : τ → Call n

inductive Act (n : Nat) (τ : Type)
  | setShard       (t : τ) (i : Fin n)
  | read           (t : τ)
  | tryRead        (t : τ)
  | lockShared     (t : τ)
  | write          (t : τ)
  | lockExclusive  (t : τ)
  | finishWrite    (t : τ)
  | dropRead       (t : τ)
  | dropWrite      (t : τ)
  | unlock         (t : τ)
  | finishDrop     (t : τ)

-- When a shard turns away new readers although no writer holds it. The lock may do so only while a
-- writer waits on that shard.
structure Policy (n : Nat) (τ : Type) where
  blocksReaders : State n τ → Fin n → Bool
  waiting       : ∀ {s i}, blocksReaders s i = true → ∃ t, s.call t = .writing i

namespace Policy

def readerPreference (n : Nat) (τ : Type) : Policy n τ where
  blocksReaders _ _ := false
  waiting           := nofun

def writerPreference (n : Nat) (τ : Type) [Fintype τ] : Policy n τ where
  blocksReaders s i := decide (∃ t, s.call t = .writing i)
  waiting h         := of_decide_eq_true h

end Policy

namespace State

variable {n : Nat} {τ : Type} [DecidableEq τ]

def setCall (s : State n τ) (t : τ) (c : Call n) : State n τ :=
  { s with call := Function.update s.call t c }

def setLock (s : State n τ) (i : Fin n) (l : RwLock τ) : State n τ :=
  { s with locks := Function.update s.locks i l }

-- Taking shard `i` shared: refused while a writer holds the shard or the policy turns readers away.
def acquireShared (π : Policy n τ) (s : State n τ) (t : τ) (i : Fin n) : Option (State n τ) :=
  if π.blocksReaders s i then none
  else (s.locks i).tryLockShared t |>.map fun l => s.setLock i l |>.setCall t (.readGuard i)

def acquireExclusive (s : State n τ) (t : τ) (i : Fin n) : Option (State n τ) :=
  (s.locks i).tryLockExclusive t |>.map fun l => s.setLock i l |>.setCall t (.writing (i + 1))

def next (π : Policy n τ) (s : State n τ) : Act n τ → Option (State n τ)
  | .setShard t i => some { s with shard := Function.update s.shard t i }
  | .read t =>
    if s.call t = .idle then some (s.setCall t (.reading (s.shard t))) else none
  | .tryRead t =>
    if s.call t = .idle then some ((s.acquireShared π t (s.shard t)).getD s) else none
  | .lockShared t =>
    match s.call t with
    | .reading i => s.acquireShared π t i
    | _          => none
  | .write t =>
    if s.call t = .idle then some (s.setCall t (.writing 0)) else none
  | .lockExclusive t =>
    match s.call t with
    | .writing k => if h : k < n then s.acquireExclusive t ⟨k, h⟩ else none
    | _          => none
  | .finishWrite t =>
    if s.call t = .writing n then some (s.setCall t .writeGuard) else none
  | .dropRead t =>
    match s.call t with
    | .readGuard i => some (s.setLock i ((s.locks i).unlockShared t) |>.setCall t .idle)
    | _            => none
  | .dropWrite t =>
    if s.call t = .writeGuard then some (s.setCall t (.dropping 0)) else none
  | .unlock t =>
    match s.call t with
    | .dropping k =>
      if h : k < n
      then some (s.setLock ⟨k, h⟩ (s.locks ⟨k, h⟩).unlockExclusive |>.setCall t (.dropping (k + 1)))
      else none
    | _           => none
  | .finishDrop t =>
    if s.call t = .dropping n then some (s.setCall t .idle) else none

structure Initial (s : State n τ) : Prop where
  locks : ∀ i, s.locks i = {}
  call  : ∀ t, s.call t = .idle

end State

def system {n : Nat} {τ : Type} [DecidableEq τ] (π : Policy n τ) : System (State n τ) (Act n τ) :=
  .ofNext State.Initial (State.next π)

end ShardedRwLock
