import SdarcModel.Library.System
import SdarcModel.Objects.TaggedCounter
import Mathlib.Logic.Function.Basic

namespace TaggedCounter

-- `increment_ref_count_relaxed`, `decrement_ref_count_and_set_tag_release` and
-- `fetch_and_clear_tag_relaxed` on one shard.
inductive Op (n : Nat)
  | increment        (i : Fin n)
  | decrement        (i : Fin n)
  | fetchAndClearTag (i : Fin n)
  deriving DecidableEq

inductive SumLoop
  | readRefCountSum
  | clearTagsAndReadRefCountSum
  | readRefCountSumIfAllTagsUnset
  deriving DecidableEq

-- The next atomic access of a thread, with the locals it needs.
inductive Pc (n : Nat)
  | idle
  | compareExchange (i : Fin n) (value : Word)
  | sum             (k : SumLoop) (i : Nat) (sum : Word)
  deriving DecidableEq

-- The words of one `Sdarc`, and as ghosts the operations called so far and those that took effect, the
-- last one first.
structure State (n : Nat) (T : Type) where
  word    : Fin n → Word
  pc      : T → Pc n
  calls   : List (T × Op n)
  effects : List (T × Op n)

-- A thread calls an operation, calls a loop, makes its next access, or has its `compare_exchange_weak`
-- fail spuriously.
inductive Label (n : Nat) (T : Type)
  | call    (t : T) (op : Op n)
  | callSum (t : T) (k : SumLoop)
  | run     (t : T)
  | runFail (t : T)
  deriving DecidableEq

namespace State

variable {n : Nat} {T : Type}

structure Initial (s : State n T) : Prop where
  word    : ∀ i, s.word i = 0
  pc      : ∀ t, s.pc t = .idle
  calls   : s.calls = []
  effects : s.effects = []

def new : State n T where
  word _  := 0
  pc _    := .idle
  calls   := []
  effects := []

theorem new_initial : (new : State n T).Initial := by
  constructor <;> first | rfl | exact fun _ => rfl

abbrev store (s : State n T) (i : Fin n) (w : Word) : State n T :=
  { s with word := Function.update s.word i w }

abbrev called (s : State n T) (t : T) (op : Op n) : State n T :=
  { s with calls := (t, op) :: s.calls }

abbrev tookEffect (s : State n T) (t : T) (op : Op n) : State n T :=
  { s with effects := (t, op) :: s.effects }

variable [DecidableEq T]

abbrev goto (s : State n T) (t : T) (pc : Pc n) : State n T :=
  { s with pc := Function.update s.pc t pc }

-- An idle thread calls an operation and performs its first access.
def start (s : State n T) (t : T) : Op n → State n T
  | .increment i =>
    s.store i (s.word i).incrementRefCount |>.called t (.increment i) |>.tookEffect t (.increment i)
  | .decrement i =>
    s.called t (.decrement i) |>.goto t (.compareExchange i (s.word i))
  | .fetchAndClearTag i =>
    s.store i (s.word i).clearTag |>.called t (.fetchAndClearTag i) |>.tookEffect t (.fetchAndClearTag i)

-- One iteration of a loop, on shard `i`.
def readShard (s : State n T) (t : T) (i : Fin n) (sum : Word) : SumLoop → State n T
  | .readRefCountSum =>
    s.goto t (.sum .readRefCountSum (i + 1) (sum + (s.word i).refCount))
  | .clearTagsAndReadRefCountSum =>
    s.start t (.fetchAndClearTag i)
      |>.goto t (.sum .clearTagsAndReadRefCountSum (i + 1) (sum + (s.word i).refCount))
  | .readRefCountSumIfAllTagsUnset =>
    if (s.word i).tag then s.goto t .idle
    else s.goto t (.sum .readRefCountSumIfAllTagsUnset (i + 1) (sum + (s.word i).refCount))

def next (s : State n T) : Label n T → Option (State n T)
  | .call t op =>
    match s.pc t with
    | .idle => some (s.start t op)
    | _     => none
  | .callSum t k =>
    match s.pc t with
    | .idle => some (s.goto t (.sum k 0 0))
    | _     => none
  | .run t =>
    match s.pc t with
    | .idle => none
    | .compareExchange i value =>
      if s.word i = value
      then some (s.store i value.decrementRefCountAndSetTag |>.tookEffect t (.decrement i) |>.goto t .idle)
      else some (s.goto t (.compareExchange i (s.word i)))
    | .sum k i sum =>
      if h : i < n then some (s.readShard t ⟨i, h⟩ sum k) else some (s.goto t .idle)
  | .runFail t =>
    match s.pc t with
    | .compareExchange i _ => some (s.goto t (.compareExchange i (s.word i)))
    | _                    => none

-- An `i64` addition or subtraction of the step overflows.
def overflows (s : State n T) : Label n T → Bool
  | .call _ (.increment i) => BitVec.saddOverflow (s.word i) 2
  | .call _ _ | .callSum _ _ => false
  | .run t | .runFail t =>
    match s.pc t with
    | .idle => false
    | .compareExchange _ value => BitVec.ssubOverflow (value ||| 1) 2
    | .sum _ i sum => if h : i < n then BitVec.saddOverflow sum (s.word ⟨i, h⟩).refCount else false

-- How often an operation took effect.
def count (s : State n T) (op : Op n) : Nat :=
  s.effects.countP (·.2 = op)

end State

def system (n : Nat) (T : Type) [DecidableEq T] : System (State n T) (Label n T) :=
  .ofNext State.Initial State.next

end TaggedCounter
