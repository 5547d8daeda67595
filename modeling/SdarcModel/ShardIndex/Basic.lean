import SdarcModel.ShardedAlloc.Layout
import Mathlib.Algebra.Ring.Nat

namespace ShardIndex

def maxShardCount : Nat := 256

def envShardCount : String := "RUST_SDARC_SHARD_COUNT"

inductive IntErrorKind
  | empty
  | invalidDigit
  | posOverflow
  deriving DecidableEq

def parseDigits : List Char → Nat → Except IntErrorKind Nat
  | [],      n => .ok n
  | c :: cs, n =>
    if c.isDigit then
      let n := n * 10 + (c.toNat - '0'.toNat)
      if n < 2 ^ 64 then parseDigits cs n else .error .posOverflow
    else .error .invalidDigit

-- `str::parse::<usize>`
def parseUsize (s : String) : Except IntErrorKind Nat :=
  match s.toList with
  | []        => .error .empty
  | ['+']     => .error .invalidDigit
  | '+' :: cs => parseDigits cs 0
  | cs        => parseDigits cs 0

-- The panics of a configuration that is not accepted.
inductive ConfigPanic
  | tooLarge (num : Nat)
  | notUnsigned (s : String) (err : IntErrorKind)
  deriving DecidableEq

inductive Panic
  | config (e : ConfigPanic)
  | noParallelism        -- `assert_ne!(available_parallelism, 0)`
  | remainderByZero
  | notBounded           -- the assertions of `from_bounded_u8` and `shard_indexes_until`
  deriving DecidableEq

structure ShardCount where
  val : UInt16
  deriving DecidableEq

-- The variable is `none` where `env::var` is an error.
def shardCountFromEnvVar (var : Option String) : Except Panic (Option ShardCount) :=
  match var with
  | none   => .ok none
  | some s =>
    match parseUsize s with
    | .error err => .error (.config (.notUnsigned s err))
    | .ok num    => if num > maxShardCount then .error (.config (.tooLarge num)) else .ok (some ⟨.ofNat num⟩)

-- `availableParallelism` is `none` where `thread::available_parallelism` is an error.
def initShardCount (var : Option String) (availableParallelism : Option Nat) : Except Panic ShardCount :=
  match shardCountFromEnvVar var with
  | .error e     => .error e
  | .ok (some c) => .ok c
  | .ok none     =>
    let parallelism := availableParallelism.getD 1
    if parallelism = 0 then .error .noParallelism
    else .ok ⟨.ofNat (min (parallelism + parallelism / 2) maxShardCount)⟩

end ShardIndex

structure ShardIndex where
  val : UInt8
  deriving DecidableEq

namespace ShardIndex

def asUsize (i : ShardIndex) : Nat := i.val.toNat

variable (count : ShardCount)

def fromU64 (value : UInt64) : Except Panic ShardIndex :=
  if count.val = 0 then .error .remainderByZero else .ok ⟨(value % count.val.toUInt64).toUInt8⟩

def fromBoundedU8 (value : UInt8) : Except Panic ShardIndex :=
  if value.toUInt16 < count.val then .ok ⟨value⟩ else .error .notBounded

def shardIndexes : List ShardIndex :=
  (List.range count.val.toNat).map fun i => ⟨(UInt16.ofNat i).toUInt8⟩

def shardIndexesUntil (i : ShardIndex) : Except Panic (List ShardIndex) :=
  if i.val.toUInt16 ≤ count.val then .ok ((List.range i.val.toNat).map fun j => ⟨.ofNat j⟩) else .error .notBounded

-- The elements of a `ShardsArr`.
def shardsArr (initFn : ShardIndex → α) : List α :=
  (shardIndexes count).map initFn

end ShardIndex
