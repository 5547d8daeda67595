import SdarcModel.Objects.Sdarc
import Mathlib.Data.Fintype.Option
import Mathlib.Data.Fintype.Sets
import Mathlib.Logic.Function.Basic

namespace Sdarc

-- User threads and, as `none`, the collector thread.
abbrev Thread (T : Type) := Option T

-- What all threads share, and where each of them is.
structure Memory (n : Nat) (T C : Type) where
  next    : Ptr                          -- the next allocation
  inner   : Ptr → SdarcInner
  freed   : Ptr → Nat                    -- how often `drop_sdarc_inner` has begun on an object
  used    : Slot → Bool                  -- the usage flags of the sharded allocator
  counter : Slot → Fin n → TaggedCounter
  cell    : C → Option Ptr               -- a cell not yet made or already dropped holds null
  readers : Fin n → Nat                  -- the counters of the reader critical section
  pending : Fin n → List (Ptr × Slot)    -- `pending_to_track`
  handles : Ptr → Nat                    -- the `Sdarc` values at rest, wherever they are stored
  pc      : Thread T → Pc n C

namespace Memory

variable {n : Nat} {T C : Type}

structure Initial (m : Memory n T C) : Prop where
  next    : m.next = 0
  freed   : ∀ p, m.freed p = 0
  used    : ∀ c, m.used c = false
  cell    : ∀ x, m.cell x = none
  readers : ∀ i, m.readers i = 0
  pending : ∀ i, m.pending i = []
  handles : ∀ p, m.handles p = 0
  pc      : ∀ t, m.pc t = .idle

def empty : Memory n T C where
  next        := 0
  inner _     := { counters := 0, data := .user }
  freed _     := 0
  used _      := false
  counter _ _ := {}
  cell _      := none
  readers _   := 0
  pending _   := []
  handles _   := 0
  pc _        := .idle

theorem empty_initial : (empty : Memory n T C).Initial := by
  constructor <;> first | rfl | exact fun _ => rfl

abbrev counters (m : Memory n T C) (p : Ptr) : Slot :=
  (m.inner p).counters

abbrev backRef (m : Memory n T C) (w : Ptr) : Option Ptr :=
  (m.inner w).backRef

-- The tagged counter of `p` in one shard.
abbrev word (m : Memory n T C) (p : Ptr) (i : Fin n) : TaggedCounter :=
  m.counter (m.counters p) i

-- A user type is never `WeakSdarcInner`, which is private.
abbrev isUser (m : Memory n T C) (p : Ptr) : Bool :=
  (m.inner p).data == .user

abbrev giveHandle (m : Memory n T C) (r : Option Ptr) : Memory n T C :=
  { m with handles := fun p => if r = some p then m.handles p + 1 else m.handles p }

abbrev takeHandle (m : Memory n T C) (r : Option Ptr) : Memory n T C :=
  { m with handles := fun p => if r = some p then m.handles p - 1 else m.handles p }

abbrev alloc (m : Memory n T C) (c : Slot) (d : Data) : Memory n T C :=
  { m with
    next    := m.next + 1
    inner   := Function.update m.inner m.next { counters := c, data := d }
    used    := Function.update m.used c true
    counter := Function.update m.counter c fun _ => {} }

abbrev setWeakInnerRef (m : Memory n T C) (q : Ptr) (l : OnceLock Ptr) : Memory n T C :=
  { m with inner := Function.update m.inner q { m.inner q with weakInnerRef := l } }

abbrev modifyCounter (m : Memory n T C) (c : Slot) (i : Fin n) (f : TaggedCounter → TaggedCounter) :
    Memory n T C :=
  { m with counter := Function.update m.counter c <| Function.update (m.counter c) i <| f (m.counter c i) }

abbrev enter (m : Memory n T C) (i : Fin n) : Memory n T C :=
  { m with readers := Function.update m.readers i (m.readers i + 1) }

abbrev leave (m : Memory n T C) (i : Fin n) : Memory n T C :=
  { m with readers := Function.update m.readers i (m.readers i - 1) }

abbrev push (m : Memory n T C) (i : Fin n) (p : Ptr) : Memory n T C :=
  { m with pending := Function.update m.pending i (m.pending i ++ [(p, m.counters p)]) }

def read (m : Memory n T C) : Source C → Option Ptr
  | .cell x => m.cell x
  | .weak w => m.backRef w

abbrev exchange [DecidableEq C] (m : Memory n T C) (x : C) (v : Option Ptr) : Memory n T C :=
  { m with cell := Function.update m.cell x v }

abbrev setPc [DecidableEq T] (m : Memory n T C) (t : Thread T) (pc : Pc n C) : Memory n T C :=
  { m with pc := Function.update m.pc t pc }

-- An `Sdarc` can be given away while no call borrows it. Those of one object are interchangeable:
-- the ones borrowed may be taken to be the last to go.
def CanTake (m : Memory n T C) (p : Ptr) : Prop :=
  1 < m.handles p ∨ (m.handles p = 1 ∧ ∀ t, (m.pc t).borrows p = false)

instance [Fintype T] (m : Memory n T C) (p : Ptr) : Decidable (m.CanTake p) :=
  inferInstanceAs (Decidable (_ ∨ (_ ∧ _)))

end Memory
end Sdarc
