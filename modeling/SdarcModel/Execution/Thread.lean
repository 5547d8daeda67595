import SdarcModel.Execution.Memory

namespace Sdarc

-- What a thread does next. The shard of `run` is the thread's current shard index, and the slot of
-- `new` and `alloc` is the one the allocator hands out.
inductive Act (n : Nat) (C : Type)
  | new           (c : Slot)
  | clone         (p : Ptr)
  | drop          (p : Ptr)
  | load          (x : C) (i : Fin n)
  | upgrade       (w : Ptr) (i : Fin n)
  | swap          (x : C) (new : Option Ptr)
  | store         (x : C) (new : Option Ptr)
  | compareAndSet (x : C) (ifMatches thenSet : Option Ptr)
  | downgrade     (p : Ptr)
  | alloc         (c : Slot)
  | run           (i : Fin n)
  | runFail   -- a spurious failure of `compare_exchange_weak`
  deriving DecidableEq

def Act.isCompareAndSet : Act n C → Bool
  | .compareAndSet .. => true
  | _                 => false

namespace Memory

variable {n : Nat} {T C : Type} [DecidableEq T] [DecidableEq C]

-- The `Sdarc` a caller passes by value to `swap` and `store`.
def CanPass (m : Memory n T C) : Option Ptr → Prop
  | none   => True
  | some p => m.isUser p ∧ m.CanTake p

-- The `Sdarc` a caller passes by reference.
def CanBorrow (m : Memory n T C) : Option Ptr → Prop
  | none   => True
  | some p => m.isUser p ∧ 0 < m.handles p

instance [Fintype T] (m : Memory n T C) : (r : Option Ptr) → Decidable (m.CanPass r)
  | none   => inferInstanceAs (Decidable True)
  | some _ => inferInstanceAs (Decidable (_ ∧ _))

instance (m : Memory n T C) : (r : Option Ptr) → Decidable (m.CanBorrow r)
  | none   => inferInstanceAs (Decidable True)
  | some _ => inferInstanceAs (Decidable (_ ∧ _))

def dropNullable (m : Memory n T C) (t : Thread T) : Option Ptr → Memory n T C
  | none   => m.setPc t .idle
  | some p => m.setPc t (.dropRead p)

def compareExchange (m : Memory n T C) (t : Thread T) (x : C) (ifMatches thenSet : Option Ptr) :
    Memory n T C :=
  if m.cell x = ifMatches then
    match thenSet with
    | none   => m.exchange x none |>.giveHandle ifMatches
    | some q => m.exchange x (some q) |>.setPc t (.incrRead q (.compareAndSet ifMatches))
  else m

-- An idle thread calls a function and performs its first access.
def start [Fintype T] (m : Memory n T C) (t : Thread T) : Act n C → Option (Memory n T C)
  | .new c =>
    if m.used c = false
    then some (m.alloc c .user |>.setPc t (.newIncrement m.next .user)) else none
  | .clone p =>
    if m.isUser p ∧ 0 < m.handles p then some (m.setPc t (.incrRead p .clone)) else none
  | .drop p =>
    if m.CanTake p then some (m.takeHandle (some p) |>.setPc t (.dropRead p)) else none
  | .load x i => some (m.enter i |>.setPc t (.readLoad (.cell x) i))
  | .upgrade w i =>
    if m.isUser w = false ∧ 0 < m.handles w
    then some (m.enter i |>.setPc t (.readLoad (.weak w) i)) else none
  | .swap x new =>
    if m.CanPass new
    then some (m.takeHandle new |>.exchange x new |>.giveHandle (m.cell x)) else none
  | .store x new =>
    if m.CanPass new
    then some (m.takeHandle new |>.exchange x new |>.dropNullable t (m.cell x)) else none
  | .compareAndSet x ifMatches thenSet =>
    if m.CanBorrow ifMatches ∧ m.CanBorrow thenSet
    then some (m.compareExchange t x ifMatches thenSet) else none
  | .downgrade p =>
    if m.isUser p ∧ 0 < m.handles p then some (m.setPc t (.downgradeGet p)) else none
  | .alloc _ | .run _ | .runFail => none

-- What follows `increment_ref_count_relaxed` of `p` in each of its callers.
def incremented (m : Memory n T C) (t : Thread T) (p : Ptr) : Incr n C → Memory n T C
  | .clone | .downgrade _  => m.giveHandle (some p) |>.setPc t .idle
  | .read src i            => m.setPc t (.readLeave src i (some p))
  | .compareAndSet o       => m.giveHandle o |>.setPc t .idle

-- What follows `on_new_sdarc_allocated` in the callers of `Sdarc::new`.
def created (m : Memory n T C) (t : Thread T) (p : Ptr) : Creation → Memory n T C
  | .user        => m.giveHandle (some p) |>.setPc t .idle
  | .downgrade q => m.setPc t (.downgradeSet q p)

-- The next access of a call in progress, on shard `i` where it picks one.
def run (m : Memory n T C) (t : Thread T) (i : Fin n) : Option (Memory n T C) :=
  match m.pc t with
  | .idle => none
  | .newIncrement p k =>
    some (m.modifyCounter (m.counters p) i .incrementRefCount |>.setPc t (.newPush p k))
  | .newPush p k => some (m.push i p |>.created t p k)
  | .incrRead p k => some (m.setPc t (.incrAdd p (m.counters p) i k))
  | .incrAdd p c j k => some (m.modifyCounter c j .incrementRefCount |>.incremented t p k)
  | .dropRead p => some (m.setPc t (.dropLoad p (m.counters p) i))
  | .dropLoad p c j => some (m.setPc t (.dropCas p c j (m.counter c j)))
  | .dropCas p c j v =>
    if m.counter c j = v
    then some (m.modifyCounter c j .decrementRefCountAndSetTag |>.setPc t (.dropNotify p))
    else some (m.setPc t (.dropCas p c j (m.counter c j)))
  | .dropNotify p => some (m.setPc t (.onSdarcDrop (m.counters p)))
  | .onSdarcDrop _ => some (m.setPc t .idle)
  | .readLoad src j =>
    match m.read src with
    | none   => some (m.setPc t (.readLeave src j none))
    | some p => some (m.setPc t (.incrRead p (.read src j)))
  | .readLeave _ j r => some (m.leave j |>.giveHandle r |>.setPc t .idle)
  | .downgradeGet q =>
    match (m.inner q).weakInnerRef with
    | .init w  => some (m.setPc t (.incrRead w (.downgrade q)))
    | .uninit  => some (m.setWeakInnerRef q .running |>.setPc t (.downgradeNew q))
    | .running => none   -- another thread runs the closure of `get_or_init`
  | .downgradeNew _ => none   -- goes on with `alloc`
  | .downgradeSet q w =>
    some (m.setWeakInnerRef q (.init w) |>.setPc t (.incrRead w (.downgrade q)))

def threadStep [Fintype T] (m : Memory n T C) (t : Thread T) (a : Act n C) :
    Option (Memory n T C) :=
  match a with
  | .run i => m.run t i
  | .runFail =>
    match m.pc t with
    | .dropCas p c j _ => some (m.setPc t (.dropCas p c j (m.counter c j)))
    | _                => none
  | .alloc c =>
    match m.pc t with
    | .downgradeNew q =>
      if m.used c = false
      then some (m.alloc c (.weak (some q)) |>.setPc t (.newIncrement m.next (.downgrade q)))
      else none
    | _ => none
  | a => if m.pc t = .idle then m.start t a else none

end Memory
end Sdarc
