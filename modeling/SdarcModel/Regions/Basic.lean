import SdarcModel.Execution.Theorems.Reclamation.Drop

namespace Sdarc

-- The running call has an `Sdarc` of `p` in its hands, or is about to return a new one.
def Pc.uses (pc : Pc n C) (p : Ptr) : Bool :=
  match pc with
  | .newIncrement q k => q == p || k.borrows p
  | pc                => pc.borrows p || pc.owns p || pc.dropping p

namespace Regions

-- A thread or the collector goes on, or the environment ends a region.
inductive Label (n : Nat) (T C R : Type)
  | run (l : Sdarc.Label n T C)
  | endRegion (r : R)

structure State (n : Nat) (T C R : Type) where
  sdarc : Sdarc.State n T C
  ended : R → Bool

variable {n : Nat} {T C R : Type} [DecidableEq T] [Fintype T] [DecidableEq C] [Fintype C] [DecidableEq R]
  (borrows : Ptr → Option R)   -- the region that the payload type of each allocation borrows from

-- There is no `Sdarc`, `WeakSdarc` or atomic cell whose payload type borrows from the region. A cell that
-- holds null may be one that does not exist.
def Unused (m : Memory n T C) (r : R) : Prop :=
  (∀ p, p < m.next → borrows p = some r → m.handles p = 0 ∧ ∀ t, (m.pc t).uses p = false) ∧
  ∀ x, (m.cell x).bind borrows ≠ some r

instance (m : Memory n T C) (r : R) : Decidable (Unused borrows m r) :=
  inferInstanceAs (Decidable (_ ∧ _))

-- A payload borrows from a region that lasts when it is given to `Sdarc::new`, and the payload type of a
-- `WeakSdarc` is that of the `Sdarc` it was downgraded from.
def mayAllocate (s : State n T C R) : Sdarc.Label n T C → Bool
  | .thread _ (.new _)   => (borrows s.sdarc.mem.next).all (!s.ended ·)
  | .thread t (.alloc _) =>
    match s.sdarc.mem.pc t with
    | .downgradeNew q => borrows s.sdarc.mem.next = borrows q
    | _               => true
  | _ => true

def next (s : State n T C R) : Label n T C R → Option (State n T C R)
  | .run l =>
    if mayAllocate borrows s l then (s.sdarc.next l).map ({ s with sdarc := · }) else none
  | .endRegion r =>
    if Unused borrows s.sdarc.mem r then some { s with ended := Function.update s.ended r true } else none

structure Initial (s : State n T C R) : Prop where
  sdarc : s.sdarc.Initial
  ended : ∀ r, s.ended r = false

def system : System (State n T C R) (Label n T C R) :=
  .ofNext Initial (next borrows)

-- `new`, `clone` and `drop`, with the accesses each goes on with, and the collector.
def Label.isNewCloneDrop : Label n T C R → Bool
  | .run (.thread _ (.new _)) | .run (.thread _ (.clone _)) | .run (.thread _ (.drop _))
  | .run (.thread _ (.run _)) | .run (.thread _ .runFail) | .run .collector | .endRegion _ => true
  | .run (.thread _ _) => false

namespace State

-- No payload's destructor is running or about to run whose region has ended.
def Respected (s : State n T C R) : Prop :=
  ∀ a p r, s.sdarc.col.pc = .dropData a p → s.sdarc.mem.isUser p → borrows p = some r → s.ended r = false

-- A region ends after all payloads that borrow from it have been destroyed.
def EndsLate (s : State n T C R) : Label n T C R → Prop
  | .run _       => True
  | .endRegion r => ∀ p, p < s.sdarc.mem.next → s.sdarc.mem.isUser p ∧ borrows p = some r → s.sdarc.Destroyed p

instance (s : State n T C R) : (l : Label n T C R) → Decidable (s.EndsLate borrows l)
  | .run _       => inferInstanceAs (Decidable True)
  | .endRegion _ => inferInstanceAs (Decidable (∀ _, _ → _ → _))

end State
end Regions
end Sdarc
