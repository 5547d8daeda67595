import SdarcModel.Execution.Basic
import SdarcModel.Execution.Theorems.References
import Mathlib.Algebra.BigOperators.Group.Finset.Basic
import Mathlib.Algebra.Ring.Nat
import Mathlib.Data.List.Chain

open scoped BigOperators

namespace Sdarc

-- What the payloads own when `update` is called: how many `Sdarc`s of each object, and which atomic cells.
structure Ownership (C : Type) where
  sdarcs : Ptr → Ptr → Nat
  cells  : C → Option Ptr

variable {n : Nat} {T C : Type}

-- The payload of `q` is being dropped.
def CollectorPc.dropsData (pc : CollectorPc n) (q : Ptr) : Bool :=
  match pc with
  | .dropData _ p => p == q
  | _ => false

theorem CollectorPc.dropsData_iff {pc : CollectorPc n} : pc.dropsData q = true ↔ ∃ a, pc = .dropData a q := by
  cases pc <;> simp [dropsData]

-- The call uses none of the objects of `S`: it is not given one, nor a cell or `WeakSdarc` that leads to one.
def Act.Avoids (S : Finset Ptr) (m : Memory n T C) : Act n C → Prop
  | .clone p | .drop p | .downgrade p => p ∉ S
  | .load x _            => ∀ p ∈ S, m.cell x ≠ some p
  | .upgrade w _         => w ∉ S ∧ ∀ p ∈ S, m.backRef w ≠ some p
  | .swap x r            => ∀ p ∈ S, m.cell x ≠ some p ∧ r ≠ some p
  | .store x r           => ∀ p ∈ S, m.cell x ≠ some p ∧ r ≠ some p
  | .compareAndSet x r v => ∀ p ∈ S, m.cell x ≠ some p ∧ r ≠ some p ∧ v ≠ some p
  | .new _ | .alloc _ | .run _ | .runFail => True

instance [DecidableEq T] (S : Finset Ptr) (m : Memory n T C) : (a : Act n C) → Decidable (a.Avoids S m)
  | .clone _ | .drop _ | .downgrade _ => inferInstanceAs (Decidable (_ ∉ S))
  | .load x _            => inferInstanceAs (Decidable (∀ p ∈ S, m.cell x ≠ some p))
  | .upgrade w _         => inferInstanceAs (Decidable (w ∉ S ∧ ∀ p ∈ S, m.backRef w ≠ some p))
  | .swap x r            => inferInstanceAs (Decidable (∀ p ∈ S, m.cell x ≠ some p ∧ r ≠ some p))
  | .store x r           => inferInstanceAs (Decidable (∀ p ∈ S, m.cell x ≠ some p ∧ r ≠ some p))
  | .compareAndSet x r v =>
    inferInstanceAs (Decidable (∀ p ∈ S, m.cell x ≠ some p ∧ r ≠ some p ∧ v ≠ some p))
  | .new _ | .alloc _ | .run _ | .runFail => inferInstanceAs (Decidable True)

namespace Ownership

variable (o : Ownership C) (S : Finset Ptr)

-- The payload of `q`, or its `weak_inner_ref`, owns a reference to `p`.
def Owns (m : Memory n T C) (q p : Ptr) : Prop :=
  0 < o.sdarcs q p ∨ (∃ x, o.cells x = some q ∧ m.cell x = some p) ∨ (m.inner q).weakInnerRef = .init p

-- Every reference to an object of `S` is owned by an object of `S`, no call uses one, and no chain of
-- owners is longer than `L`.
structure Garbage (L : Nat) (m : Memory n T C) : Prop where
  published : ∀ p ∈ S, m.Published p
  unfreed   : ∀ p ∈ S, m.freed p = 0
  handles   : ∀ p ∈ S, m.handles p = ∑ q ∈ S, o.sdarcs q p
  cells     : ∀ p ∈ S, ∀ x, m.cell x = some p → ∃ q ∈ S, o.cells x = some q
  weak      : ∀ p ∈ S, ∀ q, q < m.next → (m.inner q).weakInnerRef = .init p → q ∈ S
  calls     : ∀ p ∈ S, ∀ t, ¬(m.pc t).Mentions p
  reads     : ∀ p ∈ S, ∀ t src i, m.pc t = .readLoad src i → m.read src ≠ some p
  chains    : ∀ l : List Ptr, (∀ p ∈ l, p ∈ S) → l.IsChain (o.Owns m) → l.length ≤ L

-- The destructor of a payload of `S` drops something that the payload owns.
def Drops (s : State n T C) : Act n C → Prop
  | .drop p       => ∃ q ∈ S, s.col.pc.dropsData q = true ∧ 0 < o.sdarcs q p
  | .store x none => ∃ q ∈ S, s.col.pc.dropsData q = true ∧ o.cells x = some q
  | _             => False

-- The payload of `q` has dropped all that it owned: what is left is what the others own.
def Dropped (m : Memory n T C) (q : Ptr) : Prop :=
  (∀ p ∈ S, m.handles p = ∑ r ∈ S with m.freed r = 0, o.sdarcs r p) ∧ ∀ x, o.cells x = some q → m.cell x = none

-- The threads leave `S` alone, and the destructors of its payloads drop what those own on the collector
-- thread.
def Isolated (s : State n T C) : Label n T C → Prop
  | .thread t a => a.Avoids S s.mem ∨ (t = none ∧ o.Drops S s a)
  | .collector  => ∀ q ∈ S, s.col.pc.dropsData q = true → o.Dropped S s.mem q

instance (s : State n T C) : (a : Act n C) → Decidable (o.Drops S s a)
  | .drop p => inferInstanceAs (Decidable (∃ q ∈ S, s.col.pc.dropsData q = true ∧ 0 < o.sdarcs q p))
  | .store x none => inferInstanceAs (Decidable (∃ q ∈ S, s.col.pc.dropsData q = true ∧ o.cells x = some q))
  | .store _ (some _) | .new _ | .clone _ | .load .. | .upgrade .. | .swap .. | .compareAndSet .. | .downgrade _
  | .alloc _ | .run _ | .runFail => inferInstanceAs (Decidable False)

instance [Fintype C] (m : Memory n T C) (q : Ptr) : Decidable (o.Dropped S m q) :=
  inferInstanceAs (Decidable (_ ∧ _))

instance [DecidableEq T] [Fintype C] (s : State n T C) : (l : Label n T C) → Decidable (o.Isolated S s l)
  | .thread t a => inferInstanceAs (Decidable (a.Avoids S s.mem ∨ (t = none ∧ o.Drops S s a)))
  | .collector  => inferInstanceAs (Decidable (∀ q ∈ S, s.col.pc.dropsData q = true → o.Dropped S s.mem q))

end Ownership
end Sdarc
