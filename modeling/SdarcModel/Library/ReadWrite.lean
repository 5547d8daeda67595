import SdarcModel.Library.System
import Mathlib.Data.Set.Subsingleton
import Mathlib.Order.BooleanAlgebra.Set

-- A value that many may hold to read it, or one to write it.
namespace ReadWrite

variable {τ δ : Type*}

structure State (τ δ : Type*) where
  readers : Set τ
  writers : Set τ
  value   : δ

inductive Op (τ δ : Type*)
  | beginRead  (t : τ)
  | endRead    (t : τ)
  | beginWrite (t : τ)
  | endWrite   (t : τ)
  | get        (t : τ) (d : δ)
  | set        (t : τ) (d : δ)

inductive Step (s : State τ δ) : Op τ δ → State τ δ → Prop
  | beginRead (noWriter : s.writers = ∅) : Step s (.beginRead t) { s with readers := insert t s.readers }
  | endRead (reads : t ∈ s.readers) : Step s (.endRead t) { s with readers := s.readers \ {t} }
  | beginWrite (noReader : s.readers = ∅) (noWriter : s.writers = ∅) : Step s (.beginWrite t) { s with writers := {t} }
  | endWrite (writes : t ∈ s.writers) : Step s (.endWrite t) { s with writers := s.writers \ {t} }
  | get (holds : t ∈ s.readers ∪ s.writers) : Step s (.get t s.value) s
  | set (writes : t ∈ s.writers) : Step s (.set t d) { s with value := d }

def system (τ δ : Type*) : System (State τ δ) (Op τ δ) where
  Init s := s.readers = ∅ ∧ s.writers = ∅
  Step   := Step

structure Exclusive (s : State τ δ) : Prop where
  readers : s.writers = ∅ ∨ s.readers = ∅
  writers : s.writers.Subsingleton

variable {s s' : State τ δ} {op : Op τ δ}

theorem Exclusive.step (e : Exclusive s) (st : Step s op s') : Exclusive s' := by
  have ⟨readers, writers⟩ := e
  cases st
  case beginRead noWriter    => exact ⟨.inl noWriter, writers⟩
  case endRead               => exact ⟨readers.imp_right fun h => by simp [h], writers⟩
  case beginWrite noReader _ => exact ⟨.inr noReader, Set.subsingleton_singleton⟩
  case endWrite              => exact ⟨readers.imp_left fun h => by simp [h], writers.anti Set.sdiff_subset⟩
  case get                   => exact e
  case set                   => exact ⟨readers, writers⟩

theorem exclusive (h : (system τ δ).Reachable s) : Exclusive s :=
  h.invariant (fun _ h => ⟨.inl h.right, by simp [h.right]⟩) fun _ _ _ e st => e.step st

-- The value after a step, as far as `t` has to do with it.
def Op.writtenBy [DecidableEq τ] (t : τ) (d : δ) : Op τ δ → δ
  | .set u d' => if u = t then d' else d
  | _         => d

variable [DecidableEq τ]

-- Whoever holds the value is the only one to change it.
theorem Step.value_eq (e : Exclusive s) (st : Step s op s') (holds : t ∈ s.readers ∪ s.writers) :
    s'.value = op.writtenBy t s.value := by
  cases st
  case set u d writes =>
    have own : u = t := by
      rcases holds with reads | writes'
      case inl =>
        rcases e.readers with h | h
        case inl => simp [h] at writes
        case inr => simp [h] at reads
      case inr => exact e.writers writes writes'
    simp [Op.writtenBy, own]
  all_goals rfl

theorem value_of_run (h : (system τ δ).Reachable s) (r : (system τ δ).Run s tr s')
    (holds : ∀ e ∈ tr, t ∈ e.1.readers ∪ e.1.writers) :
    s'.value = tr.foldl (fun d e => e.2.writtenBy t d) s.value := by
  induction r
  case refl => rfl
  case step stp r ih =>
    rw [List.forall_mem_cons] at holds
    rw [ih (h.step stp) holds.right, Step.value_eq (exclusive h) stp holds.left]
    rfl

end ReadWrite
