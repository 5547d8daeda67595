import SdarcModel.Library.System
import SdarcModel.Execution.Theorems.Effect

namespace Sdarc.Memory

-- The memory without collection: threads call and run as they like, and the collector takes pending
-- objects, clears tags and clears back references at any time, but frees nothing.
inductive Event (n : Nat) (T C : Type)
  | thread (t : Thread T) (a : Act n C)
  | takePending (i : Fin n)
  | clearTag (c : Slot) (i : Fin n)
  | clearWeakBackRef (p : Ptr)

variable {n : Nat} {T C : Type} [DecidableEq T] [DecidableEq C]

def clearWeakBackRef (m : Memory n T C) (p : Ptr) : Memory n T C :=
  match (m.inner p).weakInnerRef with
  | .init w => m.clearBackRef w
  | _       => m

def uncollectedNext [Fintype T] (m : Memory n T C) : Event n T C → Option (Memory n T C)
  | .thread t a         => m.threadStep t a
  | .takePending i      => some (m.takePending i)
  | .clearTag c i       => some (m.modifyCounter c i .clearTag)
  | .clearWeakBackRef p => if p < m.next then some (m.clearWeakBackRef p) else none

def uncollected (n : Nat) (T C : Type) [DecidableEq T] [Fintype T] [DecidableEq C] :
    System (Memory n T C) (Event n T C) :=
  .ofNext Initial uncollectedNext

variable [Fintype T] {m m' : Memory n T C} {p : Ptr}

theorem step_or_effect {e : Event n T C} (h : m.uncollectedNext e = some m') :
    (∃ t, Step m t m') ∨ Effect m m' := by
  cases e <;> simp only [uncollectedNext] at h
  case thread t _  => exact .inl ⟨t, .of_threadStep h⟩
  case takePending => cases h; exact .inr .takePending
  case clearTag    => cases h; exact .inr .clearTag
  case clearWeakBackRef =>
    split at h <;> cases h
    case isTrue hp =>
      simp only [clearWeakBackRef]
      split
      case h_1 hw => exact .inr (.clearBackRef hp hw)
      case h_2    => exact .inr .none

theorem freed_next {e : Event n T C} (hf : ∀ p, m.freed p = 0) (h : m.uncollectedNext e = some m') :
    ∀ p, m'.freed p = 0 := by
  cases e <;> simp only [uncollectedNext] at h
  case thread      => exact (Step.of_threadStep h).freed_eq ▸ hf
  case takePending => cases h; exact hf
  case clearTag    => cases h; exact hf
  case clearWeakBackRef =>
    split at h <;> cases h
    simp only [clearWeakBackRef]
    split <;> exact hf

variable [Fintype C]

-- Nothing is freed, and every object is counted once for each of its owners.
structure Accounted (m : Memory n T C) : Prop where
  wellFormed : WellFormed m
  unfreed    : ∀ p, m.freed p = 0
  balanced   : Balanced m

theorem accounted (h : (uncollected n T C).Reachable m) : Accounted m := by
  refine h.invariant ?init ?step
  case init => exact fun m (h : m.Initial) => ⟨.initial h, h.freed, .initial h⟩
  case step =>
    intro m₁ e m₂ a h
    have hf := freed_next a.unfreed h
    cases step_or_effect h
    case inl s =>
      have ⟨t, s⟩ := s
      exact ⟨a.wellFormed.step s, hf, a.balanced.step a.wellFormed.referenced a.wellFormed.slotted
        a.wellFormed.weak (fun p _ => a.unfreed p) s⟩
    case inr e =>
      exact ⟨a.wellFormed.effect e, hf, a.balanced.effect a.wellFormed.referenced e⟩

omit [DecidableEq T] [DecidableEq C] in
theorem owners_of_idle (h : ∀ t, m.pc t = .idle) :
    m.owed p = 0 ∧ m.owners p = m.handles p + m.weakInnerRefs p + m.stored p := by
  simp [owed, owners, held, h, Pc.owes, Pc.owns]

-- The counter shards of an object add up to its owners, up to the compare-and-sets which have yet to
-- increment.
theorem total_add_owed (h : (uncollected n T C).Reachable m) (hp : p < m.next) :
    m.total p + m.owed p = m.owners p ∧
    ((∀ t, m.pc t = .idle) → m.total p = m.handles p + m.weakInnerRefs p + m.stored p) := by
  have a := accounted h
  have hb := a.balanced p hp (a.unfreed p)
  simp only [balance] at hb
  refine ⟨by omega, fun hi => ?_⟩
  obtain ⟨ho, hn⟩ := owners_of_idle (p := p) hi
  omega

-- One `Sdarc` is made and then set into a cell that held null, before the increment.
def exchanges : List (Event 2 Bool Unit) :=
  [.new 0, .run 0, .run 1, .compareAndSet () none (some 0)].map (.thread (some true))

def exchanged : Memory 2 Bool Unit :=
  (System.exec uncollectedNext empty exchanges).getD empty

theorem exchanged_reachable : (uncollected 2 Bool Unit).Reachable exchanged :=
  have h : System.exec uncollectedNext empty exchanges = some exchanged := rfl
  System.reachable_of_exec (.init empty_initial) h

theorem total_add_owed_exchanged :
    exchanged.total 0 + exchanged.owed 0 = exchanged.owners 0 ∧ exchanged.owners 0 = 2 :=
  ⟨(total_add_owed exchanged_reachable (by decide)).left, by decide⟩

end Sdarc.Memory
