import SdarcModel.Execution.Theorems.Liveness.Alone
import SdarcModel.Execution.Theorems.Collection.WorkList
import Mathlib.Data.Prod.Lex

namespace Sdarc

namespace CollectorPc

-- The collector is in the loop of `do_collection_inner_iterations`, after the first pass.
def loops : CollectorPc n → Bool
  | .spin k .. | .spinAgain k _ => k.isSome
  | .next a | .readSum a .. | .clearTags a .. | .reCheck a .. | .clearWeak a _ | .swapBackRef a .. | .free a
  | .dropInner a _ | .dropWeak a _ | .dropData a _ | .collect a => !a.all
  | _ => false

-- The passes to come, this one included, with two more for the time before the first.
def passes (pc : CollectorPc n) (loopCounter : Nat) : Nat :=
  match pc with
  | .parked | .panicked _ => 0
  | .take _ | .insert ..  => State.maxLoopCounter + 2
  | _                     => if pc.loops then State.maxLoopCounter - loopCounter else State.maxLoopCounter + 1

-- The stages of a pass to come, the items of the stage, and the accesses that the current item still needs.
def rest : CollectorPc n → Nat ×ₗ Nat ×ₗ Nat
  | .parked | .panicked _ => toLex (0, toLex (0, 0))
  | .take i               => toLex (n - i, toLex (1, 0))
  | .insert i batch       => toLex (n - i, toLex (0, batch.length))
  | .spin _ i _           => toLex (4, toLex (n - i, 0))
  | .spinAgain _ shards   => toLex (3, toLex (shards.length, 0))
  | .next a               => toLex (2, toLex (a.todo.length, 0))
  | .readSum a _ i _      => toLex (2, toLex (a.todo.length, (n - i) + n + 2))
  | .clearTags a _ i _    => toLex (2, toLex (a.todo.length, (n - i) + 1))
  | .reCheck a _ i _      => toLex (2, toLex (a.todo.length, (n - i) + 3))
  | .clearWeak a _        => toLex (2, toLex (a.todo.length, 2))
  | .swapBackRef a _ _    => toLex (2, toLex (a.todo.length, 1))
  | .free a               => toLex (1, toLex (a.toFree.length, 0))
  | .dropInner a _        => toLex (1, toLex (a.toFree.length, 3))
  | .dropWeak a _         => toLex (1, toLex (a.toFree.length, 2))
  | .dropData a _         => toLex (1, toLex (a.toFree.length, 1))
  | .collect _            => toLex (0, toLex (0, 0))

-- The shard whose readers the collector waits for.
def spinsOn : CollectorPc n → Option (Fin n)
  | .spinAgain _ (i :: _) => some i
  | _                     => none

attribute [grind] loops passes rest spinsOn

end CollectorPc

theorem Pass.todo_visit (a : Pass) (c : Slot) (st : TrackedCounterState) : (a.visit c st).todo = a.todo := by
  induction st <;> rfl

theorem Pass.all_visit (a : Pass) (c : Slot) (st : TrackedCounterState) : (a.visit c st).all = a.all := by
  induction st <;> rfl

namespace State

variable {n : Nat} {T C : Type} {s s' : State n T C}

-- What is left of an update.
def rank (s : State n T C) : Nat ×ₗ Nat ×ₗ Nat ×ₗ Nat :=
  toLex (s.col.pc.passes s.col.loopCounter, s.col.pc.rest)

-- The bounds of the loops over the shards and of the loop over the passes.
structure Bounded (s : State n T C) : Prop where
  insert : ∀ i batch, s.col.pc = .insert i batch → i < n
  loops  : s.col.pc.loops = true → s.col.loopCounter < maxLoopCounter

theorem Bounded.initial (h : s.Initial) : Bounded s := by
  constructor <;> simp [h.col, CollectorPc.loops]

variable [DecidableEq T]

theorem Bounded.collector (b : Bounded s) (st : CollectorStep s s') : Bounded s' := by
  have hp : 0 < maxLoopCounter := by decide
  constructor
  case insert =>
    intro i batch h
    have hi := b.insert
    induction st <;> first
      | contradiction
      | grind -linarith
  case loops =>
    intro h
    have hl := b.loops
    induction st <;> simp only [‹s.col.pc = _›, CollectorPc.loops, Pass.all_visit] at hl h <;> first
      | contradiction
      | exact hl h
      | grind -linarith

omit [DecidableEq T] in
theorem rank_lt_of_passes (h : s'.col.pc.passes s'.col.loopCounter < s.col.pc.passes s.col.loopCounter) :
    s'.rank < s.rank :=
  Prod.Lex.toLex_lt_toLex.mpr (.inl h)

omit [DecidableEq T] in
theorem rank_lt_of_rest (hp : s'.col.pc.passes s'.col.loopCounter = s.col.pc.passes s.col.loopCounter)
    (hr : s'.col.pc.rest < s.col.pc.rest) : s'.rank < s.rank :=
  Prod.Lex.toLex_lt_toLex.mpr (.inr ⟨hp, hr⟩)

-- Each step of the collector takes an update nearer to its end, but for reading again that a shard has readers.
theorem CollectorStep.rank_lt (b : Bounded s) (st : CollectorStep s s') (running : s.col.pc ≠ .parked)
    (quiet : ∀ i, s.col.pc.spinsOn = some i → s.mem.readers i = 0) : s'.rank < s.rank := by
  have hi := b.insert
  have hl := b.loops
  have hm : 0 < maxLoopCounter := by decide
  induction st
  case wake pc => exact absurd pc running
  case spinAgainBusy pc busy => exact absurd (quiet _ (by rw [pc]; rfl)) busy
  case taken | insertReplaced | nextReady | reCheckNegative | freeUntracked | freeNotReady | freeMismatch | collectEnd
    | collectAgain =>
    simp only [‹s.col.pc = _›, CollectorPc.loops] at hl
    refine rank_lt_of_passes ?_
    simp only [‹s.col.pc = _›, CollectorPc.passes, CollectorPc.loops]
    grind -linarith
  all_goals
    refine rank_lt_of_rest ?passes ?rest
    case passes =>
      rw [‹s.col.pc = _›]
      rfl
    case rest =>
      simp only [‹s.col.pc = _›, CollectorPc.rest, Prod.Lex.toLex_lt_toLex, Pass.todo_visit]
      first
        | omega
        | grind -linarith

theorem CollectorStep.eq_of_busy (st : CollectorStep s s') (spin : s.col.pc.spinsOn = some i)
    (busy : s.mem.readers i ≠ 0) : s' = s := by
  induction st <;> grind -linarith

theorem CollectorStep.of_parked (st : CollectorStep s s') (pc : s.col.pc = .parked) : s' = s.goto (.take 0) := by
  induction st <;> simp_all

variable [Fintype T] [DecidableEq C]

theorem bounded (h : (system n T C).Reachable s) : Bounded s := by
  refine h.invariant (fun _ => .initial) fun s₁ l s₂ b stp => ?_
  cases l
  case thread t a =>
    obtain ⟨-, m, -, rfl⟩ := of_next_thread stp
    constructor <;> simp only [notify_pc, notify_loopCounter]
    case insert => exact b.insert
    case loops  => exact b.loops
  case collector => exact b.collector (of_next_collector stp).right

-- The collector's own code is scheduled again and again, also when no reader is in the critical section on
-- a given shard. So it is scheduled, and destructors return.
structure Fair (e : (system n T C).Execution) : Prop where
  scheduled : e.Often fun _ l => l = .collector
  quiet     : ∀ i, e.Often fun s l => l = .collector ∧ s.mem.readers i = 0

-- A step of the collector other than reading again that a shard has readers.
def Advances (s : State n T C) (l : Label n T C) : Prop :=
  l = .collector ∧ ∀ i, s.col.pc.spinsOn = some i → s.mem.readers i = 0

theorem Fair.advances {e : (system n T C).Execution} (f : Fair e) (k : Nat) :
    ∃ j, k ≤ j ∧ (e.state j).Advances (e.label j) := by
  -- Nothing else moves the collector on, so it waits where it is until it does.
  have keep pc j (hp : (e.state j).col.pc = pc) (ha : ¬(e.state j).Advances (e.label j)) : (e.state (j + 1)).col.pc = pc := by
    have stp := e.step j
    cases hl : e.label j <;> rw [hl] at stp
    case thread t a =>
      obtain ⟨-, m, -, hs⟩ := of_next_thread stp
      rw [hs, notify_pc, hp]
    case collector =>
      simp only [Advances, hl, true_and, not_forall, exists_prop] at ha
      obtain ⟨i, spin, busy⟩ := ha
      rw [(of_next_collector stp).right.eq_of_busy spin busy, hp]
  cases spin : (e.state k).col.pc.spinsOn
  case none =>
    obtain ⟨j, hj, ha | ⟨hp, hl⟩⟩ := e.exists_or f.scheduled (I := (·.col.pc = (e.state k).col.pc)) rfl fun j _ => keep _ j
    case inl => exact ⟨j, hj, ha⟩
    case inr => exact ⟨j, hj, hl, by simp [hp, spin]⟩
  case some i =>
    obtain ⟨j, hj, ha | ⟨hp, hl⟩⟩ := e.exists_or (f.quiet i) (I := (·.col.pc = (e.state k).col.pc)) rfl fun j _ => keep _ j
    case inl => exact ⟨j, hj, ha⟩
    case inr => exact ⟨j, hj, hl.left, by simp [hp, spin, hl.right]⟩

theorem Fair.exists_parked {e : (system n T C).Execution} (f : Fair e) (h : (system n T C).Reachable (e.state 0)) (k : Nat) :
    ∃ j, k ≤ j ∧ (e.state j).col.pc = .parked := by
  refine e.exists_goal rank k (A := Advances) (G := (·.col.pc = .parked)) (fun i _ _ => f.advances i)
    (fun i _ running ha => ?down) (fun i _ running => ?keep)
  case down =>
    have stp := e.step i
    rw [ha.left] at stp
    exact (of_next_collector stp).right.rank_lt (bounded (e.reachable h i)) running ha.right
  case keep =>
    have stp := e.step i
    cases hl : e.label i <;> rw [hl] at stp
    case thread t a =>
      obtain ⟨-, m, -, hs⟩ := of_next_thread stp
      simp [hs, rank]
    case collector =>
      have st := (of_next_collector stp).right
      by_cases quiet : ∀ i', (e.state i).col.pc.spinsOn = some i' → (e.state i).mem.readers i' = 0
      case pos => exact (st.rank_lt (bounded (e.reachable h i)) running quiet).le
      case neg =>
        simp only [not_forall, exists_prop] at quiet
        obtain ⟨i', spin, busy⟩ := quiet
        rw [st.eq_of_busy spin busy]

-- After an update the collector waits until it begins the next one.
theorem Fair.exists_wake {e : (system n T C).Execution} (f : Fair e) (parked : (e.state k).col.pc = .parked) :
    ∃ j, k ≤ j ∧ (e.state j).col.pc = .parked ∧ e.state (j + 1) = (e.state j).goto (.take 0) ∧
      (e.state j).col.loopCounter = (e.state k).col.loopCounter := by
  let Waits (s : State n T C) : Prop := s.col.pc = .parked ∧ s.col.loopCounter = (e.state k).col.loopCounter
  have keep j (hw : Waits (e.state j)) (hl : ¬e.label j = .collector) : Waits (e.state (j + 1)) := by
    have stp := e.step j
    cases hl' : e.label j <;> rw [hl'] at stp
    case thread t a =>
      obtain ⟨-, m, -, hs⟩ := of_next_thread stp
      simpa only [Waits, hs, notify_pc, notify_loopCounter] using hw
    case collector => exact absurd hl' hl
  obtain ⟨j, hj, hw, hl⟩ :=
    e.exists_first (I := Waits) (A := fun _ l => l = .collector) f.scheduled ⟨parked, rfl⟩ fun j _ => keep j
  have stp := e.step j
  rw [hl] at stp
  exact ⟨j, hj, hw.left, (of_next_collector stp).right.of_parked hw.left, hw.right⟩

theorem Alone.fair (al : Alone s) (i : Fin n) : Fair (al.execution i) where
  scheduled := al.exists_collector i
  quiet j k :=
    have ⟨k', hk, hl⟩ := al.exists_collector i k
    ⟨k', hk, hl, (al.execution_alone i k').readers j⟩

-- The object of `collects` has been dropped, and the collector waits.
def dropped : State 1 Bool Unit :=
  (System.exec next empty (collects.take 9)).getD empty

theorem dropped_alone : Alone dropped where
  reachable :=
    have he : System.exec next empty (collects.take 9) = some dropped := rfl
    (System.run_restrict_of_exec (by decide) he).reachable (.init empty_initial)
  drops     := rfl
  readers   := by decide

end State
end Sdarc
