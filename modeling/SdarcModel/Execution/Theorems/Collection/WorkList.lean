import SdarcModel.Execution.Theorems.Reclamation.Drop

namespace Sdarc

-- The stages of `update`.
inductive Phase
  | preparing                              -- before the first pass
  | waiting  (r : Finset Slot)             -- for the readers, before a pass over `r`
  | visiting (a : Pass) (c : Option Slot)  -- `update_state`, maybe of `c`
  | freeing  (a : Pass)
  | over

def CollectorPc.phase : CollectorPc n → Phase
  | .take _ | .insert .. | .spin none .. | .spinAgain none _ => .preparing
  | .spin (some r) .. | .spinAgain (some r) _ => .waiting r
  | .next a => .visiting a none
  | .readSum a c _ _ | .clearTags a c _ _ | .reCheck a c _ _ | .clearWeak a c | .swapBackRef a c _ =>
    .visiting a (some c)
  | .free a | .dropInner a _ | .dropWeak a _ | .dropData a _ | .collect a => .freeing a
  | .parked | .panicked _ => .over

attribute [grind] CollectorPc.phase

@[grind =]
theorem CollectorPc.phase_spin :
    (.spin k i shards : CollectorPc n).phase = k.elim .preparing .waiting := by
  cases k <;> rfl

@[grind =]
theorem CollectorPc.phase_spinAgain :
    (.spinAgain k shards : CollectorPc n).phase = k.elim .preparing .waiting := by
  cases k <;> rfl

-- All that is left of the pass is to return what is to be checked again.
def CollectorPc.returns : CollectorPc n → Bool
  | .collect _ => true
  | _          => false

attribute [grind] CollectorPc.returns

namespace State

variable {n : Nat} {T C : Type} {s s' : State n T C} {p : Ptr} {c : Slot}

-- What a pass returns.
abbrev toReCheck (s : State n T C) (a : Pass) : Finset Slot :=
  a.newToReCheck ∪ s.col.countersToRecheck

-- The collector comes back to the counters before the loop ends, unless it has ended at its limit.
def Listed (s : State n T C) (c : Slot) : Prop :=
  match s.col.pc.phase with
  | .preparing | .over => s.col.loopCounter = maxLoopCounter
  | .waiting r         => c ∈ r
  | .visiting a d      => c ∈ a.todo ∨ d = some c ∨ c ∈ a.newToReCheck
  | .freeing a         => c ∈ a.newToReCheck

structure WellListed (s : State n T C) : Prop where
  reCheck : ∀ c p, s.col.tracked.lookup c = some ⟨p, .requiresReChecking⟩ → s.Listed c
  busy    : s.mem.pc none ≠ .idle → ∃ a p, s.col.pc = .dropData a p

-- A drop of `p` on the collector thread puts its counters down for the next pass, or has done so.
def Noted (s : State n T C) (p : Ptr) : Prop :=
  (s.mem.pc none).dropping p = true ∨ s.mem.pc none = .onSdarcDrop (s.mem.counters p) ∨
    s.mem.counters p ∈ s.col.countersToRecheck

variable [DecidableEq T] [DecidableEq C]

omit [DecidableEq T] [DecidableEq C] in
@[simp] theorem notify_loopCounter (t : Thread T) (a : Act n C) :
    (s.notify t a).loopCounter = s.col.loopCounter := by
  unfold notify
  split <;> rfl

omit [DecidableEq T] [DecidableEq C] in
theorem subset_notify (t : Thread T) (a : Act n C) :
    s.col.countersToRecheck ⊆ (s.notify t a).countersToRecheck := by
  unfold notify
  split
  · exact Finset.subset_insert ..
  · exact Finset.Subset.refl _

namespace WellListed

omit [DecidableEq T] [DecidableEq C] in
theorem initial (h : s.Initial) : WellListed s where
  reCheck c p hl := by simp [h.col] at hl
  busy hb        := absurd (h.mem.pc none) hb

theorem thread (l : WellListed s) (ready : s.mem.pc t = .idle → s.mayStart t = true) (st : s.mem.Step t m)
    (a : Act n C) : WellListed { mem := m, col := s.notify t a } where
  reCheck c p h := by
    rw [notify_tracked] at h
    have := l.reCheck c p h
    simpa only [Listed, notify_pc, notify_loopCounter] using this
  busy hb := by
    rw [notify_pc]
    by_cases hn : s.mem.pc none = .idle
    case neg => exact l.busy hn
    case pos =>
      by_cases ht : none = t
      case neg => exact absurd (by rw [st.pc_eq, Function.update_of_ne ht, hn]) hb
      case pos =>
        subst ht
        have hm := ready hn
        simp only [mayStart] at hm
        split at hm
        case h_1 pc => exact ⟨_, _, pc⟩
        case h_2    => contradiction

omit [DecidableEq C] in
theorem collector (v : WellVisited s) (l : WellListed s) (idle : s.mem.pc none = .idle) (st : CollectorStep s s')
    (np : ∀ e, s'.col.pc ≠ .panicked e) : WellListed s' where
  reCheck c p h := by
    have hl := l.reCheck c
    have := v.visiting c
    simp only [Listed] at *
    induction st
    case insertReplaced => exact absurd rfl (np _)
    case startAll pc =>
      exact .inl (TrackedCounters.mem_iter.mpr (by simp [h]))
    case startSpecific r pc =>
      exact .inl (Finset.mem_ascending.mpr (by grind -linarith))
    case collectEnd a l pc _ stop =>
      have hc : c ∈ a.newToReCheck := by simpa [pc, CollectorPc.phase] using hl p h
      exact stop.resolve_right (Finset.ne_empty_of_mem (Finset.mem_union_left _ hc))
    all_goals grind -linarith
  busy hb := by
    induction st <;> first | exact absurd idle hb | grind -linarith

end WellListed

namespace Noted

theorem thread [Fintype T] (hn : s.Noted p) (hp : p < s.mem.next) (h : s.mem.threadStep t a = some m) :
    Noted { mem := m, col := s.notify t a } p := by
  have st := Memory.Step.of_threadStep h
  simp only [Noted, st.counters_eq hp] at *
  by_cases ht : none = t
  case neg =>
    rw [st.pc_eq, Function.update_of_ne ht]
    exact hn.imp_right (·.imp_right (subset_notify t a ·))
  case pos =>
    subst ht
    rcases hn with pc | pc | hc
    case inl => induction st <;> simp_all [Pc.dropping]
    case inr.inl =>
      cases a <;> simp only [Memory.threadStep, pc, reduceCtorEq, if_false] at h
      case run i => exact .inr (.inr (by simp [notify, pc]))
    case inr.inr => exact .inr (.inr (subset_notify none a hc))

omit [DecidableEq C] in
theorem collector (hn : s.Noted p) (idle : s.mem.pc none = .idle) (hc : s.col.pc.returns = false)
    (st : CollectorStep s s') : s'.Noted p := by
  have hn : s.mem.counters p ∈ s.col.countersToRecheck := by simpa [Noted, idle, Pc.dropping] using hn
  refine .inr (.inr ?_)
  rw [st.counters_eq]
  induction st <;> first | exact hn | grind -linarith

end Noted

theorem wellListed [Fintype T] (h : (system n T C).Reachable s) : WellListed s := by
  refine h.invariant_with (J := WellFormed) (fun _ => wellFormed) (fun _ => .initial) fun s₁ l s₂ w w' wl stp => ?_
  cases Step.of_next stp
  case thread ready st   => exact wl.thread ready st _
  case collector idle st => exact wl.collector w.visited idle st w'.running

-- The runs within one call of `update_all_tracked_counters_and_collect_and_get_ptrs_to_re_check` or
-- `update_specific_counters_and_collect_and_get_ptrs_to_re_check`.
def systemOnePass (n : Nat) (T C : Type) [DecidableEq T] [Fintype T] [DecidableEq C] :
    System (State n T C) (Label n T C) :=
  system n T C |>.restrict fun s _ _ => s.col.pc.returns = false

theorem Noted.run [Fintype T] (r : (systemOnePass n T C).Run s tr s') (hn : s.Noted p) (hp : p < s.mem.next) :
    s'.Noted p ∧ p < s'.mem.next := by
  refine r.invariant (I := fun s => s.Noted p ∧ p < s.mem.next) ⟨hn, hp⟩ fun s₁ l s₂ ⟨hn, hp⟩ ⟨stp, hc⟩ => ?_
  cases l
  case thread t a =>
    obtain ⟨-, m, h, rfl⟩ := of_next_thread stp
    exact ⟨hn.thread hp h, (Memory.Step.of_threadStep h).lt_next hp⟩
  case collector =>
    obtain ⟨idle, st⟩ := of_next_collector stp
    exact ⟨hn.collector idle hc st, st.next_eq ▸ hp⟩

-- What a pass returns is all that the collector has to come back to, whatever the threads and the destructors
-- do meanwhile. A loop that ends with nothing to check leaves every counter in the default state.
theorem workList [Fintype T] (h : (system n T C).Reachable s₁) (r : (systemOnePass n T C).Run s₁ tr s₂)
    (pc : s₂.col.pc = .collect a) (ret : s₂.next .collector = some s₃) :
    (∀ c p, s₃.col.tracked.lookup c = some ⟨p, .requiresReChecking⟩ → c ∈ s₂.toReCheck a) ∧
    (∀ c p, s₃.col.tracked.lookup c ≠ some ⟨p, .readyToFree⟩) ∧
    (∀ e ∈ tr, ∀ p, (e.1.mem.pc none).dropping p = true → s₃.mem.counters p ∈ s₂.toReCheck a) ∧
    (s₃.col.pc = .parked ∨ s₃.col.pc = .spin (some (s₂.toReCheck a)) 0 []) ∧
    (s₂.toReCheck a = ∅ → s₃.col.pc = .parked ∧
      ∀ c tc, s₃.col.tracked.lookup c = some tc → tc.state = .defaultState) := by
  have hr := r.of_restrict.reachable h
  have w := wellFormed hr
  obtain ⟨idle, st⟩ := of_next_collector ret
  have tracked : s₃.col.tracked = s₂.col.tracked := by induction st <;> first | rfl | grind -linarith
  rw [tracked]
  have reCheck c p (h : s₂.col.tracked.lookup c = some ⟨p, .requiresReChecking⟩) : c ∈ s₂.toReCheck a := by
    have hl := (wellListed hr).reCheck c p h
    simp only [Listed, pc, CollectorPc.phase] at hl
    exact Finset.mem_union_left _ hl
  have ready c p (h : s₂.col.tracked.lookup c = some ⟨p, .readyToFree⟩) : False := by
    simpa [pc, CollectorPc.toFree] using w.visited.ready c p h
  refine ⟨reCheck, ready, fun e he p hd => ?dropped, ?goesOn, fun empty => ⟨?ends, fun c tc ht => ?default⟩⟩
  case dropped =>
    obtain ⟨tr₁, tr₂, s', r₁, stp, r₂⟩ := r.split he
    have hp := (wellFormed (r₁.of_restrict.reachable h)).mem.referenced.pc none p (Pc.mentions_of_dropping hd)
    have hn := (Noted.run (.step stp r₂) (.inl hd) hp.lt).left
    rw [st.counters_eq]
    exact Finset.mem_union_right _ (by simpa [Noted, idle, Pc.dropping] using hn)
  case goesOn => induction st <;> grind -linarith
  case ends   => induction st <;> grind -linarith
  case default =>
    obtain ⟨p, state⟩ := tc
    cases state
    case defaultState       => rfl
    case requiresReChecking => simpa [empty] using reCheck c p ht
    case readyToFree        => exact (ready c p ht).elim

-- An object is about to be freed whose payload owns the last reference to another one.
def makesParent : List (Label 1 Bool Unit) :=
  .thread (some true) (.new 0) :: runs true 2 ++ .thread (some true) (.new 1) :: runs true 2 ++
    .thread (some true) (.drop 0) :: runs true 5 ++ .replicate 20 .collector

def freesParent : List (Label 1 Bool Unit) :=
  .replicate 11 .collector ++ .thread none (.drop 1) :: .replicate 5 (.thread none (.run (Fin.last 0))) ++
    .replicate 2 .collector

def parentMade : State 1 Bool Unit :=
  (System.exec next empty makesParent).getD empty

def parentFreed : State 1 Bool Unit :=
  (System.exec next parentMade freesParent).getD empty

theorem workList_parentFreed :
    parentFreed.col.pc = .collect { all := false, todo := [] } ∧ parentFreed.mem.freed 0 = 1 ∧
      1 ∈ parentFreed.toReCheck { all := false, todo := [] } :=
  have he : System.exec next empty makesParent = some parentMade := rfl
  have he' : System.exec next parentMade freesParent = some parentFreed := rfl
  have hr : (systemOnePass 1 Bool Unit).Run parentMade (System.trace next parentMade freesParent) parentFreed :=
    System.run_restrict_of_trace (c := fun (s : State 1 Bool Unit) _ => s.col.pc.returns = false) (by decide) he'
  have h := workList (reachable_of_exec he) hr (a := { all := false, todo := [] }) rfl rfl
  have ht : 12 < (System.trace next parentMade freesParent).length := by decide
  ⟨rfl, rfl, h.right.right.left _ (List.getElem_mem ht) 1 rfl⟩

end State
end Sdarc
