import SdarcModel.CollectorThread.Theorems.Coupled
import SdarcModel.Execution.Theorems.Liveness.Freed
import SdarcModel.Execution.Theorems.Slots

namespace Sdarc.CollectorThread

section

variable (n : Nat) (T C : Type) [DecidableEq T] [Fintype T] [DecidableEq C]

-- The runs without `compare_and_set`.
def systemNoCas : System (State n T C) (Label n T C) :=
  system n T C |>.restrict fun _ l _ => ∀ l' ∈ State.execLabel l, l'.isCompareAndSet = false

-- The runs in which nobody changes the counters of an object after it was freed.
def systemDefined : System (State n T C) (Label n T C) :=
  system n T C |>.restrict fun s l _ => ∀ l' ∈ State.execLabel l, s.exec.Defined l'

variable {C}

-- Of those, the runs that leave the garbage `S` to the collector.
def systemIsolated (o : Ownership C) (S : Finset Ptr) : System (State n T C) (Label n T C) :=
  systemDefined n T C |>.restrict fun s l _ => ∀ l' ∈ State.execLabel l, o.Isolated S s.exec l'

end

namespace State

open CollectorStatus.State (Awaits WellCounted)
open Sdarc.State (Enclosed Collecting Destroyed wellFormed wellListed of_next_thread of_next_collector notify_pc
  maxLoopCounter used_iff defined_of_funded funded_of_noCas ownsNothing dropped_garbage)

variable {n : Nat} {T C : Type} [DecidableEq T] [Fintype T] [DecidableEq C] {s s' : State n T C} {o : Ownership C}
  {S : Finset Ptr} {ℓ : Ptr → Nat}

theorem defined_simulates :
    (Sdarc.systemDefined n T C).Simulates (systemDefined n T C) (·.exec) fun _ l => execLabel l where
  init _ h              := h.exec
  step _ _ _ _ _ stp h  := ⟨(Step.of_next stp.left).exec_next h, stp.right _ h⟩
  stutter _ _ _ _ stp h := (Step.of_next stp.left).exec_eq h

theorem noCas_simulates :
    (Sdarc.systemNoCas n T C).Simulates (systemNoCas n T C) (·.exec) fun _ l => execLabel l where
  init _ h              := h.exec
  step _ _ _ _ _ stp h  := ⟨(Step.of_next stp.left).exec_next h, stp.right _ h⟩
  stutter _ _ _ _ stp h := (Step.of_next stp.left).exec_eq h

theorem defined_of_noCas [Fintype C] (h : (systemNoCas n T C).Reachable s) (l : Sdarc.Label n T C) : s.exec.Defined l :=
  defined_of_funded (funded_of_noCas (noCas_simulates |>.reachable h)) l

theorem reachable_defined [Fintype C] (h : (systemNoCas n T C).Reachable s) : (systemDefined n T C).Reachable s := by
  induction h
  case init h         => exact .init h
  case step hr stp ih => exact ih.step ⟨stp.left, fun l' _ => defined_of_noCas hr l'⟩

-- Nothing freed comes back.
theorem freed_next {e e' : Sdarc.State n T C} (stp : e.next l = some e') :
    e.mem.freed p ≤ e'.mem.freed p := by
  cases l
  case thread t a =>
    obtain ⟨-, m, hm, rfl⟩ := of_next_thread stp
    exact (congrFun (Memory.Step.of_threadStep hm).freed_eq p).ge
  case collector => exact (of_next_collector stp).right.freed_le

theorem freed_run (h : (system n T C).Reachable s) (r : (system n T C).Run s tr s') (hf : 0 < s.exec.mem.freed p) :
    0 < s'.exec.mem.freed p :=
  (exec_simulates |>.run h r).invariant (I := fun e => 0 < e.mem.freed p) hf fun _ _ _ hf stp => hf.trans_le (freed_next stp)

-- What a step of the threads or of `update` leaves of garbage that an update collects, or has collected.
theorem collecting_next [Fintype C] {e e' : Sdarc.State n T C} (h : (Sdarc.systemDefined n T C).Reachable e)
    (hℓ : ∀ q ∈ S, ∀ p ∈ S, 0 < o.sdarcs q p → ℓ q < ℓ p) (pos : ∀ p ∈ S, 0 < ℓ p) (limit : ∀ p ∈ S, 3 * ℓ p ≤ maxLoopCounter)
    (c : (∀ p ∈ S, 0 < e.mem.freed p) ∨ (Collecting o S ℓ e ∧ e.col.pc ≠ .parked))
    (stp : (Sdarc.systemIsolated n T o S).Step e l e') :
    (∀ p ∈ S, 0 < e'.mem.freed p) ∨ (Collecting o S ℓ e' ∧ e'.col.pc ≠ .parked) := by
  cases c
  case inr c => exact Collecting.run h (.step stp .refl) hℓ pos limit c.left c.right
  case inl freed => exact .inl fun p hp => (freed p hp).trans_le (freed_next stp.left.left)

-- What is known of the garbage `S` while a call waits for the end of the iteration with the serial number `r`.
structure Served (o : Ownership C) (S : Finset Ptr) (ℓ : Ptr → Nat) (r : Nat) (s : State n T C) : Prop where
  before : s.status.serial < r → Enclosed o S ℓ s.exec
  during : s.status.serial = r →
    ((s.status.collector = .unlockRunning ∨ s.status.collector = .take) ∧ s.exec.col.pc = .parked ∧ Enclosed o S ℓ s.exec) ∨
    (∀ p ∈ S, 0 < s.exec.mem.freed p) ∨ (Collecting o S ℓ s.exec ∧ s.exec.col.pc ≠ .parked)
  after  : r < s.status.serial → ∀ p ∈ S, s.exec.Destroyed p

theorem Served.of_exec [Fintype C] (sv : Served o S ℓ r s) (h : (Sdarc.systemDefined n T C).Reachable s.exec)
    (hℓ : ∀ q ∈ S, ∀ p ∈ S, 0 < o.sdarcs q p → ℓ q < ℓ p) (pos : ∀ p ∈ S, 0 < ℓ p) (limit : ∀ p ∈ S, 3 * ℓ p ≤ maxLoopCounter)
    (stp : (Sdarc.systemIsolated n T o S).Step s.exec l s'.exec) (hs : s'.status.serial = s.status.serial)
    (parked : s.exec.col.pc = .parked → Enclosed o S ℓ s'.exec →
      (s'.status.collector = s.status.collector ∧ s'.exec.col.pc = .parked) ∨
        (Collecting o S ℓ s'.exec ∧ s'.exec.col.pc ≠ .parked)) :
    Served o S ℓ r s' where
  before hr := (sv.before (hs ▸ hr)).next h hℓ stp
  during hr := by
    rcases sv.during (hs ▸ hr) with ⟨hc, hp, en⟩ | hc
    case inr => exact .inr (collecting_next h hℓ pos limit hc stp)
    case inl =>
      have en := en.next h hℓ stp
      rcases parked hp en with ⟨hc', hp'⟩ | c
      case inl => exact .inl ⟨hc' ▸ hc, hp', en⟩
      case inr => exact .inr (.inr c)
  after hr p hp :=
    (sv.after (hs ▸ hr) p hp).next (wellFormed (h.step stp.left).of_restrict) stp.left.left

omit [Fintype T] [DecidableEq C] in
theorem Served.of_caller (sv : Served o S ℓ r s) (w : s.status.WellCounted)
    (stp : CollectorStatus.State.CallerStep s.status t a c) : Served o S ℓ r { s with status := c } := by
  have hs : c.serial = s.status.serial := w.serial_step (.caller stp)
  have hc : c.collector = s.status.collector := by cases stp <;> rfl
  exact ⟨fun hr => sv.before (hs ▸ hr), fun hr => by simpa only [hc] using sv.during (hs ▸ hr), fun hr => sv.after (hs ▸ hr)⟩

omit [Fintype T] [DecidableEq C] in
-- The loop around `update` goes on only while the collector is in no update, and writes the status before and
-- after one.
theorem Served.of_main (sv : Served o S ℓ r s) (even : r % 2 = 0) (w : s.status.WellCounted) (parked : s.exec.col.pc = .parked)
    (take : a ≠ .takeNewCountersToTrack) (stp : CollectorStatus.State.CollectorStep s.status a c) :
    Served o S ℓ r { s with status := c } := by
  have hs : c.serial = s.status.serial + if (CollectorStatus.Label.collector a : CollectorStatus.Label T).sets then 1 else 0 :=
    w.serial_step (.collector stp)
  by_cases ha : a = .set
  case neg =>
    replace hs : c.serial = s.status.serial := by
      rw [hs]
      cases a <;> simp_all [CollectorStatus.Label.sets]
    refine ⟨fun hr => sv.before (hs ▸ hr), fun hr => ?_, fun hr => sv.after (hs ▸ hr)⟩
    refine (sv.during (hs ▸ hr)).imp_left (.imp_left fun hc => ?_)
    cases stp <;> simp_all
  case pos =>
    subst ha
    replace hs : c.serial = s.status.serial + 1 := hs
    have hp := w.pc_of_sets stp
    refine ⟨fun hr => ?_, fun hr => ?_, fun hr p hp' => ?_⟩
    case refine_1 =>
      have hr : s.status.serial + 1 < r := hs ▸ hr
      exact sv.before (by omega)
    case refine_2 =>
      have hr : s.status.serial + 1 = r := hs ▸ hr
      obtain ⟨-, pc, -⟩ := hp.resolve_right fun h => absurd h.right (by omega)
      exact .inl ⟨.inl pc, parked, sv.before (by omega)⟩
    case refine_3 =>
      have hr : r < s.status.serial + 1 := hs ▸ hr
      by_cases hr' : r < s.status.serial
      case pos => exact sv.after hr' p hp'
      case neg =>
        have he : s.status.serial = r := by omega
        obtain ⟨pc, -⟩ := hp.resolve_left fun h => absurd h.right.right (by omega)
        rcases sv.during he with ⟨hc, -⟩ | freed | ⟨-, running⟩
        case inl     => simp [pc] at hc
        case inr.inl => exact ⟨freed p hp', by simp only [parked, CollectorPc.dropsInner]⟩
        case inr.inr => exact absurd parked running

theorem Served.step [Fintype C] (sv : Served o S ℓ r s) (even : r % 2 = 0) (h : (systemDefined n T C).Reachable s)
    (hℓ : ∀ q ∈ S, ∀ p ∈ S, 0 < o.sdarcs q p → ℓ q < ℓ p) (pos : ∀ p ∈ S, 0 < ℓ p) (limit : ∀ p ∈ S, 3 * ℓ p ≤ maxLoopCounter)
    (ended : s.exec.col.pc = .parked → s.exec.col.loopCounter ≠ maxLoopCounter) (stp : (systemIsolated n T o S).Step s l s') :
    Served o S ℓ r s' := by
  have hd := defined_simulates |>.reachable h
  have w := wellCounted h.of_restrict
  obtain ⟨⟨stp, safe⟩, iso⟩ := stp
  have st := Step.of_next stp
  have next l' (hl : execLabel l = some l') : (Sdarc.systemIsolated n T o S).Step s.exec l' s'.exec :=
    ⟨⟨st.exec_next hl, safe l' hl⟩, iso l' hl⟩
  have begins (he : s.exec.next .collector = some s'.exec) (parked : s.exec.col.pc = .parked) (en : Enclosed o S ℓ s'.exec) :
      Collecting o S ℓ s'.exec ∧ s'.exec.col.pc ≠ .parked := by
    have hw : s'.exec = s.exec.goto (.take 0) := (of_next_collector he).right.of_parked parked
    have hr' := (defined_simulates |>.reachable (h.step ⟨stp, safe⟩)).of_restrict
    exact ⟨.start (wellFormed hr') (wellListed hr') en (by rw [hw]) (by rw [hw]; exact ended parked), by simp [hw]⟩
  cases st
  case thread e idle exec =>
    refine sv.of_exec hd hℓ pos limit (next _ rfl) rfl fun parked _ => .inl ⟨rfl, ?_⟩
    obtain ⟨-, m, -, he⟩ := of_next_thread exec
    simpa only [he, notify_pc] using parked
  case caller status => exact sv.of_caller w (.of_callerStep status)
  case main parked take inner status => exact sv.of_main even w parked take (.of_collectorStep status)
  case update awake exec goesOn =>
    exact sv.of_exec hd hℓ pos limit (next _ rfl) rfl fun parked en => .inr (begins exec parked en)
  case finish a c exec act status =>
    refine sv.of_exec hd hℓ pos limit (next _ rfl) ?_ fun parked en => .inr (begins exec parked en)
    have hs := w.serial_step (.collector (.of_collectorStep status))
    simp only [finishes] at act
    split at act <;> cases act <;> exact hs

theorem destroyed_of_leave [Fintype C] (h : (systemDefined n T C).Reachable s₁)
    (lock : s₁.next (.caller t .lock) = some s₂) (g : o.Garbage S L s₁.exec.mem) (limit : 3 * L ≤ maxLoopCounter)
    (r : (systemIsolated n T o S).Run s₂ tr s₃)
    (ended : ∀ e ∈ tr, e.1.exec.col.pc = .parked → e.1.exec.col.loopCounter ≠ maxLoopCounter)
    (lt : s₃.status.iterations < 2 ^ 62) (leave : s₃.next (.caller t .leave) = some s₄) :
    (Sdarc.systemDefined n T C).Reachable s₄.exec ∧ ∀ p ∈ S, s₄.exec.Destroyed p := by
  let ℓ := Chain.level (o.Owns s₁.exec.mem) (· ∈ S) L
  have hℓ q (hq : q ∈ S) p (hp : p ∈ S) (ho : o.Owns s₁.exec.mem q p) : ℓ q < ℓ p :=
    Chain.level_lt g.chains hq hp ho
  have hmax p (hp : p ∈ S) : 3 * ℓ p ≤ maxLoopCounter :=
    (Nat.mul_le_mul_left 3 (Chain.level_le g.chains hp)).trans limit
  have h₂ : (systemDefined n T C).Reachable s₂ := h.step ⟨lock, fun _ hl => by simp [execLabel] at hl⟩
  let k := s₂.status.serial
  have awaits : Awaits k t s₂.status := by
    refine ⟨le_rfl, ?_⟩
    cases Step.of_next lock
    case caller c status =>
      cases CollectorStatus.State.CallerStep.of_callerStep status
      simp
  have exec : s₂.exec = s₁.exec := (Step.of_next lock).exec_eq rfl
  have sv : Served o S ℓ (2 * (k / 2) + 2) s₂ := by
    refine ⟨fun _ => exec ▸ .of_garbage g hℓ, fun hr => ?_, fun hr => ?_⟩ <;>
      simp only [k] at hr <;> omega
  have served : (systemDefined n T C).Reachable s₃ ∧ Served o S ℓ (2 * (k / 2) + 2) s₃ := by
    refine (r.restrict (c := fun s _ => s.exec.col.pc = .parked → s.exec.col.loopCounter ≠ maxLoopCounter) ended).invariant
      (I := fun s => (systemDefined n T C).Reachable s ∧ Served o S ℓ (2 * (k / 2) + 2) s) ⟨h₂, sv⟩ ?_
    rintro s l s' ⟨hr, sv⟩ ⟨stp, ended⟩
    exact ⟨hr.step stp.left, sv.step (by omega) hr (fun q hq p hp ho => hℓ q hq p hp (.inl ho)) (fun p _ => Chain.level_pos)
      hmax ended stp⟩
  have r' := status_simulates |>.run h₂.of_restrict r.of_restrict.of_restrict
  have caller := (awaits.of_run r' (wellCounted h₂.of_restrict) lt).caller
  have exec' : s₄.exec = s₃.exec := (Step.of_next leave).exec_eq rfl
  have done : 2 * (k / 2) + 2 < s₃.status.serial := by
    cases Step.of_next leave
    case caller c status =>
      cases CollectorStatus.State.CallerStep.of_callerStep status
      case leave pc =>
        simp only [pc] at caller
        omega
  rw [exec']
  exact ⟨defined_simulates |>.reachable served.left, served.right.after done⟩

-- The call waits for the iteration that frees the object of `drops`.
def waits : List (Label 1 Bool Unit) :=
  .replicate 3 (.caller false .run) ++ begins ++ .replicate 30 .update ++
    [.doMaintenance, .lock, .set, .notifyAll, .unlock].map .main ++
    [.wake, .relock, .run].map (.caller false)

def called : State 1 Bool Unit :=
  (System.exec next empty (drops ++ [.caller false .call])).getD empty

def locked : State 1 Bool Unit :=
  (called.next (.caller false .lock)).getD empty

def waited : State 1 Bool Unit :=
  (System.exec next locked waits).getD empty

def left : State 1 Bool Unit :=
  (waited.next (.caller false .leave)).getD empty

theorem called_reachable : (systemNoCas 1 Bool Unit).Reachable called :=
  have hc : System.exec next empty (drops ++ [.caller false .call]) = some called := rfl
  (System.run_restrict_of_exec (by decide) hc).reachable (.init empty_initial)

theorem waited_isolated :
    (systemIsolated 1 Bool ownsNothing {0}).Run locked (System.trace next locked waits) waited := by
  have hw : System.exec next locked waits = some waited := rfl
  have lock : called.next (.caller false .lock) = some locked := rfl
  have hl : (systemNoCas 1 Bool Unit).Reachable locked := called_reachable |>.step ⟨lock, by decide⟩
  have nc : (systemNoCas 1 Bool Unit).Run locked (System.trace next locked waits) waited :=
    System.run_restrict_of_exec (by decide) hw
  have df : ∀ e ∈ System.trace next locked waits, ∀ l' ∈ execLabel e.2, e.1.exec.Defined l' := fun e he l' _ => by
    obtain ⟨_, _, _, r, -⟩ := nc.split he
    exact defined_of_noCas (r.reachable hl) l'
  have iso : ∀ e ∈ System.trace next locked waits, ∀ l' ∈ execLabel e.2, ownsNothing.Isolated {0} e.1.exec l' := by
    decide
  exact nc.of_restrict.restrict df |>.restrict iso

theorem waited_ended : ∀ e ∈ System.trace next locked waits, e.1.exec.col.loopCounter ≠ maxLoopCounter := by
  decide

end State
end Sdarc.CollectorThread
