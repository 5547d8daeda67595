import SdarcModel.Library.ReadWrite
import SdarcModel.Library.Simulation
import SdarcModel.ShardedRwLock.Data
import SdarcModel.ShardedRwLock.Theorems.Exclusion

namespace ShardedRwLock
namespace DataState

variable {n : Nat} {τ δ : Type} {s s' : DataState n τ δ} {t : τ}

-- The lock as one that is taken at once: by a reader with its shard, by a writer with its last one. A writer
-- has let go of it as soon as the drop of its guard begins.
def view (s : DataState n τ δ) : ReadWrite.State τ δ where
  readers := {t | ∃ i, s.lock.call t = .readGuard i}
  writers := {t | s.lock.call t = .writeGuard}
  value   := s.data

variable [DecidableEq τ] {π : Policy n τ}

def op (π : Policy n τ) (s : DataState n τ δ) : DataAct n τ δ → Option (ReadWrite.Op τ δ)
  | .lock (.lockShared t)  => some (.beginRead t)
  | .lock (.tryRead t)     => (s.lock.acquireShared π t (s.lock.shard t)).map fun _ => .beginRead t
  | .lock (.dropRead t)    => some (.endRead t)
  | .lock (.finishWrite t) => some (.beginWrite t)
  | .lock (.dropWrite t)   => some (.endWrite t)
  | .lock _                => none
  | .deref t               => some (.get t s.data)
  | .derefMut t d          => some (.set t d)

omit [DecidableEq τ] in
theorem view_eq {l : State n τ} (h : l.call = s.lock.call) : view { s with lock := l } = s.view := by
  simp only [view, h]

-- A thread that moves along without a guard.
theorem view_setCall {l : State n τ} {c : Call n} (h : l.call = s.lock.call) (hr : ∀ i, s.lock.call t ≠ .readGuard i)
    (hw : s.lock.call t ≠ .writeGuard) (hr' : ∀ i, c ≠ .readGuard i) (hw' : c ≠ .writeGuard) :
    view { s with lock := l.setCall t c } = s.view := by
  simp only [view, State.setCall_call, h, ReadWrite.State.mk.injEq, and_true]
  constructor <;> ext u <;> by_cases hu : u = t <;> simp [*]

-- A thread that takes or leaves its shard, and one that does so with the lock.
theorem view_beginRead {l : State n τ} (h : l.call = s.lock.call) (hw : s.lock.call t ≠ .writeGuard) :
    view { s with lock := l.setCall t (.readGuard i) } = { s.view with readers := insert t s.view.readers } := by
  simp only [view, State.setCall_call, h, ReadWrite.State.mk.injEq, and_true]
  constructor <;> ext u <;> by_cases hu : u = t <;> simp [hu, hw]

theorem view_endRead {l : State n τ} (h : l.call = s.lock.call) (hc : s.lock.call t = .readGuard i) :
    view { s with lock := l.setCall t .idle } = { s.view with readers := s.view.readers \ {t} } := by
  simp only [view, State.setCall_call, h, ReadWrite.State.mk.injEq, and_true]
  constructor <;> ext u <;> by_cases hu : u = t <;> simp [hu, hc]

theorem view_beginWrite (hr : s.view.readers = ∅) (hw : s.view.writers = ∅) :
    view { s with lock := s.lock.setCall t .writeGuard } = { s.view with writers := {t} } := by
  simp only [view, Set.eq_empty_iff_forall_notMem, Set.mem_ofPred_eq] at hr hw
  simp only [view, State.setCall_call, ReadWrite.State.mk.injEq, and_true]
  constructor <;> ext u <;> by_cases hu : u = t
  all_goals simp [hu, hw, hr]

theorem view_endWrite (hc : s.lock.call t = .writeGuard) :
    view { s with lock := s.lock.setCall t (.dropping 0) } = { s.view with writers := s.view.writers \ {t} } := by
  simp only [view, State.setCall_call, ReadWrite.State.mk.injEq, and_true]
  constructor <;> ext u <;> by_cases hu : u = t <;> simp [hu, hc]

omit [DecidableEq τ] in
-- A shard that is free of writers stands for the whole lock.
theorem noWriter (inv : Inv s.lock) (h : (s.lock.locks i).writer = none) : s.view.writers = ∅ := by
  refine Set.eq_empty_of_forall_notMem fun u hu => ?_
  have hu : s.lock.call u = .writeGuard := hu
  have := inv.writer i u |>.mpr <| by simp [hu, Call.Holds]
  simp [h] at this

omit [DecidableEq τ] in
-- A writer with its last shard is alone.
theorem alone (inv : Inv s.lock) (hc : s.lock.call t = .writing n) : s.view.readers = ∅ ∧ s.view.writers = ∅ := by
  have writer i : (s.lock.locks i).writer = some t := inv.writer i t |>.mpr <| by simp [hc, Call.Holds]
  constructor <;> refine Set.eq_empty_of_forall_notMem fun u hu => ?_
  case left =>
    obtain ⟨i, hu⟩ := hu
    have := inv.readers i u |>.mpr hu
    rcases inv.exclusive i with h | h
    case inl => simp [writer] at h
    case inr => simp [h] at this
  case right =>
    have hu : s.lock.call u = .writeGuard := hu
    have := inv.writer (s.lock.shard t) u |>.mpr <| by simp [hu, Call.Holds]
    have : u = t := by simpa [writer, eq_comm] using this
    simp [this, hc] at hu

theorem acquireShared_begins {l : State n τ} (inv : Inv s.lock) (hw : s.lock.call t ≠ .writeGuard)
    (h : s.lock.acquireShared π t i = some l) : ReadWrite.Step s.view (.beginRead t) (view { s with lock := l }) := by
  simp only [State.acquireShared, RwLock.tryLockShared, Option.ite_none_left_eq_some, Option.map_eq_some_iff,
    Option.ite_none_right_eq_some, Option.some.injEq] at h
  obtain ⟨-, _, ⟨free, rfl⟩, rfl⟩ := h
  rw [view_beginRead (State.setLock_call ..) hw]
  exact .beginRead (noWriter inv free)

theorem Inv.reachable (h : (dataSystem π δ).Reachable s) : Inv s.lock := by
  refine h.invariant (I := fun s => Inv s.lock) (fun _ h => .initial h.lock) fun s₁ a s₂ inv stp => ?_
  cases a <;> simp only [dataSystem, System.ofNext, next] at stp
  case lock a =>
    obtain ⟨l, hl, rfl⟩ := Option.map_eq_some_iff.mp stp
    exact inv.next a hl
  case deref    => split at stp <;> cases stp <;> exact inv
  case derefMut => split at stp <;> cases stp; exact inv

-- What a step of the lock alone is to its data.
theorem lock_simulated {l : State n τ} (inv : Inv s.lock) (a : Act n τ) (h : s.lock.next π a = some l) :
    match op π s (.lock a) with
    | some b => ReadWrite.Step s.view b (view { s with lock := l })
    | none   => view { s with lock := l } = s.view := by
  cases a <;> simp only [State.next] at h
  case setShard => cases h; exact view_eq rfl
  case tryRead t =>
    split at h <;> cases h
    case isTrue hc =>
      cases ha : s.lock.acquireShared π t (s.lock.shard t) <;> simp only [op, ha, Option.map_none, Option.map_some]
      case none   => exact view_eq rfl
      case some l => exact acquireShared_begins inv (by simp [hc]) ha
  case lockShared t =>
    split at h
    case h_1 i hc => exact acquireShared_begins inv (by simp [hc]) h
    case h_2      => contradiction
  case lockExclusive t =>
    split at h <;> try contradiction
    case h_1 k hc =>
      simp only [State.acquireExclusive, Option.dite_none_right_eq_some, Option.map_eq_some_iff] at h
      obtain ⟨hk, _, -, rfl⟩ := h
      apply view_setCall <;> simp [hc]
  case finishWrite t =>
    split at h <;> cases h
    case isTrue hc =>
      obtain ⟨hr, hw⟩ := alone inv hc
      rw [view_beginWrite hr hw]
      exact .beginWrite hr hw
  case dropRead t =>
    split at h <;> cases h
    case h_1 i hc =>
      rw [view_endRead (State.setLock_call ..) hc]
      exact .endRead ⟨i, hc⟩
  case dropWrite t =>
    split at h <;> cases h
    case isTrue hc =>
      rw [view_endWrite hc]
      exact .endWrite hc
  case unlock t =>
    split at h <;> try contradiction
    case h_1 k hc =>
      split at h <;> cases h
      apply view_setCall <;> simp [hc]
  -- The rest begins or ends a call with no shard held.
  all_goals
    split at h <;> cases h
    apply view_setCall <;> simp [*]

-- For its data the sharded lock is one lock: shards are locked one after the other, but readers and writers of the data
-- come and go as if a guard were taken and dropped at once.
theorem view_simulates (π : Policy n τ) (δ : Type) : (ReadWrite.system τ δ).Simulates (dataSystem π δ) view (op π) where
  init s h := by simp [ReadWrite.system, view, h.lock.call]
  step s₁ a s₂ b hr stp hb := by
    cases a <;> simp only [dataSystem, System.ofNext, next] at stp
    case lock a =>
      obtain ⟨l, hl, rfl⟩ := Option.map_eq_some_iff.mp stp
      have := lock_simulated (Inv.reachable hr) a hl
      rwa [hb] at this
    case deref t =>
      cases hb
      split at stp <;> cases stp
      case h_1 i hc => exact .get (.inl ⟨i, hc⟩)
      case h_2 hc   => exact .get (.inr hc)
    case derefMut t d =>
      cases hb
      split at stp
      case isTrue hc  => cases stp; exact .set hc
      case isFalse    => contradiction
  stutter s₁ a s₂ hr stp hb := by
    cases a
    case lock a =>
      obtain ⟨l, hl, rfl⟩ := Option.map_eq_some_iff.mp stp
      have := lock_simulated (Inv.reachable hr) a hl
      rwa [hb] at this
    all_goals simp [op] at hb

-- Holding either guard.
def Guarded (s : DataState n τ δ) (t : τ) : Prop :=
  (∃ i, s.lock.call t = .readGuard i) ∨ s.lock.call t = .writeGuard

-- What `t` has written by a step, or else what was there.
def writtenBy (t : τ) (d : δ) : DataAct n τ δ → δ
  | .derefMut u d' => if u = t then d' else d
  | _              => d

theorem op_writtenBy (h : op π s a = some b) (t : τ) (d : δ) : b.writtenBy t d = writtenBy t d a := by
  cases a <;> simp only [op] at h
  case lock a =>
    cases a <;> simp only [Option.map_eq_some_iff, Option.some.injEq, reduceCtorEq] at h
    case tryRead => obtain ⟨_, _, rfl⟩ := h; rfl
    all_goals cases h; rfl
  all_goals cases h; rfl

theorem writtenBy_of_op_none (h : op π s a = none) (t : τ) (d : δ) : writtenBy t d a = d := by
  cases a <;> simp [op] at h
  rfl

-- A step of another thread, or one that does not write.
theorem writtenBy_of_readGuard (hc : s.lock.call t = .readGuard i) (h : s.next π a = some s') (d : δ) :
    writtenBy t d a = d := by
  cases a <;> try rfl
  case derefMut u d' =>
    simp only [next, Option.ite_none_right_eq_some] at h
    have : u ≠ t := by rintro rfl; simp [hc] at h
    simp [writtenBy, this]

theorem foldl_image (t : τ) (tr : List (DataState n τ δ × DataAct n τ δ)) (d : δ) :
    (System.Simulates.image view (op π) tr).foldl (fun d e => e.2.writtenBy t d) d =
      tr.foldl (fun d e => writtenBy t d e.2) d := by
  rw [System.Simulates.image, List.foldl_filterMap]
  congr
  funext d e
  cases h : op π e.1 e.2
  case none   => simp [writtenBy_of_op_none h]
  case some b => simp [op_writtenBy h]

end DataState

open DataState

variable {n : Nat} {τ δ : Type} [DecidableEq τ]

-- Throughout any run in which a thread keeps a guard, whatever the other threads do, the data is what the thread has
-- written itself, or else what it was at first; and it stays as it is under a read guard.
theorem data_guarded (π : Policy n τ) (s s' : DataState n τ δ) (t : τ) (tr : List (DataState n τ δ × DataAct n τ δ))
    (h : (dataSystem π δ).Reachable s) (r : (dataSystem π δ).Run s tr s') (guard : ∀ e ∈ tr, e.1.Guarded t) :
    s'.data = tr.foldl (fun d e => writtenBy t d e.2) s.data ∧
      ((∀ e ∈ tr, ∃ i, e.1.lock.call t = .readGuard i) → s'.data = s.data) := by
  have sim := view_simulates π δ
  have written : s'.data = tr.foldl (fun d e => writtenBy t d e.2) s.data := by
    have := ReadWrite.value_of_run (t := t) (sim.reachable h) (sim.run h r) fun _ hb => by
      obtain ⟨e, he, hb⟩ := List.mem_filterMap.mp hb
      obtain ⟨b, -, rfl⟩ := Option.map_eq_some_iff.mp hb
      exact guard e he
    rw [foldl_image] at this
    exact this
  refine ⟨written, fun reads => ?_⟩
  have own (e) (he : e ∈ tr) (d : δ) : writtenBy t d e.2 = d := by
    obtain ⟨i, hi⟩ := reads e he
    obtain ⟨_, _, _, _, stp, _⟩ := r.split he
    exact writtenBy_of_readGuard hi stp d
  rw [written]
  clear written r guard reads
  induction tr
  case nil => rfl
  case cons e tr ih =>
    rw [List.forall_mem_cons] at own
    rw [List.foldl_cons, own.left, ih own.right]

-- `true` holds the lock to write 5 while `false` waits to read.
def writerHeldData : DataState 2 Bool Nat where
  lock := writerHeld
  data := 3

theorem writerHeldData_reachable : (dataSystem (.writerPreference 2 Bool) Nat).Reachable writerHeldData :=
  have h : System.exec (next (.writerPreference 2 Bool)) { lock := allIdle, data := 3 } (writerHolds.map .lock) =
    some writerHeldData := rfl
  System.reachable_of_exec (.init ⟨fun _ => rfl, fun _ => rfl⟩) h

def writes : List (DataAct 2 Bool Nat) :=
  [.derefMut true 5, .lock (.setShard false (Fin.last 1)), .deref true]

def dataWritten : DataState 2 Bool Nat :=
  (System.exec (next (.writerPreference 2 Bool)) writerHeldData writes).getD writerHeldData

theorem data_guarded_written : dataWritten.data = 5 :=
  have h : System.exec (next (.writerPreference 2 Bool)) writerHeldData writes = some dataWritten := rfl
  have guard : ∀ e ∈ System.trace (next (.writerPreference 2 Bool)) writerHeldData writes,
    e.1.lock.call true = .writeGuard := by decide
  data_guarded _ _ _ true _ writerHeldData_reachable (System.run_of_exec h) (fun e he => .inr (guard e he)) |>.left

end ShardedRwLock
