import SdarcModel.ShardedRwLock.Theorems.Exclusion

namespace ShardedRwLock

variable {n : Nat} {τ : Type} [DecidableEq τ] {π : Policy n τ} {s : State n τ}

-- The steps with which a thread gets on with a call it is in or lets go of a guard it holds.
-- Starting a call and changing the shard index do not count.
def Act.Advances : Act n τ → Prop
  | .lockShared _ | .lockExclusive _ | .finishWrite _ | .dropRead _ | .dropWrite _
  | .unlock _ | .finishDrop _ => True
  | _ => False

def State.CanAdvance (π : Policy n τ) (s : State n τ) : Prop :=
  ∃ a, a.Advances ∧ (s.next π a).isSome

-- `t` is inside `read` or `write` and the lock it wants next does not let it in.
inductive State.Blocked (π : Policy n τ) (s : State n τ) (t : τ) : Prop
  | read  (call : s.call t = .reading i) (stuck : s.next π (.lockShared t) = none)
  | write (call : s.call t = .writing k) (lt : k < n) (stuck : s.next π (.lockExclusive t) = none)

theorem canAdvance_of_readGuard (h : s.call t = .readGuard i) : s.CanAdvance π :=
  ⟨.dropRead t, trivial, by simp [State.next, h]⟩

theorem canAdvance_of_writeGuard (h : s.call t = .writeGuard) : s.CanAdvance π :=
  ⟨.dropWrite t, trivial, by simp [State.next, h]⟩

theorem canAdvance_of_dropping (hi : Inv s) (h : s.call t = .dropping k) : s.CanAdvance π := by
  have hb := h ▸ hi.bounded t
  simp only [Call.Bounded] at hb
  cases Nat.lt_or_eq_of_le hb
  case inl hk => exact ⟨.unlock t, trivial, by simp [State.next, h, hk]⟩
  case inr hk => exact ⟨.finishDrop t, trivial, by simp [State.next, h, hk]⟩

-- A writer that waits for shard `k` is held up only by threads that can go on or by a writer that
-- already locked beyond `k`. The induction is on the number of shards left to lock.
theorem canAdvance_of_writing {t : τ} {k : Nat} (hi : Inv s) (h : s.call t = .writing k) : s.CanAdvance π := by
  have hb := h ▸ hi.bounded t
  simp only [Call.Bounded] at hb
  cases Nat.lt_or_eq_of_le hb
  case inr hk => exact ⟨.finishWrite t, trivial, by simp [State.next, h, hk]⟩
  case inl hk =>
    by_cases hr : (s.locks ⟨k, hk⟩).readers = ∅
    case neg =>
      obtain ⟨u, hu⟩ := Finset.nonempty_iff_ne_empty.mpr hr
      exact canAdvance_of_readGuard (hi.readers _ u |>.mp hu)
    case pos =>
      cases hw : (s.locks ⟨k, hk⟩).writer
      case none =>
        refine ⟨.lockExclusive t, trivial, ?_⟩
        simp [State.next, h, hk, State.acquireExclusive, RwLock.tryLockExclusive, hw, hr]
      case some u =>
        have hu := hi.writer _ u |>.mp hw
        cases hc : s.call u <;> simp only [hc, Call.Holds] at hu
        case writing k' =>
          have : k < k' := hu
          exact canAdvance_of_writing hi hc
        case writeGuard  => exact canAdvance_of_writeGuard hc
        case dropping k' => exact canAdvance_of_dropping hi hc
termination_by n - k

theorem canAdvance_of_reading (hi : Inv s) (h : s.call t = .reading i) : s.CanAdvance π := by
  cases hp : π.blocksReaders s i
  case true =>
    have ⟨u, hu⟩ := π.waiting hp
    exact canAdvance_of_writing hi hu
  case false =>
    cases hw : (s.locks i).writer
    case none =>
      refine ⟨.lockShared t, trivial, ?_⟩
      simp [State.next, h, State.acquireShared, RwLock.tryLockShared, hp, hw]
    case some u =>
      have hu := hi.writer _ u |>.mp hw
      cases hc : s.call u <;> simp only [hc, Call.Holds] at hu
      case writing k  => exact canAdvance_of_writing hi hc
      case writeGuard => exact canAdvance_of_writeGuard hc
      case dropping k => exact canAdvance_of_dropping hi hc

-- Both are inside `write`, and `t` waits for a shard that `u` has locked.
structure State.WaitsFor (s : State n τ) (t u : τ) : Prop where
  waiting : ∃ k, ∃ h : k < n, s.call t = .writing k ∧ (s.locks ⟨k, h⟩).writer = some u
  writing : ∃ k, s.call u = .writing k

def Call.locked : Call n → Nat
  | .writing k => k
  | _          => 0

omit [DecidableEq τ] in
-- Writers lock the shards in index order, so a writer waits only for one that is further along.
theorem State.WaitsFor.locked_lt (hi : Inv s) (w : s.WaitsFor t u) :
    (s.call t).locked < (s.call u).locked := by
  have ⟨k, hk, ht, hw⟩ := w.waiting
  have ⟨k', hu⟩ := w.writing
  have hh := hi.writer _ u |>.mp hw
  simpa [hu, ht, Call.Holds, Call.locked] using hh

omit [DecidableEq τ] in
theorem waitsFor_acyclic (hi : Inv s) : ¬Relation.TransGen s.WaitsFor t t := by
  have lt {u} (h : Relation.TransGen s.WaitsFor t u) : (s.call t).locked < (s.call u).locked := by
    induction h
    case single w     => exact w.locked_lt hi
    case tail _ w ih  => exact ih.trans (w.locked_lt hi)
  exact fun h => Nat.lt_irrefl _ (lt h)

-- Where a thread is blocked some thread can get on, and writers never wait in a circle.
theorem deadlock_free (π : Policy n τ) (s : State n τ) (h : (system π).Reachable s) :
    ((∃ t, s.Blocked π t) → s.CanAdvance π) ∧ (∀ t, ¬Relation.TransGen s.WaitsFor t t) := by
  have hi := Inv.reachable h
  refine ⟨fun ⟨t, b⟩ => ?_, fun t => waitsFor_acyclic hi⟩
  cases b
  case read call _    => exact canAdvance_of_reading hi call
  case write call _ _ => exact canAdvance_of_writing hi call

theorem deadlock_free_writerHeld : writerHeld.CanAdvance (.writerPreference 2 Bool) :=
  deadlock_free _ writerHeld writerHeld_reachable |>.left ⟨false, .read (i := 1) rfl rfl⟩

end ShardedRwLock
