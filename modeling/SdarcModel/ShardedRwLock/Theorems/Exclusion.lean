import SdarcModel.ShardedRwLock.Basic

namespace ShardedRwLock

variable {n : Nat} {τ : Type}

-- The shards a thread holds write-locked: a prefix while it acquires, a suffix while it releases.
def Call.Holds : Call n → Fin n → Prop
  | .writing k,  i => i < k
  | .writeGuard, _ => True
  | .dropping k, i => k ≤ i
  | _,           _ => False

def Call.Bounded : Call n → Prop
  | .writing k | .dropping k => k ≤ n
  | _                        => True

@[simp] theorem State.setLock_call (s : State n τ) (i : Fin n) (l : RwLock τ) :
    (s.setLock i l).call = s.call := rfl

@[simp] theorem State.setLock_locks (s : State n τ) (i j : Fin n) (l : RwLock τ) :
    (s.setLock i l).locks j = if j = i then l else s.locks j := by
  simp [State.setLock, Function.update_apply]

structure Inv (s : State n τ) : Prop where
  writer    : ∀ i t, (s.locks i).writer = some t ↔ (s.call t).Holds i
  readers   : ∀ i t, t ∈ (s.locks i).readers ↔ s.call t = .readGuard i
  exclusive : ∀ i, (s.locks i).writer = none ∨ (s.locks i).readers = ∅
  bounded   : ∀ t, (s.call t).Bounded

theorem Inv.initial {s : State n τ} (h : s.Initial) : Inv s where
  writer i t  := by simp [h.locks, h.call, Call.Holds]
  readers i t := by simp [h.locks, h.call]
  exclusive i := by simp [h.locks]
  bounded t   := by simp [h.call, Call.Bounded]

variable [DecidableEq τ] {π : Policy n τ} {s s₁ s₂ : State n τ} {t : τ}

@[simp] theorem State.setCall_locks (s : State n τ) (t : τ) (c : Call n) :
    (s.setCall t c).locks = s.locks := rfl

@[simp] theorem State.setCall_call (s : State n τ) (t u : τ) (c : Call n) :
    (s.setCall t c).call u = if u = t then c else s.call u := by
  simp [State.setCall, Function.update_apply]

namespace Inv

-- A step that only moves a thread along, without changing what it holds.
theorem setCall (h : Inv s) (hb : c.Bounded) (hh : ∀ i, c.Holds i ↔ (s.call t).Holds i)
    (hr : ∀ i, c = .readGuard i ↔ s.call t = .readGuard i) : Inv (s.setCall t c) where
  writer i u    := by by_cases hu : u = t <;> simp [hu, hh, h.writer]
  readers i u   := by by_cases hu : u = t <;> simp [hu, hr, h.readers]
  exclusive     := h.exclusive
  bounded u     := by by_cases hu : u = t <;> simp [hu, hb, h.bounded]

-- A step in which `t` moves along and the lock of one shard changes.
theorem setLock_setCall (h : Inv s) (hb : c.Bounded)
    (hw : ∀ u, l.writer = some u ↔ if u = t then c.Holds i else (s.call u).Holds i)
    (hr : ∀ u, u ∈ l.readers ↔ if u = t then c = .readGuard i else s.call u = .readGuard i)
    (he : l.writer = none ∨ l.readers = ∅)
    (hj : ∀ j, j ≠ i → (c.Holds j ↔ (s.call t).Holds j))
    (hrj : ∀ j, j ≠ i → (c = .readGuard j ↔ s.call t = .readGuard j)) :
    Inv (s.setLock i l |>.setCall t c) where
  writer j u := by
    by_cases hi : j = i
    case pos => subst hi; by_cases hu : u = t <;> simp [hw, hu]
    case neg => by_cases hu : u = t <;> simp [hi, hu, hj j hi, h.writer]
  readers j u := by
    by_cases hi : j = i
    case pos => subst hi; by_cases hu : u = t <;> simp [hr, hu]
    case neg => by_cases hu : u = t <;> simp [hi, hu, hrj j hi, h.readers]
  exclusive j := by by_cases hi : j = i <;> simp [hi, he, h.exclusive]
  bounded u   := by by_cases hu : u = t <;> simp [hu, hb, h.bounded]

theorem acquireShared (h : Inv s₁) (hh : ∀ i, ¬(s₁.call t).Holds i)
    (hr : ∀ i, s₁.call t ≠ .readGuard i) (ha : s₁.acquireShared π t i = some s₂) : Inv s₂ := by
  simp only [State.acquireShared, RwLock.tryLockShared] at ha
  split at ha
  case isTrue => contradiction
  case isFalse =>
    split at ha
    case isFalse => contradiction
    case isTrue hw =>
      cases ha
      apply h.setLock_setCall (by trivial)
      case hw =>
        intro u
        have := h.writer i u
        rw [hw] at this
        by_cases hu : u = t <;> simp_all [Call.Holds]
      case hr => intro u; by_cases hu : u = t <;> simp [hu, h.readers]
      case he => exact .inl hw
      case hj => intro j _; simpa [Call.Holds] using hh j
      case hrj => intro j hj; simp [hr j, hj.symm]

theorem acquireExclusive (h : Inv s₁) (hc : s₁.call t = .writing i.val)
    (ha : s₁.acquireExclusive t i = some s₂) : Inv s₂ := by
  simp only [State.acquireExclusive, RwLock.tryLockExclusive] at ha
  split at ha
  case isFalse => contradiction
  case isTrue hl =>
    have ⟨hw, hr⟩ := hl
    cases ha
    apply h.setLock_setCall (c := .writing (i + 1)) (show i.val + 1 ≤ n by omega)
    case hw =>
      intro u
      have hn : ¬(s₁.call u).Holds i := by simp [← h.writer, hw]
      by_cases hu : u = t
      case pos => simp [hu, Call.Holds]
      case neg => simp [hu, Ne.symm hu, hn]
    case hr =>
      intro u
      have := h.readers i u
      rw [hr] at this
      by_cases hu : u = t <;> simp_all
    case he => exact .inr hr
    case hj =>
      intro j hj
      have : j.val ≠ i.val := fun e => hj (Fin.ext e)
      simp only [hc, Call.Holds]
      omega
    case hrj => intro j _; simp [hc]

theorem unlockShared (h : Inv s) (hc : s.call t = .readGuard i) :
    Inv (s.setLock i ((s.locks i).unlockShared t) |>.setCall t .idle) := by
  have hm : t ∈ (s.locks i).readers := h.readers i t |>.mpr hc
  have hw : (s.locks i).writer = none :=
    h.exclusive i |>.resolve_right <| Finset.ne_empty_of_mem hm
  apply h.setLock_setCall (by trivial)
  case hw =>
    intro u
    have := h.writer i u
    by_cases hu : u = t <;> simp_all [RwLock.unlockShared, Call.Holds]
  case hr => intro u; by_cases hu : u = t <;> simp [hu, RwLock.unlockShared, h.readers]
  case he => exact .inl hw
  case hj => intro j _; simp [hc, Call.Holds]
  case hrj => intro j hj; simp [hc, hj.symm]

omit [DecidableEq τ] in
-- The writer that releases shard `k` is the one that holds it.
theorem dropping_writer (h : Inv s) (hc : s.call t = .dropping k) (hk : k < n) :
    (s.locks ⟨k, hk⟩).writer = some t :=
  h.writer ⟨k, hk⟩ t |>.mpr <| by simp [hc, Call.Holds]

theorem unlockExclusive (h : Inv s) (hc : s.call t = .dropping k) (hk : k < n) :
    Inv (s.setLock ⟨k, hk⟩ (s.locks ⟨k, hk⟩).unlockExclusive |>.setCall t (.dropping (k + 1))) := by
  have hw := h.dropping_writer hc hk
  have hr : (s.locks ⟨k, hk⟩).readers = ∅ := h.exclusive ⟨k, hk⟩ |>.resolve_left (by simp [hw])
  apply h.setLock_setCall (c := .dropping (k + 1)) (show k + 1 ≤ n by omega)
  case hw =>
    intro u
    have hn (hu : u ≠ t) : ¬(s.call u).Holds ⟨k, hk⟩ := by simp [← h.writer, hw, hu.symm]
    by_cases hu : u = t
    case pos => simp [hu, RwLock.unlockExclusive, Call.Holds]
    case neg => simp [hu, RwLock.unlockExclusive, hn hu]
  case hr =>
    intro u
    have := h.readers ⟨k, hk⟩ u
    rw [hr] at this
    by_cases hu : u = t <;> simp_all [RwLock.unlockExclusive]
  case he => exact .inl rfl
  case hj =>
    intro j hj
    have : j.val ≠ k := fun e => hj (Fin.ext e)
    simp only [hc, Call.Holds]
    omega
  case hrj => intro j _; simp [hc]

theorem next (h : Inv s₁) (a : Act n τ) (hs : s₁.next π a = some s₂) : Inv s₂ := by
  cases a <;> simp only [State.next] at hs
  case setShard => cases hs; exact ⟨h.writer, h.readers, h.exclusive, h.bounded⟩
  case tryRead t =>
    split at hs
    case isFalse => contradiction
    case isTrue hc =>
      cases ha : s₁.acquireShared π t (s₁.shard t) <;> simp only [ha] at hs <;> cases hs
      case none => exact h
      case some => exact h.acquireShared (by simp [hc, Call.Holds]) (by simp [hc]) ha
  case lockShared t =>
    split at hs
    case h_1 i hc => exact h.acquireShared (by simp [hc, Call.Holds]) (by simp [hc]) hs
    case h_2 => contradiction
  case lockExclusive t =>
    split at hs <;> try contradiction
    case h_1 k hc =>
      split at hs <;> try contradiction
      case isTrue hk => exact h.acquireExclusive hc hs
  case dropRead t =>
    split at hs <;> cases hs
    case h_1 i hc => exact h.unlockShared hc
  case unlock t =>
    split at hs <;> try contradiction
    case h_1 k hc =>
      split at hs <;> cases hs
      case isTrue hk => exact h.unlockExclusive hc hk
  -- What remains only moves the thread along.
  all_goals
    split at hs <;> cases hs
    apply h.setCall <;> simp [‹s₁.call _ = _›, Call.Holds, Call.Bounded]

theorem reachable (h : (system π).Reachable s) : Inv s :=
  h.invariant (fun _ => initial) (fun _ a _ hi hs => hi.next a hs)

end Inv

-- While a constructed write guard has not begun to drop, it excludes every other write guard and
-- every read guard, and whatever shard a write guard's drop unlocks is one its writer holds.
theorem write_guard_exclusive (π : Policy n τ) (s : State n τ) (h : (system π).Reachable s) :
    (∀ t, s.call t = .writeGuard →
      (∀ u, s.call u = .writeGuard → u = t) ∧ (∀ u i, s.call u ≠ .readGuard i)) ∧
    (∀ t k (hk : k < n), s.call t = .dropping k → (s.locks ⟨k, hk⟩).writer = some t) := by
  have hi := Inv.reachable h
  refine ⟨fun t ht => ⟨fun u hu => ?unique, fun u i hu => ?noReader⟩, fun t k hk hc => ?holds⟩
  case unique =>
    let i := s.shard t
    have h₁ : (s.locks i).writer = some t := hi.writer i t |>.mpr <| by simp [ht, Call.Holds]
    have h₂ : (s.locks i).writer = some u := hi.writer i u |>.mpr <| by simp [hu, Call.Holds]
    simpa [h₁, eq_comm] using h₂
  case noReader =>
    have h₁ : (s.locks i).writer = some t := hi.writer i t |>.mpr <| by simp [ht, Call.Holds]
    have h₂ : u ∈ (s.locks i).readers := hi.readers i u |>.mpr hu
    cases hi.exclusive i
    case inl h => simp [h₁] at h
    case inr h => simp [h] at h₂
  case holds => exact hi.dropping_writer hc hk

-- Two shards, two threads: `true` has locked both shards while `false` waits to read.
def writerHolds : List (Act 2 Bool) :=
  [.write true, .lockExclusive true, .read false, .lockExclusive true, .finishWrite true]

def allIdle : State 2 Bool where
  locks _ := {}
  shard _ := Fin.last 1
  call _  := .idle

def writerHeld : State 2 Bool :=
  (System.exec (State.next (.writerPreference 2 Bool)) allIdle writerHolds).getD allIdle

theorem writerHeld_reachable : (system (.writerPreference 2 Bool)).Reachable writerHeld :=
  have h : System.exec (State.next (.writerPreference 2 Bool)) allIdle writerHolds = some writerHeld := rfl
  System.reachable_of_exec (.init ⟨fun _ => rfl, fun _ => rfl⟩) h

theorem write_guard_exclusive_writerHeld : ¬∃ i, writerHeld.call false = .readGuard i := by
  have h := write_guard_exclusive _ writerHeld writerHeld_reachable
  exact fun ⟨i, hi⟩ => h.left true rfl |>.right false i hi

end ShardedRwLock
