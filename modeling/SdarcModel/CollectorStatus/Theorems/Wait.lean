import SdarcModel.CollectorStatus.Theorems.Step
import Mathlib.Algebra.Ring.Nat

namespace CollectorStatus

-- A step that writes the status.
def Label.sets : Label T → Bool
  | .collector .set => true
  | _               => false

namespace State

variable {T : Type} [DecidableEq T] {s s₁ s₂ : State T} {t : T}

-- The serial number of the status, without a bound.
def serial (s : State T) : Nat :=
  match s.collector with
  | .lockRunning | .setRunning => 2 * s.iterations - 1
  | .unlockRunning | .take | .inner | .innerAgain | .lockWaiting | .setWaiting => 2 * s.iterations
  | .head | .notify | .unlockWaiting | .parked => 2 * s.iterations + 1

-- The status is that of the iteration the collector is in.
structure WellCounted (s : State T) : Prop where
  counter : s.outerIterationCounter = .ofNat s.iterations
  status  :
    match s.collector with
    | .lockRunning | .setRunning => 0 < s.iterations ∧ s.status = .waiting (.ofNat (s.iterations - 1))
    | .unlockRunning | .take | .inner | .innerAgain | .lockWaiting | .setWaiting =>
      0 < s.iterations ∧ s.status = .running (.ofNat s.iterations)
    | .head | .notify | .unlockWaiting | .parked => s.status = .waiting (.ofNat s.iterations)

omit [DecidableEq T] in
theorem WellCounted.initial (h : s.Initial) : s.WellCounted where
  counter := by simp [h.outerIterationCounter, h.iterations]
  status  := by simp [h.collector, h.status, h.iterations]

omit [DecidableEq T] in
theorem WellCounted.collector (h : s₁.WellCounted) (stp : CollectorStep s₁ a s₂) : s₂.WellCounted := by
  obtain ⟨hc, hs⟩ := h
  cases stp <;> constructor <;> simp_all

-- The callers write neither the status nor the counter.
theorem WellCounted.caller (h : s₁.WellCounted) (stp : CallerStep s₁ t a s₂) : s₂.WellCounted := by
  obtain ⟨hc, hs⟩ := h
  cases stp <;> exact ⟨hc, hs⟩

theorem WellCounted.step {l : Label T} (h : s₁.WellCounted) (stp : Step s₁ l s₂) : s₂.WellCounted := by
  cases stp
  case collector stp => exact h.collector stp
  case caller stp    => exact h.caller stp

theorem Step.iterations_le {l : Label T} (stp : Step s₁ l s₂) : s₁.iterations ≤ s₂.iterations := by
  cases stp
  case collector stp => cases stp <;> simp
  case caller stp    => cases stp <;> simp

-- Writing the status raises the serial number by one, and nothing else changes it.
theorem WellCounted.serial_step {l : Label T} (h : s₁.WellCounted) (stp : Step s₁ l s₂) :
    s₂.serial = s₁.serial + if l.sets then 1 else 0 := by
  cases stp
  case collector stp =>
    have hs := h.status
    cases stp <;> simp_all [serial, Label.sets] <;> omega
  case caller stp => cases stp <;> rfl

omit [DecidableEq T] in
theorem WellCounted.toNat_toSerialNumber (h : s.WellCounted) (lt : s.iterations < 2 ^ 62) :
    s.status.toSerialNumber.toNat = s.serial := by
  have hs := h.status
  simp only [serial]
  split <;> simp_all [CollectorState.toSerialNumber, UInt64.toNat_add, UInt64.toNat_mul] <;> omega

theorem WellCounted.of_run (r : (system T).Run s₁ tr s₂) (h : s₁.WellCounted) : s₂.WellCounted :=
  r.invariant h fun _ _ _ h stp => h.step (.of_next stp)

theorem WellCounted.serial_run (r : (system T).Run s₁ tr s₂) (h : s₁.WellCounted) :
    s₂.serial = s₁.serial + tr.countP (·.2.sets) := by
  induction r
  case refl => simp
  case step stp _ ih =>
    have stp := Step.of_next stp
    rw [ih (h.step stp), h.serial_step stp, List.countP_cons]
    dsimp only
    omega

theorem iterations_le_of_run (r : (system T).Run s₁ tr s₂) : s₁.iterations ≤ s₂.iterations := by
  induction r
  case refl          => exact Nat.le_refl _
  case step stp _ ih => exact Nat.le_trans (Step.of_next stp).iterations_le ih

-- The status a caller waits for has the serial number of the end of the next iteration to begin.
omit [DecidableEq T] in
theorem WellCounted.toNat_after (h : s.WellCounted) (lt : s.iterations < 2 ^ 62) :
    s.status.afterAtLeastOneFullCollection.toSerialNumber.toNat = 2 * (s.serial / 2) + 3 := by
  have hs := h.status
  simp only [serial]
  split <;> simp_all [CollectorState.afterAtLeastOneFullCollection, CollectorState.toSerialNumber,
    UInt64.toNat_add, UInt64.toNat_mul] <;> omega

-- What a caller knows that has locked the mutex when the serial number was `p`.
structure Awaits (p : Nat) (t : T) (s : State T) : Prop where
  serial : p ≤ s.serial
  caller :
    match s.caller t with
    | .idle | .lock | .unpark | .read => True
    | .check target | .asleep target | .relock target => 2 * (p / 2) + 3 ≤ target.toSerialNumber.toNat
    | .unlock => 2 * (p / 2) + 3 ≤ s.serial

theorem Awaits.collector (h : Awaits p t s₁) (w : s₁.WellCounted) (stp : CollectorStep s₁ a s₂) :
    Awaits p t s₂ := by
  have hs := w.serial_step (.collector stp)
  have hc : s₂.caller = s₁.caller := by cases stp <;> rfl
  have := h.serial
  have := h.caller
  refine ⟨by omega, ?_⟩
  rw [hc]
  split <;> simp_all
  omega

theorem Awaits.caller_step (h : Awaits p t s₁) (w : s₁.WellCounted) (lt : s₁.iterations < 2 ^ 62)
    (stp : CallerStep s₁ u a s₂) : Awaits p t s₂ := by
  have hs : s₂.serial = s₁.serial := w.serial_step (.caller stp)
  have hp := h.serial
  refine ⟨hs ▸ hp, ?_⟩
  have hc := h.caller
  by_cases hu : t = u
  case neg =>
    have he : s₂.caller t = s₁.caller t := by cases stp <;> exact Function.update_of_ne hu ..
    rw [he]
    split <;> simp_all
  case pos =>
    subst hu
    cases stp
    case read pc =>
      simp only [Function.update_self, w.toNat_after lt]
      omega
    case done target pc hn =>
      simp only [pc] at hc
      simp only [Function.update_self]
      have hl : ¬s₁.status.toSerialNumber < target.toSerialNumber := hn
      rw [UInt64.lt_iff_toNat_lt, w.toNat_toSerialNumber lt] at hl
      omega
    all_goals simp_all

theorem Awaits.of_run (r : (system T).Run s₁ tr s₂) (h : Awaits p t s₁) (w : s₁.WellCounted)
    (lt : s₂.iterations < 2 ^ 62) : Awaits p t s₂ := by
  induction r
  case refl => exact h
  case step stp r ih =>
    have hn := Step.of_next stp
    have := hn.iterations_le
    have := iterations_le_of_run r
    refine ih ?_ (w.step hn) lt
    cases hn
    case collector hn => exact h.collector w hn
    case caller hn    => exact h.caller_step w (by omega) hn

-- What the collector does until it writes the status again.
def Completes : CollectorPc → List CollectorAct → Prop
  | .unlockRunning, as => ∃ k, as = .unlock :: .takeNewCountersToTrack ::
    (.replicate (k + 1) .innerIteration ++ [.doMaintenance, .lock])
  | .take, as          => ∃ k, as = .takeNewCountersToTrack ::
    (.replicate (k + 1) .innerIteration ++ [.doMaintenance, .lock])
  | .inner, as         => ∃ k, as = .replicate (k + 1) .innerIteration ++ [.doMaintenance, .lock]
  | .innerAgain, as    => ∃ k, as = .replicate k .innerIteration ++ [.doMaintenance, .lock]
  | .lockWaiting, as   => as = [.lock]
  | .setWaiting, as    => as = []
  | _, _               => True

theorem completes (r : (system T).Run s₁ tr s₂) (h : ∀ e ∈ tr, e.2.sets = false)
    (hy : s₂.collector = .setWaiting) : Completes s₁.collector (collectorActs tr) := by
  induction r
  case refl => simp [hy, Completes, collectorActs]
  case step s₁ l s tr s₂ stp r ih =>
    simp only [List.forall_mem_cons] at h
    replace ih := ih h.right hy
    cases Step.of_next stp
    case caller stp =>
      have hc : s.collector = s₁.collector := by cases stp <;> rfl
      simpa [collectorActs, hc] using ih
    case collector a stp =>
      have hl : Label.sets (.collector a : Label T) = false := h.left
      have he : collectorActs ((s₁, .collector a) :: tr) = a :: collectorActs tr := rfl
      rw [he]
      cases stp
      case inner pc =>
        rw [pc]
        obtain ⟨k, hk⟩ := ih
        exact ⟨k, by simp [hk, List.replicate_succ]⟩
      case innerAgain pc =>
        rw [pc] at ih ⊢
        obtain ⟨k, hk⟩ := ih
        exact ⟨k + 1, by simp [hk, List.replicate_succ]⟩
      all_goals simp_all [Completes, Label.sets]

omit [DecidableEq T] in
-- Only two steps write the status, and the serial number tells them apart.
theorem WellCounted.pc_of_sets (h : s₁.WellCounted) (stp : CollectorStep s₁ .set s₂) :
    (s₁.collector = .setRunning ∧ s₂.collector = .unlockRunning ∧ s₁.serial % 2 = 1) ∨
    (s₁.collector = .setWaiting ∧ s₁.serial % 2 = 0) := by
  have hs := h.status
  cases stp
  case setRunning pc =>
    simp only [pc] at hs
    refine .inl ⟨pc, rfl, ?_⟩
    simp only [serial, pc]
    omega
  case setWaiting pc =>
    refine .inr ⟨pc, ?_⟩
    simp [serial, pc]

-- The run passes the point at which the serial number goes up from `k`.
theorem WellCounted.exists_set (r : (system T).Run s₁ tr s₂) (w : s₁.WellCounted) (h₁ : s₁.serial ≤ k)
    (h₂ : k < s₂.serial) :
    ∃ tr₁ s s' tr₂, tr = tr₁ ++ (s, .collector .set) :: tr₂ ∧ (system T).Run s₁ tr₁ s ∧
      CollectorStep s .set s' ∧ (system T).Run s' tr₂ s₂ ∧ s.serial = k ∧ s'.serial = k + 1 := by
  obtain ⟨tr₁, s, l, s', tr₂, rfl, r₁, stp, r₂, hk, hk'⟩ := r.exists_step (f := serial) w
    (fun _ _ _ h stp => h.step (.of_next stp))
    (fun _ _ _ h stp => by rw [h.serial_step (.of_next stp)]; split <;> omega) h₁ h₂
  have hs := (w.of_run r₁).serial_step (.of_next stp)
  have hl : l = .collector .set := by
    have : l.sets = true := by
      by_contra hn
      simp [hn] at hs
      omega
    revert this
    simp only [Label.sets]
    split <;> simp
  subst hl
  exact ⟨tr₁, s, s', tr₂, rfl, r₁, .of_collectorStep stp, r₂, hk, hk'⟩

theorem status_eq_of_run (r : (system T).Run s₁ tr s₂) (h : ∀ e ∈ tr, e.2.sets = false) :
    s₁.status = s₂.status := by
  induction r
  case refl => rfl
  case step stp _ ih =>
    rw [List.forall_mem_cons] at h
    rw [← ih h.right]
    cases Step.of_next stp
    case caller stp => cases stp <;> rfl
    case collector stp =>
      cases stp
      case setRunning | setWaiting => exact absurd h.left Bool.noConfusion
      all_goals rfl

theorem WellCounted.status_lt_of_run (r : (system T).Run s₁ tr s₂) (w : s₁.WellCounted)
    (lt : s₂.iterations < 2 ^ 62) (h : ∃ e ∈ tr, e.2.sets = true) : s₁.status < s₂.status := by
  have hp : 0 < tr.countP (·.2.sets) := List.countP_pos_iff.mpr h
  have hs := w.serial_run r
  have hl : s₁.status.toSerialNumber.toNat < s₂.status.toSerialNumber.toNat := by
    rw [w.toNat_toSerialNumber (Nat.lt_of_le_of_lt (iterations_le_of_run r) lt),
      (w.of_run r).toNat_toSerialNumber lt]
    omega
  exact hl

-- Between the two steps of a call in which it locks the mutex and leaves, the collector begins and
-- finishes an iteration.
theorem WellCounted.iteration_of_run (r : (system T).Run s₁ tr s₂) (w : s₁.WellCounted)
    (h : 2 * (s₁.serial / 2) + 3 ≤ s₂.serial) :
    ∃ b₁ x b₂ y b₃ k, tr = b₁ ++ (x, .collector .set) :: (b₂ ++ (y, .collector .set) :: b₃) ∧
      x.collector = .setRunning ∧ y.collector = .setWaiting ∧
      collectorActs b₂ = .unlock :: .takeNewCountersToTrack ::
        (.replicate (k + 1) .innerIteration ++ [.doMaintenance, .lock]) := by
  obtain ⟨b₁, x, x', _, rfl, r₁, hx, r₂, hk, hk'⟩ :=
    w.exists_set r (k := 2 * (s₁.serial / 2) + 1) (by omega) (by omega)
  have wx := w.of_run r₁
  have wx' := wx.step (.collector hx)
  obtain ⟨b₂, y, y', b₃, rfl, r₃, hy, _, hl, _⟩ :=
    wx'.exists_set r₂ (k := 2 * (s₁.serial / 2) + 2) (by omega) (by omega)
  obtain ⟨hpx, hpx', _⟩ := (wx.pc_of_sets hx).resolve_right (by omega)
  have ⟨hpy, _⟩ := ((wx'.of_run r₃).pc_of_sets hy).resolve_left (by omega)
  -- The serial number has not gone up in between, so nothing has been written there.
  have hn : ∀ e ∈ b₂, e.2.sets = false := by
    have hs := wx'.serial_run r₃
    have hz : b₂.countP (·.2.sets) = 0 := by omega
    simpa using List.countP_eq_zero.mp hz
  have hc := completes r₃ hn hpy
  rw [hpx'] at hc
  obtain ⟨k, hc⟩ := hc
  exact ⟨b₁, x, b₂, y, b₃, k, rfl, hpx, hpy, hc⟩

-- A call locks the mutex in the first of two steps and leaves in the second. What is said of the status
-- is about any two instants of a run.
theorem update_now_and_wait (h : s₀.Initial) (r : (system T).Run s₀ tr s) (lt : s.iterations < 2 ^ 62) :
    (∀ a b c s₁ s₂ t, tr = a ++ (s₁, .caller t .lock) :: (b ++ (s₂, .caller t .leave) :: c) →
      ∃ b₁ x b₂ y b₃ k, b = b₁ ++ (x, .collector .set) :: (b₂ ++ (y, .collector .set) :: b₃) ∧
        x.collector = .setRunning ∧ y.collector = .setWaiting ∧
        collectorActs b₂ = .unlock :: .takeNewCountersToTrack ::
          (.replicate (k + 1) .innerIteration ++ [.doMaintenance, .lock])) ∧
    (∀ tr₁ tr₂ s₁, tr = tr₁ ++ tr₂ → (system T).Run s₀ tr₁ s₁ → (system T).Run s₁ tr₂ s →
      ((∃ e ∈ tr₂, e.2.sets = true) → s₁.status < s.status) ∧
      ((∀ e ∈ tr₂, e.2.sets = false) → s₁.status = s.status)) := by
  have w := WellCounted.initial h
  refine ⟨?_, fun tr₁ tr₂ s₁ _ r₁ r₂ => ⟨(w.of_run r₁).status_lt_of_run r₂ lt, status_eq_of_run r₂⟩⟩
  rintro a b c s₁ s₂ t rfl
  obtain ⟨s₁', r₁, lock, r⟩ := r.split_append
  obtain ⟨s₂', r₂, leave, r₃⟩ := r.split_append
  have wl := (w.of_run r₁).step (.of_next lock)
  have lt₂ : s₂.iterations < 2 ^ 62 := by
    have := (Step.of_next leave).iterations_le
    have := iterations_le_of_run r₃
    omega
  have ha : Awaits s₁'.serial t s₁' := by
    refine ⟨Nat.le_refl _, ?_⟩
    cases Step.of_next lock
    case caller stp => cases stp; simp
  have hs := (ha.of_run r₂ wl lt₂).caller
  cases Step.of_next leave
  case caller stp =>
    cases stp
    case leave pc =>
      simp only [pc] at hs
      exact wl.iteration_of_run r₂ hs

def start : State Unit where
  status                := .waiting 0
  mutex                 := none
  outerIterationCounter := 0
  iterations            := 0
  collector             := .head
  caller _              := .idle

-- A call before the first iteration, which has two inner iterations.
def calls : List (Label Unit) :=
  [.call, .lock, .run, .run, .run].map (.caller ()) ++
  [.beginIteration, .lock, .set, .unlock, .takeNewCountersToTrack, .innerIteration, .innerIteration,
    .doMaintenance, .lock, .set, .notifyAll, .unlock].map .collector ++
  [.wake, .relock, .run, .leave].map (.caller ())

def called : State Unit :=
  (System.exec next start calls).getD start

theorem update_now_and_wait_called :
    called.caller () = .idle ∧ start.status < called.status ∧
      ∃ e ∈ System.trace next start calls, e.1.collector = .setRunning ∧ e.2 = .collector .set := by
  have he : System.exec next start calls = some called := rfl
  have hi : start.Initial := ⟨rfl, rfl, rfl, rfl, rfl, fun _ => rfl⟩
  have h := update_now_and_wait hi (System.run_of_exec he) (by decide)
  obtain ⟨b₁, x, b₂, y, b₃, _, hb, hx, _⟩ :=
    h.left [_] (System.trace next start calls |>.drop 2 |>.dropLast) [] _ _ () rfl
  refine ⟨rfl, (h.right [] _ start rfl .refl (System.run_of_exec he)).left (by decide), (x, .collector .set), ?_, hx, rfl⟩
  refine List.mem_of_mem_drop (i := 2) (List.dropLast_subset _ ?_)
  simp [hb]

end State
end CollectorStatus
