import SdarcModel.ReaderCriticalSection.Basic

open scoped BigOperators

namespace ReaderCriticalSection

@[simp] theorem Frame.isOn_section : (Frame.section k j).isOn i = decide (j = i) := rfl

@[simp] theorem Frame.isOn_catchUnwind : (Frame.catchUnwind : Frame n).isOn i = false := rfl

@[simp] theorem Frame.isOn_destructor : (Frame.destructor : Frame n).isOn i = false := rfl

namespace State

variable {n : Nat} {T : Type} [DecidableEq T] {s s₁ s₂ : State n T} {t : T}

-- What a thread's step does: it changes its own stack and, with it, one counter.
inductive Effect (s : State n T) (t : T) : State n T → Prop
  | enter (th : Thread n) (frames : th.frames = .section s.entered i :: (s.threads t).frames) :
    Effect s t { s.fetchAdd i 1 |>.setThread t th with entered := s.entered + 1 }
  | leave (th : Thread n) (frames : (s.threads t).frames = .section k i :: th.frames) :
    Effect s t (s.fetchAdd i (-1) |>.setThread t th)
  | other (th : Thread n) (sections : ∀ id i, .section id i ∈ th.frames → .section id i ∈ (s.threads t).frames)
      (count : ∀ i, th.frames.countP (Frame.isOn i) = (s.threads t).frames.countP (Frame.isOn i)) :
    Effect s t (s.setThread t th)

theorem Effect.of_pop (h : s.pop t = some s') : Effect s t s' := by
  simp only [pop] at h
  split at h
  case h_1 => contradiction
  case h_2 hf => cases h; exact .leave _ hf
  case h_3 hf => cases h; exact .other _ (by simp [hf]) (by simp [hf])
  case h_4 hf =>
    split at h
    case isTrue  => contradiction
    case isFalse => cases h; exact .other _ (by simp [hf]) (by simp [hf])

theorem Effect.of_threadStep (h : s.threadStep t a = some s') : Effect s t s' := by
  simp only [threadStep] at h
  split at h
  case h_1 => cases h; exact .enter _ rfl
  case h_2 => cases h; exact .other _ (by simp) (by simp)
  case h_3 => cases h; exact .other _ (by simp) (by simp)
  case h_4 => exact .of_pop h
  case h_5 => cases h; exact .other _ (by simp) (by simp)
  case h_6 => exact .of_pop h
  case h_7 => cases h; exact .other _ (by simp) (by simp)
  case h_8 => contradiction

omit [DecidableEq T] in
@[simp] theorem collectorStep_threads (s : State n T) : s.collectorStep.threads = s.threads := by
  simp only [collectorStep]
  repeat' split
  all_goals rfl

omit [DecidableEq T] in
@[simp] theorem collectorStep_counters (s : State n T) : s.collectorStep.counters = s.counters := by
  simp only [collectorStep]
  repeat' split
  all_goals rfl

omit [DecidableEq T] in
@[simp] theorem collectorStep_entered (s : State n T) : s.collectorStep.entered = s.entered := by
  simp only [collectorStep]
  repeat' split
  all_goals rfl

-- Sections are numbered in the order in which they are entered.
def Numbered (s : State n T) : Prop :=
  ∀ k, s.IsOpen k → k < s.entered

theorem Effect.mem_frames (e : Effect s₁ t s₂) (h : .section k i ∈ (s₂.threads u).frames) :
    .section k i ∈ (s₁.threads u).frames ∨ (k = s₁.entered ∧ k < s₂.entered) := by
  by_cases hu : u = t
  case neg => cases e <;> simp_all
  case pos =>
    subst hu
    cases e
    case enter hf =>
      simp only [Function.update_self, hf, List.mem_cons, Frame.section.injEq] at h
      exact h.symm.imp_right fun h => ⟨h.left, by simp [h.left]⟩
    case leave hf   => simp at h; simp [hf, h]
    case other hs _ => simp at h; exact .inl (hs _ _ h)

theorem Effect.entered_le (e : Effect s₁ t s₂) : s₁.entered ≤ s₂.entered := by
  cases e <;> simp

theorem Effect.pc_eq (e : Effect s₁ t s₂) : s₂.pc = s₁.pc := by
  cases e <;> rfl

theorem Numbered.step {l : Label n T} (h : s₁.Numbered) (stp : (system n T).Step s₁ l s₂) : s₂.Numbered := by
  rintro k ⟨t, i, hm⟩
  cases l
  case thread u a =>
    have e := Effect.of_threadStep stp
    cases e.mem_frames hm
    case inl hm => exact (h k ⟨t, i, hm⟩).trans_le e.entered_le
    case inr hk => exact hk.right
  case collector =>
    cases stp
    simp only [collectorStep_threads] at hm
    simpa using h k ⟨t, i, hm⟩

theorem Numbered.of_reachable (h : (system n T).Reachable s) : s.Numbered := by
  refine h.invariant (fun s hs => ?_) fun _ _ _ => .step
  rintro k ⟨t, i, hm⟩
  simp [(hs.threads t).left] at hm

-- The sections numbered from `b` on are new. The others that are still open were entered on shards
-- that the collector has yet to see idle.
def Observed (b : Nat) (s : State n T) : Prop :=
  b ≤ s.entered ∧ ∀ t k i, .section k i ∈ (s.threads t).frames → k < b →
    match s.pc with
    | .idle           => False
    | .first j shards => j ≤ i.val ∨ i ∈ shards
    | .spin shards    => i ∈ shards

omit [DecidableEq T] in
theorem Observed.start (s : State n T) (pc : s.pc = .idle) : Observed s.entered s.collectorStep := by
  refine ⟨by simp, fun t k i hm hk => ?_⟩
  simp [collectorStep, pc]

theorem Observed.thread (h : Observed b s₁) (e : Effect s₁ t s₂) : Observed b s₂ := by
  refine ⟨h.left.trans e.entered_le, fun u k i hm hk => ?_⟩
  have hm := (e.mem_frames hm).resolve_right (by have := h.left; omega)
  rw [e.pc_eq]
  exact h.right u k i hm hk

variable [Fintype T]

-- Each counter holds the number of open sections that were entered on its shard.
def Counted (s : State n T) : Prop :=
  ∀ i, s.counters i = s.opened i

theorem opened_setThread (s : State n T) (t : T) (th : Thread n) (i : Fin n) :
    (s.setThread t th).opened i + (s.threads t).frames.countP (Frame.isOn i) =
      s.opened i + th.frames.countP (Frame.isOn i) :=
  Finset.sum_comp_update (Finset.mem_univ t) s.threads (fun th => th.frames.countP (Frame.isOn i)) th

theorem Counted.effect (h : s₁.Counted) (e : Effect s₁ t s₂) : s₂.Counted := by
  intro j
  have hj := h j
  cases e
  case enter i th hf =>
    have ho := s₁.opened_setThread t th j
    simp only [hf, List.countP_cons, Frame.isOn_section] at ho
    suffices hs : Function.update s₁.counters i (s₁.counters i + 1) j = (s₁.setThread t th).opened j from hs
    by_cases hi : j = i
    case pos => subst hi; simp_all; omega
    case neg => simp_all [eq_comm (a := j)]
  case leave k i th hf =>
    have ho := s₁.opened_setThread t th j
    simp only [hf, List.countP_cons, Frame.isOn_section] at ho
    suffices hs : Function.update s₁.counters i (s₁.counters i + -1) j = (s₁.setThread t th).opened j from hs
    by_cases hi : j = i
    case pos => subst hi; simp_all; omega
    case neg => simp_all [eq_comm (a := j)]
  case other th _ hc =>
    have ho := s₁.opened_setThread t th j
    rw [hc j] at ho
    suffices hs : s₁.counters j = (s₁.setThread t th).opened j from hs
    omega

theorem Counted.step {l : Label n T} (h : s₁.Counted) (stp : (system n T).Step s₁ l s₂) : s₂.Counted := by
  cases l
  case thread => exact h.effect (.of_threadStep stp)
  case collector =>
    cases stp
    intro i
    simpa [opened] using h i

omit [DecidableEq T] in
theorem Counted.initial (h : s.Initial) : s.Counted := by
  intro i
  simp [h.counters, opened, (h.threads _).left]

theorem Counted.of_reachable (h : (system n T).Reachable s) : s.Counted :=
  h.invariant (fun _ => .initial) fun _ _ _ => .step

omit [DecidableEq T] in
theorem Counted.not_mem (h : s.Counted) (hz : s.counters i = 0) (t : T) (k : Nat) :
    .section k i ∉ (s.threads t).frames := by
  intro hf
  have ho : s.opened i = 0 := by have := h i; omega
  have hc := (Finset.sum_eq_zero_iff.mp ho) t (Finset.mem_univ t)
  simpa using List.countP_eq_zero.mp hc _ hf

-- A shard goes off the list when its counter is read as zero, so when no section on it is open.
omit [DecidableEq T] in
theorem Observed.collector (h : Observed b s) (hc : s.Counted) : Observed b s.collectorStep := by
  refine ⟨by simpa using h.left, fun t k i hm hk => ?_⟩
  rw [collectorStep_threads] at hm
  have ho := h.right t k i hm hk
  have hz : s.counters i ≠ 0 := fun hz => hc.not_mem hz t k hm
  cases pc : s.pc
  case idle => simp [pc] at ho
  case first j shards =>
    simp only [pc] at ho
    by_cases hj : j < n
    case neg => simpa [collectorStep, pc, hj] using ho.resolve_left (by omega)
    case pos =>
      simp only [collectorStep, pc, hj, dite_true]
      split
      case isTrue =>
        by_cases he : i.val = j
        case pos => exact .inr (by simp [← he])
        case neg => exact ho.imp (by omega) (List.mem_append_left _)
      case isFalse hr =>
        have he : i.val ≠ j := by rintro rfl; exact hr hz
        exact ho.imp_left (by omega)
  case spin shards =>
    simp only [pc] at ho
    cases shards
    case nil => simp at ho
    case cons j shards =>
      by_cases hj : s.counters j = 0
      case neg => simpa [collectorStep, pc, hj] using ho
      case pos =>
        have he : i ≠ j := by rintro rfl; exact hz hj
        simpa [collectorStep, pc, hj, he] using ho

theorem Observed.of_run (r : (system n T).Run s₁ tr s₂) (h : Observed b s₁) (hc : s₁.Counted) :
    Observed b s₂ := by
  refine (r.invariant (I := fun s => Observed b s ∧ s.Counted) ⟨h, hc⟩ ?_).left
  rintro s₁ (⟨t, a⟩ | _) s₂ ⟨h, hc⟩ stp
  case thread    => exact ⟨h.thread (.of_threadStep stp), hc.step stp⟩
  case collector => cases stp; exact ⟨h.collector hc, hc.step (l := .collector) rfl⟩

-- The second run begins with the call of the spin. It is over once the collector is idle again.
theorem grace_period (h : (system n T).Reachable s₁) :
    (∀ i, s₁.counters i = s₁.opened i) ∧
    (∀ t k i, .section k i ∈ (s₁.threads t).frames → 0 < s₁.counters i) ∧
    ∀ tr s₂, s₁.pc = .idle → (system n T).Run s₁ ((s₁, .collector) :: tr) s₂ → s₂.pc = .idle →
      ∀ k, s₁.IsOpen k → ¬s₂.IsOpen k := by
  have hc := Counted.of_reachable h
  refine ⟨hc, fun t k i hm => ?_, fun tr s₂ pc r pc₂ k hk => ?_⟩
  · have hz : s₁.counters i ≠ 0 := fun hz => hc.not_mem hz t k hm
    have := hc i
    omega
  · cases r
    case step stp r =>
      cases stp
      have ho := Observed.of_run r (.start s₁ pc) (hc.step (l := .collector) rfl)
      rintro ⟨t, i, hm⟩
      simpa [pc₂] using ho.right t k i hm (Numbered.of_reachable h k hk)

def start : State 1 Bool where
  counters _ := 0
  threads _  := { shard := Fin.last 0 }
  pc         := .idle
  entered    := 0

-- A thread that catches panics is in a section.
def reading : State 1 Bool :=
  (System.exec next start [.thread true .catchUnwind, .thread true .readerCriticalSection]).getD start

-- The collector finds the shard busy. The section panics, and before the call of the spin is over the
-- other thread has entered the next section.
def spins : List (Label 1 Bool) :=
  [.collector, .collector, .collector, .collector, .thread true .panic, .thread true .unwind,
    .collector, .thread false .readerCriticalSection, .collector]

def observed : State 1 Bool :=
  (System.exec next reading spins).getD start

theorem grace_period_panicked :
    reading.IsOpen 0 ∧ observed.pc = .idle ∧ ¬observed.IsOpen 0 ∧ observed.IsOpen 1 := by
  have hr : System.exec next start [.thread true .catchUnwind, .thread true .readerCriticalSection] =
    some reading := rfl
  have ho : System.exec next reading spins = some observed := rfl
  have hi : (system 1 Bool).Reachable reading :=
    System.reachable_of_exec (.init ⟨fun _ => rfl, fun _ => ⟨rfl, rfl⟩, rfl, rfl⟩) hr
  have h₀ : reading.IsOpen 0 := ⟨true, Fin.last 0, List.mem_cons_self⟩
  refine ⟨h₀, rfl, ?_, false, Fin.last 0, List.mem_cons_self⟩
  exact (grace_period hi).right.right _ observed rfl (System.run_of_exec ho) rfl 0 h₀

end State
end ReaderCriticalSection
