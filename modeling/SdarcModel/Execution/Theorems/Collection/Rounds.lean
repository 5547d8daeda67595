import SdarcModel.Execution.Theorems.Collection.Visits

open scoped BigOperators

namespace Sdarc

theorem CollectorPc.Visiting.settled {pc : CollectorPc n} (h : pc.Visiting c state) :
    pc.batch = [] ∧ ∀ j, ¬pc.Takes j := by
  cases pc <;> simp_all [Visiting, batch, Takes]

namespace State

variable {n : Nat} {T C : Type} {s s' : State n T C} {o : Ownership C} {S : Finset Ptr} {ℓ : Ptr → Nat} {p : Ptr}

theorem Within.mono (h : s.Within p k b) (hj : j ≤ k) : s.Within p j b := by
  simp only [Within] at *
  grind

theorem Within.of_trackedAs (h : s.Within p j b) (ht : ∀ state, s.TrackedAs p state → s'.TrackedAs p state)
    (ho : s'.mem.Open p → s.mem.Open p) : s'.Within p j b :=
  h.imp_right (·.imp
    (.imp (ht _) (·.imp_right (.imp_left (mt ho))))
    (.imp_left (ht _)))

theorem Within.le (h : s.Within p j b) : j ≤ b := by
  simp only [Within] at h
  omega

theorem trackedAs_unique (h : s.TrackedAs p state) (h' : s.TrackedAs p state') : state = state' := by
  simpa using h.symm.trans h'

theorem Within.of_defaultState (h : s.Within p j b) (ht : s.TrackedAs p .defaultState) : j + 3 ≤ b := by
  refine h.resolve_right fun h => ?_
  cases h
  case inl h => simpa using trackedAs_unique ht h.left
  case inr h => simpa using trackedAs_unique ht h.left

theorem Within.of_requiresReChecking (h : s.Within p j b) (ht : s.TrackedAs p .requiresReChecking) :
    j + 2 ≤ b ∨ (¬s.mem.Open p ∧ j + 1 ≤ b) := by
  rcases h with h | h | h
  case inl     => exact .inl (Nat.le_of_succ_le h)
  case inr.inl => exact h.right
  case inr.inr => simpa using trackedAs_unique ht h.left

-- After it has taken what was pending, the collector tracks the object until it frees it.
theorem Scanned.exists_trackedAs (w : WellFormed s) (sc : Scanned s p) (hc : s.mem.Completed p) (hf : s.mem.freed p = 0)
    (hr : ¬s.col.pc.Removed p) (hb : s.col.pc.batch = []) (ht : ∀ j, ¬s.col.pc.Takes j) :
    ∃ state, s.TrackedAs p state := by
  have ⟨l, hl⟩ := w.tracked.exists_at hc
  cases l
  case pending j => exact absurd (sc.pending j _ hl rfl) (ht j)
  case batch     => simp [At, hb] at hl
  case removed   => exact absurd hl (by simp [At, hr, hf])
  case tracked =>
    obtain ⟨⟨_, state⟩, hl, rfl⟩ := hl
    exact ⟨state, hl⟩

variable [DecidableEq T] [DecidableEq C]

omit [DecidableEq C] in
theorem CollectorStep.open_of_step (st : CollectorStep s s') (h : s'.mem.Open p) : s.mem.Open p := by
  obtain ⟨v, hi, hb⟩ := h
  induction st <;> exact ⟨v, by grind, by grind⟩

omit [DecidableEq T] [DecidableEq C] in
@[simp] theorem rounds_visit (a : Pass) (c : Slot) (state : TrackedCounterState) :
    s.rounds (a.visit c state) = s.rounds a := by
  cases state <;> rfl

omit [DecidableEq T] [DecidableEq C] in
-- The end of `update_state`: the object it was about is put down again.
theorem Scheduled.visited (sc : s.Scheduled p b) (ph : s.col.pc.phase = .visiting a (some c))
    (hs : s'.col = (s.visited a c state).col) (hc : s'.mem.counters p = s.mem.counters p)
    (ho : s'.mem.Open p → s.mem.Open p)
    (visit : s.mem.counters p = c → s.Within p (s.rounds a) b →
      state ≠ .defaultState ∧ s'.Within p (s.rounds a + 1) b) : s'.Scheduled p b := by
  have hr : s'.rounds (a.visit c state) = s.rounds a := by
    rw [← rounds_visit a c state, rounds, rounds, hs]
  have ph' : s'.col.pc.phase = .visiting (a.visit c state) none := by rw [hs]; rfl
  simp only [Scheduled, ph, ph', hr, hc] at sc ⊢
  by_cases hpc : s.mem.counters p = c
  case pos =>
    obtain ⟨hd, hw⟩ := visit hpc (sc.elim And.right (·.right.mono (Nat.le_succ _)))
    exact .inr ⟨by cases state <;> simp_all [Pass.visit], hw⟩
  case neg =>
    have hw j (h : s.Within p j b) : s'.Within p j b := h.of_trackedAs (fun state' ht => by
      rw [TrackedAs, hs, hc]
      exact (TrackedCounters.lookup_setState.trans (if_neg hpc)).trans ht) ho
    refine sc.imp (.imp ?_ (hw _)) (.imp ?_ (hw _)) <;> cases state <;> simp [Pass.visit] <;> grind

omit [DecidableEq T] [DecidableEq C] in
theorem Scheduled.of_phase (sd : s.Scheduled p b) (ph : s'.col.pc.phase = s.col.pc.phase)
    (hf : s'.col.pc.toFree = s.col.pc.toFree) (hl : s'.col.loopCounter = s.col.loopCounter)
    (ht : s'.col.tracked = s.col.tracked) (hc : s'.mem.counters p = s.mem.counters p)
    (ho : s'.mem.Open p → s.mem.Open p) (hn : s.Noted p → s'.Noted p) : s'.Scheduled p b := by
  have hw j (h : s.Within p j b) : s'.Within p j b := h.of_trackedAs (fun state h => by rwa [TrackedAs, ht, hc]) ho
  simp only [Scheduled, ph, hf, hl, hc, rounds] at sd ⊢
  cases hp : s.col.pc.phase <;> simp only [hp] at sd ⊢
  case waiting  => exact sd.imp_right (hw _)
  case visiting => exact sd.imp (·.imp_right (hw _)) (·.imp_right (hw _))
  case freeing  => exact sd.imp (·.imp_right (·.imp_right hn)) (hw _)

omit [DecidableEq T] [DecidableEq C] in
theorem Scanned.sum_eq_zero (h : ¬i < n) (hz : s.mem.total p = 0)
    (hs : sum = ∑ j ∈ Scan.before n i, (s.mem.word p j).refCount) : sum = 0 := by
  rw [hs, Scan.before_of_le (Nat.le_of_not_lt h)]
  exact hz

-- The object `update_state` is about is the one that is tracked there.
omit [DecidableEq T] [DecidableEq C] in
theorem WellFormed.trackedAs_of_visiting (w : WellFormed s) (hv : s.col.pc.Visiting (s.mem.counters p) state)
    (ht : s.TrackedAs p state') : s.TrackedAs p state := by
  obtain ⟨q, hq⟩ := (w.visited.visiting _ _ hv).right
  have := ht.symm.trans hq
  simp only [Option.some.injEq, TrackedCounter.mk.injEq] at this
  obtain ⟨rfl, rfl⟩ := this
  exact ht

omit [DecidableEq T] [DecidableEq C] in
theorem WellFormed.init_of_swapBackRef (w : WellFormed s) (pc : s.col.pc = .swapBackRef a (s.mem.counters p) v)
    (ht : s.TrackedAs p state) : (s.mem.inner p).weakInnerRef = .init v := by
  obtain ⟨q, hq, hi⟩ := w.linked.swapping _ _ _ pc
  have := ht.symm.trans hq
  simp only [Option.some.injEq, TrackedCounter.mk.injEq] at this
  exact this.left ▸ hi

section Visited

variable (sd : s.Scheduled p b)
include sd

omit [DecidableEq T] [DecidableEq C] in
-- The end of `update_state` of another object.
theorem Scheduled.passed (ph : s.col.pc.phase = .visiting a (some c)) (hc : s.mem.counters p ≠ c) :
    (s.visited a c state).Scheduled p b :=
  sd.visited ph rfl rfl id fun h => absurd h hc

omit [DecidableEq T] [DecidableEq C] in
theorem Scheduled.cleared (ph : s.col.pc.phase = .visiting a (some c))
    (ht : s.mem.counters p = c → s.TrackedAs p .defaultState) : (s.visited a c .requiresReChecking).Scheduled p b := by
  refine sd.visited ph rfl rfl id fun h hw => ⟨by simp, ?_⟩
  have := hw.of_defaultState (ht h)
  subst h
  exact .inr (.inl ⟨TrackedCounters.lookup_setState_self (ht rfl), .inl (by omega)⟩)

omit [DecidableEq T] [DecidableEq C] in
theorem Scheduled.found (ph : s.col.pc.phase = .visiting a (some c))
    (ht : s.mem.counters p = c → s.TrackedAs p .requiresReChecking) : (s.visited a c .readyToFree).Scheduled p b := by
  refine sd.visited ph rfl rfl id fun h hw => ⟨by simp, ?_⟩
  have := hw.of_requiresReChecking (ht h)
  subst h
  exact .inr (.inr ⟨TrackedCounters.lookup_setState_self (ht rfl), by omega⟩)

omit [DecidableEq C] in
-- The back reference to the object is cleared, which happens once.
theorem Scheduled.closed (w : WellFormed s) (hp : p < s.mem.next) (pc : s.col.pc = .swapBackRef a c v)
    (old : s.mem.backRef v = some q) (ht : s.mem.counters p = c → s.TrackedAs p .requiresReChecking) :
    (s.modifyMem (·.clearBackRef v) |>.visited a c .requiresReChecking).Scheduled p b := by
  have st : CollectorStep s (s.modifyMem (·.clearBackRef v) |>.visited a c .requiresReChecking) := .swapBackRef pc old
  have hc := st.counters_eq (p := p)
  refine sd.visited (by rw [pc]; rfl) rfl hc st.open_of_step fun h hw => ⟨by simp, ?_⟩
  have hr := ht h
  subst h
  have hi := w.init_of_swapBackRef pc hr
  have hv : s.mem.backRef v = some p := (w.mem.weak.init p v hp hi).resolve_right (by simp [old])
  have := (hw.of_requiresReChecking hr).resolve_right fun h => h.left ⟨v, hi, hv⟩
  refine .inr (.inl ⟨?_, .inr ⟨?_, by omega⟩⟩)
  · rw [TrackedAs, hc]
    exact TrackedCounters.lookup_setState_self hr
  · rintro ⟨u, hu, hb⟩
    grind

end Visited

omit [DecidableEq C] in
-- Each call of `update_state` on an object without references takes it one step further, and each pass comes
-- to the objects put down for it.
theorem Scheduled.collector (w : WellFormed s) (sc : Scanned s p) (hc : s.mem.Completed p) (hf : s.mem.freed p = 0)
    (hr : ¬s.col.pc.Removed p) (hz : s.mem.total p = 0) (hb : 3 ≤ b) (idle : s.mem.pc none = .idle)
    (sd : s.Scheduled p b) (st : CollectorStep s s') (np : ∀ e, s'.col.pc ≠ .panicked e)
    (hr' : ¬s'.col.pc.Removed p) (goesOn : s'.col.pc ≠ .parked) : s'.Scheduled p b := by
  have hc' := st.counters_eq (p := p)
  have ho := st.open_of_step (p := p)
  have hn (h : s.col.pc.returns = false) (hn : s.Noted p) : s'.Noted p := hn.collector idle h st
  have tracked := sc.exists_trackedAs w hc hf hr
  have visiting state (hv : s.col.pc.Visiting (s.mem.counters p) state) : s.TrackedAs p state :=
    have ⟨_, ht⟩ := tracked hv.settled.left hv.settled.right
    w.trackedAs_of_visiting hv ht
  induction st
  case wake            => trivial
  case take            => trivial
  case taken           => trivial
  case inserted        => trivial
  case insert          => trivial
  case insertReplaced  => exact absurd rfl (np _)
  case nextReady       => exact absurd rfl (np _)
  case reCheckNegative => exact absurd rfl (np _)
  case freeUntracked   => exact absurd rfl (np _)
  case freeNotReady    => exact absurd rfl (np _)
  case freeMismatch    => exact absurd rfl (np _)
  case collectEnd      => exact absurd rfl goesOn
  case spinAgainBusy   => exact sd
  case startAll pc =>
    obtain ⟨_, ht⟩ := tracked (by rw [pc]; rfl) (by simp [pc, CollectorPc.Takes])
    exact .inl ⟨.inl (TrackedCounters.mem_iter.mpr (by simp [ht])), .inl (by simpa [rounds] using hb)⟩
  case startSpecific r pc =>
    simp only [Scheduled, pc, CollectorPc.phase] at sd
    exact .inl ⟨.inl (Finset.mem_ascending.mpr sd.left), sd.right⟩
  case nextNone a pc todo =>
    simp only [Scheduled, pc, CollectorPc.phase, todo] at sd
    obtain ⟨hm, hw⟩ := sd.resolve_left (by simp)
    exact ⟨hm.imp_right .inl, hw⟩
  case nextUntracked a c cs pc todo old =>
    obtain ⟨_, ht⟩ := tracked (by rw [pc]; rfl) (by simp [pc, CollectorPc.Takes])
    have hne : s.mem.counters p ≠ c := fun h => by
      rw [TrackedAs, h, old] at ht
      contradiction
    simp only [Scheduled, pc, CollectorPc.phase, todo] at sd
    exact sd.imp_left (·.imp_left (.imp_left fun h => (List.mem_cons.mp h).resolve_left hne))
  case nextDefault a c cs _ pc todo old =>
    simp only [Scheduled, pc, CollectorPc.phase, todo] at sd
    refine sd.imp_left (·.imp_left fun h => ?_)
    exact (List.mem_cons.mp (h.resolve_right (by simp))).symm.imp_right (congrArg some ·.symm)
  case nextReCheck a c cs _ pc todo old =>
    simp only [Scheduled, pc, CollectorPc.phase, todo] at sd
    refine sd.imp_left (·.imp_left fun h => ?_)
    exact (List.mem_cons.mp (h.resolve_right (by simp))).symm.imp_right (congrArg some ·.symm)
  case readSumNonzero a c i sum pc hi nonzero =>
    exact sd.passed (by rw [pc]; rfl) fun h => nonzero (Scanned.sum_eq_zero hi hz (sc.readSum a i sum (h ▸ pc)))
  case clearTagsNonzero a c i sum pc hi nonzero =>
    exact sd.passed (by rw [pc]; rfl) fun h =>
      nonzero (Scanned.sum_eq_zero hi hz (sc.clearTags a i sum (h ▸ pc)).left)
  case reCheckPositive a c i sum pc hi pos =>
    exact sd.passed (by rw [pc]; rfl) fun h => pos.ne' (Scanned.sum_eq_zero hi hz (sc.reCheck a i sum (h ▸ pc)))
  case reCheckTagged a c i sum pc hi tag =>
    refine sd.passed (by rw [pc]; rfl) fun h => ?_
    subst h
    have ht := visiting .requiresReChecking (by rw [pc]; exact ⟨rfl, rfl⟩)
    simp [(sc.tracked ht).right ⟨i, hi⟩] at tag
  case clearTagsZero a c i sum pc hi zero =>
    exact sd.cleared (by rw [pc]; rfl) fun h => visiting _ (by rw [pc]; exact ⟨h.symm, rfl⟩)
  case clearWeakNone a c _ pc _ _ =>
    exact sd.found (by rw [pc]; rfl) fun h => visiting _ (by rw [pc]; exact ⟨h.symm, rfl⟩)
  case swapBackRefNull a c v pc null =>
    exact sd.found (by rw [pc]; rfl) fun h => visiting _ (by rw [pc]; exact ⟨h.symm, rfl⟩)
  case swapBackRef a c v q pc old =>
    exact sd.closed w hc.lt pc old fun h => visiting _ (by rw [pc]; exact ⟨h.symm, rfl⟩)
  case free a c cs q pc toFree old counters =>
    obtain ⟨_, ht⟩ := tracked (by rw [pc]; rfl) (by simp [pc, CollectorPc.Takes])
    have hne : s.mem.counters p ≠ c := fun h => by
      rw [TrackedAs, h, old] at ht
      simp_all [CollectorPc.Removed]
    have hw j (h : s.Within p j b) :
        (s.setTracked (s.col.tracked.erase c) |>.goto (.dropInner { a with toFree := cs } q)).Within p j b :=
      h.of_trackedAs (fun state ht => by rw [TrackedAs, TrackedCounters.lookup_erase, if_neg hne]; exact ht) id
    simp only [Scheduled, pc, CollectorPc.phase, CollectorPc.toFree, toFree] at sd
    refine ⟨sd.left.imp_right (.imp_left fun h => (List.mem_cons.mp h).resolve_left hne), hw _ sd.right⟩
  case collectAgain a l r pc loop lt toReCheck ne =>
    simp only [Scheduled, pc, CollectorPc.phase, CollectorPc.toFree, List.not_mem_nil, false_or] at sd
    obtain ⟨hm, hw⟩ := sd
    have hm : s.mem.counters p ∈ r := by
      simpa [toReCheck, Noted, idle, Pc.dropping] using hm
    simp only [rounds, ← loop] at hw
    exact ⟨hm, hw.of_trackedAs (fun _ => id) id⟩
  case freeNone a pc toFree =>
    exact sd.of_phase (by rw [pc]; rfl) (by rw [pc]; exact toFree.symm) rfl rfl hc' ho (hn (by rw [pc]; rfl))
  all_goals
    have pc := ‹s.col.pc = _›
    exact sd.of_phase (by rw [pc]; first | rfl | simp only [CollectorPc.phase_spin, CollectorPc.phase_spinAgain])
      (by rw [pc]; rfl) rfl rfl hc' ho (hn (by rw [pc]; rfl))

end State
end Sdarc
