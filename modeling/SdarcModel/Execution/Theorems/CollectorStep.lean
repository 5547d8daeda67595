import SdarcModel.Execution.Theorems.Step

namespace Sdarc

namespace TrackedCounters

variable {tr : TrackedCounters} {c d : Slot} {tc : TrackedCounter} {st : TrackedCounterState}

@[grind =]
theorem lookup_insert : (tr.insert c tc).lookup d = if d = c then some tc else tr.lookup d := by
  split
  case isTrue h  => rw [h, AList.lookup_insert]
  case isFalse h => rw [AList.lookup_insert_ne h]

@[grind =]
theorem lookup_erase : (tr.erase c).lookup d = if d = c then none else tr.lookup d := by
  split
  case isTrue h  => rw [h, AList.lookup_erase]
  case isFalse h => rw [AList.lookup_erase_ne h]

@[grind =]
theorem lookup_setState :
    (setState tr c st).lookup d =
      if d = c then (tr.lookup c).map ({ · with state := st }) else tr.lookup d := by
  simp only [setState]
  cases h : tr.lookup c <;> grind

theorem lookup_setState_self (h : tr.lookup c = some tc) :
    (setState tr c st).lookup c = some { tc with state := st } := by
  simp [lookup_setState, h]

@[grind =]
theorem map_ptr_setState :
    ((setState tr c st).lookup d).map (·.ptr) = (tr.lookup d).map (·.ptr) := by
  rw [lookup_setState]
  split
  case isTrue hd => subst hd; simp [Function.comp_def]
  case isFalse   => rfl

@[grind →]
theorem ptr_of_lookup_setState (h : (setState tr c st).lookup d = some tc) :
    ∃ old, tr.lookup d = some old ∧ old.ptr = tc.ptr := by
  have hm : ((setState tr c st).lookup d).map (·.ptr) = (tr.lookup d).map (·.ptr) := map_ptr_setState
  rw [h] at hm
  simpa using hm.symm

theorem mem_iter : c ∈ iter tr ↔ (tr.lookup c).isSome := by
  simp [iter, AList.lookup_isSome, AList.mem_keys]

end TrackedCounters

namespace State

variable {n : Nat} {T C : Type} [DecidableEq T] [DecidableEq C]

-- Everything one step of the collector's own code can do, with what it found.
inductive CollectorStep (s : State n T C) : State n T C → Prop
  | wake (pc : s.col.pc = .parked) : CollectorStep s (s.goto (.take 0))
  | take (pc : s.col.pc = .take i) (h : i < n) :
    CollectorStep s (s.modifyMem (·.takePending ⟨i, h⟩) |>.goto (.insert i (s.mem.pending ⟨i, h⟩)))
  | taken (pc : s.col.pc = .take i) (h : ¬i < n) : CollectorStep s (s.goto (.spin none 0 []))
  | inserted (pc : s.col.pc = .insert i []) : CollectorStep s (s.goto (.take (i + 1)))
  | insert (pc : s.col.pc = .insert i ((p, c) :: batch)) (new : s.col.tracked.lookup c = none) :
    CollectorStep s (s.setTracked (s.col.tracked.insert c { ptr := p }) |>.goto (.insert i batch))
  | insertReplaced (pc : s.col.pc = .insert i ((p, c) :: batch)) (old : s.col.tracked.lookup c = some tc) :
    CollectorStep s (s.setTracked (s.col.tracked.insert c { ptr := p }) |>.goto (.panicked .replaced))
  | spinIdle (pc : s.col.pc = .spin k i shards) (h : i < n) (idle : s.mem.readers ⟨i, h⟩ = 0) :
    CollectorStep s (s.goto (.spin k (i + 1) shards))
  | spinBusy (pc : s.col.pc = .spin k i shards) (h : i < n) (busy : s.mem.readers ⟨i, h⟩ ≠ 0) :
    CollectorStep s (s.goto (.spin k (i + 1) (shards ++ [⟨i, h⟩])))
  | spinEnd (pc : s.col.pc = .spin k i shards) (h : ¬i < n) :
    CollectorStep s (s.goto (.spinAgain k shards))
  | spinAgainIdle (pc : s.col.pc = .spinAgain k (i :: shards)) (idle : s.mem.readers i = 0) :
    CollectorStep s (s.goto (.spinAgain k shards))
  | spinAgainBusy (pc : s.col.pc = .spinAgain k (i :: shards)) (busy : s.mem.readers i ≠ 0) :
    CollectorStep s s
  | startAll (pc : s.col.pc = .spinAgain none []) :
    CollectorStep s (s.goto (.next { all := true, todo := s.col.tracked.iter }))
  | startSpecific (pc : s.col.pc = .spinAgain (some r) []) :
    CollectorStep s (s.goto (.next { all := false, todo := r.ascending }))
  | nextNone (pc : s.col.pc = .next a) (todo : a.todo = []) : CollectorStep s (s.goto (.free a))
  | nextUntracked (pc : s.col.pc = .next a) (todo : a.todo = c :: cs) (old : s.col.tracked.lookup c = none) :
    CollectorStep s (s.goto (.next { a with todo := cs }))
  | nextDefault (pc : s.col.pc = .next a) (todo : a.todo = c :: cs)
      (old : s.col.tracked.lookup c = some { ptr := p, state := .defaultState }) :
    CollectorStep s (s.goto (.readSum { a with todo := cs } c 0 0))
  | nextReCheck (pc : s.col.pc = .next a) (todo : a.todo = c :: cs)
      (old : s.col.tracked.lookup c = some { ptr := p, state := .requiresReChecking }) :
    CollectorStep s (s.goto (.reCheck { a with todo := cs } c 0 0))
  | nextReady (pc : s.col.pc = .next a) (todo : a.todo = c :: cs)
      (old : s.col.tracked.lookup c = some { ptr := p, state := .readyToFree }) :
    CollectorStep s (s.goto (.panicked .readyToFree))
  | readSum (pc : s.col.pc = .readSum a c i sum) (h : i < n) :
    CollectorStep s (s.goto (.readSum a c (i + 1) (sum + (s.mem.counter c ⟨i, h⟩).refCount)))
  | readSumZero (pc : s.col.pc = .readSum a c i sum) (h : ¬i < n) (zero : sum = 0) :
    CollectorStep s (s.goto (.clearTags a c 0 0))
  | readSumNonzero (pc : s.col.pc = .readSum a c i sum) (h : ¬i < n) (nonzero : sum ≠ 0) :
    CollectorStep s (s.visited a c .defaultState)
  | clearTag (pc : s.col.pc = .clearTags a c i sum) (h : i < n) :
    CollectorStep s (s.modifyMem (·.modifyCounter c ⟨i, h⟩ .clearTag)
      |>.goto (.clearTags a c (i + 1) (sum + (s.mem.counter c ⟨i, h⟩).refCount)))
  | clearTagsZero (pc : s.col.pc = .clearTags a c i sum) (h : ¬i < n) (zero : sum = 0) :
    CollectorStep s (s.visited a c .requiresReChecking)
  | clearTagsNonzero (pc : s.col.pc = .clearTags a c i sum) (h : ¬i < n) (nonzero : sum ≠ 0) :
    CollectorStep s (s.visited a c .defaultState)
  | reCheckTagged (pc : s.col.pc = .reCheck a c i sum) (h : i < n) (tag : (s.mem.counter c ⟨i, h⟩).tag = true) :
    CollectorStep s (s.visited a c .defaultState)
  | reCheck (pc : s.col.pc = .reCheck a c i sum) (h : i < n) (tag : (s.mem.counter c ⟨i, h⟩).tag = false) :
    CollectorStep s (s.goto (.reCheck a c (i + 1) (sum + (s.mem.counter c ⟨i, h⟩).refCount)))
  | reCheckZero (pc : s.col.pc = .reCheck a c i sum) (h : ¬i < n) (zero : sum = 0) :
    CollectorStep s (s.goto (.clearWeak a c))
  | reCheckPositive (pc : s.col.pc = .reCheck a c i sum) (h : ¬i < n) (pos : 0 < sum) :
    CollectorStep s (s.visited a c .defaultState)
  | reCheckNegative (pc : s.col.pc = .reCheck a c i sum) (h : ¬i < n) (neg : sum < 0) :
    CollectorStep s (s.goto (.panicked .negativeSum))
  | clearWeakInit (pc : s.col.pc = .clearWeak a c) (old : s.col.tracked.lookup c = some tc)
      (init : (s.mem.inner tc.ptr).weakInnerRef = .init w) :
    CollectorStep s (s.goto (.swapBackRef a c w))
  | clearWeakNone (pc : s.col.pc = .clearWeak a c) (old : s.col.tracked.lookup c = some tc)
      (none : ∀ w, (s.mem.inner tc.ptr).weakInnerRef ≠ .init w) :
    CollectorStep s (s.visited a c .readyToFree)
  | swapBackRefNull (pc : s.col.pc = .swapBackRef a c w) (null : s.mem.backRef w = none) :
    CollectorStep s (s.visited a c .readyToFree)
  | swapBackRef (pc : s.col.pc = .swapBackRef a c w) (old : s.mem.backRef w = some p) :
    CollectorStep s (s.modifyMem (·.clearBackRef w) |>.visited a c .requiresReChecking)
  | freeNone (pc : s.col.pc = .free a) (toFree : a.toFree = []) : CollectorStep s (s.goto (.collect a))
  | freeUntracked (pc : s.col.pc = .free a) (toFree : a.toFree = c :: cs) (old : s.col.tracked.lookup c = none) :
    CollectorStep s (s.goto (.panicked .notTracked))
  | freeNotReady (pc : s.col.pc = .free a) (toFree : a.toFree = c :: cs) (old : s.col.tracked.lookup c = some tc)
      (state : tc.state ≠ .readyToFree) :
    CollectorStep s (s.setTracked (s.col.tracked.erase c) |>.goto (.panicked .notReadyToFree))
  | freeMismatch (pc : s.col.pc = .free a) (toFree : a.toFree = c :: cs) (old : s.col.tracked.lookup c = some tc)
      (counters : s.mem.counters tc.ptr ≠ c) :
    CollectorStep s (s.setTracked (s.col.tracked.erase c) |>.goto (.panicked .countersMismatch))
  | free (pc : s.col.pc = .free a) (toFree : a.toFree = c :: cs)
      (old : s.col.tracked.lookup c = some { ptr := p, state := .readyToFree })
      (counters : s.mem.counters p = c) :
    CollectorStep s (s.setTracked (s.col.tracked.erase c) |>.goto (.dropInner { a with toFree := cs } p))
  | dropInner (pc : s.col.pc = .dropInner a p) :
    CollectorStep s (s.modifyMem (·.dropCounters p) |>.goto (.dropWeak a p))
  | dropWeakInit (pc : s.col.pc = .dropWeak a p) (init : (s.mem.inner p).weakInnerRef = .init w) :
    CollectorStep s (s.modifyMem (·.setWeakInnerRef p .uninit |>.setPc none (.dropRead w))
      |>.goto (.dropData a p))
  | dropWeakNone (pc : s.col.pc = .dropWeak a p) (none : ∀ w, (s.mem.inner p).weakInnerRef ≠ .init w) :
    CollectorStep s (s.goto (.dropData a p))
  | dropData (pc : s.col.pc = .dropData a p) : CollectorStep s (s.goto (.free a))
  | collectEnd (pc : s.col.pc = .collect a) (loop : l = if a.all then 0 else s.col.loopCounter + 1)
      (stop : l = maxLoopCounter ∨ a.newToReCheck ∪ s.col.countersToRecheck = ∅) :
    CollectorStep s { s with
      col := { s.col with pc := .parked, countersToRecheck := ∅, loopCounter := l } }
  | collectAgain (pc : s.col.pc = .collect a) (loop : l = if a.all then 0 else s.col.loopCounter + 1)
      (lt : l ≠ maxLoopCounter) (toReCheck : r = a.newToReCheck ∪ s.col.countersToRecheck) (ne : r ≠ ∅) :
    CollectorStep s { s with
      col := { s.col with pc := .spin (some r) 0 [], countersToRecheck := ∅, loopCounter := l } }

-- One step of the system, by who takes it.
inductive Step (s : State n T C) : Label n T C → State n T C → Prop
  | thread (ready : s.mem.pc t = .idle → s.mayStart t = true) (step : s.mem.Step t m) :
    Step s (.thread t a) { mem := m, col := s.notify t a }
  | collector (idle : s.mem.pc none = .idle) (step : CollectorStep s s') : Step s .collector s'

variable {s s' : State n T C}

omit [DecidableEq C] in
theorem CollectorStep.of_collectorStep (h : s.collectorStep = some s') : CollectorStep s s' := by
  cases pc : s.col.pc <;> simp only [collectorStep, pc] at h
  case parked => cases h; exact .wake pc
  case take =>
    split at h <;> cases h
    case isTrue hi  => exact .take pc hi
    case isFalse hi => exact .taken pc hi
  case insert i batch =>
    cases batch
    case nil => cases h; exact .inserted pc
    case cons pc' batch =>
      simp only at h
      cases hl : s.col.tracked.lookup pc'.2 <;> simp only [hl] at h <;> cases h
      case none => exact .insert pc hl
      case some => exact .insertReplaced pc hl
  case spin =>
    split at h <;> cases h
    case isTrue hi =>
      split
      case isTrue hr  => exact .spinIdle pc hi hr
      case isFalse hr => exact .spinBusy pc hi hr
    case isFalse hi => exact .spinEnd pc hi
  case spinAgain k shards =>
    cases shards
    case nil =>
      cases k <;> cases h
      case none => exact .startAll pc
      case some => exact .startSpecific pc
    case cons =>
      simp only at h
      split at h <;> cases h
      case isTrue hr  => exact .spinAgainIdle pc hr
      case isFalse hr => exact .spinAgainBusy pc hr
  case next a =>
    split at h
    case h_1 ht => cases h; exact .nextNone pc ht
    case h_2 ht =>
      split at h
      case h_1 hl => cases h; exact .nextUntracked pc ht hl
      case h_2 tc hl =>
        obtain ⟨p, st⟩ := tc
        induction st <;> cases h
        case defaultState       => exact .nextDefault pc ht hl
        case requiresReChecking => exact .nextReCheck pc ht hl
        case readyToFree        => exact .nextReady pc ht hl
  case readSum =>
    split at h
    case isTrue hi => cases h; exact .readSum pc hi
    case isFalse hi =>
      split at h <;> cases h
      case isTrue hs  => exact .readSumZero pc hi hs
      case isFalse hs => exact .readSumNonzero pc hi hs
  case clearTags =>
    split at h
    case isTrue hi => cases h; exact .clearTag pc hi
    case isFalse hi =>
      split at h <;> cases h
      case isTrue hs  => exact .clearTagsZero pc hi hs
      case isFalse hs => exact .clearTagsNonzero pc hi hs
  case reCheck =>
    split at h
    case isTrue hi =>
      split at h <;> cases h
      case isTrue ht  => exact .reCheckTagged pc hi ht
      case isFalse ht => exact .reCheck pc hi (by simpa using ht)
    case isFalse hi =>
      split at h
      case isTrue hs => cases h; exact .reCheckZero pc hi hs
      case isFalse hs =>
        split at h <;> cases h
        case isTrue hp  => exact .reCheckPositive pc hi hp
        case isFalse hp => exact .reCheckNegative pc hi (by omega)
  case clearWeak =>
    split at h
    case h_1 => contradiction
    case h_2 hl =>
      split at h <;> cases h
      case h_1 hw => exact .clearWeakInit pc hl hw
      case h_2 hw => exact .clearWeakNone pc hl hw
  case swapBackRef =>
    split at h <;> cases h
    case h_1 hb => exact .swapBackRefNull pc hb
    case h_2 hb => exact .swapBackRef pc hb
  case free a =>
    split at h
    case h_1 ht => cases h; exact .freeNone pc ht
    case h_2 ht =>
      split at h
      case h_1 hl => cases h; exact .freeUntracked pc ht hl
      case h_2 tc hl =>
        split at h
        case isTrue hs => cases h; exact .freeNotReady pc ht hl hs
        case isFalse hs =>
          split at h <;> cases h
          case isTrue hc => exact .freeMismatch pc ht hl hc
          case isFalse hc =>
            obtain ⟨p, st⟩ := tc
            exact .free pc ht (by simp_all) (by simpa using hc)
  case dropInner => cases h; exact .dropInner pc
  case dropWeak =>
    split at h <;> cases h
    case h_1 hw => exact .dropWeakInit pc hw
    case h_2 hw => exact .dropWeakNone pc hw
  case dropData => cases h; exact .dropData pc
  case collect a =>
    cases h
    by_cases hs : (if a.all then 0 else s.col.loopCounter + 1) = maxLoopCounter ∨
      a.newToReCheck ∪ s.col.countersToRecheck = ∅
    case pos => rw [finishPass, if_pos hs]; exact .collectEnd pc rfl hs
    case neg =>
      rw [finishPass, if_neg hs]
      exact .collectAgain pc rfl (fun h => hs (.inl h)) rfl (fun h => hs (.inr h))
  case panicked => contradiction

theorem of_next_thread [Fintype T] (h : s.next (.thread t a) = some s') :
    (s.mem.pc t = .idle → s.mayStart t = true) ∧
    ∃ m, s.mem.threadStep t a = some m ∧ s' = { mem := m, col := s.notify t a } := by
  simp only [next] at h
  split at h
  case isTrue => contradiction
  case isFalse hr =>
    simp only [Option.map_eq_some_iff] at h
    obtain ⟨m, hm, h⟩ := h
    exact ⟨fun hi => by simp_all, m, hm, h.symm⟩

theorem of_next_collector [Fintype T] (h : s.next .collector = some s') :
    s.mem.pc none = .idle ∧ CollectorStep s s' := by
  simp only [next] at h
  split at h
  case isTrue hi => exact ⟨hi, .of_collectorStep h⟩
  case isFalse   => contradiction

theorem Step.of_next [Fintype T] {l : Label n T C} (h : s.next l = some s') : Step s l s' := by
  cases l
  case thread t a =>
    obtain ⟨ready, m, hm, rfl⟩ := of_next_thread h
    exact .thread ready (.of_threadStep hm)
  case collector =>
    obtain ⟨idle, st⟩ := of_next_collector h
    exact .collector idle st

end State
end Sdarc
