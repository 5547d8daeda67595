import SdarcModel.Execution.Basic

namespace Sdarc.Memory

variable {n : Nat} {T C : Type} [DecidableEq T] [DecidableEq C]

-- Everything one step of a thread can do to the memory, with what it found there. Proofs split a step with
-- `induction`, which, unlike `cases`, leaves no equations between states to solve.
inductive Step (m : Memory n T C) (t : Thread T) : Memory n T C → Prop
  | new (pc : m.pc t = .idle) (unused : m.used c = false) :
    Step m t (m.alloc c .user |>.setPc t (.newIncrement m.next .user))
  | clone (pc : m.pc t = .idle) (user : m.isUser p) (live : 0 < m.handles p) :
    Step m t (m.setPc t (.incrRead p .clone))
  | drop (pc : m.pc t = .idle) (take : m.CanTake p) :
    Step m t (m.takeHandle (some p) |>.setPc t (.dropRead p))
  | load (pc : m.pc t = .idle) :
    Step m t (m.enter i |>.setPc t (.readLoad (.cell x) i))
  | upgrade (pc : m.pc t = .idle) (weak : m.isUser w = false) (live : 0 < m.handles w) :
    Step m t (m.enter i |>.setPc t (.readLoad (.weak w) i))
  | swap (pc : m.pc t = .idle) (pass : m.CanPass r) :
    Step m t (m.takeHandle r |>.exchange x r |>.giveHandle (m.cell x))
  | storeNull (pc : m.pc t = .idle) (pass : m.CanPass r) (old : m.cell x = none) :
    Step m t (m.takeHandle r |>.exchange x r |>.setPc t .idle)
  | storeSome (pc : m.pc t = .idle) (pass : m.CanPass r) (old : m.cell x = some p) :
    Step m t (m.takeHandle r |>.exchange x r |>.setPc t (.dropRead p))
  | casFail (pc : m.pc t = .idle) :
    Step m t m
  | casNull (pc : m.pc t = .idle) (eq : m.cell x = r) :
    Step m t (m.exchange x none |>.giveHandle r)
  | casSome (pc : m.pc t = .idle) (eq : m.cell x = r) (borrow : m.CanBorrow r)
      (user : m.isUser q) (live : 0 < m.handles q) :
    Step m t (m.exchange x (some q) |>.setPc t (.incrRead q (.compareAndSet r)))
  | downgrade (pc : m.pc t = .idle) (user : m.isUser p) (live : 0 < m.handles p) :
    Step m t (m.setPc t (.downgradeGet p))
  | newIncrement (pc : m.pc t = .newIncrement p k) :
    Step m t (m.modifyCounter (m.counters p) i .incrementRefCount |>.setPc t (.newPush p k))
  | newPush (pc : m.pc t = .newPush p .user) :
    Step m t (m.push i p |>.giveHandle (some p) |>.setPc t .idle)
  | newPushWeak (pc : m.pc t = .newPush p (.downgrade q)) :
    Step m t (m.push i p |>.setPc t (.downgradeSet q p))
  | incrRead (pc : m.pc t = .incrRead p k) :
    Step m t (m.setPc t (.incrAdd p (m.counters p) i k))
  | addClone (pc : m.pc t = .incrAdd p c i .clone) :
    Step m t (m.modifyCounter c i .incrementRefCount |>.giveHandle (some p) |>.setPc t .idle)
  | addDowngrade (pc : m.pc t = .incrAdd p c i (.downgrade q)) :
    Step m t (m.modifyCounter c i .incrementRefCount |>.giveHandle (some p) |>.setPc t .idle)
  | addRead (pc : m.pc t = .incrAdd p c i (.read src j)) :
    Step m t (m.modifyCounter c i .incrementRefCount |>.setPc t (.readLeave src j (some p)))
  | addCompareAndSet (pc : m.pc t = .incrAdd p c i (.compareAndSet r)) :
    Step m t (m.modifyCounter c i .incrementRefCount |>.giveHandle r |>.setPc t .idle)
  | dropRead (pc : m.pc t = .dropRead p) :
    Step m t (m.setPc t (.dropLoad p (m.counters p) i))
  | dropLoad (pc : m.pc t = .dropLoad p c i) :
    Step m t (m.setPc t (.dropCas p c i (m.counter c i)))
  | dropCas (pc : m.pc t = .dropCas p c i v) (eq : m.counter c i = v) :
    Step m t (m.modifyCounter c i .decrementRefCountAndSetTag |>.setPc t (.dropNotify p))
  | dropRetry (pc : m.pc t = .dropCas p c i v) :
    Step m t (m.setPc t (.dropCas p c i (m.counter c i)))
  | dropNotify (pc : m.pc t = .dropNotify p) :
    Step m t (m.setPc t (.onSdarcDrop (m.counters p)))
  | onSdarcDrop (pc : m.pc t = .onSdarcDrop c) :
    Step m t (m.setPc t .idle)
  | readNull (pc : m.pc t = .readLoad src i) (null : m.read src = none) :
    Step m t (m.setPc t (.readLeave src i none))
  | readSome (pc : m.pc t = .readLoad src i) (some : m.read src = some p) :
    Step m t (m.setPc t (.incrRead p (.read src i)))
  | readLeave (pc : m.pc t = .readLeave src i r) :
    Step m t (m.leave i |>.giveHandle r |>.setPc t .idle)
  | downgradeInit (pc : m.pc t = .downgradeGet q) (init : (m.inner q).weakInnerRef = .init w) :
    Step m t (m.setPc t (.incrRead w (.downgrade q)))
  | downgradeUninit (pc : m.pc t = .downgradeGet q) (uninit : (m.inner q).weakInnerRef = .uninit) :
    Step m t (m.setWeakInnerRef q .running |>.setPc t (.downgradeNew q))
  | alloc (pc : m.pc t = .downgradeNew q) (unused : m.used c = false) :
    Step m t (m.alloc c (.weak (some q)) |>.setPc t (.newIncrement m.next (.downgrade q)))
  | downgradeSet (pc : m.pc t = .downgradeSet q w) :
    Step m t (m.setWeakInnerRef q (.init w) |>.setPc t (.incrRead w (.downgrade q)))

variable {m m' : Memory n T C} {t : Thread T}

theorem Step.of_compareExchange (pc : m.pc t = .idle) (ha : m.CanBorrow a) (hb : m.CanBorrow b) :
    Step m t (m.compareExchange t x a b) := by
  simp only [compareExchange]
  split
  case isFalse => exact .casFail pc
  case isTrue eq =>
    cases b
    case none   => exact .casNull pc eq
    case some q => exact .casSome pc eq ha hb.left hb.right

theorem Step.of_run (h : m.run t i = some m') : Step m t m' := by
  cases pc : m.pc t <;> simp only [run, pc] at h
  case idle         => contradiction
  case downgradeNew => contradiction
  case dropCas =>
    split at h <;> cases h
    case isTrue eq => exact .dropCas pc eq
    case isFalse   => exact .dropRetry pc
  case readLoad =>
    split at h <;> cases h
    case h_1 hr => exact .readNull pc hr
    case h_2 hr => exact .readSome pc hr
  case downgradeGet =>
    split at h <;> cases h
    case h_1 hl => exact .downgradeInit pc hl
    case h_2 hl => exact .downgradeUninit pc hl
  all_goals cases h
  case newIncrement => exact .newIncrement pc
  case newPush k =>
    cases k
    case user      => exact .newPush pc
    case downgrade => exact .newPushWeak pc
  case incrRead     => exact .incrRead pc
  case incrAdd k =>
    cases k
    case clone         => exact .addClone pc
    case downgrade     => exact .addDowngrade pc
    case read          => exact .addRead pc
    case compareAndSet => exact .addCompareAndSet pc
  case dropRead     => exact .dropRead pc
  case dropLoad     => exact .dropLoad pc
  case dropNotify   => exact .dropNotify pc
  case onSdarcDrop  => exact .onSdarcDrop pc
  case readLeave    => exact .readLeave pc
  case downgradeSet => exact .downgradeSet pc

variable [Fintype T]

theorem Step.of_start (pc : m.pc t = .idle) (h : m.start t a = some m') : Step m t m' := by
  cases a <;> simp only [start, Option.ite_none_right_eq_some, Option.some.injEq] at h
  case new           => obtain ⟨h, rfl⟩ := h; exact .new pc h
  case clone         => obtain ⟨⟨hu, hl⟩, rfl⟩ := h; exact .clone pc hu hl
  case drop          => obtain ⟨h, rfl⟩ := h; exact .drop pc h
  case load          => subst h; exact .load pc
  case upgrade       => obtain ⟨⟨hw, hl⟩, rfl⟩ := h; exact .upgrade pc hw hl
  case swap          => obtain ⟨h, rfl⟩ := h; exact .swap pc h
  case store x _ =>
    obtain ⟨h, rfl⟩ := h
    cases hx : m.cell x
    case none => exact .storeNull pc h hx
    case some => exact .storeSome pc h hx
  case compareAndSet => obtain ⟨⟨ha, hb⟩, rfl⟩ := h; exact .of_compareExchange pc ha hb
  case downgrade     => obtain ⟨⟨hu, hl⟩, rfl⟩ := h; exact .downgrade pc hu hl
  all_goals contradiction

theorem Step.of_threadStep (h : m.threadStep t a = some m') : Step m t m' := by
  simp only [threadStep] at h
  split at h
  case h_1 => exact .of_run h
  case h_2 =>
    split at h <;> cases h
    case h_1 pc => exact .dropRetry pc
  case h_3 =>
    split at h <;> try contradiction
    case h_1 pc =>
      split at h <;> cases h
      case isTrue hu => exact .alloc pc hu
  case h_4 =>
    split at h <;> try contradiction
    case isTrue pc => exact .of_start pc h

omit [Fintype T] in
theorem Step.freed_eq (s : Step m t m') : m'.freed = m.freed := by
  induction s <;> rfl

-- A step moves its own thread only.
omit [Fintype T] in
theorem Step.pc_eq (s : Step m t m') : m'.pc = Function.update m.pc t (m'.pc t) := by
  induction s <;> simp

end Sdarc.Memory
