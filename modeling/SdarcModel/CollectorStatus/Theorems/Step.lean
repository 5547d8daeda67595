import SdarcModel.CollectorStatus.Basic

namespace CollectorStatus.State

variable {T : Type} {s s' : State T}

-- Everything a step of the collector can do, with what it found.
inductive CollectorStep (s : State T) : CollectorAct → State T → Prop
  | beginIteration (pc : s.collector = .head) :
    CollectorStep s .beginIteration { s with
      outerIterationCounter := s.outerIterationCounter + 1
      iterations            := s.iterations + 1
      collector             := .lockRunning }
  | lockRunning (pc : s.collector = .lockRunning) (free : s.mutex = none) :
    CollectorStep s .lock (s.setMutex (some none) |>.goto .setRunning)
  | setRunning (pc : s.collector = .setRunning) :
    CollectorStep s .set ({ s with status := .running s.outerIterationCounter }.goto .unlockRunning)
  | unlockRunning (pc : s.collector = .unlockRunning) : CollectorStep s .unlock (s.setMutex none |>.goto .take)
  | take (pc : s.collector = .take) : CollectorStep s .takeNewCountersToTrack (s.goto .inner)
  | inner (pc : s.collector = .inner) : CollectorStep s .innerIteration (s.goto .innerAgain)
  | innerAgain (pc : s.collector = .innerAgain) : CollectorStep s .innerIteration s
  | doMaintenance (pc : s.collector = .innerAgain) : CollectorStep s .doMaintenance (s.goto .lockWaiting)
  | lockWaiting (pc : s.collector = .lockWaiting) (free : s.mutex = none) :
    CollectorStep s .lock (s.setMutex (some none) |>.goto .setWaiting)
  | setWaiting (pc : s.collector = .setWaiting) :
    CollectorStep s .set ({ s with status := .waiting s.outerIterationCounter }.goto .notify)
  | notify (pc : s.collector = .notify) : CollectorStep s .notifyAll (s.goto .unlockWaiting)
  | unlockWaiting (pc : s.collector = .unlockWaiting) : CollectorStep s .unlock (s.setMutex none |>.goto .parked)
  | wake (pc : s.collector = .parked) : CollectorStep s .wake (s.goto .head)

theorem CollectorStep.of_collectorStep (h : s.collectorStep a = some s') : CollectorStep s a s' := by
  simp only [collectorStep] at h
  split at h
  case h_1 pc => cases h; exact .beginIteration pc
  case h_2 pc =>
    split at h <;> cases h
    exact .lockRunning pc ‹_›
  case h_3 pc => cases h; exact .setRunning pc
  case h_4 pc => cases h; exact .unlockRunning pc
  case h_5 pc => cases h; exact .take pc
  case h_6 pc => cases h; exact .inner pc
  case h_7 pc => cases h; exact .innerAgain pc
  case h_8 pc => cases h; exact .doMaintenance pc
  case h_9 pc =>
    split at h <;> cases h
    exact .lockWaiting pc ‹_›
  case h_10 pc => cases h; exact .setWaiting pc
  case h_11 pc => cases h; exact .notify pc
  case h_12 pc => cases h; exact .unlockWaiting pc
  case h_13 pc => cases h; exact .wake pc
  case h_14 => contradiction

variable [DecidableEq T] {t : T}

-- The same of a caller.
inductive CallerStep (s : State T) (t : T) : CallerAct → State T → Prop
  | call (pc : s.caller t = .idle) : CallerStep s t .call (s.setCaller t .lock)
  | lock (pc : s.caller t = .lock) (free : s.mutex = none) :
    CallerStep s t .lock (s.setMutex (some (some t)) |>.setCaller t .unpark)
  | unpark (pc : s.caller t = .unpark) : CallerStep s t .run (s.setCaller t .read)
  | read (pc : s.caller t = .read) :
    CallerStep s t .run (s.setCaller t (.check s.status.afterAtLeastOneFullCollection))
  | wait (pc : s.caller t = .check target) (lt : s.status < target) :
    CallerStep s t .run (s.setMutex none |>.setCaller t (.asleep target))
  | done (pc : s.caller t = .check target) (ge : ¬s.status < target) :
    CallerStep s t .run (s.setCaller t .unlock)
  | wake (pc : s.caller t = .asleep target) : CallerStep s t .wake (s.setCaller t (.relock target))
  | relock (pc : s.caller t = .relock target) (free : s.mutex = none) :
    CallerStep s t .relock (s.setMutex (some (some t)) |>.setCaller t (.check target))
  | leave (pc : s.caller t = .unlock) : CallerStep s t .leave (s.setMutex none |>.setCaller t .idle)

theorem CallerStep.of_callerStep (h : s.callerStep t a = some s') : CallerStep s t a s' := by
  simp only [callerStep] at h
  split at h
  case h_1 pc => cases h; exact .call pc
  case h_2 pc =>
    split at h <;> cases h
    exact .lock pc ‹_›
  case h_3 pc => cases h; exact .unpark pc
  case h_4 pc => cases h; exact .read pc
  case h_5 pc =>
    split at h <;> cases h
    case isTrue hl  => exact .wait pc hl
    case isFalse hl => exact .done pc hl
  case h_6 pc => cases h; exact .wake pc
  case h_7 pc =>
    split at h <;> cases h
    exact .relock pc ‹_›
  case h_8 pc => cases h; exact .leave pc
  case h_9 => contradiction

-- One step of the system, by who takes it.
inductive Step (s : State T) : Label T → State T → Prop
  | collector (step : CollectorStep s a s₂) : Step s (.collector a) s₂
  | caller (step : CallerStep s u a s₂) : Step s (.caller u a) s₂

theorem Step.of_next {l : Label T} (h : s.next l = some s') : Step s l s' := by
  cases l
  case collector => exact .collector (.of_collectorStep h)
  case caller    => exact .caller (.of_callerStep h)

end CollectorStatus.State
