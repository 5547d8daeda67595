import SdarcModel.ShardedAlloc.Basic

namespace ShardedAlloc.State

variable {n : Nat} {T : Type} [DecidableEq T]

-- Everything one step can do while the usage flags hold zero or one, with what it found. Proofs split it with
-- `induction`, which, unlike `cases`, leaves no equations between states to solve.
inductive Step (s : State n T) (t : T) : State n T → Prop
  | allocateAndInit (pc : s.pc t = .idle) (free : s.locked i = none) :
    Step s t (s.lock i (some t) |>.goto t (.allocate i))
  | deallocate (pc : s.pc t = .idle) (live : p ∈ s.live) (used : s.usageFlag p = 1) :
    Step s t (s.take p |>.setFlag p 0)
  | deallocateUnused (pc : s.pc t = .idle) (live : p ∈ s.live) (unused : s.usageFlag p ≠ 1) :
    Step s t (s.take p |>.setFlag p 0 |>.goto t (.panicked .slotNotUsed))
  | doMaintenance (pc : s.pc t = .idle) (free : s.tempLocked = none) :
    Step s t (s.lockTemp (some t) |>.goto t (.swapIn 0))
  | getStatusReport (pc : s.pc t = .idle) (free : s.tempLocked = none) :
    Step s t (s.lockTemp (some t) |>.goto t (.lockGroups 0))
  | newUnit (pc : s.pc t = .allocate i) (empty : (s.groups i).indexesOfUnitsToCheckForAllocation = []) :
    Step s t (s.newUnit |>.goto t (.scan i s.next true 0))
  | tryUnit (pc : s.pc t = .allocate i) (first : (s.groups i).indexesOfUnitsToCheckForAllocation = k :: ks)
      (unit : (s.groups i).allUnits[k]? = some u) :
    Step s t (s.goto t (.scan i u false 0))
  | tryUnitOutOfBounds (pc : s.pc t = .allocate i)
      (first : (s.groups i).indexesOfUnitsToCheckForAllocation = k :: ks)
      (unit : (s.groups i).allUnits[k]? = none) :
    Step s t (s.goto t (.panicked .indexOutOfBounds))
  | scanUnused (pc : s.pc t = .scan i u fresh j) (h : j < slotCountPerUnit) (flag : s.usageFlag ⟨u, j, h⟩ = 0) :
    Step s t (s.setFlag ⟨u, j, h⟩ 1 |>.goto t (.init i u fresh ⟨j, h⟩ 0))
  | scanUsed (pc : s.pc t = .scan i u fresh j) (h : j < slotCountPerUnit) (flag : s.usageFlag ⟨u, j, h⟩ = 1) :
    Step s t (s.setFlag ⟨u, j, h⟩ 1 |>.goto t (.scan i u fresh (j + 1)))
  | scanNewUnitFull (pc : s.pc t = .scan i u true j) (h : ¬j < slotCountPerUnit) :
    Step s t (s.goto t (.panicked .newUnitFull))
  | scanFull (pc : s.pc t = .scan i u false j) (h : ¬j < slotCountPerUnit) :
    Step s t (s.setGroup i (s.groups i).removeFirstIndex |>.goto t (.allocate i))
  | init (pc : s.pc t = .init i u fresh slot k) (h : k < n) :
    Step s t (s.goto t (.init i u fresh slot (k + 1)))
  | initPanics (pc : s.pc t = .init i u fresh slot k) (h : k < n) :
    Step s t (s.goto t (.unwind i u fresh slot))
  | initNewUnit (pc : s.pc t = .init i u true slot k) (h : ¬k < n) :
    Step s t (s.setGroup i ((s.groups i).pushUnit u) |>.give ⟨u, slot⟩ |>.lock i none |>.goto t .idle)
  | initUnit (pc : s.pc t = .init i u false slot k) (h : ¬k < n) :
    Step s t (s.give ⟨u, slot⟩ |>.lock i none |>.goto t .idle)
  | unwindNewUnit (pc : s.pc t = .unwind i u true slot) (used : s.usageFlag ⟨u, slot⟩ = 1) :
    Step s t (s.setFlag ⟨u, slot⟩ 0 |>.goto t (.dropNewUnit i u 0))
  | unwindUnit (pc : s.pc t = .unwind i u false slot) (used : s.usageFlag ⟨u, slot⟩ = 1) :
    Step s t (s.setFlag ⟨u, slot⟩ 0 |>.lock i none |>.goto t .idle)
  | unwindUnused (pc : s.pc t = .unwind i u fresh slot) (unused : s.usageFlag ⟨u, slot⟩ ≠ 1) :
    Step s t (s.setFlag ⟨u, slot⟩ 0 |>.goto t (.panicked .slotNotUsed))
  | dropNewUnit (pc : s.pc t = .dropNewUnit i u j) (h : j < slotCountPerUnit)
      (flag : s.usageFlag ⟨u, j, h⟩ = 0) :
    Step s t (s.goto t (.dropNewUnit i u (j + 1)))
  | dropNewUnitInUse (pc : s.pc t = .dropNewUnit i u j) (h : j < slotCountPerUnit)
      (flag : s.usageFlag ⟨u, j, h⟩ = 1) :
    Step s t (s.goto t (.panicked .unitInUse))
  | droppedNewUnit (pc : s.pc t = .dropNewUnit i u j) (h : ¬j < slotCountPerUnit) :
    Step s t (s.dealloc u |>.lock i none |>.goto t .idle)
  | swapIn (pc : s.pc t = .swapIn i) (h : i < n) (free : s.locked ⟨i, h⟩ = none) :
    Step s t (s.swap ⟨i, h⟩ |>.goto t (.retain i [] (s.groups ⟨i, h⟩).allUnits 0))
  | swappedAll (pc : s.pc t = .swapIn i) (h : ¬i < n) :
    Step s t (s.goto t (.retain i [] s.tempFillingGroup.allUnits 0))
  | retainUnused (pc : s.pc t = .retain i kept (u :: rest) j) (h : j < slotCountPerUnit)
      (flag : s.usageFlag ⟨u, j, h⟩ = 0) :
    Step s t (s.goto t (.retain i kept (u :: rest) (j + 1)))
  | retainUsed (pc : s.pc t = .retain i kept (u :: rest) j) (h : j < slotCountPerUnit)
      (flag : s.usageFlag ⟨u, j, h⟩ = 1) :
    Step s t (s.goto t (.retain i (kept ++ [u]) rest 0))
  | retainNot (pc : s.pc t = .retain i kept (u :: rest) j) (h : ¬j < slotCountPerUnit) :
    Step s t (s.goto t (.dropUnit i kept u rest 0))
  | retained (pc : s.pc t = .retain i kept [] j) :
    Step s t (s.setTemp { allUnits := kept } |>.goto t (.list i 0 0))
  | dropUnit (pc : s.pc t = .dropUnit i kept u rest j) (h : j < slotCountPerUnit)
      (flag : s.usageFlag ⟨u, j, h⟩ = 0) :
    Step s t (s.goto t (.dropUnit i kept u rest (j + 1)))
  | dropUnitInUse (pc : s.pc t = .dropUnit i kept u rest j) (h : j < slotCountPerUnit)
      (flag : s.usageFlag ⟨u, j, h⟩ = 1) :
    Step s t (s.goto t (.panicked .unitInUse))
  | droppedUnit (pc : s.pc t = .dropUnit i kept u rest j) (h : ¬j < slotCountPerUnit) :
    Step s t (s.dealloc u |>.goto t (.retain i kept rest 0))
  | listUnused (pc : s.pc t = .list i k j) (unit : s.tempFillingGroup.allUnits[k]? = some u)
      (h : j < slotCountPerUnit) (flag : s.usageFlag ⟨u, j, h⟩ = 0) :
    Step s t (s.setTemp (s.tempFillingGroup.pushIndex k) |>.goto t (.list i (k + 1) 0))
  | listUsed (pc : s.pc t = .list i k j) (unit : s.tempFillingGroup.allUnits[k]? = some u)
      (h : j < slotCountPerUnit) (flag : s.usageFlag ⟨u, j, h⟩ = 1) :
    Step s t (s.goto t (.list i k (j + 1)))
  | listNot (pc : s.pc t = .list i k j) (unit : s.tempFillingGroup.allUnits[k]? = some u)
      (h : ¬j < slotCountPerUnit) :
    Step s t (s.goto t (.list i (k + 1) 0))
  | listed (pc : s.pc t = .list i k j) (unit : s.tempFillingGroup.allUnits[k]? = none) (h : i < n) :
    Step s t (s.goto t (.swapOut ⟨i, h⟩))
  | listedLast (pc : s.pc t = .list i k j) (unit : s.tempFillingGroup.allUnits[k]? = none) (h : ¬i < n) :
    Step s t (s.lockTemp none |>.goto t .idle)
  | swapOut (pc : s.pc t = .swapOut i) (free : s.locked i = none) :
    Step s t (s.swap i |>.goto t (.swapIn (i + 1)))
  | lockGroup (pc : s.pc t = .lockGroups i) (h : i < n) (free : s.locked ⟨i, h⟩ = none) :
    Step s t (s.lock ⟨i, h⟩ (some t) |>.goto t (.lockGroups (i + 1)))
  | lockedGroups (pc : s.pc t = .lockGroups i) (h : ¬i < n) :
    Step s t (s.goto t (.count 0 0 0 0 []))
  | countSlot (pc : s.pc t = .count i k j unused perShard) (unit : (s.groupAt i).allUnits[k]? = some u)
      (h : j < slotCountPerUnit) :
    Step s t (s.goto t
      (.count i k (j + 1) (if s.usageFlag ⟨u, j, h⟩ = 0 then unused + 1 else unused) perShard))
  | countedUnit (pc : s.pc t = .count i k j unused perShard) (unit : (s.groupAt i).allUnits[k]? = some u)
      (h : ¬j < slotCountPerUnit) :
    Step s t (s.goto t (.count i (k + 1) 0 unused perShard))
  | countedGroup (pc : s.pc t = .count i k j unused perShard) (unit : (s.groupAt i).allUnits[k]? = none)
      (h : i < n) :
    Step s t (s.goto t (.count (i + 1) 0 0 0
      (perShard ++ [(unused, (s.groupAt i).allUnits.length * slotCountPerUnit)])))
  | countedAll (pc : s.pc t = .count i k j unused perShard) (unit : (s.groupAt i).allUnits[k]? = none)
      (h : ¬i < n) :
    Step s t (s.goto t (.report
      (statusReport perShard (unused, (s.groupAt i).allUnits.length * slotCountPerUnit))))
  | report (pc : s.pc t = .report r) :
    Step s t ({ s with locked := fun _ => none }.lockTemp none |>.goto t .idle)

def FlagsValid (s : State n T) : Prop :=
  ∀ p, s.usageFlag p = 0 ∨ s.usageFlag p = 1

variable {s s' : State n T} {t : T}

theorem FlagsValid.cases (v : s.FlagsValid) {s₁ s₂ s₃ : State n T}
    (h : s₁.onUsageFlag t (s.usageFlag p) s₂ s₃ = s') :
    (s.usageFlag p = 0 ∧ s' = s₂) ∨ (s.usageFlag p = 1 ∧ s' = s₃) := by
  have := v p
  simp only [onUsageFlag] at h
  grind

theorem Step.of_run (v : s.FlagsValid) (h : s.run t = some s') : Step s t s' := by
  cases pc : s.pc t <;> simp only [run, pc] at h
  case idle     => contradiction
  case panicked => contradiction
  case allocate i =>
    split at h
    case h_1 he => cases h; exact .newUnit pc he
    case h_2 hk =>
      split at h <;> cases h
      case h_1 hu => exact .tryUnitOutOfBounds pc hk hu
      case h_2 hu => exact .tryUnit pc hk hu
  case scan i u fresh j =>
    split at h
    case isTrue hj =>
      simp only [Option.some.injEq] at h
      obtain ⟨hf, rfl⟩ | ⟨hf, rfl⟩ := v.cases h
      · exact .scanUnused pc hj hf
      · exact .scanUsed pc hj hf
    case isFalse hj =>
      cases fresh <;> cases h
      · exact .scanFull pc hj
      · exact .scanNewUnitFull pc hj
  case init fresh _ _ =>
    split at h
    case isTrue hk => cases h; exact .init pc hk
    case isFalse hk =>
      cases fresh <;> cases h
      · exact .initUnit pc hk
      · exact .initNewUnit pc hk
  case unwind fresh _ =>
    simp only [clearFlag, Option.some.injEq] at h
    split at h
    case isTrue hu =>
      cases fresh <;> cases h
      · exact .unwindUnit pc hu
      · exact .unwindNewUnit pc hu
    case isFalse hu => cases h; exact .unwindUnused pc hu
  case dropNewUnit i u j =>
    split at h
    case isTrue hj =>
      simp only [Option.some.injEq] at h
      obtain ⟨hf, rfl⟩ | ⟨hf, rfl⟩ := v.cases h
      · exact .dropNewUnit pc hj hf
      · exact .dropNewUnitInUse pc hj hf
    case isFalse hj => cases h; exact .droppedNewUnit pc hj
  case swapIn =>
    split at h
    case isTrue hi =>
      split at h <;> cases h
      case isTrue hl => exact .swapIn pc hi hl
    case isFalse hi => cases h; exact .swappedAll pc hi
  case retain i kept rest j =>
    cases rest
    case nil => cases h; exact .retained pc
    case cons u rest =>
      simp only at h
      split at h
      case isTrue hj =>
        simp only [Option.some.injEq] at h
        obtain ⟨hf, rfl⟩ | ⟨hf, rfl⟩ := v.cases h
        · exact .retainUnused pc hj hf
        · exact .retainUsed pc hj hf
      case isFalse hj => cases h; exact .retainNot pc hj
  case dropUnit i kept u rest j =>
    split at h
    case isTrue hj =>
      simp only [Option.some.injEq] at h
      obtain ⟨hf, rfl⟩ | ⟨hf, rfl⟩ := v.cases h
      · exact .dropUnit pc hj hf
      · exact .dropUnitInUse pc hj hf
    case isFalse hj => cases h; exact .droppedUnit pc hj
  case list i k j =>
    split at h
    case h_1 hu =>
      split at h <;> cases h
      case isTrue hi  => exact .listed pc hu hi
      case isFalse hi => exact .listedLast pc hu hi
    case h_2 u hu =>
      split at h
      case isTrue hj =>
        simp only [Option.some.injEq] at h
        obtain ⟨hf, rfl⟩ | ⟨hf, rfl⟩ := v.cases h
        · exact .listUnused pc hu hj hf
        · exact .listUsed pc hu hj hf
      case isFalse hj => cases h; exact .listNot pc hu hj
  case swapOut =>
    split at h <;> cases h
    case isTrue hl => exact .swapOut pc hl
  case lockGroups =>
    split at h
    case isTrue hi =>
      split at h <;> cases h
      case isTrue hl => exact .lockGroup pc hi hl
    case isFalse hi => cases h; exact .lockedGroups pc hi
  case count =>
    split at h
    case h_1 hu =>
      split at h <;> cases h
      case isTrue hi  => exact .countedGroup pc hu hi
      case isFalse hi => exact .countedAll pc hu hi
    case h_2 hu =>
      split at h <;> cases h
      case isTrue hj  => exact .countSlot pc hu hj
      case isFalse hj => exact .countedUnit pc hu hj
  case report => cases h; exact .report pc

theorem Step.of_nextOf (v : s.FlagsValid) (h : s.nextOf t a = some s') : Step s t s' := by
  cases a <;> simp only [nextOf, Option.ite_none_right_eq_some, Option.some.injEq] at h
  case allocateAndInit => obtain ⟨⟨pc, hl⟩, rfl⟩ := h; exact .allocateAndInit pc hl
  case deallocate p =>
    obtain ⟨⟨pc, hp⟩, h⟩ := h
    simp only [clearFlag] at h
    split at h <;> cases h
    case isTrue hu  => exact .deallocate pc hp hu
    case isFalse hu => exact .deallocateUnused pc hp hu
  case doMaintenance   => obtain ⟨⟨pc, hl⟩, rfl⟩ := h; exact .doMaintenance pc hl
  case getStatusReport => obtain ⟨⟨pc, hl⟩, rfl⟩ := h; exact .getStatusReport pc hl
  case run             => exact .of_run v h
  case initPanics =>
    split at h <;> try contradiction
    case h_1 pc =>
      split at h <;> cases h
      case isTrue hk => exact .initPanics pc hk

attribute [grind =] Function.update_apply

theorem Step.pc_of_ne (st : Step s t s') (h : v ≠ t) : s'.pc v = s.pc v := by
  induction st <;> grind

theorem Step.flagsValid (v : s.FlagsValid) (st : Step s t s') : s'.FlagsValid := by
  intro p
  have := v p
  induction st <;> grind

end ShardedAlloc.State
