import SdarcModel.ShardedAlloc.Theorems.Environment
import SdarcModel.ShardedAlloc.Theorems.Termination
import SdarcModel.ShardedAlloc.Theorems.Unwind

namespace ShardedAlloc

open Heap (Alike)

variable {n : Nat} {V : Type} {env env' : Nat → List ShardedDataPtr} {initFunc : Fin n → Option V} {g : AllocUnitGroup}
  {h h' : Heap n V}

-- What follows the loop that writes the data slots, and the one that looks for an unused slot.
def wrote (p : ShardedDataPtr) : Outcome n V Unit → Outcome n V (Option ShardedDataPtr)
  | (.ok (), h)   => (.ok (some p), h)
  | (.error e, h) => (.error e, h)

def found (env : Nat → List ShardedDataPtr) (initFunc : Fin n → Option V) :
    Outcome n V (Option ShardedDataPtr) → Outcome n V (Option ShardedDataPtr)
  | (.ok (some p), h) => wrote p (writeShards env initFunc p (shardIndexes n) h)
  | r                 => r

-- What follows the deallocation of a slot whose `init_func` has panicked.
def gaveBack : Outcome n V Unit → Outcome n V (Option ShardedDataPtr)
  | (.ok (), h)   => (.error .initFunc, h)
  | (.error e, h) => (.error e, h)

theorem allocateAndInitialize_eq (u : AllocUnit) (h : Heap n V) :
    allocateAndInitialize env initFunc u h =
      found env initFunc (allocateWithoutInitializing env u (List.finRange _) h) := by
  simp only [allocateAndInitialize]
  obtain ⟨e | _ | p, h⟩ := allocateWithoutInitializing env u (List.finRange _) h
  · rfl
  · rfl
  · simp only [found]
    obtain ⟨e | _, h⟩ := writeShards env initFunc p (shardIndexes n) h <;> rfl

-- The sequential `allocate` from the middle of a call on.
def resume (env : Nat → List ShardedDataPtr) (initFunc : Fin n → Option V) (g : AllocUnitGroup) (h : Heap n V) :
    Pc n → Except Unwind ShardedDataPtr × AllocUnitGroup × Heap n V
  | .scan _ u fresh j =>
    afterUnit env initFunc u g fresh
      (found env initFunc (allocateWithoutInitializing env u ((List.finRange _).drop j) h))
  | .init _ u fresh slot k =>
    afterUnit env initFunc u g fresh
      (wrote ⟨u, slot⟩ (writeShards env initFunc ⟨u, slot⟩ ((shardIndexes n).drop k) h))
  | .unwind _ u fresh slot =>
    afterUnit env initFunc u g fresh (gaveBack (deallocateWithoutDropping env ⟨u, slot⟩ h))
  | .dropNewUnit _ u j =>
    match isAnySlotUsed env u ((List.finRange _).drop j) h with
    | (.ok true, h)  => (.error (.assertion .unitInUse), g, h)
    | (.ok false, h) => (.error .initFunc, g, h.dealloc u)
    | (.error e, h)  => (.error e, g, h)
  | _ => allocate env initFunc g h

theorem resume_allocate (i : Fin n) : resume env initFunc g h (.allocate i) = allocate env initFunc g h := rfl

theorem resume_scan (i : Fin n) (fresh : Bool) :
    resume env initFunc g h (.scan i u fresh j) =
      afterUnit env initFunc u g fresh
        (found env initFunc (allocateWithoutInitializing env u ((List.finRange _).drop j) h)) :=
  rfl

theorem resume_init (i : Fin n) (fresh : Bool) :
    resume env initFunc g h (.init i u fresh slot k) =
      afterUnit env initFunc u g fresh
        (wrote ⟨u, slot⟩ (writeShards env initFunc ⟨u, slot⟩ ((shardIndexes n).drop k) h)) :=
  rfl

theorem resume_unwind (i : Fin n) (fresh : Bool) :
    resume env initFunc g h (.unwind i u fresh slot) =
      afterUnit env initFunc u g fresh (gaveBack (deallocateWithoutDropping env ⟨u, slot⟩ h)) :=
  rfl

theorem resume_dropNewUnit (i : Fin n) :
    resume env initFunc g h (.dropNewUnit i u j) =
      match isAnySlotUsed env u ((List.finRange _).drop j) h with
      | (.ok true, h)  => (.error (.assertion .unitInUse), g, h)
      | (.ok false, h) => (.error .initFunc, g, h.dealloc u)
      | (.error e, h)  => (.error e, g, h) :=
  rfl

theorem found_some (p : ShardedDataPtr) (h : Heap n V) :
    found env initFunc (.ok (some p), h) = wrote p (writeShards env initFunc p (shardIndexes n) h) :=
  rfl

theorem resume_alike (g : AllocUnitGroup) (pc : Pc n) (al : Alike env env' h h') :
    AlikeResults env env' (resume env initFunc g h pc) (resume env' initFunc g h' pc) := by
  have after u fresh {a b : Outcome n V (Option ShardedDataPtr)} (al : a.Alike env env' b) :
      AlikeResults env env' (afterUnit env initFunc u g fresh a) (afterUnit env' initFunc u g fresh b) :=
    afterUnit_alike u g fresh (fun _ _ _ => allocate_alike _) al
  have wrote p {a b : Outcome n V Unit} (al : a.Alike env env' b) : (wrote p a).Alike env env' (wrote p b) := by
    obtain ⟨x, _, _, rfl, rfl, al'⟩ := al.cases
    cases x <;> exact ⟨rfl, al'⟩
  cases pc
  case scan i u fresh j =>
    refine after u fresh ?_
    obtain ⟨x, _, _, ha, hb, al⟩ := (allocateWithoutInitializing_alike u ((List.finRange _).drop j) al).cases
    rw [ha, hb]
    match x with
    | .error e     => exact ⟨rfl, al⟩
    | .ok none     => exact ⟨rfl, al⟩
    | .ok (some p) => exact wrote p (writeShards_alike p _ al)
  case init i u fresh slot k => exact after u fresh (wrote _ (writeShards_alike _ _ al))
  case unwind i u fresh slot =>
    refine after u fresh ?_
    obtain ⟨x, _, _, ha, hb, al⟩ := (deallocateWithoutDropping_alike ⟨u, slot⟩ al).cases
    rw [ha, hb]
    cases x <;> exact ⟨rfl, al⟩
  case dropNewUnit i u j =>
    obtain ⟨x, _, _, ha, hb, al⟩ := (isAnySlotUsed_alike u ((List.finRange _).drop j) al).cases
    simp only [resume_dropNewUnit, ha, hb]
    match x with
    | .error e  => exact ⟨rfl, rfl, al⟩
    | .ok true  => exact ⟨rfl, rfl, al⟩
    | .ok false => exact ⟨rfl, rfl, al.dealloc u⟩
  all_goals exact allocate_alike g al

-- The next access, if no other thread has deallocated anything before it.
def Heap.access (h : Heap n V) : Heap n V :=
  { h with clock := h.clock + 1 }

-- What a step of the call is to the sequential function.
namespace Resume

theorem drop_finRange (hj : j < n) : (List.finRange n).drop j = ⟨j, hj⟩ :: (List.finRange n).drop (j + 1) := by
  rw [List.drop_eq_getElem_cons (by simpa using hj)]
  simp

theorem drop_finRange_of_le (hj : ¬j < n) : (List.finRange n).drop j = [] := by
  simpa using hj

theorem newUnit (hg : g.indexesOfUnitsToCheckForAllocation = []) (i : Fin n) :
    resume env initFunc g h (.allocate i) = resume env initFunc g h.newUnit (.scan i h.next true 0) := by
  simp only [resume_allocate, resume_scan, allocate_nil hg, allocateAndInitialize_eq, List.drop_zero]

theorem tryUnit (hg : g.indexesOfUnitsToCheckForAllocation = k :: ks) (hu : g.allUnits[k]? = some u) (i : Fin n) :
    resume env initFunc g h (.allocate i) = resume env initFunc g h (.scan i u false 0) := by
  simp only [resume_allocate, resume_scan, allocate_cons hg hu, allocateAndInitialize_eq, List.drop_zero]

theorem scanFull (hj : ¬j < slotCountPerUnit) (i : Fin n) :
    resume env initFunc g h (.scan i u false j) = resume env initFunc g.removeFirstIndex h (.allocate i) := by
  rw [resume_scan, drop_finRange_of_le hj]
  rfl

theorem init (hk : k < n) (hv : initFunc ⟨k, hk⟩ = some v) (i : Fin n) (fresh : Bool) :
    resume env initFunc g h (.init i u fresh slot k) =
      resume env initFunc g (h.write ⟨u, slot⟩ ⟨k, hk⟩ v) (.init i u fresh slot (k + 1)) := by
  simp only [resume_init, shardIndexes, drop_finRange hk, writeShards, hv]

theorem initPanics (hk : k < n) (hv : initFunc ⟨k, hk⟩ = none) (i : Fin n) (fresh : Bool) :
    resume env initFunc g h (.init i u fresh slot k) =
      resume env initFunc g ((shardIndexesUntil ⟨k, hk⟩).foldl (·.dropInPlace ⟨u, slot⟩) h) (.unwind i u fresh slot) := by
  simp only [resume_init, resume_unwind, shardIndexes, drop_finRange hk, writeShards, hv]
  congr 1
  obtain ⟨x, h⟩ := deallocateWithoutDropping env ⟨u, slot⟩ ((shardIndexesUntil ⟨k, hk⟩).foldl (·.dropInPlace ⟨u, slot⟩) h)
  cases x <;> rfl

theorem initialized (hk : ¬k < n) (i : Fin n) (fresh : Bool) :
    resume env initFunc g h (.init i u fresh slot k) = (.ok ⟨u, slot⟩, if fresh then g.pushUnit u else g, h) := by
  rw [resume_init, shardIndexes, drop_finRange_of_le hk]
  cases fresh <;> rfl

theorem droppedNewUnit (hj : ¬j < slotCountPerUnit) (i : Fin n) :
    resume env initFunc g h (.dropNewUnit i u j) = (.error .initFunc, g, h.dealloc u) := by
  rw [resume_dropNewUnit, drop_finRange_of_le hj]
  rfl

variable (he : env h.clock = [])
include he

theorem scanUnused (hj : j < slotCountPerUnit) (hf : h.usageFlag ⟨u, j, hj⟩ = 0) (i : Fin n) (fresh : Bool) :
    resume env initFunc g h (.scan i u fresh j) =
      resume env initFunc g (h.access.setFlag ⟨u, j, hj⟩ 1) (.init i u fresh ⟨j, hj⟩ 0) := by
  simp only [resume_scan, resume_init, drop_finRange hj, allocateWithoutInitializing, Heap.tick_of_nil he, hf,
    List.drop_zero]
  simp [Heap.access, found_some]

theorem scanUsed (hj : j < slotCountPerUnit) (hf : h.usageFlag ⟨u, j, hj⟩ = 1) (i : Fin n) (fresh : Bool) :
    resume env initFunc g h (.scan i u fresh j) =
      resume env initFunc g (h.access.setFlag ⟨u, j, hj⟩ 1) (.scan i u fresh (j + 1)) := by
  simp only [resume_scan, drop_finRange hj, allocateWithoutInitializing, Heap.tick_of_nil he, hf]
  simp [Heap.access]

theorem unwindNewUnit (hf : h.usageFlag ⟨u, slot⟩ = 1) (i : Fin n) :
    resume env initFunc g h (.unwind i u true slot) =
      resume env initFunc g (h.access.setFlag ⟨u, slot⟩ 0) (.dropNewUnit i u 0) := by
  simp only [resume_unwind, resume_dropNewUnit, deallocateWithoutDropping, Heap.tick_of_nil he, hf, if_true, gaveBack,
    afterUnit, List.drop_zero, ShardedAlloc.unwindNewUnit, dropUnit, Heap.access]
  generalize isAnySlotUsed env u (List.finRange _) _ = a
  obtain ⟨e | _ | _, h⟩ := a <;> rfl

theorem unwindUnit (hf : h.usageFlag ⟨u, slot⟩ = 1) (i : Fin n) :
    resume env initFunc g h (.unwind i u false slot) = (.error .initFunc, g, h.access.setFlag ⟨u, slot⟩ 0) := by
  simp only [resume_unwind, deallocateWithoutDropping, Heap.tick_of_nil he, hf, if_true]
  rfl

theorem dropNewUnit (hj : j < slotCountPerUnit) (hf : h.usageFlag ⟨u, j, hj⟩ = 0) (i : Fin n) :
    resume env initFunc g h (.dropNewUnit i u j) = resume env initFunc g h.access (.dropNewUnit i u (j + 1)) := by
  simp only [resume_dropNewUnit, drop_finRange hj, isAnySlotUsed, Heap.tick_of_nil he, hf]
  simp [Heap.access]

end Resume
end ShardedAlloc
