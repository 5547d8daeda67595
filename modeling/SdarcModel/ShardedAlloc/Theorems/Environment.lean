import SdarcModel.ShardedAlloc.Allocate

-- What a call of `allocate` depends on of the deallocations of other threads.
namespace ShardedAlloc

variable {n : Nat} {V α : Type} {env env' : Nat → List ShardedDataPtr} {initFunc : Fin n → Option V} {h h' : Heap n V}

namespace Heap

-- The heaps cannot be told apart from the next access on.
structure Alike (env env' : Nat → List ShardedDataPtr) (h h' : Heap n V) : Prop where
  tick  : h.tick env = h'.tick env'
  later : ∀ c, h.clock < c → env c = env' c

theorem tick_of_nil (he : env h.clock = []) : h.tick env = { h with clock := h.clock + 1 } := by
  simp [tick, he]

namespace Alike

-- After the access they are one heap.
theorem after (al : Alike env env' h h') {x : Heap n V} (hx : x.clock = (h'.tick env').clock) : Alike env env' x x := by
  have hc : x.clock = h.clock + 1 := by rw [hx, ← al.tick]; rfl
  constructor
  case tick  => simp only [Heap.tick, al.later x.clock (by omega)]
  case later => exact fun c hlt => al.later c (by omega)

-- A deallocation before the next access is one at that access.
theorem deallocated (env : Nat → List ShardedDataPtr) (h : Heap n V) (p : ShardedDataPtr) :
    Alike (Function.update env h.clock (p :: env h.clock)) env h
      { h with usageFlag := Function.update h.usageFlag p 0 } := by
  constructor
  case tick =>
    simp only [Heap.tick, Function.update_self, List.mem_cons, mk.injEq, and_true, true_and]
    funext q
    by_cases hq : q = p <;> simp [hq]
  case later => exact fun c hlt => Function.update_of_ne (by omega) ..

variable (al : Alike env env' h h')
include al

theorem write (p : ShardedDataPtr) (i : Fin n) (v : V) : Alike env env' (h.write p i v) (h'.write p i v) where
  tick  := congrArg (Heap.write · p i v) al.tick
  later := al.later

theorem dropInPlace (p : ShardedDataPtr) (i : Fin n) : Alike env env' (h.dropInPlace p i) (h'.dropInPlace p i) where
  tick  := congrArg (Heap.dropInPlace · p i) al.tick
  later := al.later

theorem dropInPlace_foldl (p : ShardedDataPtr) (is : List (Fin n)) :
    Alike env env' (is.foldl (·.dropInPlace p) h) (is.foldl (·.dropInPlace p) h') := by
  induction is generalizing h h'
  case nil          => exact al
  case cons i is ih => exact ih (al.dropInPlace p i)

theorem dealloc (u : AllocUnit) : Alike env env' (h.dealloc u) (h'.dealloc u) where
  tick  := congrArg (Heap.dealloc · u) al.tick
  later := al.later

omit al in
theorem newUnit_tick (env : Nat → List ShardedDataPtr) (h : Heap n V) : h.newUnit.tick env = (h.tick env).newUnit := by
  simp only [Heap.tick, Heap.newUnit, mk.injEq, and_true, true_and]
  funext p
  by_cases hp : p ∈ env h.clock <;> simp [hp]

theorem newUnit : Alike env env' h.newUnit h'.newUnit where
  tick  := by rw [newUnit_tick, newUnit_tick, al.tick]
  later := al.later

theorem next_eq : h.next = h'.next := by
  have := congrArg Heap.next al.tick
  exact this

end Alike
end Heap

-- The same result, and heaps that cannot be told apart.
def Outcome.Alike (a : Outcome n V α) (env env' : Nat → List ShardedDataPtr) (b : Outcome n V α) : Prop :=
  a.1 = b.1 ∧ Heap.Alike env env' a.2 b.2

theorem Outcome.Alike.cases {a b : Outcome n V α} (al : a.Alike env env' b) :
    ∃ x h h', a = (x, h) ∧ b = (x, h') ∧ Heap.Alike env env' h h' := by
  obtain ⟨x, h⟩ := a
  obtain ⟨y, h'⟩ := b
  obtain ⟨rfl, al⟩ : x = y ∧ Heap.Alike env env' h h' := al
  exact ⟨x, h, h', rfl, rfl, al⟩

open Heap (Alike)

theorem allocateWithoutInitializing_alike (u : AllocUnit) (js : List (Fin slotCountPerUnit)) (al : Alike env env' h h') :
    (allocateWithoutInitializing env u js h).Alike env env' (allocateWithoutInitializing env' u js h') := by
  induction js generalizing h h'
  case nil => exact ⟨rfl, al⟩
  case cons j js ih =>
    simp only [allocateWithoutInitializing, al.tick]
    have al' : Alike env env' ((h'.tick env').setFlag ⟨u, j⟩ 1) ((h'.tick env').setFlag ⟨u, j⟩ 1) := al.after rfl
    split
    case isTrue => exact ⟨rfl, al'⟩
    case isFalse =>
      split
      case isTrue  => exact ⟨rfl, al'⟩
      case isFalse => exact ih al'

theorem isAnySlotUsed_alike (u : AllocUnit) (js : List (Fin slotCountPerUnit)) (al : Alike env env' h h') :
    (isAnySlotUsed env u js h).Alike env env' (isAnySlotUsed env' u js h') := by
  induction js generalizing h h'
  case nil => exact ⟨rfl, al⟩
  case cons j js ih =>
    simp only [isAnySlotUsed, al.tick]
    have al' : Alike env env' (h'.tick env') (h'.tick env') := al.after rfl
    split
    case isTrue => exact ⟨rfl, al'⟩
    case isFalse =>
      split
      case isTrue  => exact ⟨rfl, al'⟩
      case isFalse => exact ih al'

theorem deallocateWithoutDropping_alike (p : ShardedDataPtr) (al : Alike env env' h h') :
    (deallocateWithoutDropping env p h).Alike env env' (deallocateWithoutDropping env' p h') := by
  simp only [deallocateWithoutDropping, al.tick]
  split <;> exact ⟨rfl, al.after rfl⟩

theorem writeShards_alike (p : ShardedDataPtr) (is : List (Fin n)) (al : Alike env env' h h') :
    (writeShards env initFunc p is h).Alike env env' (writeShards env' initFunc p is h') := by
  induction is generalizing h h'
  case nil => exact ⟨rfl, al⟩
  case cons i is ih =>
    simp only [writeShards]
    split
    case h_1 v _ => exact ih (al.write p i v)
    case h_2 =>
      obtain ⟨x, _, _, ha, hb, al'⟩ :=
        (deallocateWithoutDropping_alike p (al.dropInPlace_foldl p (shardIndexesUntil i))).cases
      rw [ha, hb]
      cases x <;> exact ⟨rfl, al'⟩

theorem allocateAndInitialize_alike (u : AllocUnit) (al : Alike env env' h h') :
    (allocateAndInitialize env initFunc u h).Alike env env' (allocateAndInitialize env' initFunc u h') := by
  obtain ⟨x, _, _, ha, hb, al'⟩ := (allocateWithoutInitializing_alike u (List.finRange _) al).cases
  simp only [allocateAndInitialize, ha, hb]
  match x with
  | .error e       => exact ⟨rfl, al'⟩
  | .ok none       => exact ⟨rfl, al'⟩
  | .ok (some p) =>
    obtain ⟨x, _, _, ha, hb, al'⟩ :=
      Outcome.Alike.cases (a := writeShards env initFunc p (shardIndexes n) _) (writeShards_alike p (shardIndexes n) al')
    simp only [ha, hb]
    cases x <;> exact ⟨rfl, al'⟩

theorem dropUnit_alike (u : AllocUnit) (al : Alike env env' h h') :
    (dropUnit env u h).Alike env env' (dropUnit env' u h') := by
  obtain ⟨x, _, _, ha, hb, al'⟩ := (isAnySlotUsed_alike u (List.finRange _) al).cases
  simp only [dropUnit, ha, hb]
  match x with
  | .error e   => exact ⟨rfl, al'⟩
  | .ok true   => exact ⟨rfl, al'⟩
  | .ok false  => exact ⟨rfl, al'.dealloc u⟩

-- The same for what `allocate` returns.
def AlikeResults (env env' : Nat → List ShardedDataPtr) (a b : Except Unwind ShardedDataPtr × AllocUnitGroup × Heap n V) :
    Prop :=
  a.1 = b.1 ∧ a.2.1 = b.2.1 ∧ Alike env env' a.2.2 b.2.2

theorem unwindNewUnit_alike (e : Unwind) (u : AllocUnit) (g : AllocUnitGroup) (al : Alike env env' h h') :
    AlikeResults env env' (.error (unwindNewUnit env e u h).1, g, (unwindNewUnit env e u h).2)
      (.error (unwindNewUnit env' e u h').1, g, (unwindNewUnit env' e u h').2) := by
  obtain ⟨x, _, _, ha, hb, al'⟩ := (dropUnit_alike u al).cases
  simp only [unwindNewUnit, ha, hb]
  cases x <;> exact ⟨rfl, rfl, al'⟩

-- What `allocate` does with the outcome of `allocate_and_initialize` in the unit `u`.
def afterUnit (env : Nat → List ShardedDataPtr) (initFunc : Fin n → Option V) (u : AllocUnit) (g : AllocUnitGroup) :
    Bool → Outcome n V (Option ShardedDataPtr) → Except Unwind ShardedDataPtr × AllocUnitGroup × Heap n V
  | true,  (.ok (some p), h) => (.ok p, g.pushUnit u, h)
  | true,  (.ok none, h)     =>
    (.error (unwindNewUnit env (.assertion .newUnitFull) u h).1, g, (unwindNewUnit env (.assertion .newUnitFull) u h).2)
  | true,  (.error e, h)     => (.error (unwindNewUnit env e u h).1, g, (unwindNewUnit env e u h).2)
  | false, (.ok (some p), h) => (.ok p, g, h)
  | false, (.ok none, h)     => allocate env initFunc g.removeFirstIndex h
  | false, (.error e, h)     => (.error e, g, h)

theorem allocate_nil {g : AllocUnitGroup} (hg : g.indexesOfUnitsToCheckForAllocation = []) (h : Heap n V) :
    allocate env initFunc g h =
      afterUnit env initFunc h.next g true (allocateAndInitialize env initFunc h.next h.newUnit) := by
  rw [allocate]
  split
  case h_1 =>
    obtain ⟨e | _ | p, h'⟩ := allocateAndInitialize env initFunc h.next h.newUnit <;> rfl
  case h_2 k ks hk => simp [hg] at hk

theorem allocate_cons {g : AllocUnitGroup} (hg : g.indexesOfUnitsToCheckForAllocation = k :: ks)
    (hu : g.allUnits[k]? = some u) (h : Heap n V) :
    allocate env initFunc g h = afterUnit env initFunc u g false (allocateAndInitialize env initFunc u h) := by
  rw [allocate]
  split
  case h_1 hk => simp [hg] at hk
  case h_2 k' ks' hk =>
    obtain ⟨rfl, rfl⟩ : k = k' ∧ ks = ks' := by simpa [hg] using hk
    simp only [hu]
    obtain ⟨e | _ | p, h'⟩ := allocateAndInitialize env initFunc u h <;> rfl

theorem allocate_none {g : AllocUnitGroup} (hg : g.indexesOfUnitsToCheckForAllocation = k :: ks)
    (hu : g.allUnits[k]? = none) (h : Heap n V) :
    allocate env initFunc g h = (.error (.assertion .indexOutOfBounds), g, h) := by
  rw [allocate]
  split
  case h_1 hk => simp [hg] at hk
  case h_2 k' ks' hk =>
    obtain ⟨rfl, rfl⟩ : k = k' ∧ ks = ks' := by simpa [hg] using hk
    simp only [hu]

theorem afterUnit_alike (u : AllocUnit) (g : AllocUnitGroup) (fresh : Bool)
    (next : fresh = false → ∀ {h h'}, Alike env env' h h' →
      AlikeResults env env' (allocate env initFunc g.removeFirstIndex h) (allocate env' initFunc g.removeFirstIndex h'))
    {a b : Outcome n V (Option ShardedDataPtr)} (al : a.Alike env env' b) :
    AlikeResults env env' (afterUnit env initFunc u g fresh a) (afterUnit env' initFunc u g fresh b) := by
  obtain ⟨x, _, _, rfl, rfl, al'⟩ := al.cases
  match fresh, x with
  | true,  .ok (some p) => exact ⟨rfl, rfl, al'⟩
  | true,  .ok none     => exact unwindNewUnit_alike _ u g al'
  | true,  .error e     => exact unwindNewUnit_alike e u g al'
  | false, .ok (some p) => exact ⟨rfl, rfl, al'⟩
  | false, .ok none     => exact next rfl al'
  | false, .error e     => exact ⟨rfl, rfl, al'⟩

theorem allocate_alike {h h' : Heap n V} (g : AllocUnitGroup) (al : Alike env env' h h') :
    AlikeResults env env' (allocate env initFunc g h) (allocate env' initFunc g h') := by
  cases hg : g.indexesOfUnitsToCheckForAllocation
  case nil =>
    rw [allocate_nil hg, allocate_nil hg, ← al.next_eq]
    exact afterUnit_alike _ g true nofun (allocateAndInitialize_alike _ al.newUnit)
  case cons k ks =>
    cases hu : g.allUnits[k]?
    case none =>
      rw [allocate_none hg hu, allocate_none hg hu]
      exact ⟨rfl, rfl, al⟩
    case some u =>
      rw [allocate_cons hg hu, allocate_cons hg hu]
      exact afterUnit_alike u g false (fun _ _ _ al => allocate_alike g.removeFirstIndex al) (allocateAndInitialize_alike u al)
termination_by g.indexesOfUnitsToCheckForAllocation.length
decreasing_by simp [AllocUnitGroup.length_removeFirstIndex, hg]

end ShardedAlloc
