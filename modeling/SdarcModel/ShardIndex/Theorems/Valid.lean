import SdarcModel.ShardIndex.Basic

namespace ShardIndex

open ShardedAlloc.Layout

-- Every way to a shard index gives one below the shard count, and what is reached by it is in bounds.
structure Valid (count : ShardCount) : Prop where
  fromU64           : ∀ value, ∃ i, fromU64 count value = .ok i ∧
    i.asUsize = value.toNat % count.val.toNat ∧ i.asUsize < count.val.toNat
  fromBoundedU8     : ∀ value i, fromBoundedU8 count value = .ok i →
    i.asUsize = value.toNat ∧ i.asUsize < count.val.toNat
  shardIndexes      : (shardIndexes count).map asUsize = List.range count.val.toNat
  shardIndexesUntil : ∀ i : ShardIndex, i.asUsize < count.val.toNat → ∃ is, shardIndexesUntil count i = .ok is ∧
    is.map asUsize = List.range i.asUsize
  shardsArr         : ∀ {α : Type} (initFn : ShardIndex → α) (i : ShardIndex), i.asUsize < count.val.toNat →
    (shardsArr count initFn)[i.asUsize]? = some (initFn i)
  ptrAtShard        : ∀ unit slot (i : ShardIndex), i.asUsize < count.val.toNat →
    unit + ShardedAlloc.slotCountPerUnit * 8 ≤ ptrAtShard (usageFlagPtr unit slot) i.asUsize ∧
    ptrAtShard (usageFlagPtr unit slot) i.asUsize + 8 ≤ unit + dataLenInBytes count.val.toNat

variable {count : ShardCount}

theorem asUsize_injective {i j : ShardIndex} (h : i.asUsize = j.asUsize) : i = j := by
  cases i; cases j
  simpa [asUsize, UInt8.toNat_inj] using h

theorem fromU64_eq (hc : count.val ≠ 0) (hm : count.val.toNat ≤ maxShardCount) (value : UInt64) :
    ∃ i, fromU64 count value = .ok i ∧ i.asUsize = value.toNat % count.val.toNat ∧ i.asUsize < count.val.toNat := by
  have hpos : 0 < count.val.toNat := Nat.pos_of_ne_zero fun h => hc (UInt16.toNat_inj.mp h)
  have hlt : value.toNat % count.val.toNat < count.val.toNat := Nat.mod_lt _ hpos
  have he : (⟨(value % count.val.toUInt64).toUInt8⟩ : ShardIndex).asUsize = value.toNat % count.val.toNat := by
    simp only [asUsize, maxShardCount, UInt64.toNat_toUInt8, UInt64.toNat_mod, UInt16.toNat_toUInt64] at *
    omega
  exact ⟨_, by simp [fromU64, hc], he, he ▸ hlt⟩

theorem fromBoundedU8_lt (h : fromBoundedU8 count value = .ok i) :
    i.asUsize = value.toNat ∧ i.asUsize < count.val.toNat := by
  simp only [fromBoundedU8] at h
  split at h <;> cases h
  case isTrue hlt => exact ⟨rfl, by simpa [asUsize, UInt16.lt_iff_toNat_lt] using hlt⟩

theorem shardIndexes_eq (hm : count.val.toNat ≤ maxShardCount) :
    (shardIndexes count).map asUsize = List.range count.val.toNat := by
  rw [shardIndexes, List.map_map]
  refine (List.map_congr_left fun i hi => ?_).trans (List.map_id _)
  have := List.mem_range.mp hi
  simp only [maxShardCount, Function.comp_apply, asUsize, UInt16.toNat_toUInt8, UInt16.toNat_ofNat', id_eq] at *
  omega

theorem shardIndexesUntil_eq {i : ShardIndex} (h : i.asUsize < count.val.toNat) :
    ∃ is, shardIndexesUntil count i = .ok is ∧ is.map asUsize = List.range i.asUsize := by
  have hle : i.val.toUInt16 ≤ count.val := by
    simpa [UInt16.le_iff_toNat_le, asUsize] using Nat.le_of_lt h
  refine ⟨_, if_pos hle, ?_⟩
  rw [List.map_map]
  refine (List.map_congr_left fun j hj => ?_).trans (List.map_id _)
  have := List.mem_range.mp hj
  have := i.val.toNat_lt
  simp only [Function.comp_apply, asUsize, UInt8.toNat_ofNat', id_eq] at *
  omega

theorem shardsArr_getElem (hm : count.val.toNat ≤ maxShardCount) (initFn : ShardIndex → α) {i : ShardIndex}
    (h : i.asUsize < count.val.toNat) : (shardsArr count initFn)[i.asUsize]? = some (initFn i) := by
  have hi := congrArg (·[i.asUsize]?) (shardIndexes_eq hm)
  simp only [List.getElem?_map, List.getElem?_range h, Option.map_eq_some_iff] at hi
  obtain ⟨j, hj, he⟩ := hi
  rw [shardsArr, List.getElem?_map, hj, asUsize_injective he, Option.map_some]

theorem Valid.of_ne_zero (hc : count.val ≠ 0) (hm : count.val.toNat ≤ maxShardCount) : Valid count where
  fromU64                := fromU64_eq hc hm
  fromBoundedU8 _ _      := fromBoundedU8_lt
  shardIndexes           := shardIndexes_eq hm
  shardIndexesUntil _    := shardIndexesUntil_eq
  shardsArr initFn _     := shardsArr_getElem hm initFn
  ptrAtShard unit slot _ := cell_bounds unit slot

-- The counts that are accepted are small, and zero only if the variable says so.
theorem initShardCount_cases (h : initShardCount var par = .ok count) (hp : ∀ p, par = some p → 1 ≤ p ∧ p ≤ 2 ^ 32) :
    count.val.toNat ≤ maxShardCount ∧ (count.val = 0 ↔ ∃ s, var = some s ∧ parseUsize s = .ok 0) := by
  simp only [initShardCount, shardCountFromEnvVar] at h
  cases var
  case none =>
    simp only at h
    split at h <;> cases h
    case isFalse hn =>
      have : 1 ≤ par.getD 1 ∧ par.getD 1 ≤ 2 ^ 32 := by
        cases par
        case none   => decide
        case some p => exact hp p rfl
      simp only [maxShardCount, ← UInt16.toNat_inj, UInt16.toNat_ofNat', UInt16.toNat_zero, reduceCtorEq, false_and,
        exists_false, iff_false]
      omega
  case some s =>
    cases hs : parseUsize s
    case error e => simp [hs] at h
    case ok num =>
      simp only [hs] at h
      by_cases hnum : num > maxShardCount
      case pos => simp [hnum] at h
      case neg =>
        simp only [hnum, ite_false, Except.ok.injEq] at h
        subst h
        simp only [maxShardCount, ← UInt16.toNat_inj, UInt16.toNat_ofNat', Option.some.injEq, exists_eq_left', hs,
          Except.ok.injEq, UInt16.toNat_zero] at *
        omega

theorem valid_iff (var : Option String) (availableParallelism : Option Nat)
    (h : initShardCount var availableParallelism = .ok count)
    (hp : ∀ p, availableParallelism = some p → 1 ≤ p ∧ p ≤ 2 ^ 32) :
    Valid count ↔ ∀ s, var = some s → parseUsize s ≠ .ok 0 := by
  obtain ⟨hm, hz⟩ := initShardCount_cases h hp
  constructor
  case mp =>
    intro v s hs hn
    obtain ⟨_, he, _⟩ := v.fromU64 0
    simp [ShardIndex.fromU64, hz.mpr ⟨s, hs, hn⟩] at he
  case mpr =>
    intro hn
    exact .of_ne_zero (fun hc => have ⟨s, hs, hn'⟩ := hz.mp hc; hn s hs hn') hm

theorem valid_plus_16 : Valid ⟨16⟩ :=
  (valid_iff (some "+16") none rfl (by simp)).mpr fun s hs => by
    cases hs
    decide

-- A count of zero is accepted, and then no thread has a shard index.
theorem not_valid_zero : initShardCount (some "0") (some 8) = .ok ⟨0⟩ ∧
    (∀ value, fromU64 ⟨0⟩ value = .error .remainderByZero) ∧ ¬Valid ⟨0⟩ := by
  have he value : fromU64 ⟨0⟩ value = .error .remainderByZero := rfl
  refine ⟨rfl, he, fun v => ?_⟩
  obtain ⟨_, h, _⟩ := v.fromU64 0
  simp [he] at h

end ShardIndex
