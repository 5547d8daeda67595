import SdarcModel.ShardedAlloc.Basic

-- Where the usage flags and the data of a unit lie, in bytes.
namespace ShardedAlloc.Layout

def dataLenInBytes (shardCount : Nat) : Nat :=
  slotCountPerUnit * (1 + shardCount) * 8

-- The alignment that `get_layout` asks for.
def align : Nat := 8

-- The address of a slot's usage flag, which is the slot's `base_ptr`.
def usageFlagPtr (unit : Nat) (slot : Fin slotCountPerUnit) : Nat :=
  unit + slot * 8

def ptrAtShard (basePtr shard : Nat) : Nat :=
  basePtr + slotCountPerUnit * (shard + 1) * 8

-- The cell of a slot at a shard.
def cell (unit : Nat) (slot : Fin slotCountPerUnit) (shard : Nat) : Nat :=
  ptrAtShard (usageFlagPtr unit slot) shard

theorem cell_bounds (unit : Nat) (slot : Fin slotCountPerUnit) (h : shard < shardCount) :
    unit + slotCountPerUnit * 8 ≤ cell unit slot shard ∧
      cell unit slot shard + 8 ≤ unit + dataLenInBytes shardCount := by
  have := slot.isLt
  simp only [cell, ptrAtShard, usageFlagPtr, dataLenInBytes, slotCountPerUnit] at *
  omega

def cacheLine : Nat := 128

-- Two words of eight bytes have bytes in one line.
def SharesLine (p q : Nat) : Prop :=
  ∃ x < 8, ∃ y < 8, (p + x) / cacheLine = (q + y) / cacheLine

-- No line holds data of two shards, or data and usage flags, of the units `a` and `b`.
structure Separated (shardCount a b : Nat) : Prop where
  cells : ∀ u ∈ [a, b], ∀ v ∈ [a, b], ∀ (i j : Fin slotCountPerUnit), ∀ s < shardCount, ∀ t < shardCount, s ≠ t →
    ¬SharesLine (cell u i s) (cell v j t)
  flags : ∀ u ∈ [a, b], ∀ v ∈ [a, b], ∀ (i j : Fin slotCountPerUnit), ∀ s < shardCount,
    ¬SharesLine (cell u i s) (usageFlagPtr v j)

-- Units lie at addresses of their own.
def Disjoint (shardCount a b : Nat) : Prop :=
  a + dataLenInBytes shardCount ≤ b ∨ b + dataLenInBytes shardCount ≤ a

-- In a unit at an address that is no multiple of a line, the last usage flag and the first shard's first
-- cell are in one line.
theorem sharesLine_of_not_dvd (ha : align ∣ u) (h : ¬cacheLine ∣ u) :
    SharesLine (cell u ⟨0, by decide⟩ 0) (usageFlagPtr u ⟨15, by decide⟩) := by
  refine ⟨0, by decide, 0, by decide, ?_⟩
  simp only [cell, ptrAtShard, usageFlagPtr, slotCountPerUnit, cacheLine, align] at *
  omega

-- In a unit at a multiple of a line, each shard has a line of its own, and the usage flags another.
theorem line_cell (h : cacheLine ∣ u) (slot : Fin slotCountPerUnit) (shard : Nat) (hx : x < 8) :
    (cell u slot shard + x) / cacheLine = u / cacheLine + (shard + 1) := by
  have := slot.isLt
  obtain ⟨k, rfl⟩ := h
  simp only [cell, ptrAtShard, usageFlagPtr, slotCountPerUnit, cacheLine] at *
  omega

theorem line_usageFlagPtr (h : cacheLine ∣ u) (slot : Fin slotCountPerUnit) (hx : x < 8) :
    (usageFlagPtr u slot + x) / cacheLine = u / cacheLine := by
  have := slot.isLt
  obtain ⟨k, rfl⟩ := h
  simp only [usageFlagPtr, slotCountPerUnit, cacheLine] at *
  omega

theorem line_of_disjoint (ha : cacheLine ∣ a) (hb : cacheLine ∣ b) (h : a = b ∨ Disjoint n a b) :
    a = b ∨ a / cacheLine + (1 + n) ≤ b / cacheLine ∨ b / cacheLine + (1 + n) ≤ a / cacheLine := by
  obtain ⟨k, rfl⟩ := ha
  obtain ⟨m, rfl⟩ := hb
  simp only [Disjoint, dataLenInBytes, slotCountPerUnit, cacheLine] at *
  omega

-- The data of different shards are in different cache lines just for units at multiples of a line.
theorem separated_iff (shardCount a b : Nat) (ha : align ∣ a) (hb : align ∣ b)
    (h : a = b ∨ Disjoint shardCount a b) :
    Separated shardCount a b ↔ shardCount = 0 ∨ (cacheLine ∣ a ∧ cacheLine ∣ b) := by
  constructor
  case mp =>
    intro sep
    rcases Nat.eq_zero_or_pos shardCount with h₀ | hpos
    case inl => exact .inl h₀
    case inr =>
      have hd u (hu : u ∈ [a, b]) (hw : align ∣ u) : cacheLine ∣ u := by
        by_contra hn
        exact sep.flags u hu u hu _ _ 0 hpos (sharesLine_of_not_dvd hw hn)
      exact .inr ⟨hd a (by simp) ha, hd b (by simp) hb⟩
  case mpr =>
    rintro (rfl | ⟨ha, hb⟩)
    case inl => constructor <;> simp
    case inr =>
      have hd u (hu : u ∈ [a, b]) : cacheLine ∣ u := by
        simp only [List.mem_cons, List.not_mem_nil, or_false] at hu
        rcases hu with rfl | rfl <;> assumption
      have hl u (hu : u ∈ [a, b]) v (hv : v ∈ [a, b]) : u = v ∨ u / cacheLine + (1 + shardCount) ≤ v / cacheLine ∨
          v / cacheLine + (1 + shardCount) ≤ u / cacheLine := by
        have := line_of_disjoint ha hb h
        simp only [List.mem_cons, List.not_mem_nil, or_false] at hu hv
        rcases hu with rfl | rfl <;> rcases hv with rfl | rfl <;> omega
      constructor
      case cells =>
        rintro u hu v hv i j s hs t ht hst ⟨x, hx, y, hy, he⟩
        rw [line_cell (hd u hu) i s hx, line_cell (hd v hv) j t hy] at he
        rcases hl u hu v hv with rfl | hlt | hlt <;> omega
      case flags =>
        rintro u hu v hv i j s hs ⟨x, hx, y, hy, he⟩
        rw [line_cell (hd u hu) i s hx, line_usageFlagPtr (hd v hv) j hy] at he
        rcases hl u hu v hv with rfl | hlt | hlt <;> omega

theorem separated_4096 : Separated 2 4096 4480 :=
  (separated_iff 2 4096 4480 (by decide) (by decide) (.inr (.inl (by decide)))).mpr (.inr (by decide))

-- At an address that is a multiple of 16 only, two shards have data in one line.
theorem not_separated_4112 : align ∣ 4112 ∧
    SharesLine (cell 4112 ⟨15, by decide⟩ 0) (cell 4112 ⟨0, by decide⟩ 1) ∧ ¬Separated 2 4112 4112 := by
  have hs : SharesLine (cell 4112 ⟨15, by decide⟩ 0) (cell 4112 ⟨0, by decide⟩ 1) :=
    ⟨0, by decide, 0, by decide, by decide⟩
  exact ⟨by decide, hs, fun h => h.cells 4112 (by simp) 4112 (by simp) _ _ 0 (by decide) 1 (by decide) (by decide) hs⟩

end ShardedAlloc.Layout
