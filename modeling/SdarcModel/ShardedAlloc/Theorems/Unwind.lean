import SdarcModel.ShardedAlloc.Allocate

namespace ShardedAlloc

variable {n : Nat} {V : Type} {env : Nat → List ShardedDataPtr} {initFunc : Fin n → Option V}
  {h h₁ h₂ h₃ : Heap n V}

namespace Heap

-- Another thread deallocates `p` between the accesses `a` and `b`.
def Freed (env : Nat → List ShardedDataPtr) (a b : Nat) (p : ShardedDataPtr) : Prop :=
  ∃ c, a ≤ c ∧ c < b ∧ p ∈ env c

theorem freed_split (env : Nat → List ShardedDataPtr) (p : ShardedDataPtr) (h : a ≤ b) (h' : b ≤ c) :
    Freed env a c p ↔ Freed env a b p ∨ Freed env b c p := by
  constructor
  case mp =>
    rintro ⟨d, _, _, hp⟩
    by_cases hd : d < b
    · exact .inl ⟨d, by omega, hd, hp⟩
    · exact .inr ⟨d, by omega, by omega, hp⟩
  case mpr =>
    rintro (⟨d, _, _, hp⟩ | ⟨d, _, _, hp⟩)
    · exact ⟨d, by omega, by omega, hp⟩
    · exact ⟨d, by omega, by omega, hp⟩

-- Other threads deallocate slots in use, each once.
structure WellFreed (env : Nat → List ShardedDataPtr) (h : Heap n V) : Prop where
  used : ∀ c, h.clock ≤ c → ∀ p ∈ env c, p.unit < h.next ∧ h.usageFlag p = 1
  once : ∀ c c' p, p ∈ env c → p ∈ env c' → c = c'

-- The usage flags of `h₂` are those of `h₁` but for the deallocations of other threads.
structure Same (env : Nat → List ShardedDataPtr) (h₁ h₂ : Heap n V) : Prop where
  clock       : h₁.clock ≤ h₂.clock
  next        : h₂.next = h₁.next
  deallocated : h₂.deallocated = h₁.deallocated
  freed       : ∀ p, Freed env h₁.clock h₂.clock p → h₂.usageFlag p = 0
  kept        : ∀ p, ¬Freed env h₁.clock h₂.clock p → h₂.usageFlag p = h₁.usageFlag p

def FlagsValid (h : Heap n V) : Prop :=
  ∀ p, h.usageFlag p = 0 ∨ h.usageFlag p = 1

namespace Same

theorem refl : Same env h h where
  clock       := Nat.le_refl _
  next        := rfl
  deallocated := rfl
  freed _     := fun ⟨_, _, _, _⟩ => by omega
  kept _ _    := rfl

theorem trans (s₁ : Same env h₁ h₂) (s₂ : Same env h₂ h₃) : Same env h₁ h₃ := by
  have hc := s₁.clock
  have hc' := s₂.clock
  have hf p := freed_split env p hc hc'
  constructor
  case clock       => omega
  case next        => rw [s₂.next, s₁.next]
  case deallocated => rw [s₂.deallocated, s₁.deallocated]
  case freed =>
    intro p hp
    by_cases h₂₃ : Freed env h₂.clock h₃.clock p
    · exact s₂.freed p h₂₃
    · rw [s₂.kept p h₂₃, s₁.freed p (((hf p).mp hp).resolve_right h₂₃)]
  case kept =>
    intro p hp
    simp only [hf, not_or] at hp
    rw [s₂.kept p hp.right, s₁.kept p hp.left]

theorem tick : Same env h (h.tick env) where
  clock       := Nat.le_succ _
  next        := rfl
  deallocated := rfl
  freed p     := by
    rintro ⟨c, h₁, h₂, hp⟩
    have : c = h.clock := by simp only [Heap.tick] at h₂; omega
    simp_all [Heap.tick]
  kept p hp   := by
    have : p ∉ env h.clock := fun h' => hp ⟨h.clock, Nat.le_refl _, Nat.lt_succ_self _, h'⟩
    simp [Heap.tick, this]

theorem of_usageFlag (s : Same env h₁ h₂) (hc : h₃.clock = h₂.clock) (hn : h₃.next = h₂.next)
    (hd : h₃.deallocated = h₂.deallocated) (hf : h₃.usageFlag = h₂.usageFlag) : Same env h₁ h₃ := by
  obtain ⟨c, n, d, f, k⟩ := s
  constructor <;> simp_all

theorem flag_eq_zero (s : Same env h₁ h₂) (hp : h₁.usageFlag p = 0) : h₂.usageFlag p = 0 := by
  by_cases hf : Freed env h₁.clock h₂.clock p
  · exact s.freed p hf
  · rw [s.kept p hf, hp]

theorem flag_eq_one (s : Same env h₁ h₂) (hp : h₂.usageFlag p = 1) : h₁.usageFlag p = 1 := by
  by_cases hf : Freed env h₁.clock h₂.clock p
  · simp [s.freed p hf] at hp
  · rwa [s.kept p hf] at hp

theorem flagsValid (s : Same env h₁ h₂) (v : h₁.FlagsValid) : h₂.FlagsValid := by
  intro p
  by_cases hf : Freed env h₁.clock h₂.clock p
  · exact .inl (s.freed p hf)
  · rw [s.kept p hf]; exact v p

theorem wellFreed (s : Same env h₁ h₂) (w : WellFreed env h₁) : WellFreed env h₂ where
  used c hc p hp := by
    have ⟨hu, hf⟩ := w.used c (s.clock.trans hc) p hp
    refine ⟨s.next ▸ hu, ?_⟩
    rw [s.kept, hf]
    rintro ⟨c', _, hc', hp'⟩
    have := w.once c c' p hp hp'
    omega
  once := w.once

end Same

theorem WellFreed.not_mem (w : WellFreed env h) (hp : h.usageFlag p = 0) (hc : h.clock ≤ c) : p ∉ env c :=
  fun h' => by simp [(w.used c hc p h').right] at hp

end Heap

open Heap

@[simp] theorem Heap.tick_clock : (h.tick env).clock = h.clock + 1 := rfl
@[simp] theorem Heap.tick_dropped : (h.tick env).dropped = h.dropped := rfl
@[simp] theorem Heap.setFlag_dropped : (h.setFlag p v).dropped = h.dropped := rfl
@[simp] theorem Heap.setFlag_self : (h.setFlag p v).usageFlag p = v := by simp [setFlag]

theorem Heap.setFlag_eq_self (hv : h.usageFlag p = v) : h.setFlag p v = h := by
  simp [setFlag, ← hv]

-- How a search for an unused slot among the slots `js` can end.
inductive Scanned (env : Nat → List ShardedDataPtr) (u : AllocUnit) (js : List (Fin slotCountPerUnit))
    (h : Heap n V) : Outcome n V (Option ShardedDataPtr) → Prop
  | full (same : Same env h h') (used : ∀ j ∈ js, h.usageFlag ⟨u, j⟩ = 1) (dropped : h'.dropped = h.dropped) :
    Scanned env u js h (.ok none, h')
  | claimed (same : Same env h h') (free : h'.usageFlag p = 0) (unit : p.unit = u)
      (dropped : h'.dropped = h.dropped) :
    Scanned env u js h (.ok (some p), h'.setFlag p 1)

theorem scanned (env : Nat → List ShardedDataPtr) (u : AllocUnit) (v : h.FlagsValid) (js : List (Fin slotCountPerUnit)) :
    Scanned env u js h (allocateWithoutInitializing env u js h) := by
  induction js generalizing h
  case nil => exact .full .refl (by simp) rfl
  case cons j js ih =>
    have s : Same env h (h.tick env) := .tick
    have hv := s.flagsValid v ⟨u, j⟩
    simp only [allocateWithoutInitializing]
    rcases hv with h₀ | h₁
    case inl =>
      simp only [h₀]
      exact .claimed s h₀ rfl rfl
    case inr =>
      simp only [h₁, Heap.setFlag_eq_self h₁]
      have ih := ih (s.flagsValid v)
      simp only [ne_eq, Nat.one_ne_zero, not_true_eq_false, and_false, ite_false]
      generalize allocateWithoutInitializing env u js (h.tick env) = r at ih
      cases ih
      case full s' used dropped =>
        refine .full (s.trans s') (fun i hi => ?_) dropped
        rcases List.mem_cons.mp hi with rfl | hi
        · exact s.flag_eq_one h₁
        · exact s.flag_eq_one (used i hi)
      case claimed s' free unit dropped => exact .claimed (s.trans s') free unit dropped

theorem dropInPlace_foldl {is : List (Fin n)} (p : ShardedDataPtr) (hn : is.Nodup) :
    ∃ cell, is.foldl (·.dropInPlace p) h =
      { h with cell := cell, dropped := h.dropped ++ is.filterMap (h.cell p) } := by
  induction is generalizing h
  case nil => exact ⟨h.cell, by simp⟩
  case cons i is ih =>
    have ⟨hi, hn⟩ := List.nodup_cons.mp hn
    have ⟨cell, ih⟩ := ih (h := h.dropInPlace p i) hn
    have hc : is.filterMap ((h.dropInPlace p i).cell p) = is.filterMap (h.cell p) :=
      List.filterMap_congr fun j hj => by
        simp [Heap.dropInPlace, Function.update_of_ne (ne_of_mem_of_not_mem hj hi)]
    refine ⟨cell, ?_⟩
    rw [List.foldl_cons, ih, hc]
    cases hp : h.cell p i <;> simp [Heap.dropInPlace, hp]

theorem shardIndexesUntil_eq {pre is : List (Fin n)} (h : pre ++ k :: is = List.finRange n) :
    shardIndexesUntil k = pre := by
  have hl : pre.length < (List.finRange n).length := by rw [← h]; simp
  have hk : k.val = pre.length := by
    have := List.getElem_finRange hl
    simp only [← h, List.getElem_append_right (Nat.le_refl _), Nat.sub_self, List.getElem_cons_zero] at this
    rw [this]
    rfl
  rw [shardIndexesUntil, ← h, hk, List.take_left]

-- How a call ends that has claimed the slot `p` in `h`.
inductive Written (env : Nat → List ShardedDataPtr) (initFunc : Fin n → Option V) (p : ShardedDataPtr)
    (h : Heap n V) : Outcome n V Unit → Prop
  | written (total : ∀ i, initFunc i ≠ none) (heap : h' = { h.setFlag p 1 with cell := h'.cell })
      (cell : ∀ i, h'.cell p i = initFunc i) :
    Written env initFunc p h (.ok (), h')
  | unwound (panics : initFunc k = none) (first : ∀ i < k, initFunc i ≠ none) (same : Same env h h')
      (dropped : h'.dropped = h.dropped ++ (shardIndexesUntil k).filterMap initFunc) :
    Written env initFunc p h (.error .initFunc, h')

theorem mem_prefix_of_lt {pre is : List (Fin n)} (h : pre ++ k :: is = List.finRange n) {i : Fin n} (hi : i < k) :
    i ∈ pre := by
  have hm : i ∈ pre ++ k :: is := h ▸ List.mem_finRange i
  have hs : (pre ++ k :: is).Pairwise (· < ·) := h ▸ List.pairwise_lt_finRange n
  have hk := (List.pairwise_cons.mp (List.pairwise_append.mp hs).2.1).1
  rcases List.mem_append.mp hm with hm | hm
  · exact hm
  · rcases List.mem_cons.mp hm with rfl | hm
    · exact absurd hi (lt_irrefl i)
    · exact absurd hi (lt_asymm (hk i hm))

-- The induction is on the shards that are still to be written, after those in `pre`.
theorem written_of_prefix (w : WellFreed env h) (free : h.usageFlag p = 0) (pre : List (Fin n)) {is : List (Fin n)}
    (hs : pre ++ is = List.finRange n) (cell : ShardedDataPtr → Fin n → Option V)
    (hp : ∀ i ∈ pre, cell p i = initFunc i ∧ initFunc i ≠ none) :
    Written env initFunc p h (writeShards env initFunc p is { h.setFlag p 1 with cell := cell }) := by
  induction is generalizing pre cell
  case nil =>
    rw [List.append_nil] at hs
    exact .written (fun i => (hp i (hs ▸ List.mem_finRange i)).2) rfl fun i => (hp i (hs ▸ List.mem_finRange i)).1
  case cons k is ih =>
    simp only [writeShards]
    cases hk : initFunc k
    case some v =>
      refine ih (pre ++ [k]) (by simpa using hs) (Function.update cell p (Function.update (cell p) k (some v))) ?_
      intro i hi
      by_cases h : i = k
      · simp [h, hk]
      · have hi : i ∈ pre := by simpa [h] using hi
        simpa [h] using hp i hi
    case none =>
      have hn : pre.Nodup := (List.nodup_append.mp (hs ▸ List.nodup_finRange n)).1
      obtain ⟨cell', he⟩ := dropInPlace_foldl (h := { h.setFlag p 1 with cell := cell }) p hn
      have hm : p ∉ env h.clock := w.not_mem free (Nat.le_refl _)
      have hf : pre.filterMap (cell p) = pre.filterMap initFunc :=
        List.filterMap_congr fun i hi => (hp i hi).1
      simp only [shardIndexesUntil_eq hs, he, deallocateWithoutDropping]
      have hone : (Heap.tick env { h.setFlag p 1 with
          cell := cell', dropped := h.dropped ++ pre.filterMap (cell p) }).usageFlag p = 1 := by
        simp [Heap.tick, Heap.setFlag, hm]
      simp only [Heap.setFlag_dropped, hone, if_pos]
      refine .unwound hk (fun i hi => (hp i (mem_prefix_of_lt hs hi)).2)
        (Same.tick.of_usageFlag rfl rfl rfl ?_) (by rw [shardIndexesUntil_eq hs, ← hf]; rfl)
      funext q
      by_cases hq : q = p
      · simp [hq, Heap.tick, Heap.setFlag, hm, free]
      · simp [hq, Heap.tick, Heap.setFlag]

theorem dropUnit_eq (env : Nat → List ShardedDataPtr) (u : AllocUnit) (h : Heap n V) (hu : ∀ j, h.usageFlag ⟨u, j⟩ = 0) :
    ∃ h', dropUnit env u h = (.ok (), h'.dealloc u) ∧ Same env h h' ∧ h'.dropped = h.dropped := by
  have hs (js) : ∃ h', isAnySlotUsed env u js h = (.ok false, h') ∧ Same env h h' ∧ h'.dropped = h.dropped := by
    induction js generalizing h
    case nil => exact ⟨h, rfl, .refl, rfl⟩
    case cons j js ih =>
      have s : Same env h (h.tick env) := .tick
      have ⟨h', he, s', hd⟩ := ih (h.tick env) fun j => s.flag_eq_zero (hu j)
      refine ⟨h', ?_, s.trans s', hd⟩
      simp [isAnySlotUsed, s.flag_eq_zero (hu j), he]
  have ⟨h', he, s, hd⟩ := hs (List.finRange _)
  exact ⟨h', by simp [dropUnit, he], s, hd⟩

-- How a call of `allocate_and_initialize` can end.
inductive Allocated (env : Nat → List ShardedDataPtr) (initFunc : Fin n → Option V) (u : AllocUnit)
    (h : Heap n V) : Outcome n V (Option ShardedDataPtr) → Prop
  | full (same : Same env h h') (used : ∀ j, h.usageFlag ⟨u, j⟩ = 1) (dropped : h'.dropped = h.dropped) :
    Allocated env initFunc u h (.ok none, h')
  | allocated (same : Same env h h') (free : h'.usageFlag p = 0) (unit : p.unit = u)
      (total : ∀ i, initFunc i ≠ none) (cell : ∀ i, h''.cell p i = initFunc i) (clock : h''.clock = h'.clock) :
    Allocated env initFunc u h (.ok (some p), h'')
  | unwound (panics : initFunc k = none) (first : ∀ i < k, initFunc i ≠ none) (same : Same env h h')
      (dropped : h'.dropped = h.dropped ++ (shardIndexesUntil k).filterMap initFunc) :
    Allocated env initFunc u h (.error .initFunc, h')

theorem allocated (initFunc : Fin n → Option V) (u : AllocUnit) (v : h.FlagsValid) (w : WellFreed env h) :
    Allocated env initFunc u h (allocateAndInitialize env initFunc u h) := by
  have hs := scanned env u v (List.finRange _)
  simp only [allocateAndInitialize]
  generalize allocateWithoutInitializing env u (List.finRange _) h = r at hs
  cases hs
  case full same used dropped => exact .full same (fun j => used j (List.mem_finRange j)) dropped
  case claimed h' p same free unit dropped =>
    have hw : Written env initFunc p h' (writeShards env initFunc p (shardIndexes n) (h'.setFlag p 1)) :=
      written_of_prefix (same.wellFreed w) free [] (List.nil_append _) h'.cell (by simp)
    simp only
    generalize writeShards env initFunc p (shardIndexes n) (h'.setFlag p 1) = r at hw
    cases hw
    case written total heap cell => exact .allocated same free unit total cell (heap ▸ rfl)
    case unwound panics first same' dropped' =>
      exact .unwound panics first (same.trans same') (dropped ▸ dropped')

-- What `allocate` needs to know of its group and of the usage flags.
structure Ready (g : AllocUnitGroup) (h : Heap n V) : Prop where
  flags  : h.FlagsValid
  units  : ∀ u ∈ g.allUnits, u < h.next
  bounds : ∀ k ∈ g.indexesOfUnitsToCheckForAllocation, k < g.allUnits.length

-- What a call leaves behind whose `init_func` panics for shard `k`.
structure Unwound (env : Nat → List ShardedDataPtr) (initFunc : Fin n → Option V) (k : Fin n)
    (g : AllocUnitGroup) (h : Heap n V) (g' : AllocUnitGroup) (h' : Heap n V) : Prop where
  dropped  : h'.dropped = h.dropped ++ (shardIndexesUntil k).filterMap initFunc
  clock    : h.clock ≤ h'.clock
  freed    : ∀ p, p.unit < h.next → Freed env h.clock h'.clock p → h'.usageFlag p = 0
  kept     : ∀ p, p.unit < h.next → ¬Freed env h.clock h'.clock p → h'.usageFlag p = h.usageFlag p
  allUnits : g'.allUnits = g.allUnits
  older    : h.next ≤ h'.next ∧ ∀ u < h.next, h'.deallocated u = h.deallocated u
  newUnit  : ∀ u, h.next ≤ u → u < h'.next → h'.deallocated u = true
  indexes  : ∃ removed, g.indexesOfUnitsToCheckForAllocation.Perm (removed ++ g'.indexesOfUnitsToCheckForAllocation) ∧
    ∀ i ∈ removed, ∀ u, g.allUnits[i]? = some u → ∀ j, h.usageFlag ⟨u, j⟩ = 1
  ready    : Ready g' h'

inductive Ended (env : Nat → List ShardedDataPtr) (initFunc : Fin n → Option V) (g : AllocUnitGroup)
    (h : Heap n V) : Except Unwind ShardedDataPtr × AllocUnitGroup × Heap n V → Prop
  | allocated (total : ∀ i, initFunc i ≠ none) (cell : ∀ i, h'.cell p i = initFunc i)
      (clock : h.clock ≤ h'.clock)
      (free : h.usageFlag p = 0 ∨ Freed env h.clock h'.clock p ∨ h.next ≤ p.unit) :
    Ended env initFunc g h (.ok p, g', h')
  | unwound (panics : initFunc k = none) (first : ∀ i < k, initFunc i ≠ none)
      (state : Unwound env initFunc k g h g' h') :
    Ended env initFunc g h (.error .initFunc, g', h')

theorem Heap.Same.free_cases (s : Same env h h') (hp : h'.usageFlag p = 0) :
    h.usageFlag p = 0 ∨ Freed env h.clock h'.clock p := by
  by_cases hf : Freed env h.clock h'.clock p
  · exact .inr hf
  · exact .inl (s.kept p hf ▸ hp)

theorem Ready.same (r : Ready g h) (s : Same env h h') : Ready g h' where
  flags  := s.flagsValid r.flags
  units  := s.next ▸ r.units
  bounds := r.bounds

theorem Ready.newUnit (r : Ready g h) : Ready g h.newUnit where
  flags p   := by
    have := r.flags p
    simp only [Heap.newUnit]
    split <;> simp_all
  units u hu := (r.units u hu).trans (Nat.lt_succ_self _)
  bounds     := r.bounds

theorem Heap.WellFreed.newUnit (w : WellFreed env h) : WellFreed env h.newUnit where
  used c hc p hp := by
    have ⟨hu, hf⟩ := w.used c hc p hp
    exact ⟨hu.trans (Nat.lt_succ_self _), by simp [Heap.newUnit, hf, Nat.ne_of_lt hu]⟩
  once := w.once

-- A panic in the new unit of a call: the unit is released and nothing else has changed.
theorem Unwound.of_newUnit (r : Ready g h) (same : Same env h.newUnit h₁)
    (dropped : h₁.dropped = h.dropped ++ (shardIndexesUntil k).filterMap initFunc) (same' : Same env h₁ h₂)
    (dropped' : h₂.dropped = h₁.dropped) : Unwound env initFunc k g h g (h₂.dealloc h.next) := by
  have s : Same env h.newUnit h₂ := same.trans same'
  have hf p (hp : p.unit < h.next) : h.newUnit.usageFlag p = h.usageFlag p := by
    simp [Heap.newUnit, Nat.ne_of_lt hp]
  have hn : h₂.next = h.next + 1 := s.next
  have hd u : h₂.deallocated u = if u = h.next then false else h.deallocated u := by
    rw [s.deallocated]
    simp [Heap.newUnit, Function.update_apply]
  exact {
    dropped  := dropped'.trans dropped
    clock    := s.clock
    freed    := fun p _ => s.freed p
    kept     := fun p hp hn => (s.kept p hn).trans (hf p hp)
    allUnits := rfl
    older    := ⟨hn ▸ Nat.le_succ _, fun u hu => by simp [Heap.dealloc, hd, Nat.ne_of_lt hu]⟩
    newUnit  := fun u hu hu' => by
      have hlt : u < h.next + 1 := hn ▸ (hu' : u < h₂.next)
      have : u = h.next := Nat.le_antisymm (Nat.le_of_lt_succ hlt) hu
      simp [Heap.dealloc, this]
    indexes  := ⟨[], .refl _, by simp⟩
    ready    := {
      flags  := s.flagsValid r.newUnit.flags
      units  := (r.newUnit.same s).units
      bounds := r.bounds } }

-- The call goes on with its next candidate after one that it has seen full.
theorem Ended.removeFirstIndex (hg : g.indexesOfUnitsToCheckForAllocation = i :: is) (hu : g.allUnits[i]? = some u)
    (same : Same env h h₁) (used : ∀ j, h.usageFlag ⟨u, j⟩ = 1) (dropped : h₁.dropped = h.dropped)
    (e : Ended env initFunc g.removeFirstIndex h₁ r) : Ended env initFunc g h r := by
  cases e
  case allocated p g' h' total cell clock free =>
    refine .allocated total cell (same.clock.trans clock) ?_
    rw [freed_split _ _ same.clock clock, ← same.next]
    rcases free with hf | hf | hf
    · exact (same.free_cases hf).imp_right (.inl <| .inl ·)
    · exact .inr (.inl (.inr hf))
    · exact .inr (.inr hf)
  case unwound k g' h' panics first s =>
    have hf p := freed_split env p same.clock s.clock
    obtain ⟨removed, hp, hr⟩ := s.indexes
    refine .unwound panics first {
      dropped  := dropped ▸ s.dropped
      clock    := same.clock.trans s.clock
      freed    := fun p hp h => ?_
      kept     := fun p hp h => ?_
      allUnits := s.allUnits.trans (g.removeFirstIndex_allUnits)
      older    := ⟨same.next ▸ s.older.left, fun u hu => ?_⟩
      newUnit  := same.next ▸ s.newUnit
      indexes  := ⟨i :: removed, (AllocUnitGroup.removeFirstIndex_perm hg).trans (hp.cons i), fun j hj v hv => ?_⟩
      ready    := s.ready }
    · rcases (hf p).mp h with h | h
      · by_cases h' : Freed env h₁.clock h'.clock p
        · exact s.freed p (same.next ▸ hp) h'
        · exact (s.kept p (same.next ▸ hp) h').trans (same.freed p h)
      · exact s.freed p (same.next ▸ hp) h
    · simp only [hf, not_or] at h
      exact (s.kept p (same.next ▸ hp) h.right).trans (same.kept p h.left)
    · rw [s.older.right u (same.next ▸ hu), same.deallocated]
    · rcases List.mem_cons.mp hj with rfl | hj
      · obtain rfl : u = v := by simpa [hu] using hv
        exact used
      · exact fun k => same.flag_eq_one (hr j hj v (by rwa [g.removeFirstIndex_allUnits]) k)

theorem ended (initFunc : Fin n → Option V) (r : Ready g h) (w : WellFreed env h) :
    Ended env initFunc g h (allocate env initFunc g h) := by
  induction hl : g.indexesOfUnitsToCheckForAllocation.length using Nat.strong_induction_on generalizing g h
  case h l ih =>
    rw [allocate]
    split
    case h_1 hg =>
      have ha := allocated initFunc h.next r.newUnit.flags w.newUnit
      generalize allocateAndInitialize env initFunc h.next h.newUnit = a at ha
      cases ha
      case full same used _ => simpa [Heap.newUnit] using used ⟨0, by decide⟩
      case allocated h' p h'' same free unit total cell clock =>
        exact .allocated total cell (clock ▸ same.clock) (.inr (.inr (Nat.le_of_eq unit.symm)))
      case unwound k h' panics first same dropped =>
        obtain ⟨h₂, he, same', dropped'⟩ := dropUnit_eq env h.next h' fun j =>
          same.flag_eq_zero (by simp [Heap.newUnit])
        simp only [unwindNewUnit, he]
        exact .unwound panics first (.of_newUnit r same dropped same' dropped')
    case h_2 i is hg =>
      have hi : i < g.allUnits.length := r.bounds i (by simp [hg])
      have hu : g.allUnits[i]? = some g.allUnits[i] := List.getElem?_eq_getElem hi
      simp only [hu]
      have ha := allocated initFunc g.allUnits[i] r.flags w
      generalize allocateAndInitialize env initFunc g.allUnits[i] h = a at ha
      cases ha
      case full h' same used dropped =>
        have r' : Ready g.removeFirstIndex h' := {
          flags  := same.flagsValid r.flags
          units  := by rw [g.removeFirstIndex_allUnits, same.next]; exact r.units
          bounds := fun k hk => by
            rw [g.removeFirstIndex_allUnits]
            exact r.bounds k ((AllocUnitGroup.removeFirstIndex_perm hg).mem_iff.mpr (List.mem_cons_of_mem _ hk)) }
        have hlt : g.removeFirstIndex.indexesOfUnitsToCheckForAllocation.length < l := by
          simp [AllocUnitGroup.length_removeFirstIndex, hg, ← hl]
        have e := ih _ hlt r' (same.wellFreed w) rfl
        exact e.removeFirstIndex hg hu same used dropped
      case allocated h' p h'' same free unit total cell clock =>
        refine .allocated total cell (clock ▸ same.clock) ?_
        rcases same.free_cases free with hf | hf
        · exact .inl hf
        · exact .inr (.inl (clock ▸ hf))
      case unwound k h' panics first same dropped =>
        exact .unwound panics first {
          dropped
          clock    := same.clock
          freed    := fun p _ => same.freed p
          kept     := fun p _ => same.kept p
          allUnits := rfl
          older    := ⟨Nat.le_of_eq same.next.symm, fun u _ => by rw [same.deallocated]⟩
          newUnit  := fun u hu hu' => absurd (same.next ▸ hu') (Nat.not_lt.mpr hu)
          indexes  := ⟨[], .refl _, by simp⟩
          ready    := r.same same }

-- A call whose `init_func` panics for shard `k` drops what it has built, gives its slot and its new unit
-- back, and lets only candidates go that were full. The next call finds a free slot.
theorem allocate_unwinds (env : Nat → List ShardedDataPtr) (initFunc : Fin n → Option V) (g : AllocUnitGroup)
    (h : Heap n V) (r : Ready g h) (w : WellFreed env h) (k : Fin n) (panics : initFunc k = none)
    (first : ∀ i < k, initFunc i ≠ none) :
    ∃ g' h', allocate env initFunc g h = (.error .initFunc, g', h') ∧ Unwound env initFunc k g h g' h' ∧
      ∀ env' initFunc', WellFreed env' h' → (∀ i, initFunc' i ≠ none) → ∃ p g'' h'',
        allocate env' initFunc' g' h' = (.ok p, g'', h'') ∧ (∀ i, h''.cell p i = initFunc' i) ∧
        (h'.usageFlag p = 0 ∨ Freed env' h'.clock h''.clock p ∨ h'.next ≤ p.unit) := by
  have he := ended initFunc r w
  generalize allocate env initFunc g h = a at he
  cases he
  case allocated total _ _ _ => exact absurd panics (total k)
  case unwound k' g' h' panics' first' s =>
    obtain rfl : k = k' := by
      rcases lt_trichotomy k k' with hlt | heq | hgt
      · exact absurd panics (first' k hlt)
      · exact heq
      · exact absurd panics' (first k' hgt)
    refine ⟨g', h', rfl, s, fun env' initFunc' w' total => ?_⟩
    have he := ended initFunc' s.ready w'
    generalize allocate env' initFunc' g' h' = a at he
    cases he
    case allocated p g'' h'' _ cell _ free => exact ⟨p, g'', h'', rfl, cell, free⟩
    case unwound i _ _ panics _ _          => exact absurd panics (total i)

-- A group with a full candidate, which another thread's deallocation makes room in too late.
def fullUnit : Heap 2 Nat where
  next          := 1
  usageFlag p   := if p.unit = 0 then 1 else 0
  deallocated _ := false
  cell _ _      := none
  dropped       := []
  clock         := 0

def fullGroup : AllocUnitGroup where
  allUnits                           := [0]
  indexesOfUnitsToCheckForAllocation := [0]

theorem allocate_unwinds_fullUnit :
    ∃ g' h', allocate (fun c => if c = 20 then [⟨0, Fin.last 15⟩] else [])
      (fun i : Fin 2 => if i = Fin.last 1 then none else some 7) fullGroup fullUnit = (.error .initFunc, g', h') ∧
      h'.dropped = [7] ∧ g'.allUnits = [0] := by
  have hr : Ready fullGroup fullUnit := ⟨fun p => by simp only [fullUnit]; split <;> simp, by decide, by decide⟩
  have hw : WellFreed (fun c => if c = 20 then [⟨0, Fin.last 15⟩] else []) fullUnit :=
    ⟨fun c _ p hp => by split at hp <;> simp_all [fullUnit], fun c c' p _ _ => by grind⟩
  obtain ⟨g', h', he, s, _⟩ := allocate_unwinds _ (fun i : Fin 2 => if i = Fin.last 1 then none else some 7)
    fullGroup fullUnit hr hw (Fin.last 1) rfl (by decide)
  exact ⟨g', h', he, s.dropped, s.allUnits⟩

end ShardedAlloc
