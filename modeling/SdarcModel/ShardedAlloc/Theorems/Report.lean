import SdarcModel.ShardedAlloc.Theorems.Safety
import Mathlib.Data.List.FinRange

namespace ShardedAlloc

variable {n : Nat} {T : Type}

def Act.isDeallocate : Act n → Bool
  | .deallocate _ => true
  | _             => false

namespace State

variable {s s' : State n T} {t v : T}

def unusedSlots (s : State n T) (u : AllocUnit) : Nat :=
  (List.finRange slotCountPerUnit).countP fun j => s.usageFlag ⟨u, j⟩ = 0

-- The unused slots of a unit among its first `j` ones.
def unusedBefore (s : State n T) (j : Nat) (u : AllocUnit) : Nat :=
  ((List.finRange slotCountPerUnit).take j).countP fun j => s.usageFlag ⟨u, j⟩ = 0

def counts (s : State n T) (g : AllocUnitGroup) : SlotCounts :=
  ((g.allUnits.map s.unusedSlots).sum, g.allUnits.length * slotCountPerUnit)

-- What `get_status_report` has counted is right.
def Counted (s : State n T) : Pc n → Prop
  | .count i k j unused perShard =>
    i ≤ n ∧ perShard = (List.range i).map (fun i => s.counts (s.groupAt i)) ∧
    unused = (((s.groupAt i).allUnits.take k).map s.unusedSlots).sum +
      ((s.groupAt i).allUnits[k]?.map (s.unusedBefore j)).getD 0
  | .report r => r = statusReport ((List.range n).map fun i => s.counts (s.groupAt i)) (s.counts s.tempFillingGroup)
  | _ => True

@[simp] theorem unusedBefore_zero : s.unusedBefore 0 u = 0 := by
  simp [unusedBefore]

@[simp] theorem getD_map_unusedBefore_zero (u : Option AllocUnit) : (u.map (s.unusedBefore 0)).getD 0 = 0 := by
  cases u <;> simp

theorem unusedBefore_of_le (h : slotCountPerUnit ≤ j) : s.unusedBefore j u = s.unusedSlots u := by
  rw [unusedBefore, List.take_of_length_le (by simpa using h), unusedSlots]

theorem unusedBefore_succ (h : j < slotCountPerUnit) :
    s.unusedBefore (j + 1) u = s.unusedBefore j u + if s.usageFlag ⟨u, j, h⟩ = 0 then 1 else 0 := by
  have hj : j < (List.finRange slotCountPerUnit).length := by simpa using h
  simp [unusedBefore, List.take_succ_eq_append_getElem hj, List.countP_append]

theorem Counted.congr (hf : s'.usageFlag = s.usageFlag) (hg : s'.groups = s.groups)
    (ht : s'.tempFillingGroup = s.tempFillingGroup) {pc : Pc n} (h : s.Counted pc) : s'.Counted pc := by
  have hu : s'.unusedSlots = s.unusedSlots := by unfold unusedSlots; rw [hf]
  have hb : s'.unusedBefore = s.unusedBefore := by unfold unusedBefore; rw [hf]
  have hc : s'.counts = s.counts := by unfold counts; rw [hu]
  have ha : s'.groupAt = s.groupAt := by unfold groupAt; rw [hg, ht]
  cases pc <;> simp_all [Counted]

variable [DecidableEq T]

-- Who has locked all groups is the only one to change them, and the flags but for deallocations.
theorem WellLocked.frame (k : WellLocked s) (ha : ∀ i, (s.pc t).Holds i) (ht : (s.pc t).HoldsTemp)
    (st : Step s v s') (hv : v ≠ t) (hn : s.live.Nodup) (hl : s.live ⊆ s'.live) :
    s'.usageFlag = s.usageFlag ∧ s'.groups = s.groups ∧ s'.tempFillingGroup = s.tempFillingGroup ∧
      s'.live = s.live := by
  have hs i : ¬(s.pc v).Holds i := fun h => by
    have := (k.shard v i).mp h
    have := (k.shard t i).mp (ha i)
    grind
  have hm : ¬(s.pc v).HoldsTemp := fun h => by
    have := (k.temp v).mp h
    have := (k.temp t).mp ht
    grind
  induction st
  case deallocate p pc hp used         => exact absurd (hl hp) (by simp [hn.not_mem_erase])
  case deallocateUnused p pc hp unused => exact absurd (hl hp) (by simp [hn.not_mem_erase])
  all_goals
    clear ha ht
    first
    | exact ⟨rfl, rfl, rfl, rfl⟩
    | grind
    | have := hs ‹Fin n›
      grind

omit [DecidableEq T] in
theorem sum_take_succ {us : List AllocUnit} (h : us[k]? = some u) (f : AllocUnit → Nat) :
    ((us.take (k + 1)).map f).sum = ((us.take k).map f).sum + f u := by
  obtain ⟨hk, rfl⟩ := List.getElem?_eq_some_iff.mp h
  rw [List.take_succ_eq_append_getElem hk, List.map_append, List.sum_append, List.map_singleton, List.sum_singleton]

theorem counted_goto {pc : Pc n} : (s.goto t pc).Counted ((s.goto t pc).pc t) ↔ s.Counted pc := by
  simp only [goto, Function.update_self]
  rfl

theorem Counted.step_self (h : s.Counted (s.pc t)) (st : Step s t s') : s'.Counted (s'.pc t) := by
  induction st
  case lockedGroups i pc hi =>
    simp [Counted]
  case countSlot i k j unused perShard u pc unit hj =>
    simp only [pc, Counted, unit, Option.map_some, Option.getD_some] at h
    obtain ⟨hi, hp, rfl⟩ := h
    rw [counted_goto]
    refine ⟨hi, hp, ?_⟩
    simp only [unit, Option.map_some, Option.getD_some, unusedBefore_succ hj]
    split <;> omega
  case countedUnit i k j unused perShard u pc unit hj =>
    simp only [pc, Counted, unit, Option.map_some, Option.getD_some] at h
    obtain ⟨hi, hp, rfl⟩ := h
    rw [counted_goto]
    refine ⟨hi, hp, ?_⟩
    rw [getD_map_unusedBefore_zero, sum_take_succ unit, unusedBefore_of_le (Nat.le_of_not_lt hj), Nat.add_zero]
  case countedGroup i k j unused perShard pc unit hi =>
    simp only [pc, Counted, unit, Option.map_none, Option.getD_none] at h
    obtain ⟨_, rfl, rfl⟩ := h
    rw [List.take_of_length_le (List.getElem?_eq_none_iff.mp unit), counted_goto]
    refine ⟨hi, ?_, ?_⟩
    · simp [List.range_succ, counts]
    · simp
  case countedAll i k j unused perShard pc unit hi =>
    simp only [pc, Counted, unit, Option.map_none, Option.getD_none] at h
    obtain ⟨hle, rfl, rfl⟩ := h
    obtain rfl : i = n := by omega
    rw [List.take_of_length_le (List.getElem?_eq_none_iff.mp unit), counted_goto]
    simp [Counted, counts, groupAt]
  case deallocate pc _ _ => simp [pc, Counted]
  all_goals simp [Counted]

theorem Counted.step (so : Sound s) (st : Step s v s') (hl : s.live ⊆ s'.live) (h : s.Counted (s.pc t)) :
    s'.Counted (s'.pc t) := by
  by_cases hv : v = t
  case pos => exact (hv ▸ h : s.Counted (s.pc v)).step_self st |> (hv ▸ ·)
  case neg =>
    rw [st.pc_of_ne (Ne.symm hv)]
    cases pc : s.pc t
    case count | report =>
      obtain ⟨hf, hg, ht, _⟩ := so.locked.frame (t := t) (by simp [pc, Pc.Holds]) (by simp [pc, Pc.HoldsTemp]) st hv
        so.owned.nodup hl
      exact .congr hf hg ht (pc ▸ h)
    all_goals trivial

section Total

omit [DecidableEq T]

def usedSlots (s : State n T) (u : AllocUnit) : List ShardedDataPtr :=
  (List.finRange slotCountPerUnit).filter (fun j => s.usageFlag ⟨u, j⟩ = 1) |>.map (⟨u, ·⟩)

theorem mem_usedSlots : p ∈ s.usedSlots u ↔ p.unit = u ∧ s.usageFlag p = 1 := by
  obtain ⟨v, j⟩ := p
  simp only [usedSlots, List.mem_map, List.mem_filter, List.mem_finRange, true_and, decide_eq_true_eq,
    ShardedDataPtr.mk.injEq]
  grind

theorem nodup_usedSlots : (s.usedSlots u).Nodup :=
  (List.nodup_finRange _).filter _ |>.map fun _ _ h => by injection h

def units (s : State n T) : List AllocUnit :=
  (List.range (n + 1)).flatMap fun i => (s.groupAt i).allUnits

theorem mem_units : u ∈ s.units ↔ ∃ g, u ∈ (s.group g).allUnits := by
  simp only [units, List.mem_flatMap, List.mem_range, groupAt_group]
  constructor
  case mp  => exact fun ⟨_, _, h⟩ => ⟨_, h⟩
  case mpr =>
    rintro ⟨_ | ⟨i, hi⟩, h⟩
    · exact ⟨n, by omega, by simpa using h⟩
    · exact ⟨i, by omega, by simpa [hi] using h⟩

theorem WellPlaced.nodup_units (w : WellPlaced s) : s.units.Nodup := by
  refine List.nodup_flatMap.mpr ⟨fun i _ => groupAt_group s i ▸ w.nodup _, ?_⟩
  refine List.pairwise_lt_range.imp_of_mem fun {i j} hi hj hij u hu hv => ?_
  simp only [groupAt_group, List.mem_range] at *
  have := w.disjoint u _ _ hu hv
  grind

-- All used slots, unit by unit, are what has been given out.
theorem Sound.live_perm (so : Sound s) (hc : ∀ t p, ¬(s.pc t).Claims p) : s.live.Perm (s.units.flatMap s.usedSlots) := by
  have hn : (s.units.flatMap s.usedSlots).Nodup := by
    refine List.nodup_flatMap.mpr ⟨fun _ _ => nodup_usedSlots, so.placed.nodup_units.imp ?_⟩
    intro u v huv p hu hv
    exact huv ((mem_usedSlots |>.mp hu).left.symm.trans (mem_usedSlots |>.mp hv).left)
  refine (List.perm_ext_iff_of_nodup so.owned.nodup hn).mpr fun p => ?_
  simp only [List.mem_flatMap, mem_usedSlots, mem_units]
  have hu := so.owned.used p
  constructor
  case mp  => exact fun h => ⟨p.unit, (so.owned.live p h).right, rfl, hu.mpr (.inl h)⟩
  case mpr => exact fun ⟨_, _, _, h⟩ => (hu.mp h).resolve_right fun ⟨t, h⟩ => hc t p h

theorem FlagsValid.unused_add_used (v : s.FlagsValid) (u : AllocUnit) :
    s.unusedSlots u + (s.usedSlots u).length = slotCountPerUnit := by
  have hl := List.length_eq_countP_add_countP (fun j => decide (s.usageFlag ⟨u, j⟩ = 0))
    (l := List.finRange slotCountPerUnit)
  rw [List.length_finRange] at hl
  rw [unusedSlots, usedSlots, List.length_map, ← List.countP_eq_length_filter]
  refine Eq.trans ?_ hl.symm
  congr 2
  funext j
  have := v ⟨u, j⟩
  grind

theorem FlagsValid.sum_unused_add_used (v : s.FlagsValid) (us : List AllocUnit) :
    (us.map s.unusedSlots).sum + (us.flatMap s.usedSlots).length = us.length * slotCountPerUnit := by
  induction us
  case nil           => rfl
  case cons u us ih  =>
    have := v.unused_add_used u
    simp only [List.map_cons, List.sum_cons, List.flatMap_cons, List.length_append, List.length_cons]
    grind

theorem FlagsValid.sum_counts (v : s.FlagsValid) (gs : List AllocUnitGroup) :
    (gs.map fun g => (s.counts g).1).sum + ((gs.flatMap (·.allUnits)).flatMap s.usedSlots).length =
      (gs.map fun g => (s.counts g).2).sum := by
  induction gs
  case nil          => rfl
  case cons g gs ih =>
    have := v.sum_unused_add_used g.allUnits
    simp only [List.map_cons, List.sum_cons, List.flatMap_cons, List.flatMap_append, List.length_append]
    simp only [counts] at *
    omega

theorem FlagsValid.totalUsed (v : s.FlagsValid) :
    (statusReport ((List.range n).map fun i => s.counts (s.groupAt i)) (s.counts s.tempFillingGroup)).totalUsed =
      (s.units.flatMap s.usedSlots).length := by
  have hs := v.sum_counts ((List.range (n + 1)).map s.groupAt)
  have ht : s.groupAt n = s.tempFillingGroup := by simp [groupAt]
  simp only [List.flatMap_map, List.map_map] at hs
  simp only [List.range_succ, List.map_append, List.sum_append, List.map_singleton, List.sum_singleton,
    Function.comp_def, ht] at hs
  simp only [statusReport, List.map_map, Function.comp_def, units, List.range_succ]
  simp only [ht] at *
  omega

end Total

theorem live_mono (v : s.FlagsValid) (h : s.nextOf t a = some s') (ha : a.isDeallocate = false) : s.live ⊆ s'.live := by
  have st := Step.of_nextOf v h
  intro p hp
  induction st
  case deallocate q pc _ _       => cases a <;> grind [nextOf, run, Act.isDeallocate]
  case deallocateUnused q pc _ _ => cases a <;> grind [nextOf, run, Act.isDeallocate]
  all_goals first
    | exact hp
    | grind

end State

-- The runs without deallocations.
def systemNoDealloc (n : Nat) (T : Type) [DecidableEq T] : System (State n T) (T × Act n) :=
  system n T |>.restrict fun _ l _ => l.2.isDeallocate = false

namespace State

variable {s s' : State n T} {t : T} [DecidableEq T]

-- While nothing is deallocated, a call that has begun to count reports the live allocations.
theorem totalUsed_of_report (h : (system n T).Reachable s) (idle : s.pc t = .idle)
    (run : (systemNoDealloc n T).Run s tr s') (pc : s'.pc t = .report r) : r.totalUsed = s'.live.length := by
  have hc : Sound s' ∧ s'.Counted (s'.pc t) := by
    refine run.invariant (I := fun s => Sound s ∧ s.Counted (s.pc t)) ⟨.reachable h, by simp [idle, Counted]⟩ ?_
    rintro s₁ l s₂ ⟨so, hc⟩ ⟨st, hl⟩
    have hm := live_mono so.flags st hl
    exact ⟨so.step (.of_nextOf so.flags st), hc.step so (.of_nextOf so.flags st) hm⟩
  obtain ⟨so, hc⟩ := hc
  simp only [pc, Counted] at hc
  have hn v p (hp : (s'.pc v).Claims p) : False := by
    have hi i : s'.locked i = some t := (so.locked.shard t i).mp (by simp [pc, Pc.Holds])
    have ⟨i, hv⟩ : ∃ i, (s'.pc v).Holds i := by
      cases h : s'.pc v <;> simp only [h, Pc.Claims] at hp <;> exact ⟨_, rfl⟩
    have := (so.locked.shard v i).mp hv
    have : v = t := by simpa [hi, eq_comm] using this
    simp [this, pc, Pc.Claims] at hp
  rw [hc, so.flags.totalUsed, (so.live_perm hn).length_eq]

-- Live pointers have slots of their own in units that are kept; every unit is in one group, at a place
-- the group's indexes stay below; no assertion fails; and the flags are the live pointers.
theorem allocator_safe (h : (system n T).Reachable s) :
    s.live.Nodup ∧ (∀ p ∈ s.live, s.deallocated p.unit = false) ∧
    (∀ u, u < s.next → s.deallocated u = false → (∀ t, ¬(s.pc t).Fresh u) → ∃! g, u ∈ (s.group g).allUnits) ∧
    (∀ g, (s.group g).allUnits.Nodup) ∧
    (∀ g, ∀ k ∈ (s.group g).indexesOfUnitsToCheckForAllocation, k < (s.group g).allUnits.length) ∧
    (∀ t e, s.pc t ≠ .panicked e) ∧
    ((∀ t p, ¬(s.pc t).Claims p) → ∀ p, s.usageFlag p = 1 ↔ p ∈ s.live) ∧
    (∀ t, s.pc t = .idle → ∀ tr s' r, (systemNoDealloc n T).Run s tr s' → s'.pc t = .report r →
      r.totalUsed = s'.live.length) := by
  have so := Sound.reachable h
  refine ⟨so.owned.nodup, fun p hp => (so.owned.live p hp).left, fun u hu hd hf => ?unique, so.placed.nodup,
    so.scanned.bounds, so.live, fun hc p => ?flags, fun t idle tr s' r => totalUsed_of_report h idle⟩
  case unique =>
    obtain ⟨g, hg⟩ := (so.placed.complete u hu hd).resolve_right fun ⟨t, h⟩ => hf t h
    exact ⟨g, hg, fun g' hg' => so.placed.disjoint u g' g hg' hg⟩
  case flags =>
    have := so.owned.used p
    grind

def empty : State n T where
  next             := 0
  usageFlag _      := 0
  deallocated _    := false
  groups _         := {}
  tempFillingGroup := {}
  locked _         := none
  tempLocked       := none
  live             := []
  pc _             := .idle

omit [DecidableEq T] in
theorem empty_initial : (empty : State n T).Initial := by
  constructor <;> intros <;> rfl

theorem reachable_of_exec {labels : List (T × Act n)}
    (h : System.exec (fun s l => s.nextOf l.1 l.2) empty labels = some s) : (system n T).Reachable s :=
  System.reachable_of_exec (.init empty_initial) h

-- One allocation and the status report after it.
def allocates : List (Bool × Act 1) :=
  (true, .allocateAndInit (Fin.last 0)) :: .replicate 4 (true, .run)

def reports : List (Bool × Act 1) :=
  (true, .getStatusReport) :: .replicate 21 (true, .run)

def allocated : State 1 Bool :=
  (System.exec (fun s l => s.nextOf l.1 l.2) empty allocates).getD empty

def reported : State 1 Bool :=
  (System.exec (fun s l => s.nextOf l.1 l.2) allocated reports).getD empty

theorem allocator_safe_reported :
    allocated.live.length = 1 ∧ (∃! g, 0 ∈ (allocated.group g).allUnits) ∧
      ∃ r, reported.pc true = .report r ∧ r.totalUsed = 1 := by
  have ha : System.exec (fun s l => s.nextOf l.1 l.2) empty allocates = some allocated := rfl
  have hr : System.exec (fun s l => s.nextOf l.1 l.2) allocated reports = some reported := rfl
  obtain ⟨_, _, unique, _, _, _, _, report⟩ := allocator_safe (reachable_of_exec ha)
  refine ⟨rfl, unique 0 (by decide) rfl fun t => ?_, _, rfl, ?_⟩
  · cases t <;> exact id
  · exact report true rfl _ reported _ (System.run_restrict_of_exec (by decide) hr) rfl

end State
end ShardedAlloc
