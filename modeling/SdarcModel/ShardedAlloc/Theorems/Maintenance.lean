import SdarcModel.ShardedAlloc.Theorems.Termination
import SdarcModel.ShardedAlloc.Theorems.Report

namespace ShardedAlloc.State

variable {n : Nat} {T : Type} {s s' : State n T} {t : T}

def isAnySlotUsed (s : State n T) (u : AllocUnit) : Bool :=
  (List.finRange slotCountPerUnit).any fun j => s.usageFlag ⟨u, j⟩ = 1

def hasAnyFreeSlot (s : State n T) (u : AllocUnit) : Bool :=
  (List.finRange slotCountPerUnit).any fun j => s.usageFlag ⟨u, j⟩ = 0

-- The candidates from the `k`th unit on.
def candidates (s : State n T) (us : List AllocUnit) (k : Nat) : List Nat :=
  (List.range' k (us.length - k)).filter fun k => us[k]?.any s.hasAnyFreeSlot

-- A group after a maintenance that nobody has interfered with.
def maintained (s : State n T) (g : AllocUnitGroup) : AllocUnitGroup where
  allUnits                           := g.allUnits.filter s.isAnySlotUsed
  indexesOfUnitsToCheckForAllocation := s.candidates (g.allUnits.filter s.isAnySlotUsed) 0

-- The empty ones of the units `us` are deallocated.
def release (s : State n T) (us : List AllocUnit) : State n T :=
  { s with deallocated := fun u => s.deallocated u || (decide (u ∈ us) && !s.isAnySlotUsed u) }

-- The maintenance of the first `i` groups, and of all with the temporary one.
def afterShards (s : State n T) (i : Nat) : State n T :=
  { s.release ((List.range i).flatMap fun a => (s.groupAt a).allUnits) with
    groups := fun a => if a.val < i then s.maintained (s.groups a) else s.groups a }

def afterMaintenance (s : State n T) : State n T :=
  { s.release s.units with
    groups           := fun i => s.maintained (s.groups i)
    tempFillingGroup := s.maintained s.tempFillingGroup }

variable [DecidableEq T]

-- `t` gets from one state to the other by accesses of its own.
def Steps (t : T) : State n T → State n T → Prop :=
  Relation.ReflTransGen fun s s' => s.run t = some s'

-- A loop over the slots of a unit, which ends early at a slot with `P`.
theorem Steps.slots (f : Nat → State n T) (found none : State n T) (P : Fin slotCountPerUnit → Bool)
    (next : ∀ j (h : j < slotCountPerUnit), (f j).run t = some (if P ⟨j, h⟩ then found else f (j + 1)))
    (last : (f slotCountPerUnit).run t = some none) :
    Steps t (f 0) (if (List.finRange slotCountPerUnit).any P then found else none) := by
  have hj : ∀ d j, j + d = slotCountPerUnit → Steps t (f j) (if ∃ m, j ≤ m.val ∧ P m then found else none) := by
    intro d
    induction d
    case zero =>
      intro j hj
      obtain rfl : j = slotCountPerUnit := hj
      rw [if_neg (by rintro ⟨m, hm, _⟩; omega)]
      exact .single last
    case succ d ih =>
      intro j hj
      have hlt : j < slotCountPerUnit := by omega
      have hn := next j hlt
      refine .head hn ?_
      split
      case isTrue hp => rw [if_pos ⟨⟨j, hlt⟩, Nat.le_refl _, hp⟩]
      case isFalse hp =>
        have he : (∃ m : Fin slotCountPerUnit, j ≤ m.val ∧ P m) ↔ ∃ m : Fin slotCountPerUnit, j + 1 ≤ m.val ∧ P m := by
          refine exists_congr fun m => and_congr_left fun hm => ?_
          have : m.val ≠ j := by rintro rfl; exact hp hm
          omega
        simp only [he]
        exact ih (j + 1) (by omega)
  have := hj slotCountPerUnit 0 (by omega)
  simpa using this

omit [DecidableEq T] in
@[simp] theorem release_nil : s.release [] = s := by
  simp [release]

omit [DecidableEq T] in
theorem release_append (us vs : List AllocUnit) : s.release (us ++ vs) = (s.release us).release vs := by
  simp only [release, isAnySlotUsed, List.mem_append, State.mk.injEq, true_and, and_true]
  funext u
  grind

omit [DecidableEq T] in
theorem release_of_used (h : ∀ u ∈ us, s.isAnySlotUsed u = true) : s.release us = s := by
  have hd : (fun u => s.deallocated u || (decide (u ∈ us) && !s.isAnySlotUsed u)) = s.deallocated := by
    funext u
    have := h u
    grind
  rw [release, hd]

omit [DecidableEq T] in
theorem release_cons_of_used (h : s.isAnySlotUsed u = true) : s.release (u :: us) = s.release us := by
  simp only [release, State.mk.injEq, true_and, and_true]
  funext v
  grind

omit [DecidableEq T] in
theorem release_cons_of_not_used (h : s.isAnySlotUsed u = false) : s.release (u :: us) = (s.dealloc u).release us := by
  have hd : (s.dealloc u).isAnySlotUsed = s.isAnySlotUsed := rfl
  simp only [release, hd, State.mk.injEq, true_and, and_true]
  funext v
  grind

@[simp] theorem goto_goto {pc pc' : Pc n} : (s.goto t pc).goto t pc' = s.goto t pc' := by
  simp [goto]

-- A read of a usage flag in a loop over the slots.
theorem FlagsValid.onUsageFlag_eq (v : s.FlagsValid) (s₁ s₂ : State n T) :
    s.onUsageFlag t (s.usageFlag p) s₁ s₂ = if s.usageFlag p = 1 then s₂ else s₁ := by
  have := v p
  unfold onUsageFlag
  grind

theorem Steps.retain (v : s.FlagsValid) (i : Nat) (kept rest : List AllocUnit) :
    Steps t (s.goto t (.retain i kept rest 0))
      ((s.release rest).setTemp { allUnits := kept ++ rest.filter s.isAnySlotUsed } |>.goto t (.list i 0 0)) := by
  induction rest generalizing s kept
  case nil =>
    rw [release_nil, List.filter_nil, List.append_nil]
    exact .single (by simp [run])
  case cons u rest ih =>
    have hs := Steps.slots (t := t) (fun j => s.goto t (.retain i kept (u :: rest) j))
      (s.goto t (.retain i (kept ++ [u]) rest 0)) (s.goto t (.dropUnit i kept u rest 0))
      (fun j => s.usageFlag ⟨u, j⟩ = 1)
      (fun j hj => by
        have hv : (s.goto t (.retain i kept (u :: rest) j)).FlagsValid := v
        simp [run, hj, hv.onUsageFlag_eq])
      (by simp [run])
    change Steps t _ (if s.isAnySlotUsed u then _ else _) at hs
    cases hu : s.isAnySlotUsed u <;> simp only [hu, Bool.false_eq_true, ite_true, ite_false] at hs
    case true =>
      have := ih v (kept ++ [u])
      rw [List.append_assoc, List.singleton_append] at this
      rw [release_cons_of_used hu, List.filter_cons_of_pos hu]
      exact hs.trans this
    case false =>
      have hd := Steps.slots (t := t) (fun j => s.goto t (.dropUnit i kept u rest j))
        (s.goto t (.panicked .unitInUse)) ((s.dealloc u).goto t (.retain i kept rest 0))
        (fun j => s.usageFlag ⟨u, j⟩ = 1)
        (fun j hj => by
          have hv : (s.goto t (.dropUnit i kept u rest j)).FlagsValid := v
          simp [run, hj, hv.onUsageFlag_eq])
        (by simp [run])
      change Steps t _ (if s.isAnySlotUsed u then _ else _) at hd
      simp only [hu, Bool.false_eq_true, ite_false] at hd
      rw [release_cons_of_not_used hu, List.filter_cons_of_neg (by simp [hu])]
      exact (hs.trans hd).trans (ih (s := s.dealloc u) v kept)

theorem Steps.list (v : s.FlagsValid) (i : Nat) (us : List AllocUnit) (acc : List Nat) (k : Nat) (hk : k ≤ us.length) :
    Steps t (s.setTemp ⟨us, acc⟩ |>.goto t (.list i k 0))
      (s.setTemp ⟨us, acc ++ s.candidates us k⟩ |>.goto t (.list i us.length 0)) := by
  induction hd : us.length - k generalizing k acc
  case zero =>
    obtain rfl : k = us.length := by omega
    simp only [candidates, Nat.sub_self, List.range'_zero, List.filter_nil, List.append_nil]
    exact .refl
  case succ d ih =>
    have hlt : k < us.length := by omega
    have hu : us[k]? = some us[k] := List.getElem?_eq_getElem hlt
    have hs := Steps.slots (t := t) (fun j => s.setTemp ⟨us, acc⟩ |>.goto t (.list i k j))
      (s.setTemp ⟨us, acc ++ [k]⟩ |>.goto t (.list i (k + 1) 0)) (s.setTemp ⟨us, acc⟩ |>.goto t (.list i (k + 1) 0))
      (fun j => s.usageFlag ⟨us[k], j⟩ = 0)
      (fun j hj => by
        rcases v ⟨us[k], j, hj⟩ with hf | hf <;> simp [run, hj, hu, hf, onUsageFlag, AllocUnitGroup.pushIndex])
      (by simp [run, hu])
    change Steps t _ (if s.hasAnyFreeSlot us[k] then _ else _) at hs
    have hc : s.candidates us k = (if s.hasAnyFreeSlot us[k] then [k] else []) ++ s.candidates us (k + 1) := by
      have : us.length - k = us.length - (k + 1) + 1 := by omega
      rw [candidates, this, List.range'_succ, List.filter_cons]
      simp only [hu, Option.any_some]
      split <;> simp [candidates]
    rw [hc]
    cases hf : s.hasAnyFreeSlot us[k] <;> simp only [hf, Bool.false_eq_true, ite_true, ite_false, List.nil_append] at hs ⊢
    case true  =>
      have := ih (acc ++ [k]) (k + 1) hlt (by omega)
      rw [List.append_assoc] at this
      exact hs.trans this
    case false => exact hs.trans (ih acc (k + 1) hlt (by omega))

-- `do_maintenance` of the group that the thread holds.
theorem Steps.maintain (v : s.FlagsValid) (i : Nat) : ∃ k,
    (s.maintained s.tempFillingGroup).allUnits[k]? = none ∧
    Steps t (s.goto t (.retain i [] s.tempFillingGroup.allUnits 0))
      ((s.release s.tempFillingGroup.allUnits).setTemp (s.maintained s.tempFillingGroup) |>.goto t (.list i k 0)) := by
  have hl := Steps.list (t := t) (s := s.release s.tempFillingGroup.allUnits) v i
    (s.tempFillingGroup.allUnits.filter s.isAnySlotUsed) [] 0 (Nat.zero_le _)
  refine ⟨_, List.getElem?_eq_none (Nat.le_refl _), (Steps.retain v i [] s.tempFillingGroup.allUnits).trans ?_⟩
  exact hl

theorem Steps.shard (v : s.FlagsValid) (i : Fin n) (hl : s.locked i = none) :
    Steps t (s.goto t (.swapIn i.val))
      ((s.release (s.groups i).allUnits).setGroup i (s.maintained (s.groups i)) |>.goto t (.swapIn (i.val + 1))) := by
  obtain ⟨k, hk, hs⟩ := Steps.maintain (t := t) (s := s.swap i) v i.val
  obtain ⟨m, hm⟩ : ∃ m, m = ((s.swap i).release (s.groups i).allUnits).setTemp (s.maintained (s.groups i)) := ⟨_, rfl⟩
  have h₁ : (s.goto t (.swapIn i.val)).run t = some ((s.swap i).goto t (.retain i.val [] (s.groups i).allUnits 0)) := by
    simp [run, hl]
  have h₂ : (m.goto t (.list i.val k 0)).run t = some (m.goto t (.swapOut i)) := by
    have hk : m.tempFillingGroup.allUnits[k]? = none := hm ▸ hk
    simp [run, hk]
  have h₃ : (m.goto t (.swapOut i)).run t = some (m.swap i |>.goto t (.swapIn (i.val + 1))) := by
    simp [run, hm, release, hl]
  have h₄ : m.swap i = (s.release (s.groups i).allUnits).setGroup i (s.maintained (s.groups i)) := by
    subst hm
    simp only [swap, setGroup, release, Function.update_self, Function.update_idem, State.mk.injEq, true_and, and_true]
    rfl
  exact .head h₁ (.tail (.tail (hm ▸ hs) h₂) (h₄ ▸ h₃))

theorem Steps.shards (v : s.FlagsValid) (hl : ∀ i, s.locked i = none) {i : Nat} (hi : i ≤ n) :
    Steps t (s.goto t (.swapIn 0)) (s.afterShards i |>.goto t (.swapIn i)) := by
  induction i
  case zero =>
    have : s.afterShards 0 = s := by simp [afterShards]
    rw [this]
    exact .refl
  case succ i ih =>
    have hs := Steps.shard (t := t) (s := s.afterShards i) v ⟨i, hi⟩ (hl _)
    have he : ((s.afterShards i).release ((s.afterShards i).groups ⟨i, hi⟩).allUnits).setGroup ⟨i, hi⟩
        ((s.afterShards i).maintained ((s.afterShards i).groups ⟨i, hi⟩)) = s.afterShards (i + 1) := by
      have hg : (s.afterShards i).groups ⟨i, hi⟩ = s.groups ⟨i, hi⟩ := by simp [afterShards]
      have ha : s.groupAt i = s.groups ⟨i, hi⟩ := dif_pos hi
      have hm : (s.afterShards i).maintained = s.maintained := rfl
      rw [hg, hm]
      simp only [afterShards, List.range_succ, List.flatMap_append, List.flatMap_singleton, release_append, ha]
      simp only [setGroup, release, State.mk.injEq, true_and, and_true]
      refine ⟨rfl, ?_⟩
      funext a
      grind
    exact (ih (Nat.le_of_lt hi)).trans (he ▸ hs)

theorem Steps.maintenance (v : s.FlagsValid) (hl : ∀ i, s.locked i = none) :
    Steps t (s.goto t (.swapIn 0)) (s.afterMaintenance.lockTemp none |>.goto t .idle) := by
  obtain ⟨k, hk, hs⟩ := Steps.maintain (t := t) (s := s.afterShards n) v n
  have h₁ : (s.afterShards n |>.goto t (.swapIn n)).run t =
      some (s.afterShards n |>.goto t (.retain n [] (s.afterShards n).tempFillingGroup.allUnits 0)) := by
    simp [run]
  obtain ⟨m, hm⟩ : ∃ m, m = ((s.afterShards n).release s.tempFillingGroup.allUnits).setTemp (s.maintained s.tempFillingGroup) :=
    ⟨_, rfl⟩
  have h₂ : (m.goto t (.list n k 0)).run t = some (m.lockTemp none |>.goto t .idle) := by
    have hk : m.tempFillingGroup.allUnits[k]? = none := hm ▸ hk
    simp [run, hk]
  have h₃ : m = s.afterMaintenance := by
    have ha : s.groupAt n = s.tempFillingGroup := dif_neg (Nat.lt_irrefl n)
    subst hm
    simp only [afterMaintenance, units, List.range_succ, List.flatMap_append, List.flatMap_singleton, release_append, ha]
    simp only [afterShards, release, Fin.is_lt, ite_true]
    rfl
  exact (Steps.shards v hl (Nat.le_refl n)).trans (.head h₁ (.tail (hm ▸ hs) (h₃ ▸ h₂)))

theorem Steps.exec (h : Steps t s s') : ∃ k, System.exec (fun s l => s.nextOf l.1 l.2) s (.replicate k (t, .run)) = some s' := by
  induction h using Relation.ReflTransGen.head_induction_on
  case refl => exact ⟨0, rfl⟩
  case head hs _ ih =>
    obtain ⟨k, ih⟩ := ih
    refine ⟨k + 1, ?_⟩
    simp only [List.replicate_succ, System.exec]
    change (State.run _ t).bind _ = _
    rw [hs]
    exact ih

-- A thread that runs until it is idle cannot but end where it ends.
theorem exec_unique (h₁ : System.exec (fun s l => s.nextOf l.1 l.2) s (.replicate k₁ (t, .run)) = some s₁)
    (h₂ : System.exec (fun s l => s.nextOf l.1 l.2) s (.replicate k₂ (t, .run)) = some s₂)
    (idle₁ : s₁.pc t = .idle) (idle₂ : s₂.pc t = .idle) : s₁ = s₂ := by
  have stuck {s : State n T} (hi : s.pc t = .idle) : s.nextOf t .run = none := by simp [nextOf, run, hi]
  induction k₁ generalizing s k₂ <;> cases k₂ <;> simp only [List.replicate_succ, List.replicate_zero, System.exec] at h₁ h₂
  case zero.zero => cases h₁; exact Option.some.inj h₂
  case zero.succ => cases h₁; simp [stuck idle₁] at h₂
  case succ.zero => cases h₂; simp [stuck idle₂] at h₁
  case succ.succ k₁ ih k₂ =>
    obtain ⟨s', hs, h₁⟩ := Option.bind_eq_some_iff.mp h₁
    rw [hs] at h₂
    exact ih h₁ h₂

-- `do_maintenance_by_collector` with nobody else at work.
theorem exec_doMaintenance (v : s.FlagsValid) (idle : s.pc t = .idle) (hl : ∀ i, s.locked i = none)
    (ht : s.tempLocked = none) :
    ∃ k, System.exec (fun s l => s.nextOf l.1 l.2) s ((t, .doMaintenance) :: .replicate k (t, .run)) =
      some s.afterMaintenance := by
  obtain ⟨k, he⟩ := (Steps.maintenance (t := t) (s := s.lockTemp (some t)) v hl).exec
  refine ⟨k, ?_⟩
  have hn : s.nextOf t .doMaintenance = some (s.lockTemp (some t) |>.goto t (.swapIn 0)) := by
    simp [nextOf, idle, ht]
  have ha : ((s.lockTemp (some t)).afterMaintenance.lockTemp none |>.goto t .idle) = s.afterMaintenance := by
    simp only [afterMaintenance, release, goto, lockTemp, ← idle, ← ht, Function.update_eq_self]
    rfl
  rw [System.exec]
  change (s.nextOf t .doMaintenance).bind _ = _
  rw [hn, ← ha]
  exact he

section

omit [DecidableEq T]

theorem afterMaintenance_group (g : Option (Fin n)) : s.afterMaintenance.group g = s.maintained (s.group g) := by
  cases g <;> rfl

theorem mem_maintained_indexes {g : AllocUnitGroup} :
    k ∈ (s.maintained g).indexesOfUnitsToCheckForAllocation ↔
      ∃ u, (s.maintained g).allUnits[k]? = some u ∧ ∃ j, s.usageFlag ⟨u, j⟩ = 0 := by
  simp only [maintained, candidates, Nat.sub_zero, List.mem_filter, List.mem_range'_1, Option.any_eq_true, hasAnyFreeSlot,
    List.any_eq_true, List.mem_finRange, true_and, decide_eq_true_eq]
  constructor
  case mp  => exact fun ⟨_, h⟩ => h
  case mpr => exact fun ⟨u, hu, h⟩ => ⟨⟨Nat.zero_le _, by simpa using (List.getElem?_eq_some_iff.mp hu).1⟩, u, hu, h⟩

theorem maintained_maintained (g : AllocUnitGroup) : s.maintained (s.maintained g) = s.maintained g := by
  simp [maintained]

theorem afterMaintenance_afterMaintenance : s.afterMaintenance.afterMaintenance = s.afterMaintenance := by
  have hm : s.afterMaintenance.maintained = s.maintained := rfl
  have hd : s.afterMaintenance.release s.afterMaintenance.units = s.afterMaintenance := release_of_used fun u h => by
    obtain ⟨g, hg⟩ := mem_units.mp h
    rw [afterMaintenance_group] at hg
    exact (List.mem_filter.mp hg).2
  rw [afterMaintenance.eq_1 s.afterMaintenance, hd, hm]
  simp only [afterMaintenance, maintained_maintained]

end

-- Outside of a group's maintenance only those units are no candidates that have been seen full since the
-- last one. Hence an allocation, which ends after at most `work` accesses, adds a unit only when it has to.
-- A maintenance with nobody else at work keeps the units in use and lists those with room.
theorem no_capacity_lost (init : s.Initial) (r : (system n T).Run s tr s') :
    (∀ g, (g = none → ∀ t, ¬(s'.pc t).Maintains) → (s'.group g).indexesOfUnitsToCheckForAllocation.Nodup ∧
      (s'.group g).Complete (watched tr)) ∧
    (∀ t i, s'.pc t = .allocate i → (s'.groups i).indexesOfUnitsToCheckForAllocation = [] →
      ∀ u ∈ (s'.groups i).allUnits, ∀ j, watched tr ⟨u, j⟩ = true) ∧
    (∀ t, (s'.pc t).Allocates → (s'.run t).isSome ∧ ∀ tr' s'', (system n T).Run s' tr' s'' →
      (∀ e ∈ tr', (e.1.pc t).Allocates) → tr'.countP (·.2.1 = t) ≤ s'.work (s'.pc t)) ∧
    ((∀ t, s'.pc t = .idle) → ∀ t, ∃ s'' : State n T,
      (∃ k, System.exec (fun s l => s.nextOf l.1 l.2) s' ((t, .doMaintenance) :: .replicate k (t, .run)) = some s'') ∧
      (∀ k s₁, System.exec (fun s l => s.nextOf l.1 l.2) s' ((t, .doMaintenance) :: .replicate k (t, .run)) = some s₁ →
        s₁.pc t = .idle → s₁ = s'') ∧
      (∀ g, (s''.group g).allUnits = (s'.group g).allUnits.filter s'.isAnySlotUsed) ∧
      (∀ g k, k ∈ (s''.group g).indexesOfUnitsToCheckForAllocation ↔
        ∃ u, (s''.group g).allUnits[k]? = some u ∧ ∃ j, s''.usageFlag ⟨u, j⟩ = 0) ∧
      s''.usageFlag = s'.usageFlag ∧ s''.live = s'.live ∧
      ∃ k, System.exec (fun s l => s.nextOf l.1 l.2) s'' ((t, .doMaintenance) :: .replicate k (t, .run)) = some s'') := by
  have so : Sound s' := .reachable (r.reachable (.init init))
  have l : WellListed s' (watched tr) := WellListed.run (.initial init) (.initial init) r
  have hc g (hg : g = none → ∀ t, ¬(s'.pc t).Maintains) : (s'.group g).Complete (watched tr) := by
    cases g
    case none   => exact l.temp (hg rfl)
    case some i => exact l.shard i
  refine ⟨fun g hg => ⟨l.nodup g, hc g hg⟩, fun t i _ hi u hu j => ?newUnit, fun t ht => ⟨run_isSome ht, ?bound⟩,
    fun idle t => ?alone⟩
  case newUnit =>
    obtain ⟨k, hk⟩ := List.mem_iff_getElem?.mp hu
    exact l.shard i k u hk (by simp [hi]) j
  case bound =>
    intro tr' s'' r' h
    have := work_run so r' h
    omega
  case alone =>
    have hl i : s'.locked i = none := Option.eq_none_iff_forall_ne_some.mpr fun t h => by
      simpa [idle, Pc.Holds] using (so.locked.shard t i).mpr h
    have ht : s'.tempLocked = none := Option.eq_none_iff_forall_ne_some.mpr fun t h => by
      simpa [idle, Pc.HoldsTemp] using (so.locked.temp t).mpr h
    obtain ⟨k, he⟩ := exec_doMaintenance so.flags (idle t) hl ht
    have hf : s'.afterMaintenance.FlagsValid := so.flags
    refine ⟨s'.afterMaintenance, ⟨k, he⟩, fun k₁ s₁ h₁ idle₁ => ?_, fun g => by rw [afterMaintenance_group]; rfl,
      fun g k => by rw [afterMaintenance_group]; exact mem_maintained_indexes, rfl, rfl, ?_⟩
    · simp only [System.exec] at h₁ he
      obtain ⟨m, hm, h₁⟩ := Option.bind_eq_some_iff.mp h₁
      rw [hm] at he
      exact exec_unique h₁ he idle₁ (idle t)
    · have := exec_doMaintenance (t := t) hf (idle t) hl ht
      rwa [afterMaintenance_afterMaintenance] at this

-- The maintenance after the first allocation.
theorem no_capacity_lost_allocated :
    (allocated.group (some (Fin.last 0))).indexesOfUnitsToCheckForAllocation.Nodup ∧
    ∃ k s, System.exec (fun s l => s.nextOf l.1 l.2) allocated ((true, .doMaintenance) :: .replicate k (true, .run)) = some s ∧
      (s.group (some (Fin.last 0))).allUnits = [0] ∧ 0 ∈ (s.group (some (Fin.last 0))).indexesOfUnitsToCheckForAllocation := by
  have ha : System.exec (fun s l => s.nextOf l.1 l.2) empty allocates = some allocated := rfl
  obtain ⟨candidates, _, _, alone⟩ := no_capacity_lost (n := 1) (T := Bool) empty_initial (System.run_of_exec ha)
  have idle t : allocated.pc t = .idle := by cases t <;> rfl
  obtain ⟨s, ⟨k, hk⟩, _, hu, hi, hf, _, _⟩ := alone idle true
  have hu : (s.group (some (Fin.last 0))).allUnits = [0] := (hu (some (Fin.last 0))).trans rfl
  exact ⟨(candidates (some (Fin.last 0)) (by simp)).left, k, s, hk, hu,
    (hi (some (Fin.last 0)) 0).mpr ⟨0, hu ▸ rfl, Fin.last 15, hf ▸ rfl⟩⟩

end ShardedAlloc.State
