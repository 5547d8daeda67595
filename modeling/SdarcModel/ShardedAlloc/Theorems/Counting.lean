import SdarcModel.ShardedAlloc.Theorems.Report
import Mathlib.Algebra.Order.BigOperators.Group.List
import Mathlib.Algebra.Order.Group.Nat

namespace ShardedAlloc

-- The call has locked everything and counts, or has counted.
def Pc.Counting : Pc n → Prop
  | .count .. | .report _ => True
  | _ => False

namespace State

variable {n : Nat} {T : Type} {b s s' : State n T} {t v : T}

-- Since `b` nothing has happened but deallocations.
structure Since (b s : State n T) : Prop where
  groups : s.groups = b.groups
  temp   : s.tempFillingGroup = b.tempFillingGroup
  flags  : ∀ p, b.usageFlag p = 0 → s.usageFlag p = 0

theorem Since.refl (s : State n T) : Since s s := ⟨rfl, rfl, fun _ => id⟩

theorem Since.trans (h₁ : Since b s) (h₂ : Since s s') : Since b s' where
  groups    := h₂.groups.trans h₁.groups
  temp      := h₂.temp.trans h₁.temp
  flags p h := h₂.flags p (h₁.flags p h)

theorem Since.groupAt (h : Since b s) : s.groupAt = b.groupAt := by
  unfold State.groupAt
  rw [h.groups, h.temp]

-- The unused slots before a place in the count.
def unusedUpTo (s : State n T) (i k j : Nat) : Nat :=
  ((List.range i).map fun i => (s.counts (s.groupAt i)).1).sum +
    (((s.groupAt i).allUnits.take k).map s.unusedSlots).sum + ((s.groupAt i).allUnits[k]?.map (s.unusedBefore j)).getD 0

-- All slots of the groups before the `i`-th.
def slotsUpTo (s : State n T) (i : Nat) : Nat :=
  ((List.range i).map fun i => (s.counts (s.groupAt i)).2).sum

-- The sum of the unused slots that `get_status_report` has counted lies between what there was in `b` and what there is.
def CountedSince (b s : State n T) : Pc n → Prop
  | .count i k j unused perShard =>
    i ≤ n ∧ (perShard.map Prod.snd).sum = s.slotsUpTo i ∧ b.unusedUpTo i k j ≤ (perShard.map Prod.fst).sum + unused ∧
      (perShard.map Prod.fst).sum + unused ≤ s.unusedUpTo i k j
  | .report r =>
    ∃ unused, b.unusedUpTo (n + 1) 0 0 ≤ unused ∧ unused ≤ s.unusedUpTo (n + 1) 0 0 ∧ r.totalUsed = s.slotsUpTo (n + 1) - unused
  | _ => True

theorem Since.slotsUpTo (h : Since b s) : s.slotsUpTo i = b.slotsUpTo i := by
  simp only [State.slotsUpTo, counts, h.groupAt]

theorem Since.unusedSlots_le (h : Since b s) (u : AllocUnit) : b.unusedSlots u ≤ s.unusedSlots u :=
  List.countP_mono_left fun j _ hj => by simpa using h.flags _ (by simpa using hj)

theorem Since.unusedBefore_le (h : Since b s) (j : Nat) (u : AllocUnit) : b.unusedBefore j u ≤ s.unusedBefore j u :=
  List.countP_mono_left fun j _ hj => by simpa using h.flags _ (by simpa using hj)

theorem Since.unusedUpTo_le (h : Since b s) : b.unusedUpTo i k j ≤ s.unusedUpTo i k j := by
  have hu (us : List AllocUnit) : (us.map b.unusedSlots).sum ≤ (us.map s.unusedSlots).sum :=
    List.sum_le_sum fun u _ => h.unusedSlots_le u
  simp only [unusedUpTo, h.groupAt]
  refine Nat.add_le_add (Nat.add_le_add (List.sum_le_sum fun i _ => hu _) (hu _)) ?_
  cases (b.groupAt i).allUnits[k]?
  case none   => exact le_rfl
  case some u => exact h.unusedBefore_le j u

theorem unusedUpTo_zero : s.unusedUpTo i 0 0 = ((List.range i).map fun i => (s.counts (s.groupAt i)).1).sum := by
  simp [unusedUpTo]

theorem unusedUpTo_slot (unit : (s.groupAt i).allUnits[k]? = some u) (hj : j < slotCountPerUnit) :
    s.unusedUpTo i k (j + 1) = s.unusedUpTo i k j + if s.usageFlag ⟨u, j, hj⟩ = 0 then 1 else 0 := by
  simp only [unusedUpTo, unit, Option.map_some, Option.getD_some, unusedBefore_succ hj]
  omega

theorem unusedUpTo_unit (unit : (s.groupAt i).allUnits[k]? = some u) (hj : ¬j < slotCountPerUnit) :
    s.unusedUpTo i (k + 1) 0 = s.unusedUpTo i k j := by
  simp only [unusedUpTo, unit, Option.map_some, Option.getD_some, getD_map_unusedBefore_zero, sum_take_succ unit,
    unusedBefore_of_le (Nat.le_of_not_lt hj)]
  omega

theorem unusedUpTo_group (unit : (s.groupAt i).allUnits[k]? = none) : s.unusedUpTo (i + 1) 0 0 = s.unusedUpTo i k j := by
  rw [unusedUpTo_zero]
  simp [unusedUpTo, unit, List.range_succ, counts, List.take_of_length_le (List.getElem?_eq_none_iff.mp unit)]

theorem slotsUpTo_succ : s.slotsUpTo (i + 1) = s.slotsUpTo i + (s.groupAt i).allUnits.length * slotCountPerUnit := by
  simp [slotsUpTo, List.range_succ, counts]

variable [DecidableEq T]

-- Who has locked everything sees the others deallocate, and nothing else.
theorem WellLocked.since (k : WellLocked s) (hc : (s.pc t).Counting) (st : Step s v s') (hv : v ≠ t) : Since s s' := by
  have ha i : (s.pc t).Holds i := by cases pc : s.pc t <;> simp_all [Pc.Counting, Pc.Holds]
  have ht : (s.pc t).HoldsTemp := by cases pc : s.pc t <;> simp_all [Pc.Counting, Pc.HoldsTemp]
  have hs i : ¬(s.pc v).Holds i := fun h => by
    have := (k.shard v i).mp h
    have := (k.shard t i).mp (ha i)
    grind
  have hm : ¬(s.pc v).HoldsTemp := fun h => by
    have := (k.temp v).mp h
    have := (k.temp t).mp ht
    grind
  clear ha ht hc
  induction st
  case deallocate p pc hp used         => exact ⟨rfl, rfl, fun q hq => by grind⟩
  case deallocateUnused p pc hp unused => exact ⟨rfl, rfl, fun q hq => by grind⟩
  all_goals
    first
    | exact ⟨rfl, rfl, fun _ h => h⟩
    | exact ⟨by grind, by grind, by grind⟩
    | have := hs ‹Fin n›
      exact ⟨by grind, by grind, by grind⟩

omit [DecidableEq T] in
theorem CountedSince.since {pc : Pc n} (h : CountedSince b s pc) (hs : Since s s') : CountedSince b s' pc := by
  cases pc
  case count i k j unused perShard =>
    obtain ⟨hi, hp, hl, hu⟩ := h
    exact ⟨hi, hp.trans hs.slotsUpTo.symm, hl, hu.trans hs.unusedUpTo_le⟩
  case report r =>
    obtain ⟨unused, hl, hu, hr⟩ := h
    exact ⟨unused, hl, hu.trans hs.unusedUpTo_le, hs.slotsUpTo ▸ hr⟩
  all_goals trivial

theorem countedSince_goto {pc : Pc n} : CountedSince b (s.goto t pc) ((s.goto t pc).pc t) ↔ CountedSince b s pc := by
  simp only [goto, Function.update_self]
  rfl

-- What the call itself does is to go on with its count, or to return.
theorem CountedSince.step_self (h : CountedSince b s (s.pc t)) (hs : Since b s) (hc : (s.pc t).Counting) (st : Step s t s') :
    s'.pc t = .idle ∨ (Since b s' ∧ (s'.pc t).Counting ∧ CountedSince b s' (s'.pc t)) := by
  have ⟨hg, ht, hf⟩ := hs
  have ha := congrFun hs.groupAt
  induction st
  case countSlot i k j unused perShard u pc unit hj =>
    rw [pc] at h
    obtain ⟨hi, hp, hl, hu⟩ := h
    refine .inr ⟨⟨hg, ht, hf⟩, by simp [Pc.Counting], countedSince_goto |>.mpr ⟨hi, hp, ?_, ?_⟩⟩
    · have := hf ⟨u, j, hj⟩
      rw [unusedUpTo_slot (ha i ▸ unit) hj]
      grind
    · rw [unusedUpTo_slot unit hj]
      grind
  case countedUnit i k j unused perShard u pc unit hj =>
    rw [pc] at h
    obtain ⟨hi, hp, hl, hu⟩ := h
    refine .inr ⟨⟨hg, ht, hf⟩, by simp [Pc.Counting], countedSince_goto |>.mpr ⟨hi, hp, ?_, ?_⟩⟩
    · rwa [unusedUpTo_unit (ha i ▸ unit) hj]
    · rwa [unusedUpTo_unit unit hj]
  case countedGroup i k j unused perShard pc unit hi =>
    rw [pc] at h
    obtain ⟨_, hp, hl, hu⟩ := h
    refine .inr ⟨⟨hg, ht, hf⟩, by simp [Pc.Counting], countedSince_goto |>.mpr ⟨hi, ?_, ?_, ?_⟩⟩
    · simp [hp, slotsUpTo_succ]
    · rw [unusedUpTo_group (j := j) (ha i ▸ unit)]
      simpa using hl
    · rw [unusedUpTo_group (j := j) unit]
      simpa using hu
  case countedAll i k j unused perShard pc unit hi =>
    rw [pc] at h
    obtain ⟨hle, hp, hl, hu⟩ := h
    obtain rfl : i = n := by omega
    refine .inr ⟨⟨hg, ht, hf⟩, by simp [Pc.Counting], countedSince_goto |>.mpr ⟨(perShard.map Prod.fst).sum + unused, ?_, ?_, ?_⟩⟩
    · rwa [unusedUpTo_group (j := j) (ha i ▸ unit)]
    · rwa [unusedUpTo_group (j := j) unit]
    · simp [statusReport, hp, slotsUpTo_succ]
  case report => exact .inl (by simp)
  case deallocate pc _ _ => simp [pc, Pc.Counting] at hc
  all_goals simp [*, Pc.Counting] at hc

omit [DecidableEq T] in
-- While all groups are locked nothing is being allocated.
theorem Sound.unclaimed (so : Sound s) (hc : (s.pc t).Counting) (v : T) (p : ShardedDataPtr) : ¬(s.pc v).Claims p := by
  intro hp
  have hi i : s.locked i = some t := (so.locked.shard t i).mp (by cases pc : s.pc t <;> simp_all [Pc.Counting, Pc.Holds])
  have ⟨i, hv⟩ : ∃ i, (s.pc v).Holds i := by
    cases h : s.pc v <;> simp only [h, Pc.Claims] at hp <;> exact ⟨_, rfl⟩
  have := (so.locked.shard v i).mp hv
  have : v = t := by simpa [hi, eq_comm] using this
  cases pc : s.pc t <;> simp_all [Pc.Counting, Pc.Claims]

omit [DecidableEq T] in
theorem Sound.unused_add_live (so : Sound s) (hc : ∀ t p, ¬(s.pc t).Claims p) :
    s.unusedUpTo (n + 1) 0 0 + s.live.length = s.slotsUpTo (n + 1) := by
  have hs := so.flags.sum_counts ((List.range (n + 1)).map s.groupAt)
  simp only [List.flatMap_map, List.map_map, Function.comp_def] at hs
  rw [unusedUpTo_zero, slotsUpTo, (so.live_perm hc).length_eq]
  exact hs

-- A status report while others deallocate tells a number of live allocations between what there was when the call
-- had locked everything, and what there is when it returns.
theorem totalUsed_between (h : (system n T).Reachable s₁) (locked : s₁.pc t = .count 0 0 0 0 [])
    (run : (system n T).Run s₁ tr s₂) (call : ∀ e ∈ tr, e.1.pc t ≠ .idle) (pc : s₂.pc t = .report r) :
    s₂.live.length ≤ r.totalUsed ∧ r.totalUsed ≤ s₁.live.length := by
  have counted : Sound s₂ ∧ (s₂.pc t = .idle ∨ (Since s₁ s₂ ∧ (s₂.pc t).Counting ∧ CountedSince s₁ s₂ (s₂.pc t))) := by
    refine (run.restrict (c := fun s _ => s.pc t ≠ .idle) call).invariant
      (I := fun s => Sound s ∧ (s.pc t = .idle ∨ (Since s₁ s ∧ (s.pc t).Counting ∧ CountedSince s₁ s (s.pc t))))
      ⟨.reachable h, .inr ⟨.refl s₁, ?_, ?_⟩⟩ ?_
    · simp [locked, Pc.Counting]
    · simp [locked, CountedSince, unusedUpTo_zero, slotsUpTo]
    · rintro s ⟨v, a⟩ s' ⟨so, hc⟩ ⟨stp, busy⟩
      obtain ⟨hs, hc, hb⟩ := hc.resolve_left busy
      have st := Step.of_nextOf so.flags stp
      refine ⟨so.step st, ?_⟩
      by_cases hv : v = t
      case pos => subst hv; exact hb.step_self hs hc st
      case neg =>
        have hs' := so.locked.since hc st hv
        have hp := st.pc_of_ne (Ne.symm hv)
        exact .inr ⟨hs.trans hs', hp ▸ hc, hp ▸ hb.since hs'⟩
  obtain ⟨so, hc⟩ := counted
  obtain ⟨hs, hc, hb⟩ := hc.resolve_left (by simp [pc])
  have h₁ := (Sound.reachable h).unused_add_live ((Sound.reachable h).unclaimed (t := t) (by simp [locked, Pc.Counting]))
  have h₂ := so.unused_add_live (so.unclaimed hc)
  rw [pc] at hb
  obtain ⟨unused, hl, hu, hr⟩ := hb
  have := hs.slotsUpTo (i := n + 1)
  omega

-- The status report of `reports`, while the other thread deallocates what it has found in use.
def counting : State 1 Bool :=
  (System.exec (fun s l => s.nextOf l.1 l.2) allocated (reports.take 3)).getD empty

def deallocates : List (Bool × Act 1) :=
  .replicate 5 (true, .run) ++ (false, .deallocate ⟨0, 0, by decide⟩) :: .replicate 14 (true, .run)

def counted : State 1 Bool :=
  (System.exec (fun s l => s.nextOf l.1 l.2) counting deallocates).getD empty

-- The slot is counted, and free when the report is made.
theorem totalUsed_between_counted : ∃ r, counted.pc true = .report r ∧ counted.live.length = 0 ∧
    counted.live.length ≤ r.totalUsed ∧ r.totalUsed ≤ 1 := by
  have ha : System.exec (fun s l => s.nextOf l.1 l.2) empty allocates = some allocated := rfl
  have hl : System.exec (fun s l => s.nextOf l.1 l.2) allocated (reports.take 3) = some counting := rfl
  have hc : System.exec (fun s l => s.nextOf l.1 l.2) counting deallocates = some counted := rfl
  have call : ∀ e ∈ System.trace (fun s l => s.nextOf l.1 l.2) counting deallocates, e.1.pc true ≠ .idle := by
    decide
  have hr := System.reachable_of_exec (reachable_of_exec ha) hl
  exact ⟨_, rfl, rfl, totalUsed_between hr rfl (System.run_of_exec hc) call rfl⟩

end State
end ShardedAlloc
