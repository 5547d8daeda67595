import SdarcModel.ShardedAlloc.Theorems.Safety

namespace ShardedAlloc

-- The group that the call holds is inside `do_maintenance`.
def Pc.Maintains : Pc n → Prop
  | .retain .. | .dropUnit .. | .list .. => True
  | _ => False

attribute [grind] Pc.Maintains

@[grind →]
theorem Pc.Maintains.holdsTemp {pc : Pc n} (h : pc.Maintains) : pc.HoldsTemp := by
  cases pc <;> grind -linarith

-- A unit that is missing from the candidates has had all its slots seen used.
def AllocUnitGroup.Complete (seen : ShardedDataPtr → Bool) (g : AllocUnitGroup) : Prop :=
  ∀ k u, g.allUnits[k]? = some u → k ∉ g.indexesOfUnitsToCheckForAllocation → ∀ j, seen ⟨u, j⟩ = true

namespace AllocUnitGroup

variable {g : AllocUnitGroup}

theorem mem_removeFirstIndex_of_ne (hg : g.indexesOfUnitsToCheckForAllocation = k :: ks)
    (ha : a ∈ g.indexesOfUnitsToCheckForAllocation) (hne : a ≠ k) :
    a ∈ g.removeFirstIndex.indexesOfUnitsToCheckForAllocation :=
  (List.mem_cons.mp ((removeFirstIndex_perm hg).mem_iff.mp ha)).resolve_left hne

theorem nodup_removeFirstIndex (h : g.indexesOfUnitsToCheckForAllocation.Nodup) :
    g.removeFirstIndex.indexesOfUnitsToCheckForAllocation.Nodup := by
  cases hg : g.indexesOfUnitsToCheckForAllocation
  case nil       => simp [removeFirstIndex, hg]
  case cons k ks => exact ((removeFirstIndex_perm hg).nodup_iff.mp h).of_cons

end AllocUnitGroup

namespace State

variable {n : Nat} {T : Type} {s s' : State n T} {t : T} {seen : ShardedDataPtr → Bool}

-- The slots that a search of their unit has seen used, either in the last `do_maintenance` of their group or
-- in the last allocation since then that has tried their unit.
def watch (seen : ShardedDataPtr → Bool) (s : State n T) (t : T) (p : ShardedDataPtr) : Bool :=
  match s.pc t with
  | .allocate i =>
    match (s.groups i).indexesOfUnitsToCheckForAllocation with
    | []     => if p.unit = s.next then false else seen p
    | k :: _ => if (s.groups i).allUnits[k]? = some p.unit then false else seen p
  | .scan _ u _ j => if p.unit = u ∧ p.slot.val = j ∧ s.usageFlag p = 1 then true else seen p
  | .swapIn i     => if p.unit ∈ (s.groupAt i).allUnits then false else seen p
  | .list _ k j   =>
    if s.tempFillingGroup.allUnits[k]? = some p.unit ∧ p.slot.val = j ∧ s.usageFlag p = 1 then true else seen p
  | _ => seen p

structure WellListed (s : State n T) (seen : ShardedDataPtr → Bool) : Prop where
  nodup   : ∀ g, (s.group g).indexesOfUnitsToCheckForAllocation.Nodup
  first   : ∀ t i u j, s.pc t = .scan i u false j → ∃ k ks,
    (s.groups i).indexesOfUnitsToCheckForAllocation = k :: ks ∧ (s.groups i).allUnits[k]? = some u
  scanned : ∀ t i u fresh j, s.pc t = .scan i u fresh j → ∀ m, m.val < j → seen ⟨u, m⟩ = true
  below   : ∀ t i k j, s.pc t = .list i k j → ∀ a ∈ s.tempFillingGroup.indexesOfUnitsToCheckForAllocation, a < k
  passed  : ∀ t i k j, s.pc t = .list i k j → ∀ a u, a < k → s.tempFillingGroup.allUnits[a]? = some u →
    a ∉ s.tempFillingGroup.indexesOfUnitsToCheckForAllocation → ∀ m, seen ⟨u, m⟩ = true
  listed  : ∀ t i k j, s.pc t = .list i k j → ∀ u, s.tempFillingGroup.allUnits[k]? = some u →
    ∀ m, m.val < j → seen ⟨u, m⟩ = true
  shard   : ∀ i, (s.groups i).Complete seen
  temp    : (∀ t, ¬(s.pc t).Maintains) → s.tempFillingGroup.Complete seen

theorem WellListed.initial (h : s.Initial) : WellListed s seen := by
  have hg g : s.group g = {} := by cases g <;> simp [group, h.temp, h.groups]
  constructor <;> simp [h.pc, h.temp, h.groups, hg, AllocUnitGroup.Complete]

-- A search begins to look at the slots of `u` anew.
def Clears (s : State n T) (t : T) (u : AllocUnit) : Prop :=
  match s.pc t with
  | .allocate i =>
    match (s.groups i).indexesOfUnitsToCheckForAllocation with
    | []     => u = s.next
    | k :: _ => (s.groups i).allUnits[k]? = some u
  | .swapIn i => u ∈ (s.groupAt i).allUnits
  | _ => False

theorem Clears.cases (h : s.Clears t u) :
    (∃ i, s.pc t = .allocate i ∧ u = s.next) ∨
    (∃ i k ks, s.pc t = .allocate i ∧ (s.groups i).indexesOfUnitsToCheckForAllocation = k :: ks ∧
      (s.groups i).allUnits[k]? = some u) ∨
    ∃ i, s.pc t = .swapIn i ∧ u ∈ (s.groupAt i).allUnits := by
  unfold Clears at h
  split at h
  case h_1 i pc =>
    split at h
    case h_1    => exact .inl ⟨i, pc, h⟩
    case h_2 hk => exact .inr (.inl ⟨i, _, _, pc, hk, h⟩)
  case h_2 i pc => exact .inr (.inr ⟨i, pc, h⟩)
  case h_3      => contradiction

theorem not_clears_of_ne (ha : ∀ i, s.pc t ≠ .allocate i) (hs : ∀ i, s.pc t ≠ .swapIn i) : ¬s.Clears t u := by
  intro h
  obtain ⟨i, pc, _⟩ | ⟨i, _, _, pc, _⟩ | ⟨i, pc, _⟩ := h.cases
  · exact ha i pc
  · exact ha i pc
  · exact hs i pc

theorem watch_of_not_clears (h : seen p = true) (hc : ¬s.Clears t p.unit) : watch seen s t p = true := by
  unfold watch
  unfold Clears at hc
  split <;> grind -linarith

variable [DecidableEq T]

theorem WellLocked.groups_eq (k : WellLocked s) (st : Step s t s') (h : (s.pc v).Holds i) (hv : v ≠ t) :
    s'.groups i = s.groups i := by
  have hi : s.locked i = some v := (k.shard v i).mp h
  have ht := k.shard t i
  induction st <;> first
    | rfl
    | grind -linarith

theorem WellLocked.temp_eq (k : WellLocked s) (st : Step s t s') (h : (s.pc v).HoldsTemp) (hv : v ≠ t) :
    s'.tempFillingGroup = s.tempFillingGroup := by
  have hi : s.tempLocked = some v := (k.temp v).mp h
  have ht := k.temp t
  induction st <;> first
    | rfl
    | grind -linarith

omit [DecidableEq T] in
-- No search begins at a unit that is missing from the candidates, but for the maintenance of its group.
theorem WellPlaced.not_clears (w : WellPlaced s) (hu : (s.group g).allUnits[a]? = some u)
    (ha : a ∉ (s.group g).indexesOfUnitsToCheckForAllocation)
    (hs : ∀ i, s.pc t = .swapIn i → g ≠ if h : i < n then some ⟨i, h⟩ else none) : ¬s.Clears t u := by
  have hm : u ∈ (s.group g).allUnits := List.mem_of_getElem? hu
  intro hc
  obtain ⟨i, _, rfl⟩ | ⟨i, k, ks, _, hk, hc⟩ | ⟨i, pc, hc⟩ := hc.cases
  · exact Nat.lt_irrefl _ (w.lt s.next g hm)
  · obtain rfl : g = some i := w.disjoint u g (some i) hm (List.mem_of_getElem? hc)
    have hn : (s.groups i).allUnits.Nodup := w.nodup (some i)
    simp only [group] at hu ha
    obtain ⟨hlt, hu⟩ := List.getElem?_eq_some_iff.mp hu
    have he : a = k := (List.getElem?_inj hlt hn).mp (by rw [List.getElem?_eq_getElem hlt, hu, hc])
    simp [he, hk] at ha
  · exact hs i pc (w.disjoint u _ _ hm (groupAt_group s i ▸ hc))

omit [DecidableEq T] in
theorem WellListed.temp_of_holdsTemp (k : WellLocked s) (l : WellListed s seen) (h : (s.pc t).HoldsTemp)
    (hm : ¬(s.pc t).Maintains) : s.tempFillingGroup.Complete seen := by
  refine l.temp fun v hv => ?_
  have h₁ := (k.temp t).mp h
  have h₂ := (k.temp v).mp hv.holdsTemp
  have : t = v := by simpa [h₁] using h₂
  exact hm (this ▸ hv)

theorem WellListed.shard_step (k : WellLocked s) (w : WellPlaced s) (l : WellListed s seen) (st : Step s t s') :
    (s'.groups i).Complete (watch seen s t) := by
  intro a u hu ha m
  have hseen : seen ⟨u, m⟩ = true → ¬s.Clears t u → watch seen s t ⟨u, m⟩ = true := watch_of_not_clears
  have hc g := w.not_clears (t := t) (g := g) (a := a) (u := u)
  have hs := l.shard
  have ht := l.temp_of_holdsTemp (t := t) k
  induction st
  case swapIn j pc hj free =>
    by_cases hi : i = ⟨j, hj⟩
    case pos =>
      subst hi
      simp only [Function.update_self] at hu ha
      exact hseen (ht (by simp [pc, Pc.HoldsTemp]) (by simp [pc, Pc.Maintains]) a u hu ha m) (hc none hu ha (by grind -linarith))
    case neg =>
      simp only [Function.update_of_ne hi] at hu ha
      exact hseen (hs i a u hu ha m) (hc (some i) hu ha (by grind -linarith))
  case swapOut j pc free =>
    by_cases hi : i = j
    case pos =>
      subst hi
      simp only [Function.update_self] at hu ha
      exact hseen (ht (by simp [pc, Pc.HoldsTemp]) (by simp [pc, Pc.Maintains]) a u hu ha m) (hc none hu ha (by grind -linarith))
    case neg =>
      simp only [Function.update_of_ne hi] at hu ha
      exact hseen (hs i a u hu ha m) (hc (some i) hu ha (by grind -linarith))
  case scanFull j u' b pc hj =>
    have hc : ¬s.Clears t u := not_clears_of_ne (by simp [pc]) (by simp [pc])
    by_cases ha' : a ∈ (s.groups i).indexesOfUnitsToCheckForAllocation
    case neg => exact hseen (hs i a u (by grind -linarith) ha' m) hc
    case pos =>
      have hi : i = j := by grind -linarith
      subst hi
      obtain ⟨k, ks, hk, hu'⟩ := l.first t i u' b pc
      have hak : a = k := by
        by_contra hne
        simp only [Function.update_self] at ha
        exact ha (AllocUnitGroup.mem_removeFirstIndex_of_ne hk ha' hne)
      have : u = u' := by grind -linarith
      exact hseen (this ▸ l.scanned t i u' false b pc m (by omega)) hc
  case initNewUnit j u' slot b pc hj =>
    have hc : ¬s.Clears t u := not_clears_of_ne (by simp [pc]) (by simp [pc])
    by_cases hi : i = j
    case pos =>
      subst hi
      simp only [Function.update_self, AllocUnitGroup.pushUnit, List.mem_append, List.mem_singleton, not_or] at hu ha
      exact hseen (hs i a u (by grind -linarith) ha.left m) hc
    case neg =>
      simp only [Function.update_of_ne hi] at hu ha
      exact hseen (hs i a u hu ha m) hc
  all_goals exact hseen (hs i a u hu ha m) (hc (some i) hu ha (by grind -linarith))

-- The last step of a maintenance in a group, in which it has found the end of the list of units.
theorem Step.listed_of_maintains (st : Step s t s') (np : ∀ e, s'.pc t ≠ .panicked e) (h : (s.pc t).Maintains)
    (hn : ¬(s'.pc t).Maintains) : ∃ i b j, s.pc t = .list i b j ∧ s.tempFillingGroup.allUnits[b]? = none ∧
      s'.tempFillingGroup = s.tempFillingGroup := by
  induction st
  case listed i b j pc unit _     => exact ⟨i, b, j, pc, unit, rfl⟩
  case listedLast i b j pc unit _ => exact ⟨i, b, j, pc, unit, rfl⟩
  case dropUnitInUse              => simp at np
  all_goals simp_all [Pc.Maintains]

theorem Step.temp_of_not_maintains (st : Step s t s') (h : ¬(s'.pc t).Maintains) :
    ((∀ i, s.pc t ≠ .swapIn i) ∧ s'.tempFillingGroup = s.tempFillingGroup) ∨
      ∃ i, s.pc t = .swapOut i ∧ s'.tempFillingGroup = s.groups i := by
  induction st
  case swapOut i pc _ => exact .inr ⟨i, pc, rfl⟩
  case swapIn | swappedAll | retained | listUnused => simp [Pc.Maintains] at h
  all_goals exact .inl ⟨by simp [*], rfl⟩

theorem WellListed.temp_step (w : WellPlaced s) (l : WellListed s seen) (st : Step s t s')
    (np : ∀ e, s'.pc t ≠ .panicked e) (hm : ∀ t, ¬(s'.pc t).Maintains) : s'.tempFillingGroup.Complete (watch seen s t) := by
  intro a u hu ha m
  have hseen : seen ⟨u, m⟩ = true → ¬s.Clears t u → watch seen s t ⟨u, m⟩ = true := watch_of_not_clears
  by_cases ht : (s.pc t).Maintains
  case pos =>
    obtain ⟨i, b, j, pc, unit, temp⟩ := st.listed_of_maintains np ht (hm t)
    rw [temp] at hu ha
    have hab : a < b := Nat.lt_of_lt_of_le (List.getElem?_eq_some_iff.mp hu).1 (List.getElem?_eq_none_iff.mp unit)
    exact hseen (l.passed t i b j pc a u hab hu ha m) (not_clears_of_ne (by simp [pc]) (by simp [pc]))
  case neg =>
    have hno v : ¬(s.pc v).Maintains := by
      by_cases hv : v = t
      · exact hv ▸ ht
      · exact st.pc_of_ne hv ▸ hm v
    obtain ⟨pc, temp⟩ | ⟨i, pc, temp⟩ := st.temp_of_not_maintains (hm t)
    · rw [temp] at hu ha
      exact hseen (l.temp hno a u hu ha m) (w.not_clears (g := none) hu ha fun i h => absurd h (pc i))
    · rw [temp] at hu ha
      exact hseen (l.shard i a u hu ha m) (not_clears_of_ne (by simp [pc]) (by simp [pc]))

theorem WellListed.nodup_step (sc : WellScanned s) (l : WellListed s seen) (st : Step s t s') :
    (s'.group g).indexesOfUnitsToCheckForAllocation.Nodup := by
  have hs i := l.nodup (some i)
  have ht := l.nodup none
  have hb i := sc.bounds (some i)
  have hr i := AllocUnitGroup.nodup_removeFirstIndex (hs i)
  have hl := l.below t
  simp only [group] at hs ht hb hr
  cases g <;> induction st
  case some.initNewUnit i j u slot k pc hk =>
    have := hb i
    grind -linarith
  case none.listUnused i k j u pc unit hj flag =>
    have := hl i k j pc
    grind -linarith
  all_goals first
    | exact hs _
    | exact ht
    | grind -linarith

theorem WellListed.first_step (k : WellLocked s) (l : WellListed s seen) (st : Step s t s')
    (h : s'.pc v = .scan i u false j) : ∃ k ks,
      (s'.groups i).indexesOfUnitsToCheckForAllocation = k :: ks ∧ (s'.groups i).allUnits[k]? = some u := by
  by_cases hv : v = t
  case neg =>
    rw [st.pc_of_ne hv] at h
    rw [k.groups_eq st (by simp [h, Pc.Holds]) hv]
    exact l.first v i u j h
  case pos =>
    subst hv
    have := l.first v i u
    induction st <;> first
      | cases (Function.update_self ..).symm.trans h
        done
      | grind -linarith

theorem Step.free_of_swapIn (st : Step s t s') (pc : s.pc t = .swapIn j) (hj : j < n) : s.locked ⟨j, hj⟩ = none := by
  induction st <;> grind -linarith

-- Nobody begins to search a unit that a call is searching.
theorem Step.not_clears_scanned (k : WellLocked s) (w : WellPlaced s) (st : Step s t s')
    (h : s.pc v = .scan i u fresh j) (hv : v ≠ t) : ¬s.Clears t u := by
  intro hc
  have hi : s.locked i = some v := (k.shard v i).mp (by simp [h, Pc.Holds])
  have hin : (∃ g, u ∈ (s.group g).allUnits ∧ (fresh = true ∨ g ≠ some i)) → False := by
    rintro ⟨g, hu, hg⟩
    cases fresh
    case true  => exact (w.fresh v u (by simp [h, Pc.Fresh])).right.right.left g hu
    case false =>
      have hu' : u ∈ (s.group (some i)).allUnits := w.uses v i u (by simp [h, Pc.Uses])
      have := w.disjoint u g (some i) hu hu'
      grind -linarith
  obtain ⟨j, _, rfl⟩ | ⟨j, _, _, pc, _, hc⟩ | ⟨j, pc, hc⟩ := hc.cases
  · cases fresh
    case true  => exact Nat.lt_irrefl _ (w.fresh v s.next (by simp [h, Pc.Fresh])).left
    case false => exact Nat.lt_irrefl _ (w.lt s.next (some i) (w.uses v i s.next (by simp [h, Pc.Uses])))
  · refine hin ⟨some j, List.mem_of_getElem? hc, .inr ?_⟩
    have hj : s.locked j = some t := (k.shard t j).mp (by simp [pc, Pc.Holds])
    rintro ⟨⟩
    exact hv (by simpa [hi] using hj)
  · refine hin ⟨_, groupAt_group s j ▸ hc, .inr fun he => ?_⟩
    split at he
    case isTrue hj =>
      cases he
      simp [st.free_of_swapIn pc hj] at hi
    case isFalse => contradiction

theorem WellListed.scanned_step (k : WellLocked s) (w : WellPlaced s) (l : WellListed s seen) (st : Step s t s')
    (h : s'.pc v = .scan i u fresh j) (hm : m.val < j) : watch seen s t ⟨u, m⟩ = true := by
  by_cases hv : v = t
  case neg =>
    rw [st.pc_of_ne hv] at h
    exact watch_of_not_clears (l.scanned v i u fresh j h m hm) (st.not_clears_scanned k w h hv)
  case pos =>
    subst hv
    have hs := l.scanned v
    induction st
    case scanUsed i' u' fresh' j' pc hj flag =>
      have := hs i' u' fresh' j' pc m
      have : m.val < j' ∨ m = ⟨j', hj⟩ := by grind -linarith
      simp only [watch, pc]
      grind -linarith
    all_goals first
      | cases (Function.update_self ..).symm.trans h
        done
      | grind -linarith

-- The steps that get to a place in the listing of candidates.
inductive Listing (s s' : State n T) (t : T) (i : Nat) : Nat → Nat → Prop
  | retained (pc : s.pc t = .retain i kept [] j) (temp : s'.tempFillingGroup = { allUnits := kept }) :
    Listing s s' t i 0 0
  | unused (pc : s.pc t = .list i b j) (temp : s'.tempFillingGroup = s.tempFillingGroup.pushIndex b) :
    Listing s s' t i (b + 1) 0
  | used (pc : s.pc t = .list i b j) (unit : s.tempFillingGroup.allUnits[b]? = some u) (h : j < slotCountPerUnit)
      (flag : s.usageFlag ⟨u, j, h⟩ = 1) (temp : s'.tempFillingGroup = s.tempFillingGroup) :
    Listing s s' t i b (j + 1)
  | not (pc : s.pc t = .list i b j) (unit : s.tempFillingGroup.allUnits[b]? = some u) (h : ¬j < slotCountPerUnit)
      (temp : s'.tempFillingGroup = s.tempFillingGroup) :
    Listing s s' t i (b + 1) 0

theorem Step.listing (st : Step s t s') (h : s'.pc t = .list i b j) : Listing s s' t i b j := by
  induction st
  case retained pc             => cases (Function.update_self ..).symm.trans h; exact .retained pc rfl
  case listUnused pc unit hj _ => cases (Function.update_self ..).symm.trans h; exact .unused pc rfl
  case listUsed pc unit hj fl  => cases (Function.update_self ..).symm.trans h; exact .used pc unit hj fl rfl
  case listNot pc unit hj      => cases (Function.update_self ..).symm.trans h; exact .not pc unit hj rfl
  all_goals simp_all

theorem WellListed.below_step (k : WellLocked s) (l : WellListed s seen) (st : Step s t s')
    (h : s'.pc v = .list i b j) (ha : a ∈ s'.tempFillingGroup.indexesOfUnitsToCheckForAllocation) : a < b := by
  by_cases hv : v = t
  case neg =>
    rw [st.pc_of_ne hv] at h
    rw [k.temp_eq st (by simp [h, Pc.HoldsTemp]) hv] at ha
    exact l.below v i b j h a ha
  case pos =>
    subst hv
    rcases st.listing h with ⟨pc, temp⟩ | ⟨pc, temp⟩ | ⟨pc, _, _, _, temp⟩ | ⟨pc, _, _, temp⟩
    · simp [temp] at ha
    · simp only [temp, AllocUnitGroup.pushIndex, List.mem_append, List.mem_singleton] at ha
      exact ha.elim (fun ha => Nat.lt_succ_of_lt (l.below v _ _ _ pc a ha)) fun ha => by omega
    · exact l.below v _ _ _ pc a (temp ▸ ha)
    · exact Nat.lt_succ_of_lt (l.below v _ _ _ pc a (temp ▸ ha))

omit [DecidableEq T] in
theorem WellLocked.not_clears_temp (k : WellLocked s) (w : WellPlaced s) (h : (s.pc v).HoldsTemp)
    (hv : (s.pc v).Maintains ∨ v ≠ t) (hu : u ∈ s.tempFillingGroup.allUnits) : ¬s.Clears t u := by
  intro hc
  obtain ⟨j, _, rfl⟩ | ⟨j, _, _, _, _, hc⟩ | ⟨j, pc, _⟩ := hc.cases
  · exact Nat.lt_irrefl _ (w.lt s.next none hu)
  · cases w.disjoint u (some j) none (List.mem_of_getElem? hc) hu
  · have h₁ := (k.temp v).mp h
    have h₂ := (k.temp t).mp (by simp [pc, Pc.HoldsTemp])
    have : v = t := by simpa [h₁] using h₂
    grind -linarith

-- The slots of the unit that the maintenance is looking at, and then the units that it has looked at.
theorem WellListed.listed_step (k : WellLocked s) (w : WellPlaced s) (l : WellListed s seen) (st : Step s t s')
    (h : s'.pc v = .list i b j) (hu : s'.tempFillingGroup.allUnits[b]? = some u) (hm : m.val < j) :
    watch seen s t ⟨u, m⟩ = true := by
  by_cases hv : v = t
  case neg =>
    rw [st.pc_of_ne hv] at h
    have ht : (s.pc v).HoldsTemp := by simp [h, Pc.HoldsTemp]
    rw [k.temp_eq st ht hv] at hu
    exact watch_of_not_clears (l.listed v i b j h u hu m hm)
      (k.not_clears_temp w ht (.inr hv) (List.mem_of_getElem? hu))
  case pos =>
    subst hv
    rcases st.listing h with _ | _ | @⟨_, j, u', pc, unit, hj, flag, temp⟩ | _
    case used =>
      rw [temp, unit] at hu
      obtain rfl : u' = u := by simpa using hu
      rcases Nat.lt_succ_iff_lt_or_eq.mp hm with hm | rfl
      · exact watch_of_not_clears (l.listed v i b j pc u' unit m hm) (not_clears_of_ne (by simp [pc]) (by simp [pc]))
      · simp [watch, pc, unit, flag]
    all_goals omega

theorem WellListed.passed_step (k : WellLocked s) (w : WellPlaced s) (l : WellListed s seen) (st : Step s t s')
    (h : s'.pc v = .list i b j) (hab : a < b) (hu : s'.tempFillingGroup.allUnits[a]? = some u)
    (ha : a ∉ s'.tempFillingGroup.indexesOfUnitsToCheckForAllocation) (m : Fin slotCountPerUnit) :
    watch seen s t ⟨u, m⟩ = true := by
  by_cases hv : v = t
  case neg =>
    rw [st.pc_of_ne hv] at h
    have ht : (s.pc v).HoldsTemp := by simp [h, Pc.HoldsTemp]
    rw [k.temp_eq st ht hv] at hu ha
    exact watch_of_not_clears (l.passed v i b j h a u hab hu ha m)
      (k.not_clears_temp w ht (.inr hv) (List.mem_of_getElem? hu))
  case pos =>
    subst hv
    rcases st.listing h with ⟨pc, temp⟩ | ⟨pc, temp⟩ | ⟨pc, _, _, _, temp⟩ | @⟨b', j', u', pc, unit, hj, temp⟩
    · omega
    · simp only [temp, AllocUnitGroup.pushIndex, List.mem_append, List.mem_singleton, not_or] at hu ha
      exact watch_of_not_clears (l.passed v _ _ _ pc a u (by omega) hu ha.left m)
        (not_clears_of_ne (by simp [pc]) (by simp [pc]))
    · rw [temp] at hu ha
      exact watch_of_not_clears (l.passed v _ _ _ pc a u hab hu ha m) (not_clears_of_ne (by simp [pc]) (by simp [pc]))
    · rw [temp] at hu ha
      refine watch_of_not_clears ?_ (not_clears_of_ne (by simp [pc]) (by simp [pc]))
      rcases Nat.lt_succ_iff_lt_or_eq.mp hab with hab | rfl
      · exact l.passed v _ _ _ pc a u hab hu ha m
      · exact l.listed v _ _ _ pc u hu m (by omega)

theorem WellListed.step (so : Sound s) (l : WellListed s seen) (st : Step s t s') : WellListed s' (watch seen s t) where
  nodup _                := l.nodup_step so.scanned st
  first _ _ _ _ h        := l.first_step so.locked st h
  scanned _ _ _ _ _ h _  := l.scanned_step so.locked so.placed st h
  below _ _ _ _ h _      := l.below_step so.locked st h
  passed _ _ _ _ h _ _   := l.passed_step so.locked so.placed st h
  listed _ _ _ _ h _ h' _ := l.listed_step so.locked so.placed st h h'
  shard _                := l.shard_step so.locked so.placed st
  temp h                 := l.temp_step so.placed st (st.not_panicked so.owned so.scanned (so.live t)) h

-- What is seen along a run.
def watched (tr : List (State n T × (T × Act n))) : ShardedDataPtr → Bool :=
  tr.foldl (fun seen e => watch seen e.1 e.2.1) fun _ => false

theorem WellListed.run (so : Sound s) (l : WellListed s seen) (r : (system n T).Run s tr s') :
    WellListed s' (tr.foldl (fun seen e => watch seen e.1 e.2.1) seen) := by
  induction r generalizing seen
  case refl          => exact l
  case step stp _ ih =>
    have st := Step.of_nextOf so.flags stp
    exact ih (so.step st) (l.step so st)

end State
end ShardedAlloc
