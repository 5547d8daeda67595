import SdarcModel.ShardedAlloc.Theorems.Step

namespace ShardedAlloc

namespace Pc

variable {n : Nat}

-- The call holds the lock of shard `i`.
def Holds : Pc n → Fin n → Prop
  | .allocate i, a | .scan i _ _ _, a | .init i _ _ _ _, a | .unwind i _ _ _, a | .dropNewUnit i _ _, a => i = a
  | .lockGroups k, a => a.val < k
  | .count .., _ | .report _, _ => True
  | _, _ => False

def HoldsTemp : Pc n → Prop
  | .swapIn _ | .retain .. | .dropUnit .. | .list .. | .swapOut _ | .lockGroups _ | .count .. | .report _ => True
  | _ => False

-- The call has a `new_unit` of its own.
def Fresh : Pc n → AllocUnit → Prop
  | .scan _ u fresh _, a | .init _ u fresh _ _, a | .unwind _ u fresh _, a => fresh = true ∧ u = a
  | .dropNewUnit _ u _, a => u = a
  | _, _ => False

-- The call allocates from a unit of its shard's group.
def Uses : Pc n → Fin n → AllocUnit → Prop
  | .scan i u fresh _, a, b | .init i u fresh _ _, a, b | .unwind i u fresh _, a, b =>
    fresh = false ∧ i = a ∧ u = b
  | _, _, _ => False

-- The units that `retain_mut` has not dropped.
def retained : Pc n → Option (List AllocUnit)
  | .retain _ kept rest _     => some (kept ++ rest)
  | .dropUnit _ kept u rest _ => some (kept ++ u :: rest)
  | _ => none

attribute [grind] Holds HoldsTemp Fresh Uses retained

@[grind →]
theorem Uses.holds {pc : Pc n} (h : pc.Uses i u) : pc.Holds i := by
  cases pc <;> grind -linarith

@[grind →]
theorem holdsTemp_of_retained {pc : Pc n} (h : pc.retained = some us) : pc.HoldsTemp := by
  cases pc <;> grind -linarith

end Pc

namespace State

variable {n : Nat} {T : Type} {s s' : State n T} {t : T}

structure WellLocked (s : State n T) : Prop where
  shard : ∀ t i, (s.pc t).Holds i ↔ s.locked i = some t
  temp  : ∀ t, (s.pc t).HoldsTemp ↔ s.tempLocked = some t

-- The groups of the shards and, as `none`, the temporary one.
def group (s : State n T) : Option (Fin n) → AllocUnitGroup
  | some i => s.groups i
  | none   => s.tempFillingGroup

theorem groupAt_group (s : State n T) (i : Nat) :
    s.groupAt i = s.group (if h : i < n then some ⟨i, h⟩ else none) := by
  unfold groupAt group
  split <;> rfl

-- Every unit is in one group or is the new unit of one call, until it is deallocated.
structure WellPlaced (s : State n T) : Prop where
  nodup    : ∀ g, (s.group g).allUnits.Nodup
  disjoint : ∀ u g h, u ∈ (s.group g).allUnits → u ∈ (s.group h).allUnits → g = h
  lt       : ∀ u g, u ∈ (s.group g).allUnits → u < s.next
  fresh    : ∀ t u, (s.pc t).Fresh u → u < s.next ∧ s.deallocated u = false ∧
    (∀ g, u ∉ (s.group g).allUnits) ∧ ∀ t', (s.pc t').Fresh u → t' = t
  uses     : ∀ t i u, (s.pc t).Uses i u → u ∈ (s.groups i).allUnits
  shard    : ∀ u i, u ∈ (s.groups i).allUnits → s.deallocated u = false
  temp     : (∀ t, (s.pc t).retained = none) → ∀ u ∈ s.tempFillingGroup.allUnits, s.deallocated u = false
  retained : ∀ t us, (s.pc t).retained = some us → us.Sublist s.tempFillingGroup.allUnits ∧
    ∀ u ∈ s.tempFillingGroup.allUnits, u ∈ us ↔ s.deallocated u = false
  complete : ∀ u, u < s.next → s.deallocated u = false →
    (∃ g, u ∈ (s.group g).allUnits) ∨ ∃ t, (s.pc t).Fresh u

theorem WellLocked.initial (h : s.Initial) : WellLocked s where
  shard t i := by simp [h.pc, h.locked, Pc.Holds]
  temp t    := by simp [h.pc, h.tempLocked, Pc.HoldsTemp]

theorem WellPlaced.initial (h : s.Initial) : WellPlaced s := by
  have hg g : (s.group g).allUnits = [] := by cases g <;> simp [group, h.temp, h.groups]
  constructor <;> simp [h.pc, h.temp, h.groups, h.next, hg, Pc.Fresh, Pc.Uses, Pc.retained]

variable [DecidableEq T]

attribute [grind] group AllocUnitGroup.pushUnit AllocUnitGroup.pushIndex

-- No unit is made, moved or deallocated.
@[grind cases]
structure SameUnits (s s' : State n T) : Prop where
  next        : s'.next = s.next
  deallocated : s'.deallocated = s.deallocated
  groups      : ∀ i, (s'.groups i).allUnits = (s.groups i).allUnits
  temp        : s'.tempFillingGroup.allUnits = s.tempFillingGroup.allUnits

omit [DecidableEq T] in
theorem SameUnits.group_eq (same : SameUnits s s') (g : Option (Fin n)) : (s'.group g).allUnits = (s.group g).allUnits := by
  cases g
  case none   => exact same.temp
  case some i => exact same.groups i

-- Every step by what it does with the units. Most leave all of them where they are.
inductive Placing (s : State n T) (t : T) : State n T → Prop
  | kept {s' : State n T} (same : SameUnits s s') (fresh : ∀ v u, (s'.pc v).Fresh u ↔ (s.pc v).Fresh u)
      (uses : ∀ v i u, (s'.pc v).Uses i u → (s.pc v).Uses i u ∨ u ∈ (s.groups i).allUnits)
      (retained : ∀ v, (s'.pc v).retained = (s.pc v).retained) :
    Placing s t s'
  | panicked {s' : State n T} (same : SameUnits s s') (pc : ∀ v, s'.pc v = if v = t then .panicked e else s.pc v) :
    Placing s t s'
  | newUnit (pc : s.pc t = .allocate i) : Placing s t (s.newUnit |>.goto t (.scan i s.next true 0))
  | initNewUnit (pc : s.pc t = .init i u true slot k) :
    Placing s t (s.setGroup i ((s.groups i).pushUnit u) |>.give ⟨u, slot⟩ |>.lock i none |>.goto t .idle)
  | droppedNewUnit (pc : s.pc t = .dropNewUnit i u j) : Placing s t (s.dealloc u |>.lock i none |>.goto t .idle)
  | swapIn (pc : s.pc t = .swapIn i) (h : i < n) (free : s.locked ⟨i, h⟩ = none) :
    Placing s t (s.swap ⟨i, h⟩ |>.goto t (.retain i [] (s.groups ⟨i, h⟩).allUnits 0))
  | swappedAll (pc : s.pc t = .swapIn i) : Placing s t (s.goto t (.retain i [] s.tempFillingGroup.allUnits 0))
  | retained (pc : s.pc t = .retain i kept [] j) :
    Placing s t (s.setTemp { allUnits := kept } |>.goto t (.list i 0 0))
  | droppedUnit (pc : s.pc t = .dropUnit i kept u rest j) :
    Placing s t (s.dealloc u |>.goto t (.retain i kept rest 0))
  | swapOut (pc : s.pc t = .swapOut i) (free : s.locked i = none) :
    Placing s t (s.swap i |>.goto t (.swapIn (i + 1)))

theorem WellLocked.step (w : WellLocked s) (st : Step s t s') (np : ∀ e, s'.pc t ≠ .panicked e) :
    WellLocked s' where
  shard u i := by
    have hu := w.shard u i
    have ht := w.shard t i
    by_cases h : u = t
    case pos =>
      subst h
      clear w hu
      induction st <;> simp only [*, Function.update_self, Function.update_apply, Pc.Holds] at ht ⊢ <;> grind -linarith
    case neg =>
      rw [st.pc_of_ne h]
      generalize (s.pc u).Holds i = holds at hu
      clear w np
      induction st <;> first | exact hu | grind -linarith
  temp u := by
    have hu := w.temp u
    have ht := w.temp t
    by_cases h : u = t
    case pos =>
      subst h
      clear w hu
      induction st <;> simp only [*, Function.update_self, Pc.HoldsTemp] at ht ⊢ <;> grind -linarith
    case neg =>
      rw [st.pc_of_ne h]
      generalize (s.pc u).HoldsTemp = holds at hu
      clear w np
      induction st <;> first | exact hu | grind -linarith

theorem Placing.of_kept (same : SameUnits s s') (others : ∀ v, v ≠ t → s'.pc v = s.pc v)
    (fresh : ∀ u, (s'.pc t).Fresh u ↔ (s.pc t).Fresh u)
    (uses : ∀ i u, (s'.pc t).Uses i u → (s.pc t).Uses i u ∨ u ∈ (s.groups i).allUnits)
    (retained : (s'.pc t).retained = (s.pc t).retained) : Placing s t s' := by
  refine .kept same (fun v u => ?_) (fun v i u h => ?_) fun v => ?_ <;> by_cases hv : v = t
  · exact hv ▸ fresh u
  · rw [others v hv]
  · exact hv ▸ uses i u (hv ▸ h)
  · exact .inl (others v hv ▸ h)
  · exact hv ▸ retained
  · rw [others v hv]

theorem Step.placing (st : Step s t s') : Placing s t s' := by
  have others v := st.pc_of_ne (v := v)
  induction st
  case newUnit pc _        => exact .newUnit pc
  case initNewUnit pc _    => exact .initNewUnit pc
  case droppedNewUnit pc _ => exact .droppedNewUnit pc
  case swapIn pc hi free   => exact .swapIn pc hi free
  case swappedAll pc _     => exact .swappedAll pc
  case retained pc         => exact .retained pc
  case droppedUnit pc _    => exact .droppedUnit pc
  case swapOut pc free     => exact .swapOut pc free
  case deallocateUnused | tryUnitOutOfBounds | scanNewUnitFull | unwindUnused | dropNewUnitInUse | dropUnitInUse =>
    exact .panicked ⟨rfl, rfl, fun _ => rfl, rfl⟩ (Function.update_apply _ _ _)
  case scanFull => exact .of_kept ⟨rfl, rfl, by grind -linarith, rfl⟩ others (by grind) (by grind) (by grind)
  case tryUnit  => exact .of_kept ⟨rfl, rfl, fun _ => rfl, rfl⟩ others (by grind) (by grind) (by grind)
  all_goals
    refine .of_kept ⟨rfl, rfl, fun _ => rfl, rfl⟩ others (fun _ => ?_) (fun _ _ => Or.inl ∘ ?_) ?_ <;>
      simp [*, Pc.Fresh, Pc.Uses, Pc.retained]

theorem WellPlaced.uses_step (k : WellLocked s) (w : WellPlaced s) (st : Step s t s') (h : (s'.pc v).Uses i u) :
    u ∈ (s'.groups i).allUnits := by
  have hw := w.uses v i u
  have hv := k.shard v i
  have ht := k.shard t
  cases st.placing
  case kept same _ uses _ => exact same.groups i ▸ (uses v i u h).elim hw id
  all_goals grind -linarith

-- A unit gets into a group from another one, or from the call that has made it.
theorem WellPlaced.mem_of_mem_step (w : WellPlaced s) (st : Step s t s') (h : u ∈ (s'.group g).allUnits) :
    (∃ g, u ∈ (s.group g).allUnits) ∨ ((s.pc t).Fresh u ∧ s'.pc t = .idle) := by
  have hg := fun i : Fin n => (⟨some i, ·⟩ : u ∈ (s.groups i).allUnits → ∃ g, u ∈ (s.group g).allUnits)
  have ht : u ∈ s.tempFillingGroup.allUnits → ∃ g, u ∈ (s.group g).allUnits := (⟨none, ·⟩)
  have hr us h := (w.retained t us h).left.subset (a := u)
  cases st.placing
  case kept same _ _ _ | panicked same _ => exact .inl ⟨g, same.group_eq g ▸ h⟩
  case initNewUnit | retained | swapIn | swapOut => cases g <;> grind -linarith
  all_goals exact .inl ⟨g, h⟩

theorem Step.fresh_cases (st : Step s t s') (h : (s'.pc v).Fresh u) :
    (s.pc v).Fresh u ∨ (v = t ∧ u = s.next ∧ u < s'.next ∧ s'.deallocated u = false) := by
  by_cases hv : v = t
  case neg => exact .inl (st.pc_of_ne hv ▸ h)
  case pos =>
    subst hv
    cases st.placing
    case kept fresh _ _   => exact .inl ((fresh v u).mp h)
    case panicked pc      => simp [pc, Pc.Fresh] at h
    case newUnit          => grind -linarith
    all_goals simp only [Function.update_self, Pc.Fresh] at h

theorem Step.next_le (st : Step s t s') : s.next ≤ s'.next := by
  cases st.placing <;> first
    | exact le_rfl
    | grind -linarith

theorem WellPlaced.lt_step (w : WellPlaced s) (st : Step s t s') (h : u ∈ (s'.group g).allUnits) : u < s'.next := by
  rcases w.mem_of_mem_step st h with ⟨g, hg⟩ | ⟨hf, _⟩
  · exact Nat.lt_of_lt_of_le (w.lt u g hg) st.next_le
  · exact Nat.lt_of_lt_of_le (w.fresh t u hf).left st.next_le

-- The new unit of a call stays out of the groups until the call ends.
theorem WellPlaced.fresh_kept (w : WellPlaced s) (st : Step s t s') (h : (s'.pc v).Fresh u) (hf : (s.pc v).Fresh u) :
    u < s'.next ∧ s'.deallocated u = false ∧ (∀ g, u ∉ (s'.group g).allUnits) ∧
      ∀ t', (s'.pc t').Fresh u → t' = v := by
  obtain ⟨hlt, hd, hg, hv⟩ := w.fresh v u hf
  refine ⟨Nat.lt_of_lt_of_le hlt st.next_le, ?_, fun g hu => ?_, fun t' h' => ?_⟩
  · have ht := hv t
    cases st.placing
    case droppedUnit i kept a rest j pc =>
      have ha : a ∈ s.tempFillingGroup.allUnits := (w.retained t _ (by rw [pc]; rfl)).left.subset (by simp)
      have hne : u ≠ a := fun he => hg none (he ▸ ha)
      exact (Function.update_of_ne hne ..).trans hd
    all_goals first
      | exact hd
      | grind -linarith
  · rcases w.mem_of_mem_step st hu with ⟨g, hu⟩ | ⟨ht, pc⟩
    · exact hg g hu
    · obtain rfl := hv t ht
      simp [pc, Pc.Fresh] at h
  · rcases st.fresh_cases h' with h' | ⟨_, rfl, _⟩
    · exact hv t' h'
    · exact absurd hlt (Nat.lt_irrefl _)

theorem WellPlaced.fresh_step (w : WellPlaced s) (st : Step s t s') (h : (s'.pc v).Fresh u) :
    u < s'.next ∧ s'.deallocated u = false ∧ (∀ g, u ∉ (s'.group g).allUnits) ∧
      ∀ t', (s'.pc t').Fresh u → t' = v := by
  by_cases hf : (s.pc v).Fresh u
  case pos => exact w.fresh_kept st h hf
  case neg =>
    obtain ⟨rfl, rfl, hlt, hd⟩ := (st.fresh_cases h).resolve_left hf
    have hl g := w.lt s.next g
    have hno t' (h' : (s.pc t').Fresh s.next) : False := Nat.lt_irrefl _ (w.fresh t' _ h').left
    refine ⟨hlt, hd, fun g hu => ?_, fun t' h' => ?_⟩
    · rcases w.mem_of_mem_step st hu with ⟨g, hu⟩ | ⟨ht, _⟩
      · exact Nat.lt_irrefl _ (hl g hu)
      · exact hno _ ht
    · exact ((st.fresh_cases h').resolve_left (hno t')).left

theorem WellPlaced.nodup_step (w : WellPlaced s) (st : Step s t s') : (s'.group g).allUnits.Nodup := by
  have ht : s.tempFillingGroup.allUnits.Nodup := w.nodup none
  have hs i : (s.groups i).allUnits.Nodup := w.nodup (some i)
  have hr us h := (w.retained t us h).left.nodup ht
  have hf u i h := (w.fresh t u h).right.right.left (some i)
  simp only [group] at hf
  cases st.placing
  case kept same _ _ _ | panicked same _ => exact same.group_eq g ▸ w.nodup g
  case initNewUnit | retained | swapIn | swapOut => cases g <;> grind -linarith
  all_goals exact w.nodup g

theorem WellPlaced.disjoint_step (w : WellPlaced s) (st : Step s t s') (hg : u ∈ (s'.group g).allUnits)
    (hh : u ∈ (s'.group h).allUnits) : g = h := by
  have hd i j := w.disjoint u (some i) (some j)
  have ht i := w.disjoint u (some i) none
  have hr us h := (w.retained t us h).left.subset (a := u)
  have hf h i := (w.fresh t u h).right.right.left (some i)
  have hn h := (w.fresh t u h).right.right.left none
  simp only [group] at hd ht hf hn
  cases st.placing
  case kept same _ _ _ | panicked same _ =>
    rw [same.group_eq] at hg hh
    exact w.disjoint u g h hg hh
  case initNewUnit | retained | swapIn | swapOut => cases g <;> cases h <;> grind -linarith
  all_goals exact w.disjoint u g h hg hh

omit [DecidableEq T] in
-- While the thread that holds the temporary group's lock is not in `retain_mut`, nobody is.
theorem WellPlaced.temp_of_holdsTemp (k : WellLocked s) (w : WellPlaced s) (h : (s.pc t).HoldsTemp)
    (hr : (s.pc t).retained = none) (hu : u ∈ s.tempFillingGroup.allUnits) : s.deallocated u = false := by
  refine w.temp (fun v => ?_) u hu
  by_contra hv
  obtain ⟨us, hv⟩ := Option.ne_none_iff_exists'.mp hv
  have ht := (k.temp t).mp h
  rw [(k.temp v).mp (Pc.holdsTemp_of_retained hv)] at ht
  cases ht
  simp [hr] at hv

theorem WellPlaced.shard_step (k : WellLocked s) (w : WellPlaced s) (st : Step s t s')
    (h : u ∈ (s'.groups i).allUnits) : s'.deallocated u = false := by
  have hs i := w.shard u i
  have ht := w.temp_of_holdsTemp (t := t) (u := u) k
  have hr us h := (w.retained t us h).left.subset (a := u)
  have hd i := w.disjoint u (some i) none
  have hl i := w.lt u (some i)
  have hm := w.lt u none
  have hf u h := (w.fresh t u h).right.left
  have hg h i := (w.fresh t u h).right.right.left (some i)
  simp only [group] at hd hl hm hg
  cases st.placing <;> grind -linarith

theorem WellPlaced.retained_step (k : WellLocked s) (w : WellPlaced s) (st : Step s t s')
    (h : (s'.pc v).retained = some us) : us.Sublist s'.tempFillingGroup.allUnits ∧
      ∀ u ∈ s'.tempFillingGroup.allUnits, u ∈ us ↔ s'.deallocated u = false := by
  have hr := w.retained v
  have hl u := w.lt u none
  have hf u h := (w.fresh t u h).right.right.left none
  simp only [group] at hl hf
  by_cases hv : v = t
  case pos =>
    subst hv
    have hs u i := w.shard u i
    have hw u := w.temp_of_holdsTemp (t := v) (u := u) k
    have hn : s.tempFillingGroup.allUnits.Nodup := w.nodup none
    cases st.placing
    case droppedUnit i kept u rest j pc =>
      have ⟨hsub, hmem⟩ := hr (kept ++ u :: rest) (by simp [pc, Pc.retained])
      have hrest : us = kept ++ rest := by grind -linarith
      have hdrop : us.Sublist (kept ++ u :: rest) :=
        hrest ▸ (List.Sublist.refl kept).append (List.sublist_cons_self u rest)
      have hnd := hsub.nodup hn
      exact ⟨hdrop.trans hsub, by grind -linarith⟩
    case kept same _ _ retained =>
      rw [same.temp, same.deallocated]
      exact hr us (retained v ▸ h)
    case panicked pc => simp [pc, Pc.retained] at h
    all_goals grind -linarith
  case neg =>
    rw [st.pc_of_ne hv] at h
    have ht := k.temp t
    have hv := k.temp v
    cases st.placing
    case kept same _ _ _ | panicked same _ =>
      rw [same.temp, same.deallocated]
      exact hr us h
    all_goals first
      | exact hr us h
      | grind -linarith

theorem WellPlaced.mem_step (w : WellPlaced s) (st : Step s t s') (h : u ∈ (s.group g).allUnits)
    (hd : s'.deallocated u = false) : ∃ g, u ∈ (s'.group g).allUnits := by
  by_contra hn
  simp only [not_exists] at hn
  have ht := hn none
  have hs i := hn (some i)
  have hr us h := (w.retained t us h).right u
  simp only [group] at ht hs
  clear hn
  cases g
  case none =>
    cases st.placing
    case swapIn j _ hj _ => have := hs ⟨j, hj⟩; grind -linarith
    case swapOut j _ _   => have := hs j; grind -linarith
    all_goals grind -linarith
  case some i =>
    have hi := hs i
    clear hs
    cases st.placing <;> grind -linarith

theorem WellPlaced.complete_step (w : WellPlaced s) (st : Step s t s') (np : ∀ e, s'.pc t ≠ .panicked e)
    (hu : u < s'.next) (hd : s'.deallocated u = false) :
    (∃ g, u ∈ (s'.group g).allUnits) ∨ ∃ t, (s'.pc t).Fresh u := by
  by_cases hf : ∃ v, (s.pc v).Fresh u
  case pos =>
    obtain ⟨v, hf⟩ := hf
    by_cases hv : v = t
    case neg => exact .inr ⟨v, by rwa [st.pc_of_ne hv]⟩
    case pos =>
      subst hv
      cases st.placing
      case kept fresh _ _        => exact .inr ⟨v, (fresh v u).mpr hf⟩
      case panicked pc           => exact absurd ((pc v).trans (if_pos rfl)) (np _)
      case initNewUnit i _ _ _ _ => exact .inl ⟨some i, by grind -linarith⟩
      all_goals simp only [‹s.pc v = _›, Pc.Fresh] at hf
      case droppedNewUnit => simp [hf] at hd
  case neg =>
    by_cases hn : u = s.next
    case pos =>
      subst hn
      cases st.placing
      case kept same _ _ _  => exact absurd hu (same.next ▸ Nat.lt_irrefl _)
      case panicked same pc => exact absurd hu (same.next ▸ Nat.lt_irrefl _)
      case newUnit          => exact .inr ⟨t, by simp [Pc.Fresh]⟩
      all_goals exact absurd hu (Nat.lt_irrefl _)
    case neg =>
      have hlt : u < s.next := by cases st.placing <;> first | exact hu | grind -linarith
      have hdo : s.deallocated u = false := by cases st.placing <;> first | exact hd | grind -linarith
      obtain ⟨g, hg⟩ := (w.complete u hlt hdo).resolve_right hf
      exact .inl (w.mem_step st hg hd)

theorem WellPlaced.temp_step (k : WellLocked s) (w : WellPlaced s) (st : Step s t s')
    (np : ∀ e, s'.pc t ≠ .panicked e) (h : ∀ t, (s'.pc t).retained = none)
    (hu : u ∈ s'.tempFillingGroup.allUnits) : s'.deallocated u = false := by
  have hf u h := (w.fresh t u h).right.right.left none
  have hl := w.lt u none
  simp only [group] at hf hl
  by_cases ht : (s.pc t).HoldsTemp
  case pos =>
    have hs i := w.shard u i
    have hr := w.retained t
    have hw := w.temp_of_holdsTemp (t := t) (u := u) k ht
    have := h t
    clear h
    cases st.placing <;> grind -linarith
  case neg =>
    have hw := w.temp fun v => by
      by_cases hv : v = t
      case pos => subst hv; exact Option.eq_none_iff_forall_ne_some.mpr fun us h => ht (Pc.holdsTemp_of_retained h)
      case neg => rw [← st.pc_of_ne hv]; exact h v
    have hu' := hw u
    clear h hw
    cases st.placing
    case kept same _ _ _ | panicked same _ => exact same.deallocated ▸ hu' (same.temp ▸ hu)
    all_goals first
      | exact hu' hu
      | grind -linarith

theorem WellPlaced.step (k : WellLocked s) (w : WellPlaced s) (st : Step s t s')
    (np : ∀ e, s'.pc t ≠ .panicked e) : WellPlaced s' where
  nodup _         := w.nodup_step st
  disjoint _ _ _  := w.disjoint_step st
  lt _ _          := w.lt_step st
  fresh _ _       := w.fresh_step st
  uses _ _ _      := w.uses_step k st
  shard _ _       := w.shard_step k st
  temp h _        := w.temp_step k st np h
  retained _ _    := w.retained_step k st
  complete _      := w.complete_step st np

end State
end ShardedAlloc
