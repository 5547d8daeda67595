import SdarcModel.ShardedAlloc.Theorems.Units

namespace ShardedAlloc

namespace Pc

variable {n : Nat}

-- The call has set the usage flag of the slot and not yet given it out or back.
def Claims : Pc n → ShardedDataPtr → Prop
  | .init _ u _ slot _, p | .unwind _ u _ slot, p => p = ⟨u, slot⟩
  | _, _ => False

-- The call relies on the unit having no used slot.
def Empty : Pc n → AllocUnit → Prop
  | .scan _ u fresh j, a => fresh = true ∧ j = 0 ∧ u = a
  | .dropNewUnit _ u _, a | .dropUnit _ _ u _ _, a => u = a
  | _, _ => False

attribute [grind] Claims Empty

@[grind →]
theorem Claims.fresh_or_uses {pc : Pc n} (h : pc.Claims p) : pc.Fresh p.unit ∨ ∃ i, pc.Uses i p.unit := by
  cases pc <;> simp only [Claims] at h
  case init fresh _ _   => subst h; cases fresh <;> simp [Fresh, Uses]
  case unwind fresh _   => subst h; cases fresh <;> simp [Fresh, Uses]

theorem Empty.fresh_or_retained {pc : Pc n} (h : pc.Empty u) :
    pc.Fresh u ∨ ∃ us, pc.retained = some us ∧ u ∈ us := by
  cases pc <;> simp only [Empty] at h
  case scan        => exact .inl ⟨h.left, h.right.right⟩
  case dropNewUnit => exact .inl h
  case dropUnit    => exact .inr ⟨_, rfl, by simp [h]⟩

end Pc

@[grind →]
theorem AllocUnitGroup.mem_removeFirstIndex {g : AllocUnitGroup}
    (h : k ∈ g.removeFirstIndex.indexesOfUnitsToCheckForAllocation) :
    k ∈ g.indexesOfUnitsToCheckForAllocation := by
  cases hg : g.indexesOfUnitsToCheckForAllocation
  case nil       => simp [removeFirstIndex, hg] at h
  case cons k ks => exact hg ▸ (removeFirstIndex_perm hg).mem_iff.mpr (List.mem_cons_of_mem _ h)

namespace State

variable {n : Nat} {T : Type} {s s' : State n T} {t : T}

-- The usage flags are set for the slots given out and for those a call is about to.
structure WellOwned (s : State n T) : Prop where
  used   : ∀ p, s.usageFlag p = 1 ↔ p ∈ s.live ∨ ∃ t, (s.pc t).Claims p
  nodup  : s.live.Nodup
  claims : ∀ t p, (s.pc t).Claims p → p ∉ s.live ∧ ∀ v, (s.pc v).Claims p → v = t
  live   : ∀ p ∈ s.live, s.deallocated p.unit = false ∧ ∃ g, p.unit ∈ (s.group g).allUnits

-- What the calls in progress know of the flags they have read, and of the units they have counted.
structure WellScanned (s : State n T) : Prop where
  first  : ∀ t i u j, s.pc t = .scan i u true j → j = 0
  empty  : ∀ t u, (s.pc t).Empty u → ∀ j, s.usageFlag ⟨u, j⟩ = 0
  seen   : ∀ t i kept u rest j, s.pc t = .retain i kept (u :: rest) j →
    ∀ k, k.val < j → s.usageFlag ⟨u, k⟩ = 0
  bounds : ∀ g, ∀ k ∈ (s.group g).indexesOfUnitsToCheckForAllocation, k < (s.group g).allUnits.length

theorem WellOwned.initial (h : s.Initial) : WellOwned s := by
  constructor <;> simp [h.usageFlag, h.live, h.pc, Pc.Claims]

theorem WellScanned.initial (h : s.Initial) : WellScanned s where
  first  := by simp [h.pc]
  empty  := by simp [h.pc, Pc.Empty]
  seen   := by simp [h.pc]
  bounds g := by cases g <;> simp [group, h.groups, h.temp]

variable [DecidableEq T]

-- No assertion, `expect` or index of the allocator fails.
theorem Step.not_panicked (o : WellOwned s) (sc : WellScanned s) (live : ∀ e, s.pc t ≠ .panicked e)
    (st : Step s t s') (e : AllocPanic) : s'.pc t ≠ .panicked e := by
  have hu := o.used
  induction st
  case deallocateUnused p _ hp unused => exact absurd ((hu p).mpr (.inl hp)) unused
  case tryUnitOutOfBounds i k ks pc first unit =>
    have := sc.bounds (some i) k (by simp [group, first])
    simp only [List.getElem?_eq_none_iff] at unit
    grind -linarith
  case scanNewUnitFull i u j pc hj =>
    have := sc.first t i u j pc
    exact absurd (this ▸ by decide) hj
  case unwindUnused i u fresh slot pc unused =>
    exact absurd ((hu ⟨u, slot⟩).mpr (.inr ⟨t, by simp [pc, Pc.Claims]⟩)) unused
  case dropNewUnitInUse i u j pc hj flag =>
    have := sc.empty t u (by simp [pc, Pc.Empty]) ⟨j, hj⟩
    grind -linarith
  case dropUnitInUse i kept u rest j pc hj flag =>
    have := sc.empty t u (by simp [pc, Pc.Empty]) ⟨j, hj⟩
    grind -linarith
  case deallocate => exact live e
  all_goals simp

omit [DecidableEq T] in
theorem WellPlaced.claims_lt (w : WellPlaced s) (h : (s.pc t).Claims p) : p.unit < s.next := by
  rcases h.fresh_or_uses with h | ⟨i, h⟩
  · exact (w.fresh t _ h).left
  · exact w.lt _ (some i) (w.uses t i _ h)

-- Only a search for an unused slot makes a call claim one.
theorem Step.claims_cases (st : Step s t s') (h : (s'.pc v).Claims p) :
    (s.pc v).Claims p ∨ (v = t ∧ s.usageFlag p = 0) := by
  by_cases hv : v = t
  case neg => exact .inl (st.pc_of_ne hv ▸ h)
  case pos =>
    subst hv
    induction st <;> simp only [‹s.pc v = _›, Function.update_self, Pc.Claims] at h ⊢ <;> grind -linarith

-- A slot is given out by the call that has claimed it.
theorem Step.live_cases (st : Step s t s') (h : p ∈ s'.live) :
    p ∈ s.live ∨ ((s.pc t).Claims p ∧ s'.pc t = .idle) := by
  induction st
  case deallocate | deallocateUnused => exact .inl (List.mem_of_mem_erase h)
  case initNewUnit | initUnit        => grind -linarith
  all_goals exact .inl h

namespace WellOwned

theorem nodup_step (o : WellOwned s) (st : Step s t s') : s'.live.Nodup := by
  have hn := o.nodup
  have hc p h := (o.claims t p h).left
  induction st <;> first
    | exact hn
    | grind -linarith

theorem claims_step (o : WellOwned s) (st : Step s t s') (h : (s'.pc v).Claims p) :
    p ∉ s'.live ∧ ∀ v', (s'.pc v').Claims p → v' = v := by
  have hu := o.used p
  have hv := o.claims v p
  have ht := o.claims t p
  have hc := st.claims_cases h
  constructor
  case left =>
    intro hl
    rcases st.live_cases hl with hl | ⟨h', pc⟩
    · grind -linarith
    · have hvt : v = t := by grind -linarith
      subst hvt
      simp [pc, Pc.Claims] at h
  case right =>
    intro v' h'
    have := st.claims_cases h'
    grind -linarith

omit [DecidableEq T] in
theorem claimed_iff (t : T) :
    (∃ v, (s.pc v).Claims p) ↔ (s.pc t).Claims p ∨ ∃ v, v ≠ t ∧ (s.pc v).Claims p := by
  constructor
  case mp  => rintro ⟨v, h⟩; by_cases hv : v = t <;> grind -linarith
  case mpr => rintro (h | ⟨v, _, h⟩) <;> exact ⟨_, h⟩

theorem used_step (w : WellPlaced s) (o : WellOwned s) (st : Step s t s') :
    s'.usageFlag p = 1 ↔ p ∈ s'.live ∨ ∃ v, (s'.pc v).Claims p := by
  have ho : (∃ v, v ≠ t ∧ (s'.pc v).Claims p) ↔ ∃ v, v ≠ t ∧ (s.pc v).Claims p :=
    exists_congr fun v => and_congr_right fun hv => by rw [st.pc_of_ne hv]
  have hu := o.used p
  have hn := o.nodup
  have hl : p ∈ s.live → p.unit < s.next := fun h => have ⟨g, hg⟩ := (o.live p h).right; w.lt _ g hg
  have hc := o.claims t p
  have hlt : (∃ v, v ≠ t ∧ (s.pc v).Claims p) → p.unit < s.next := fun ⟨v, _, h⟩ => w.claims_lt h
  have hoc : (∃ v, v ≠ t ∧ (s.pc v).Claims p) → p ∉ s.live ∧ ¬(s.pc t).Claims p := fun ⟨v, hv, h⟩ =>
    ⟨(o.claims v p h).left, fun h' => hv ((o.claims t p h').right v h)⟩
  rw [claimed_iff t] at hu ⊢
  rw [ho]
  generalize (∃ v, v ≠ t ∧ (s.pc v).Claims p) = others at *
  clear ho
  induction st <;> simp only [‹s.pc t = _›, Function.update_self, Pc.Claims] at hu hc hoc ⊢ <;> first
    | exact hu
    | grind -linarith

theorem live_step (w : WellPlaced s) (o : WellOwned s) (sc : WellScanned s) (st : Step s t s')
    (h : p ∈ s'.live) : s'.deallocated p.unit = false ∧ ∃ g, p.unit ∈ (s'.group g).allUnits := by
  have hf := (w.fresh t p.unit · |>.right.right.left)
  have he h : s.usageFlag p = 0 := sc.empty t p.unit h p.slot
  by_cases hp : p ∈ s.live
  case pos =>
    obtain ⟨hd, g, hg⟩ := o.live p hp
    have hu := (o.used p).mpr (.inl hp)
    have hlt := w.lt _ g hg
    have hd' : s'.deallocated p.unit = false := by cases st.placing <;> grind -linarith
    exact ⟨hd', w.mem_step st hg hd'⟩
  case neg =>
    induction st
    case initNewUnit i u slot k pc hk =>
      have hd := (w.fresh t u (by simp [pc, Pc.Fresh])).right.left
      exact ⟨by grind -linarith, some i, by grind -linarith⟩
    case initUnit i u slot k pc hk =>
      have hu := w.uses t i u (by simp [pc, Pc.Uses])
      have hd := w.shard u i hu
      exact ⟨by grind -linarith, some i, by grind -linarith⟩
    all_goals first
      | exact absurd h hp
      | grind -linarith

theorem step (w : WellPlaced s) (o : WellOwned s) (sc : WellScanned s) (st : Step s t s') : WellOwned s' where
  used _     := o.used_step w st
  nodup      := o.nodup_step st
  claims _ _ := o.claims_step st
  live _     := o.live_step w sc st

end WellOwned

namespace WellScanned

-- Only an allocation sets a flag, of its new unit or of a unit in its shard's group.
theorem flag_step (st : Step s t s') (hp : s.usageFlag p = 0) :
    s'.usageFlag p = 0 ∨ (s.pc t).Fresh p.unit ∨ ∃ i, (s.pc t).Uses i p.unit := by
  by_cases h : s'.usageFlag p = 0
  case pos => exact .inl h
  case neg =>
    right
    induction st
    case scanUnused i u fresh j pc hj flag =>
      have hu : p.unit = u := by grind -linarith
      subst hu
      cases fresh
      case true  => exact .inl (by simp [pc, Pc.Fresh])
      case false => exact .inr ⟨i, by simp [pc, Pc.Uses]⟩
    all_goals first
      | exact absurd hp h
      | grind -linarith

-- A slot that has been seen unused in the temporary group stays so until its unit is swapped out.
theorem flag_step_of_temp (w : WellPlaced s) (st : Step s t s') (hu : p.unit ∈ s.tempFillingGroup.allUnits)
    (hp : s.usageFlag p = 0) : s'.usageFlag p = 0 := by
  rcases flag_step st hp with h | h | ⟨i, h⟩
  · exact h
  · exact absurd hu ((w.fresh t _ h).right.right.left none)
  · cases w.disjoint _ (some i) none (w.uses t i _ h) hu

omit [DecidableEq T] in
theorem flag_of_fresh (w : WellPlaced s) (o : WellOwned s) (v : s.FlagsValid) (h : (s.pc t).Fresh p.unit)
    (hc : ¬(s.pc t).Claims p) : s.usageFlag p = 0 := by
  obtain ⟨_, _, hg, ht⟩ := w.fresh t p.unit h
  rcases v p with h₀ | h₁
  · exact h₀
  · rcases (o.used p).mp h₁ with hl | ⟨t', h'⟩
    · obtain ⟨g, hl⟩ := (o.live p hl).right
      exact absurd hl (hg g)
    · rcases h'.fresh_or_uses with hf | ⟨i, hi⟩
      · exact absurd (ht t' hf ▸ h') hc
      · exact absurd (w.uses t' i _ hi) (hg (some i))

theorem empty_step (sc : WellScanned s) (w : WellPlaced s) (o : WellOwned s) (v : s.FlagsValid)
    (st : Step s t s') (h : (s'.pc x).Empty u) : s'.usageFlag ⟨u, j⟩ = 0 := by
  by_cases hx : x = t
  case neg =>
    rw [st.pc_of_ne hx] at h
    have he := sc.empty x u h j
    rcases h.fresh_or_retained with hf | ⟨us, hr, hu⟩
    · rcases flag_step st he with h' | h' | ⟨i, h'⟩
      · exact h'
      · exact absurd ((w.fresh x u hf).right.right.right t h').symm hx
      · exact absurd (w.uses t i u h') ((w.fresh x u hf).right.right.left (some i))
    · exact flag_step_of_temp w st ((w.retained x us hr).left.subset hu) he
  case pos =>
    subst hx
    have he := sc.empty x u
    have hs := sc.seen x
    induction st
    case unwindNewUnit i a slot pc used =>
      have hf : (s.pc x).Fresh a := by simp [pc, Pc.Fresh]
      have := flag_of_fresh (p := ⟨a, j⟩) w o v hf
      grind -linarith
    case retainNot i kept a rest k pc hk =>
      have := hs i kept a rest k pc j
      grind -linarith
    all_goals simp only [‹s.pc x = _›, Function.update_self, Pc.Empty] at h he <;> grind -linarith

theorem seen_step (sc : WellScanned s) (w : WellPlaced s) (st : Step s t s')
    (h : s'.pc v = .retain i kept (u :: rest) j) (k : Fin slotCountPerUnit) (hk : k.val < j) :
    s'.usageFlag ⟨u, k⟩ = 0 := by
  by_cases hv : v = t
  case neg =>
    rw [st.pc_of_ne hv] at h
    have hr := (w.retained v _ (by simp [h, Pc.retained]; rfl)).left.subset (a := u) (by simp)
    exact flag_step_of_temp w st hr (sc.seen v i kept u rest j h k hk)
  case pos =>
    subst hv
    have := sc.seen v
    induction st
    case retainUnused i kept u rest j pc hj flag =>
      have := this i kept u rest j pc k
      have : k.val = j ∨ k.val < j := by grind -linarith
      grind -linarith
    all_goals first
      | cases (Function.update_self ..).symm.trans h
        done
      | grind -linarith

theorem bounds_step (sc : WellScanned s) (st : Step s t s')
    (h : k ∈ (s'.group g).indexesOfUnitsToCheckForAllocation) : k < (s'.group g).allUnits.length := by
  by_cases hg : s'.group g = s.group g
  case pos => rw [hg] at h ⊢; exact sc.bounds g k h
  case neg =>
    have hs i := sc.bounds (some i)
    have ht := sc.bounds none
    simp only [group] at hs ht
    cases g <;> induction st <;> first | exact absurd rfl hg | grind -linarith

theorem first_step (sc : WellScanned s) (st : Step s t s') (h : s'.pc v = .scan i u true j) : j = 0 := by
  by_cases hv : v = t
  case neg => exact sc.first v i u j (st.pc_of_ne hv ▸ h)
  case pos =>
    subst hv
    have hs := sc.first v i u
    have he := sc.empty v u
    induction st <;> first
      | cases (Function.update_self ..).symm.trans h
        done
      | grind -linarith

theorem step (w : WellPlaced s) (o : WellOwned s) (sc : WellScanned s) (v : s.FlagsValid) (st : Step s t s') :
    WellScanned s' where
  first _ _ _ _        := sc.first_step st
  empty _ _ h _        := sc.empty_step w o v st h
  seen _ _ _ _ _ _ h k := sc.seen_step w st h k
  bounds _ _           := sc.bounds_step st

end WellScanned

end State
end ShardedAlloc
