import SdarcModel.Regions.Basic
import SdarcModel.Execution.Theorems.Reclamation.BackRef

namespace Sdarc

namespace Memory

variable {n : Nat} {T C : Type} [DecidableEq T] [Fintype T] [DecidableEq C] {m m' : Memory n T C} {t : Thread T}

theorem next_of_idle {a : Act n C} (ha : ∀ c, a ≠ .new c) (pc : m.pc t = .idle) (h : m.threadStep t a = some m') :
    m'.next = m.next := by
  cases a <;>
    simp only [threadStep, run, start, pc, if_true, Option.ite_none_right_eq_some, Option.some.injEq, reduceCtorEq] at h
  case new c => exact absurd rfl (ha c)
  case load => rw [← h]
  case store x new =>
    obtain ⟨_, rfl⟩ := h
    cases m.cell x <;> rfl
  case compareAndSet x old new =>
    obtain ⟨_, rfl⟩ := h
    simp only [compareExchange]
    split <;> [split; skip] <;> rfl
  all_goals
    obtain ⟨_, rfl⟩ := h
    rfl

-- Only `Sdarc::new` called by the user makes a payload.
theorem isUser_of_threadStep {a : Act n C} (ha : ∀ c, a ≠ .new c) (h : m.threadStep t a = some m') {p : Ptr}
    (hp : p < m'.next) (hu : m'.isUser p) : p < m.next ∧ m.isUser p := by
  have st := Step.of_threadStep h
  induction st
  case new pc _ =>
    have := next_of_idle ha pc h
    grind
  all_goals grind

omit [Fintype T] [DecidableEq C] in
theorem Effect.isUser_of (e : Effect m m') {p : Ptr} (h : m'.isUser p) : m.isUser p := by
  cases e <;> grind

end Memory

namespace State

variable {n : Nat} {T C : Type} [DecidableEq T] [DecidableEq C] {s s' : State n T C} {p : Ptr}

omit [DecidableEq C] in
theorem CollectorStep.dropsInner (st : CollectorStep s s') (h : s'.col.pc.dropsInner p = true) :
    s.col.pc.dropsInner p = true ∨ s.col.pc.Removed p := by
  induction st <;> simp_all [CollectorPc.dropsInner, CollectorPc.Removed]

omit [DecidableEq C] in
-- What is destroyed is not dropped again.
theorem Destroyed.collector (w : s.WellTracked) (d : s.Destroyed p) (st : CollectorStep s s') : s'.Destroyed p := by
  obtain ⟨hf, hd⟩ := d
  have hr : ¬s.col.pc.Removed p := by
    intro hr
    have hi : 1 < s.inRemoved p := by
      rw [inRemoved, if_pos hr]
      omega
    by_cases hc : s.mem.Completed p
    case pos => have := w.once p hc; omega
    case neg => have := w.never p hc; omega
  refine ⟨?_, eq_false_of_ne_true fun h => (st.dropsInner h).elim (by simp [hd]) hr⟩
  induction st <;> grind

end State

namespace Regions.State

variable {n : Nat} {T C R : Type} [DecidableEq T] [Fintype T] [DecidableEq C] [Fintype C] [DecidableEq R]
  {borrows : Ptr → Option R} {s s' : State n T C R} {s₁ : Sdarc.State n T C}

-- No payload outlives the region that it borrows from.
structure Outlived (borrows : Ptr → Option R) (s : State n T C R) : Prop where
  reachable : (Sdarc.system n T C).Reachable s.sdarc
  ended     : ∀ p r, p < s.sdarc.mem.next → s.sdarc.mem.isUser p → borrows p = some r → s.ended r = true →
    s.sdarc.Destroyed p

namespace Outlived

omit [Fintype C] [DecidableEq R] in
theorem initial (h : Initial s) : Outlived borrows s where
  reachable := .init h.sdarc
  ended     := by simp [h.ended]

omit [Fintype C] in
-- A payload made by the step borrows from a region that lasts.
theorem isUser_of_ended (may : mayAllocate borrows s (.thread t a)) (h : s.sdarc.mem.threadStep t a = some m)
    (hp : p < m.next) (hu : m.isUser p) (hb : borrows p = some r) (he : s.ended r = true) :
    p < s.sdarc.mem.next ∧ s.sdarc.mem.isUser p := by
  by_cases ha : ∃ c, a = .new c
  case neg => exact Memory.isUser_of_threadStep (not_exists.mp ha) h hp hu
  case pos =>
    obtain ⟨c, rfl⟩ := ha
    have hn : p ≠ s.sdarc.mem.next := by
      rintro rfl
      simp [mayAllocate, hb, he] at may
    simp only [Memory.threadStep, Memory.start, Option.ite_none_right_eq_some, Option.some.injEq] at h
    obtain ⟨-, -, rfl⟩ := h
    grind

omit [Fintype C] in
theorem thread (o : Outlived borrows s) (may : mayAllocate borrows s (.thread t a))
    (st : s.sdarc.next (.thread t a) = some s₁) : Outlived borrows { s with sdarc := s₁ } where
  reachable := o.reachable.step st
  ended p r hp hu hb he := by
    simp only [Sdarc.State.next, Option.ite_none_left_eq_some, Option.map_eq_some_iff] at st
    obtain ⟨-, m, hm, rfl⟩ := st
    obtain ⟨hp', hu'⟩ := isUser_of_ended may hm hp hu hb he
    have d := o.ended p r hp' hu' hb he
    simpa only [Sdarc.State.Destroyed, (Memory.Step.of_threadStep hm).freed_eq, Sdarc.State.notify_pc] using d

omit [Fintype C] [DecidableEq R] in
theorem collector (o : Outlived borrows s) (st : s.sdarc.next .collector = some s₁) :
    Outlived borrows { s with sdarc := s₁ } where
  reachable := o.reachable.step st
  ended p r hp hu hb he := by
    have w := Sdarc.State.wellFormed o.reachable
    cases Sdarc.State.Step.of_next st
    case collector idle cs =>
      have hp' : p < s.sdarc.mem.next := cs.next_eq ▸ hp
      have hu' : s.sdarc.mem.isUser p := (cs.effect w idle).isUser_of hu
      exact (o.ended p r hp' hu' hb he).collector w.tracked cs

theorem step (o : Outlived borrows s) (late : s.EndsLate borrows l) (st : next borrows s l = some s') :
    Outlived borrows s' := by
  cases l
  case run l =>
    simp only [next, Option.ite_none_right_eq_some, Option.map_eq_some_iff] at st
    obtain ⟨may, s₁, st, rfl⟩ := st
    cases l
    case thread    => exact o.thread may st
    case collector => exact o.collector st
  case endRegion r =>
    simp only [next, Option.ite_none_right_eq_some, Option.some.injEq] at st
    obtain ⟨-, rfl⟩ := st
    refine ⟨o.reachable, fun p q hp hu hb he => ?_⟩
    by_cases hq : q = r
    case pos => exact late p hp ⟨hu, hq ▸ hb⟩
    case neg => exact o.ended p q hp hu hb (by simpa [hq] using he)

omit [Fintype C] [DecidableEq R] in
theorem respected (o : Outlived borrows s) : s.Respected borrows := by
  intro a p r pc hu hb
  have hf := Sdarc.State.freed_of_dropData o.reachable a p pc
  have hp := (Sdarc.State.wellFormed o.reachable).mem.referenced.freed p hf
  refine eq_false_of_ne_true fun he => ?_
  simpa [pc, CollectorPc.dropsInner] using (o.ended p r hp hu hb he).right

end Outlived

-- An object is made and dropped in the region that its payload borrows from.
def scopes : List (Label 1 Bool Unit Unit) :=
  (.thread (some true) (.new 0) :: runs true 2 ++ .thread (some true) (.drop 0) :: runs true 5).map .run

-- Two passes of the collector, up to the destructor of the payload.
def collects : List (Label 1 Bool Unit Unit) :=
  .replicate 27 (.run .collector)

def empty : State 1 Bool Unit Unit where
  sdarc   := .empty
  ended _ := false

def borrowing (_ : Ptr) : Option Unit :=
  some ()

def expired : State 1 Bool Unit Unit :=
  (System.exec (next borrowing) empty (scopes ++ .endRegion () :: collects)).getD empty

-- The region ends once the collector is done.
def survives : List (Label 1 Bool Unit Unit) :=
  scopes ++ collects ++ [.run .collector, .endRegion ()]

def survived : State 1 Bool Unit Unit :=
  (System.exec (next borrowing) empty survives).getD empty

end Regions.State
end Sdarc
