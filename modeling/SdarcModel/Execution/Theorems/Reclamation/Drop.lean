import SdarcModel.Execution.Theorems.Reclamation.Basic

namespace Sdarc

-- `Sdarc::drop` has yet to make some of its accesses for `p`.
def Pc.dropping (pc : Pc n C) (p : Ptr) : Bool :=
  match pc with
  | .dropRead q | .dropLoad q _ _ | .dropCas q _ _ _ | .dropNotify q => q == p
  | _ => false

theorem Pc.mentions_of_dropping {pc : Pc n C} (h : pc.dropping p = true) : pc.Mentions p := by
  cases pc <;> simp_all [Pc.dropping, Pc.Mentions]

namespace State

variable {n : Nat} {T C : Type} {s s' : State n T C} {p : Ptr}

-- No drop is going to access what has been freed.
def DropSafe (s : State n T C) : Prop :=
  ∀ t p, (s.mem.pc t).dropping p = true → s.mem.freed p = 0

-- When the step frees an object, every drop that has decremented it has also fetched its counters for
-- `on_sdarc_drop`.
def Notified (s : State n T C) : Label n T C → Prop
  | .thread _ _ => True
  | .collector  =>
    match s.col.pc with
    | .dropInner _ p => ∀ t, s.mem.pc t ≠ .dropNotify p
    | _              => True

instance [Fintype T] [DecidableEq C] (s : State n T C) (l : Label n T C) : Decidable (s.Notified l) :=
  match l with
  | .thread _ _ => .isTrue trivial
  | .collector  =>
    match h : s.col.pc with
    | .dropInner _ p => decidable_of_iff (∀ t, s.mem.pc t ≠ .dropNotify p) (by simp [Notified, h])
    | .parked | .take _ | .insert .. | .spin .. | .spinAgain .. | .next _ | .readSum .. | .clearTags ..
    | .reCheck .. | .clearWeak .. | .swapBackRef .. | .free _ | .dropWeak .. | .dropData .. | .collect _
    | .panicked _ => .isTrue (by simp [Notified, h])

theorem DropSafe.initial (h : s.Initial) : DropSafe s := by
  simp [DropSafe, h.mem.freed]

variable [Fintype T] [Fintype C]

theorem Sound.dropSafe_iff (so : Sound s) :
    DropSafe s ↔ ∀ t p, s.mem.pc t = .dropNotify p → s.mem.freed p = 0 := by
  constructor
  case mp  => exact fun d t p pc => d t p (by simp [pc, Pc.dropping])
  case mpr =>
    intro d t p h
    by_cases pc : s.mem.pc t = .dropNotify p
    case pos => exact d t p pc
    case neg =>
      refine so.unfreed_of_mentions (t := t) ?_ pc
      cases hp : s.mem.pc t <;> simp_all [Pc.dropping, Pc.Mentions]

variable [DecidableEq T] [DecidableEq C]

theorem DropSafe.step (so : Sound s) (so' : Sound s') (d : DropSafe s) (st : Step s l s') (nt : s.Notified l) :
    DropSafe s' := by
  refine so'.dropSafe_iff.mpr fun t p pc' => ?_
  have hd := so.dropSafe_iff.mp d t p
  induction st
  case thread u m a _ st =>
    have hm := so.unfreed_of_mentions (t := t) (p := p)
    rw [st.freed_eq]
    induction st <;> grind
  case collector idle st =>
    induction st
    case dropInner a q pc =>
      simp only [Notified, pc] at nt
      have := nt t
      grind
    all_goals grind

omit [Fintype T] [Fintype C] in
-- The drop that is late reads what the step frees.
theorem not_dropSafe (st : Step s l s') (nt : ¬s.Notified l) : ¬DropSafe s' := by
  induction st
  case thread => exact absurd trivial nt
  case collector idle st =>
    simp only [Notified] at nt
    split at nt
    case h_2 => exact absurd trivial nt
    case h_1 a p pc =>
      simp only [not_forall, not_not] at nt
      have ⟨t, ht⟩ := nt
      intro d
      induction st
      case dropInner b q pc' =>
        obtain ⟨rfl, rfl⟩ : a = b ∧ p = q := by simpa [pc] using pc'
        simpa using d t p (by simp [ht, Pc.dropping])
      all_goals simp_all

omit [DecidableEq T] [DecidableEq C] in
-- `Sdarc::drop` never accesses a freed object in those runs in which it is never late, and only in those.
theorem drop_unfreed_iff [DecidableEq T] [DecidableEq C] (h : s.Initial) (r : (systemNoCas n T C).Run s tr s') :
    (∀ e ∈ tr, e.1.Notified e.2) ↔ (∀ e ∈ tr, e.1.DropSafe) ∧ s'.DropSafe := by
  refine r.forall_iff (I := (systemNoCas n T C).Reachable) (.init h) (DropSafe.initial h)
    (fun _ _ _ => .step) fun s₁ l s₂ hr d st => ?_
  have so := sound (funded_of_noCas hr)
  have so' := sound (funded_of_noCas (hr.step st))
  constructor
  case mp  => exact fun d' => by_contra fun nt => not_dropSafe (.of_next st.left) nt d'
  case mpr => exact d.step so so' (.of_next st.left)

theorem drop_unfreed_collected : collected.DropSafe :=
  have he : System.exec next empty collects = some collected := rfl
  (drop_unfreed_iff empty_initial (System.run_restrict_of_exec (by decide) he)).mp (by decide) |>.right

-- A thread drops the only `Sdarc`, and is late for the two passes of the collector.
def dropsLate : List (Label 1 Bool Unit) :=
  .thread (some true) (.new 0) :: runs true 2 ++ .thread (some true) (.drop 0) :: runs true 3 ++
    List.replicate 26 .collector

def droppedLate : State 1 Bool Unit :=
  (System.exec next empty dropsLate).getD empty

theorem droppedLate_reachable : (systemNoCas 1 Bool Unit).Reachable droppedLate :=
  have he : System.exec next empty dropsLate = some droppedLate := rfl
  (System.run_restrict_of_exec (by decide) he).reachable (.init empty_initial)

theorem drop_reads_freed : ¬∀ s, (systemNoCas 1 Bool Unit).Reachable s → s.DropSafe := by
  intro h
  have := h droppedLate droppedLate_reachable (some true) 0 (by decide)
  exact absurd this (by decide)

end State
end Sdarc
