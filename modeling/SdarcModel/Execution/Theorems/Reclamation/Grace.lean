import SdarcModel.Execution.Theorems.Bookkeeping.Scans
import SdarcModel.Execution.Theorems.Reclamation.Dead

open scoped BigOperators

namespace Sdarc

theorem Pc.Reading.exists_inSection {pc : Pc n C} (h : pc.Reading p) : ∃ i, pc.inSection i = true := by
  unfold Reading at h
  split at h <;> simp_all [inSection]

theorem Pc.Initing.borrows {pc : Pc n C} (h : pc.Initing q) : pc.borrows q = true := by
  cases pc <;> simp_all [Initing, Pc.borrows, Creation.borrows]

namespace Memory

variable {n : Nat} {T C : Type} {m m' : Memory n T C} {t : Thread T} {p : Ptr}

section

variable [Fintype T] [Fintype C]

-- No counter sum is down at zero while a compare-and-set has yet to increment it.
def Funded (m : Memory n T C) : Prop :=
  ∀ p, 0 < m.owed p → 0 < m.total p

omit [Fintype C] in
theorem owed_nonneg : 0 ≤ m.owed p :=
  Finset.count_nonneg _

theorem owners_nonneg : 0 ≤ m.owners p := by
  have : 0 ≤ m.weakInnerRefs p := Finset.count_nonneg _
  have : 0 ≤ m.held p := Finset.count_nonneg _
  have : 0 ≤ m.stored p := Finset.count_nonneg _
  simp only [owners]
  omega

theorem owners_pos_of_cell (h : m.cell x = some p) : 0 < m.owners p := by
  have : 0 ≤ m.weakInnerRefs p := Finset.count_nonneg _
  have : 0 ≤ m.held p := Finset.count_nonneg _
  have : 0 < m.stored p := Finset.count_pos (Finset.mem_univ x) h
  simp only [owners]
  omega

theorem Unowned.of_owners (h : m.owners p ≤ 0) (ho : m.owed p = 0) : m.Unowned p := by
  have : 0 ≤ m.weakInnerRefs p := Finset.count_nonneg _
  have : 0 ≤ m.held p := Finset.count_nonneg _
  have : 0 ≤ m.stored p := Finset.count_nonneg _
  simp only [owners] at h
  have hw : m.weakInnerRefs p = 0 := by omega
  have hh : m.held p = 0 := by omega
  have hs : m.stored p = 0 := by omega
  exact {
    handles   := by omega
    cell x    := Finset.count_eq_zero (P := (m.cell · = some p)) hs (Finset.mem_univ x)
    weak q hq := Finset.count_eq_zero (P := fun q => (m.inner q).weakInnerRef = .init p) hw (Finset.mem_range.mpr hq)
    owns t    := by simpa using Finset.count_eq_zero hh (Finset.mem_univ t)
    owes t    := by simpa using Finset.count_eq_zero ho (Finset.mem_univ t) }

theorem total_pos_of_cell (f : Funded m) (b : Balanced m) (hp : p < m.next) (hf : m.freed p = 0)
    (h : m.cell x = some p) : 0 < m.total p := by
  have hb := b p hp hf
  have := owners_pos_of_cell h
  have := m.owed_nonneg (p := p)
  have := f p
  simp only [balance] at hb
  omega

theorem Unowned.of_total (f : Funded m) (b : Balanced m) (hp : p < m.next) (hf : m.freed p = 0)
    (h : m.total p ≤ 0) : m.Unowned p := by
  have hb := b p hp hf
  have := m.owners_nonneg (p := p)
  have := m.owed_nonneg (p := p)
  have := f p
  simp only [balance] at hb
  exact .of_owners (by omega) (by omega)

end

theorem Dead.of_unowned (w : WellFormed m) (hp : m.Completed p) (hf : m.freed p = 0) (u : m.Unowned p)
    (hr : ∀ t, ¬(m.pc t).Reading p) (ho : ¬m.Open p) : m.Dead p where
  published := ⟨hp.lt, fun t h => by
    have := hp.made t
    have := u.owns t
    cases pc : m.pc t <;> simp_all [Pc.Making, Pc.Creating, Pc.owns]⟩
  unowned   := u
  unread    := hr
  closed v hv hb := by
    cases w.weak.backRef v p hv hb hf
    case inl h => exact ho ⟨v, h, hb⟩
    case inr h =>
      have ⟨t, h⟩ := h
      have := w.borrowed t p h.initing.borrows
      have := u.handles
      omega

-- What a grace period shows of `p`: its counters are up or were tagged, or it can be upgraded, or every
-- reader about to increment entered on one of the shards of `U`.
def Observed (m : Memory n T C) (p : Ptr) (U : Fin n → Prop) : Prop :=
  AtLeast (m.word p) Finset.univ 1 ∨ m.Open p ∨
    ∀ t i, (m.pc t).Reading p → (m.pc t).inSection i = true → U i

theorem Observed.refine {U V : Fin n → Prop} (h : m.Observed p U)
    (hv : ∀ t i, (m.pc t).inSection i = true → U i → V i) : m.Observed p V :=
  h.imp_right (·.imp_right fun h t i hr hs => hv t i hs (h t i hr hs))

theorem Observed.of_all {U : Fin n → Prop} (h : ∀ i, U i) : m.Observed p U :=
  .inr (.inr fun _ i _ _ => h i)

-- Once every reader has been seen leaving, an object without references is dead.
theorem Observed.judge [Fintype T] [Fintype C] {U : Fin n → Prop} (w : WellFormed m) (f : Funded m) (b : Balanced m)
    (hp : m.Completed p) (hf : m.freed p = 0) (hu : ∀ i, ¬U i) (h : m.Observed p U) :
    AtLeast (m.word p) Finset.univ 1 ∨ m.Open p ∨ m.Dead p := by
  rcases h with h | h | h
  · exact .inl h
  · exact .inr (.inl h)
  · have hr t : ¬(m.pc t).Reading p := fun hr => by
      have ⟨i, hi⟩ := hr.exists_inSection
      exact hu i (h t i hr hi)
    by_cases hs : 1 ≤ m.total p
    case pos => exact .inl (.of_count hs)
    case neg =>
      refine .inr (or_iff_not_imp_left.mpr fun ho => ?_)
      exact .of_unowned w hp hf (.of_total f b hp.lt hf (by omega)) hr ho

variable [DecidableEq T] [DecidableEq C]

theorem Open.step (w : WellFormed m) (s : Step m t m') (hp : p < m.next) (h : m.Open p) : m'.Open p := by
  have ⟨v, hi, hb⟩ := h
  have := (w.referenced.weak p v hp hi).lt
  refine ⟨v, w.weak.init_step s hp hi, ?_⟩
  induction s <;> first | exact hb | grind -linarith

theorem Step.word_later (sl : WellSlotted m) (s : Step m t m') (hp : p < m.next) (hf : m.freed p = 0)
    (i : Fin n) : Later (m.word p i) (m'.word p i) := by
  rw [word, word, s.counters_eq hp]
  exact s.later (sl.used p hp hf) i

-- A reader that has loaded the address stays in its section, or has just loaded it.
theorem Step.reading_cases (s : Step m t m') (hr : (m'.pc u).Reading p) (hs : (m'.pc u).inSection i = true) :
    ((m.pc u).Reading p ∧ (m.pc u).inSection i = true) ∨
    ∃ src i, m.pc t = .readLoad src i ∧ m.read src = some p := by
  by_cases hu : u = t
  case neg =>
    rw [s.pc_of_ne hu] at hr hs
    exact .inl ⟨hr, hs⟩
  case pos =>
    subst hu
    induction s
    case readSome pc h => exact .inr ⟨_, _, pc, by simp_all [Pc.Reading]⟩
    case incrRead pc   => exact .inl (by simp_all [Pc.reading_incrAdd, Pc.inSection_incrAdd])
    all_goals simp only [‹m.pc u = _›, Function.update_self, Pc.Reading] at hr

variable [Fintype T] [Fintype C]

theorem Observed.step {U : Fin n → Prop} (w : WellFormed m) (f : Funded m) (b : Balanced m) (s : Step m t m')
    (hp : m.Completed p) (hf : m.freed p = 0) (h : m.Observed p U) : m'.Observed p U := by
  rcases h with h | h | h
  · exact .inl (h.later fun i _ => s.word_later w.slotted hp.lt hf i)
  · exact .inr (.inl (h.step w s hp.lt))
  · by_cases hl : ∃ src i, m.pc t = .readLoad src i ∧ m.read src = some p
    case neg =>
      refine .inr (.inr fun u i hr hs => ?_)
      have ⟨hr, hs⟩ := (s.reading_cases hr hs).resolve_right hl
      exact h u i hr hs
    case pos =>
      have ⟨src, i, pc, hr⟩ := hl
      cases src
      case cell x =>
        have := total_pos_of_cell f b hp.lt hf hr
        have ha : AtLeast (m.word p) Finset.univ 1 := .of_count this
        exact .inl (ha.later fun i _ => s.word_later w.slotted hp.lt hf i)
      case weak v =>
        have hv := w.referenced.pc t v (by simp [pc, Pc.Mentions])
        have hi : (m.inner p).weakInnerRef = .init v := (w.weak.backRef v p hv.lt hr hf).resolve_right
          fun ⟨u, h⟩ => hv.made u h.making
        have ho : m.Open p := ⟨v, hi, hr⟩
        exact .inr (.inl (ho.step w s hp.lt))

end Memory
end Sdarc
