import SdarcModel.Snapshot.Basic

open scoped BigOperators

namespace Snapshot

abbrev AtLeast (w : Fin n → TaggedCounter) (U : Finset (Fin n)) (lo : Int) : Prop :=
  Scan.AtLeast TaggedCounter.refCount TaggedCounter.tag w U lo

abbrev Later : TaggedCounter → TaggedCounter → Prop :=
  Scan.Later TaggedCounter.refCount TaggedCounter.tag

namespace State

variable {n : Nat} {s s₁ s₂ b : State n}

-- Everything one step can do, with what it found.
inductive Step (s : State n) : Label n → State n → Prop
  | increment : Step s (.incrementRefCount i) (s.modify i .incrementRefCount)
  | decrement : Step s (.decrementRefCountAndSetTag i) (s.modify i .decrementRefCountAndSetTag)
  | clear (pc : s.pc = .clear i sum) (h : i < n) :
    Step s .collector
      (s.modify ⟨i, h⟩ .clearTag |>.goto (.clear (i + 1) (sum + (s.counters ⟨i, h⟩).refCount)))
  | clearEnd (pc : s.pc = .clear i sum) (h : ¬i < n) : Step s .collector (s.goto (.reCheck sum 0 0))
  | reCheckTagged (pc : s.pc = .reCheck first i sum) (h : i < n) (tag : (s.counters ⟨i, h⟩).tag = true) :
    Step s .collector (s.goto (.returned first none))
  | reCheck (pc : s.pc = .reCheck first i sum) (h : i < n) (tag : (s.counters ⟨i, h⟩).tag = false) :
    Step s .collector (s.goto (.reCheck first (i + 1) (sum + (s.counters ⟨i, h⟩).refCount)))
  | reCheckEnd (pc : s.pc = .reCheck first i sum) (h : ¬i < n) :
    Step s .collector (s.goto (.returned first (some sum)))

theorem Step.of_next {l : Label n} (h : s.next l = some s') : Step s l s' := by
  cases l
  case incrementRefCount          => cases h; exact .increment
  case decrementRefCountAndSetTag => cases h; exact .decrement
  case collector =>
    simp only [next, collectorStep] at h
    split at h
    case h_1 pc =>
      split at h <;> cases h
      case isTrue hi  => exact .clear pc hi
      case isFalse hi => exact .clearEnd pc hi
    case h_2 pc =>
      split at h
      case isTrue hi =>
        split at h <;> cases h
        case isTrue ht  => exact .reCheckTagged pc hi ht
        case isFalse ht => exact .reCheck pc hi (by simpa using ht)
      case isFalse hi => cases h; exact .reCheckEnd pc hi
    case h_3 => contradiction

-- What the clear pass knows: the counters it has cleared hold what it read, or one was tagged since.
def Cleared (s : State n) : Prop :=
  match s.pc with
  | .clear i sum       => i ≤ n ∧ AtLeast s.counters (Scan.before n i) sum
  | .reCheck first 0 _ => AtLeast s.counters Finset.univ first
  | _                  => True

theorem later_modify {f : TaggedCounter → TaggedCounter} (hf : ∀ c, Later c (f c)) (i j : Fin n) :
    Later (s.counters j) ((s.modify i f).counters j) := by
  by_cases h : j = i
  case pos => subst h; simpa using hf (s.counters j)
  case neg => simpa [h] using Scan.Later.refl _

-- The users' steps leave the collector where it is and every counter no lower or tagged.
theorem Cleared.later (h : s₁.Cleared) (pc : s₂.pc = s₁.pc)
    (hl : ∀ i, Later (s₁.counters i) (s₂.counters i)) : s₂.Cleared := by
  simp only [Cleared, pc] at *
  split
  case h_1 => simp_all; exact h.right.later fun i _ => hl i
  case h_2 => simp_all; exact Scan.AtLeast.later h fun i _ => hl i
  case h_3 => trivial

theorem Cleared.step {l : Label n} (h : s₁.Cleared) (stp : Step s₁ l s₂) : s₂.Cleared := by
  cases stp
  case increment => exact h.later rfl (later_modify TaggedCounter.later_incrementRefCount _)
  case decrement => exact h.later rfl (later_modify TaggedCounter.later_decrementRefCountAndSetTag _)
  case clear i sum pc hi =>
    simp only [Cleared, pc] at h
    refine ⟨hi, ?_⟩
    rw [Scan.before_succ hi]
    exact h.right.clear (Scan.notMem_before hi) (s₁.counters ⟨i, hi⟩).clearTag
  case clearEnd i sum pc hi =>
    simp only [Cleared, pc, Scan.before_of_le (not_lt.mp hi)] at h
    exact h.right
  all_goals trivial

-- What the re-check pass knows of an instant `b` between the passes: the counters it has read were
-- untagged, so they were no lower than at `b`.
def ReChecked (b : State n) (first : Int) (s : State n) : Prop :=
  match s.pc with
  | .clear i sum               => i = n ∧ sum = first ∧ ∀ j, Later (b.counters j) (s.counters j)
  | .reCheck first' i sum      => first' = first ∧ i ≤ n ∧
    (∀ j ∈ Scan.rest n i, Later (b.counters j) (s.counters j)) ∧
    (∀ j ∈ Scan.before n i, (b.counters j).tag = false) ∧
    ∑ j ∈ Scan.before n i, (b.counters j).refCount ≤ sum
  | .returned first' (some sum) => first' = first ∧ (∀ j, (b.counters j).tag = false) ∧ b.total ≤ sum
  | .returned _ none            => True

theorem ReChecked.refl (h : b.Between first) : ReChecked b first b := by
  cases h <;> simp_all [ReChecked, Scan.Later.refl]

theorem ReChecked.later (h : ReChecked b first s₁) (pc : s₂.pc = s₁.pc)
    (hl : ∀ i, Later (s₁.counters i) (s₂.counters i)) : ReChecked b first s₂ := by
  simp only [ReChecked, pc] at *
  split
  case h_1 => simp_all; exact fun j => (h.right.right j).trans (hl j)
  case h_2 => simp_all; exact fun j hj => (h.right.right.left j hj).trans (hl j)
  case h_3 => simp_all
  case h_4 => trivial

theorem ReChecked.step {l : Label n} (h : ReChecked b first s₁) (stp : Step s₁ l s₂) :
    ReChecked b first s₂ := by
  cases stp
  case increment => exact h.later rfl (later_modify TaggedCounter.later_incrementRefCount _)
  case decrement => exact h.later rfl (later_modify TaggedCounter.later_decrementRefCountAndSetTag _)
  case clear pc hi =>
    simp only [ReChecked, pc] at h
    omega
  case clearEnd pc hi =>
    simp only [ReChecked, pc] at h
    simp [ReChecked, h]
  case reCheckTagged => trivial
  case reCheck i sum pc hi ht =>
    simp only [ReChecked, pc] at h
    obtain ⟨hf, _, hr, hb, hs⟩ := h
    simp only [Scan.rest_eq hi, Finset.forall_mem_insert] at hr
    have hl := hr.left.resolve_left (by simp [ht])
    refine ⟨hf, hi, hr.right, ?_, ?_⟩
    · simpa [Scan.before_succ hi] using ⟨hl.left, hb⟩
    · rw [Scan.before_succ hi, Finset.sum_insert (Scan.notMem_before hi)]
      omega
  case reCheckEnd i sum pc hi =>
    simp only [ReChecked, pc, Scan.before_of_le (not_lt.mp hi), Finset.mem_univ, true_implies] at h
    exact ⟨h.left, h.right.right.right⟩

-- By how much what the re-check pass has read exceeds what the counters held at `b`.
def excess (b : State n) (s : State n) : Int :=
  match s.pc with
  | .clear ..                => 0
  | .reCheck _ i sum         => sum - ∑ j ∈ Scan.before n i, (b.counters j).refCount
  | .returned _ (some sum)   => sum - b.total
  | .returned _ none         => 0

theorem ReChecked.excess_nonneg (h : ReChecked b first s) : 0 ≤ excess b s := by
  simp only [ReChecked, excess] at *
  split <;> simp_all

-- A load of the re-check pass adds to the excess what the counter has gone up by since `b`.
theorem excess_reCheck (pc : s₁.pc = .reCheck first i sum) (hi : i < n)
    (stp : Step s₁ .collector s₂) (h : ∀ first, s₂.pc ≠ .returned first none) :
    excess b s₂ = excess b s₁ + ((s₁.counters ⟨i, hi⟩).refCount - (b.counters ⟨i, hi⟩).refCount) := by
  cases stp <;> simp_all [excess]
  case reCheck =>
    rw [Scan.before_succ hi, Finset.sum_insert (Scan.notMem_before hi)]
    omega

theorem ReChecked.later_load (h : ReChecked b first s) (pc : s.pc = .reCheck first' i sum) (hi : i < n) :
    Later (b.counters ⟨i, hi⟩) (s.counters ⟨i, hi⟩) := by
  simp only [ReChecked, pc] at h
  exact h.right.right.left _ (by simp [Scan.rest])

theorem ReChecked.excess_le {l : Label n} (h : ReChecked b first s₁) (stp : Step s₁ l s₂)
    (hr : ∀ first, s₂.pc ≠ .returned first none) : excess b s₁ ≤ excess b s₂ := by
  cases stp
  case increment | decrement => exact le_of_eq rfl
  case clear i sum pc hi =>
    simp only [ReChecked, pc] at h
    omega
  case clearEnd pc hi => simp [excess, pc]
  case reCheckTagged => exact absurd rfl (hr _)
  case reCheck i sum pc hi ht =>
    have hl := (h.later_load pc hi).resolve_left (by simp [ht])
    rw [excess_reCheck pc hi (.reCheck pc hi ht) hr]
    omega
  case reCheckEnd i sum pc hi => simp [excess, pc, Scan.before_of_le (not_lt.mp hi), total]

theorem returned_of_run (r : (system n).Run s₁ tr s₂) (pc : s₁.pc = .returned first res) :
    s₂.pc = .returned first res := by
  refine r.invariant (I := fun s => s.pc = .returned first res) pc fun s a s' h stp => ?_
  cases Step.of_next stp <;> simp_all

theorem ReChecked.excess_le_of_run (r : (system n).Run s₁ tr s₂) (h : ReChecked b first s₁)
    (pc : s₂.pc = .returned first' (some sum)) : excess b s₁ ≤ sum - b.total := by
  induction r
  case refl => simp [excess, pc]
  case step stp r ih =>
    have stp := Step.of_next stp
    refine le_trans (h.excess_le stp fun f hn => ?_) (ih (h.step stp) pc)
    have := returned_of_run r hn
    simp [pc] at this

theorem Cleared.of_run (r : (system n).Run s₁ tr s₂) (h : s₁.Initial) : s₂.Cleared := by
  refine r.invariant (I := Cleared) ?_ fun _ _ _ h stp => h.step (.of_next stp)
  have pc : s₁.pc = .clear 0 0 := h
  simp [Cleared, pc, Scan.AtLeast.empty]

theorem ReChecked.of_run (r : (system n).Run b tr s) (h : b.Between first) : ReChecked b first s :=
  r.invariant (I := ReChecked b first) (.refl h) fun _ _ _ h stp => h.step (.of_next stp)

-- The re-check pass loads what the counters held at `b` if it reads a sum that is no more.
theorem counters_eq_of_load (r : (system n).Run b tr s) (hb : b.Between first)
    (pc : s.pc = .returned first' (some sum)) (hs : sum ≤ b.total) {i : Fin n}
    (he : (e, .collector) ∈ tr) (hl : e.pc = .reCheck f i.val k) : e.counters i = b.counters i := by
  obtain ⟨_, _, s', r₁, stp, r₂⟩ := r.split he
  have h := ReChecked.of_run r₁ hb
  have stp := Step.of_next stp
  have hn f : s'.pc ≠ .returned f none := fun hn => by simpa [pc] using returned_of_run r₂ hn
  have hx := excess_reCheck (b := b) hl i.isLt stp hn
  have := h.excess_nonneg
  have := (h.step stp).excess_le_of_run r₂ pc
  have ht : (e.counters i).tag = false := by
    cases stp <;> simp_all
  have ⟨hu, hle⟩ := (h.later_load hl i.isLt).resolve_left (by simp [ht])
  have hge : (e.counters i).refCount ≤ (b.counters i).refCount := by simp only [Fin.eta] at hx; omega
  exact TaggedCounter.ext (le_antisymm hge hle) (ht.trans hu.symm)

-- The instants between the last clear and the first load of the re-check pass, when the re-check pass
-- returns a sum.
theorem snapshot_sound (h : s₀.Initial) (r₁ : (system n).Run s₀ tr₁ b) (hb : b.Between first)
    (r₂ : (system n).Run b tr₂ s) (pc : s.pc = .returned first' (some sum)) :
    b.total ≤ sum ∧ first ≤ sum ∧ first' = first ∧
    (sum = 0 → 0 ≤ b.total → b.total = 0 ∧
      ∀ e ∈ tr₂, ∀ (i : Fin n) f k, e.2 = .collector → e.1.pc = .reCheck f i.val k →
        e.1.counters i = b.counters i) := by
  have hc := Cleared.of_run r₁ h
  have hr := ReChecked.of_run r₂ hb
  simp only [ReChecked, pc] at hr
  obtain ⟨hf, hu, hs⟩ := hr
  have ha : AtLeast b.counters Finset.univ first := by
    cases hb <;> simp_all [Cleared, Scan.before_of_le]
  have hle := ha.le fun i _ => hu i
  refine ⟨hs, hle.trans hs, hf, fun hz h₀ => ⟨le_antisymm (hz ▸ hs) h₀, ?_⟩⟩
  rintro ⟨e, a⟩ he i f k rfl hl
  exact counters_eq_of_load r₂ hb pc (hz ▸ h₀) he hl

-- An increment of the first shard comes between the two clears.
def start : State 2 where
  counters i := if i = Fin.last 1 then { refCount := -1, tag := true } else {}
  pc         := .clear 0 0

def cleared : State 2 :=
  (System.exec next start [.collector, .incrementRefCount (Fin.mk 0 (by decide)), .collector]).getD start

def reChecked : State 2 :=
  (System.exec next cleared (.replicate 4 .collector)).getD start

theorem snapshot_sound_incremented :
    reChecked.pc = .returned (-1) (some 0) ∧ cleared.total = 0 ∧ (-1 : Int) ≤ 0 := by
  have h₁ : System.exec next start [.collector, .incrementRefCount (Fin.mk 0 (by decide)), .collector] =
    some cleared := rfl
  have h₂ : System.exec next cleared (.replicate 4 .collector) = some reChecked := rfl
  obtain ⟨_, first, _, zero⟩ := snapshot_sound (show start.Initial from rfl) (System.run_of_exec h₁)
    (.inl rfl) (System.run_of_exec h₂) (rfl : reChecked.pc = .returned (-1) (some 0))
  exact ⟨rfl, (zero rfl (by decide)).left, first⟩

end State
end Snapshot
