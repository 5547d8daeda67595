import SdarcModel.TaggedCounter.Basic
import SdarcModel.TaggedCounter.Theorems.Word
import Mathlib.Algebra.BigOperators.Ring.Finset

open scoped BigOperators

namespace TaggedCounter

namespace Op

variable {n : Nat}

def shard : Op n → Fin n
  | .increment i | .decrement i | .fetchAndClearTag i => i

-- Increments and decrements.
def counts : Op n → Bool
  | .increment _ | .decrement _ => true
  | .fetchAndClearTag _         => false

-- What the operation does to the counters that the words stand for.
def apply (op : Op n) (c : Fin n → TaggedCounter) : Fin n → TaggedCounter :=
  match op with
  | .increment i        => Function.update c i (c i).incrementRefCount
  | .decrement i        => Function.update c i (c i).decrementRefCountAndSetTag
  | .fetchAndClearTag i => Function.update c i (c i).clearTag

end Op

-- The operation in progress has yet to take effect.
def Pc.pending : Pc n → List (Op n)
  | .compareExchange i _ => [.decrement i]
  | _                    => []

section Effects

variable {n : Nat} {T : Type}

-- The counters after the effects, the first of which is the last in the list.
def after (effects : List (T × Op n)) : Fin n → TaggedCounter :=
  effects.foldr (·.2.apply ·) fun _ => {}

def countedAt (effects : List (T × Op n)) (i : Fin n) : Nat :=
  effects.countP fun e => e.2.counts ∧ e.2.shard = i

variable {l : List (T × Op n)} {i : Fin n} {t : T} {op : Op n}

@[simp] theorem after_nil : after ([] : List (T × Op n)) i = {} := rfl

@[simp] theorem after_cons : after ((t, op) :: l) = op.apply (after l) := rfl

@[simp] theorem countedAt_cons :
    countedAt ((t, op) :: l) i = countedAt l i + if op.counts = true ∧ op.shard = i then 1 else 0 := by
  simp [countedAt, List.countP_cons]

theorem refCount_after : (after l i).refCount = l.countP (·.2 = .increment i) - l.countP (·.2 = .decrement i) := by
  induction l
  case nil => rfl
  case cons e l ih =>
    obtain ⟨t, op⟩ := e
    cases op <;> simp [Op.apply, Function.update_apply, List.countP_cons] <;> grind

-- A decrement took effect on the shard, and no clear of its tag after it.
def DecrementedSinceClear (effects : List (T × Op n)) (i : Fin n) : Prop :=
  ∃ later e earlier, effects = later ++ e :: earlier ∧ e.2 = .decrement i ∧ ∀ e ∈ later, e.2 ≠ .fetchAndClearTag i

theorem decrementedSinceClear_cons {e : T × Op n} : DecrementedSinceClear (e :: l) i ↔
    e.2 = .decrement i ∨ (e.2 ≠ .fetchAndClearTag i ∧ DecrementedSinceClear l i) := by
  constructor
  case mp =>
    rintro ⟨_ | ⟨e', later⟩, d, earlier, h, hd, hl⟩
    case nil =>
      simp only [List.nil_append, List.cons.injEq] at h
      exact .inl (h.left ▸ hd)
    case cons =>
      simp only [List.cons_append, List.cons.injEq] at h
      obtain ⟨rfl, rfl⟩ := h
      rw [List.forall_mem_cons] at hl
      exact .inr ⟨hl.left, later, d, earlier, rfl, hd, hl.right⟩
  case mpr =>
    rintro (hd | ⟨hc, later, d, earlier, rfl, hd, hl⟩)
    case inl => exact ⟨[], e, l, rfl, hd, by simp⟩
    case inr => exact ⟨e :: later, d, earlier, rfl, hd, List.forall_mem_cons.mpr ⟨hc, hl⟩⟩

theorem tag_after : (after l i).tag = true ↔ DecrementedSinceClear l i := by
  induction l
  case nil => simp [DecrementedSinceClear]
  case cons e l ih =>
    obtain ⟨t, op⟩ := e
    rw [after_cons, decrementedSinceClear_cons, ← ih]
    cases op <;> simp [Op.apply, Function.update_apply] <;> grind

theorem sum_countedAt (l : List (T × Op n)) : ∑ i, countedAt l i = l.countP (·.2.counts) := by
  induction l
  case nil => simp [countedAt]
  case cons e l ih =>
    obtain ⟨t, op⟩ := e
    simp only [countedAt_cons, List.countP_cons, Finset.sum_add_distrib, ih]
    cases op.counts <;> simp

theorem countedAt_le : countedAt l i ≤ l.countP (·.2.counts) :=
  sum_countedAt l ▸ Finset.single_le_sum (fun _ _ => Nat.zero_le _) (Finset.mem_univ i)

theorem sum_before_le : ∑ i ∈ Scan.before n k, countedAt l i ≤ l.countP (·.2.counts) :=
  sum_countedAt l ▸ Finset.sum_le_sum_of_subset (Finset.subset_univ _)

-- The count of a shard goes no further than it was counted.
theorem natAbs_refCount_after : (after l i).refCount.natAbs ≤ countedAt l i := by
  induction l
  case nil => simp [countedAt]
  case cons e l ih =>
    obtain ⟨t, op⟩ := e
    cases op <;> simp only [after_cons, countedAt_cons, Op.apply, Op.counts, Op.shard, Function.update_apply] <;> grind

theorem fits_after (h : l.countP (·.2.counts) < 2 ^ 62) : (after l i).Fits := by
  have := natAbs_refCount_after (l := l) (i := i)
  have := countedAt_le (l := l) (i := i)
  constructor <;> omega

end Effects

namespace State

variable {n : Nat} {T : Type} [DecidableEq T] {s s' : State n T}

-- The increments and decrements that took effect.
abbrev counted (s : State n T) : Nat :=
  s.effects.countP (·.2.counts)

-- Everything one step can do, with what it found.
inductive Step (s : State n T) : Label n T → State n T → Prop
  | increment (pc : s.pc t = .idle) :
    Step s (.call t (.increment i)) (s.store i (s.word i).incrementRefCount
      |>.called t (.increment i) |>.tookEffect t (.increment i))
  | decrement (pc : s.pc t = .idle) :
    Step s (.call t (.decrement i)) (s.called t (.decrement i) |>.goto t (.compareExchange i (s.word i)))
  | fetchAndClearTag (pc : s.pc t = .idle) :
    Step s (.call t (.fetchAndClearTag i)) (s.store i (s.word i).clearTag
      |>.called t (.fetchAndClearTag i) |>.tookEffect t (.fetchAndClearTag i))
  | sum (pc : s.pc t = .idle) : Step s (.callSum t k) (s.goto t (.sum k 0 0))
  | exchange (pc : s.pc t = .compareExchange i value) (eq : s.word i = value) :
    Step s (.run t) (s.store i value.decrementRefCountAndSetTag |>.tookEffect t (.decrement i) |>.goto t .idle)
  | fail (pc : s.pc t = .compareExchange i value) (run : l = .run t ∨ l = .runFail t) :
    Step s l (s.goto t (.compareExchange i (s.word i)))
  | read (pc : s.pc t = .sum k i sum) (h : i < n) (noClear : k ≠ .clearTagsAndReadRefCountSum) :
    Step s (.run t) (s.goto t (.sum k (i + 1) (sum + (s.word ⟨i, h⟩).refCount)))
  | clearTag (pc : s.pc t = .sum .clearTagsAndReadRefCountSum i sum) (h : i < n) :
    Step s (.run t) (s.store ⟨i, h⟩ (s.word ⟨i, h⟩).clearTag
      |>.called t (.fetchAndClearTag ⟨i, h⟩) |>.tookEffect t (.fetchAndClearTag ⟨i, h⟩)
      |>.goto t (.sum .clearTagsAndReadRefCountSum (i + 1) (sum + (s.word ⟨i, h⟩).refCount)))
  | sumEnd (pc : s.pc t = .sum k i sum) : Step s (.run t) (s.goto t .idle)

theorem Step.of_next {l : Label n T} (h : s.next l = some s') : Step s l s' := by
  cases l <;> simp only [next] at h
  case call t op =>
    split at h <;> cases h
    case h_1 pc =>
      cases op
      case increment        => exact .increment pc
      case decrement        => exact .decrement pc
      case fetchAndClearTag => exact .fetchAndClearTag pc
  case callSum =>
    split at h <;> cases h
    case h_1 pc => exact .sum pc
  case run t =>
    split at h
    case h_1 => contradiction
    case h_2 pc =>
      split at h <;> cases h
      case isTrue eq => exact .exchange pc eq
      case isFalse   => exact .fail pc (.inl rfl)
    case h_3 k i sum pc =>
      split at h <;> cases h
      case isFalse => exact .sumEnd pc
      case isTrue hi =>
        cases k <;> simp only [readShard]
        case readRefCountSum             => exact .read pc hi (by simp)
        case clearTagsAndReadRefCountSum => exact .clearTag pc hi
        case readRefCountSumIfAllTagsUnset =>
          split
          case isTrue  => exact .sumEnd pc
          case isFalse => exact .read pc hi (by simp)
  case runFail =>
    split at h <;> cases h
    case h_1 pc => exact .fail pc (.inr rfl)

theorem Step.suffix (st : Step s l s') : s.effects <:+ s'.effects := by
  induction st <;> first | exact List.suffix_refl _ | exact List.suffix_cons ..

theorem Step.countedAt_le (st : Step s l s') (i : Fin n) : countedAt s.effects i ≤ countedAt s'.effects i :=
  st.suffix.sublist.countP_le

theorem Step.counted_le (st : Step s l s') : s.counted ≤ s'.counted :=
  st.suffix.sublist.countP_le

-- The words hold the counters after the operations that took effect, each of which was called once, and what
-- the calls in progress have read is no further from zero than was counted.
structure Refined (s : State n T) : Prop where
  word  : ∀ i, s.word i = (after s.effects i).toWord
  calls : ∀ t, s.calls.filter (·.1 = t) = (s.pc t).pending.map (t, ·) ++ s.effects.filter (·.1 = t)
  value : ∀ t i value, s.pc t = .compareExchange i value →
    ∃ c : TaggedCounter, value = c.toWord ∧ c.refCount.natAbs ≤ countedAt s.effects i
  sums  : s.counted < 2 ^ 62 → ∀ t k i sum, s.pc t = .sum k i sum →
    sum.toInt.natAbs ≤ ∑ j ∈ Scan.before n i, countedAt s.effects j

namespace Refined

theorem initial (h : s.Initial) : Refined s where
  word i := by rw [h.word, h.effects]; rfl
  calls t := by simp [h.calls, h.effects, h.pc, Pc.pending]
  value t i value pc := by simp [h.pc] at pc
  sums _ t k i sum pc := by simp [h.pc] at pc

theorem toInt_refCount (r : Refined s) (bound : s.counted < 2 ^ 62) (i : Fin n) :
    (s.word i).refCount.toInt = (after s.effects i).refCount := by
  rw [r.word, toInt_refCount_toWord (fits_after bound)]

-- A loop adds what it reads without overflow.
theorem add_refCount (r : Refined s) (bound : s.counted < 2 ^ 62) (pc : s.pc t = .sum k i sum) (h : i < n) :
    BitVec.saddOverflow sum (s.word ⟨i, h⟩).refCount = false ∧
    (sum + (s.word ⟨i, h⟩).refCount).toInt.natAbs ≤ ∑ j ∈ Scan.before n (i + 1), countedAt s.effects j := by
  have hs := r.sums bound t k i sum pc
  have hn := natAbs_refCount_after (l := s.effects) (i := ⟨i, h⟩)
  have hm : ∑ j ∈ Scan.before n (i + 1), countedAt s.effects j ≤ s.counted := sum_before_le
  rw [← r.toInt_refCount bound] at hn
  rw [Scan.before_succ h, Finset.sum_insert (Scan.notMem_before h)] at hm ⊢
  have ho : BitVec.saddOverflow sum (s.word ⟨i, h⟩).refCount = false := by
    simp only [BitVec.saddOverflow, Bool.or_eq_false_iff, decide_eq_false_iff_not]
    omega
  refine ⟨ho, ?_⟩
  rw [BitVec.toInt_add_of_not_saddOverflow (by simp [ho])]
  omega

theorem step (r : Refined s) (st : Step s l s') : Refined s' where
  word j := by
    have hw := r.word
    have hi (c : TaggedCounter) := c.toWord_incrementRefCount
    have hd (c : TaggedCounter) := c.toWord_decrementRefCountAndSetTag
    have hc (c : TaggedCounter) := c.toWord_clearTag
    induction st <;> simp only [after_cons, Op.apply, Function.update_apply] <;> grind
  calls u := by
    have := r.calls u
    induction st <;> grind [Pc.pending]
  value u j value h := by
    have hv := r.value u j value
    have hn := natAbs_refCount_after (l := s.effects) (i := j)
    have hw := r.word
    have hm := st.countedAt_le j
    induction st <;> grind
  sums bound u k j sum h := by
    have hb := st.counted_le.trans_lt bound
    refine le_trans ?_ (Finset.sum_le_sum fun i (_ : i ∈ Scan.before n j) => st.countedAt_le i)
    have hs := r.sums hb u k j sum
    have ha t k i sum (pc : s.pc t = .sum k i sum) (h : i < n) := (r.add_refCount hb pc h).right
    induction st
    case sum t k pc =>
      by_cases hu : u = t
      case neg => grind
      case pos =>
        obtain ⟨-, rfl, rfl⟩ : _ ∧ 0 = j ∧ 0 = sum := by simpa [hu] using h
        simp
    all_goals grind

theorem not_overflows (r : Refined s) (h : s.next l = some s') (bound : s'.counted < 2 ^ 62) :
    s.overflows l = false := by
  have hb : s.counted < 2 ^ 62 := (Step.of_next h).counted_le.trans_lt bound
  have exchange t i value (pc : s.pc t = .compareExchange i value) : BitVec.ssubOverflow (value ||| 1) 2 = false := by
    obtain ⟨c, rfl, hc⟩ := r.value t i value pc
    have hm : countedAt s.effects i ≤ s.counted := countedAt_le
    simp only [BitVec.ssubOverflow, toInt_or_one (c := c) ⟨by omega, by omega⟩, Bool.or_eq_false_iff,
      decide_eq_false_iff_not]
    have : (2 : Word).toInt = 2 := rfl
    omega
  have next t : s.overflows (.run t) = false := by
    simp only [overflows]
    split
    case h_1 => rfl
    case h_2 pc => exact exchange t _ _ pc
    case h_3 pc =>
      split
      case isTrue hi => exact (r.add_refCount hb pc hi).left
      case isFalse   => rfl
  cases l
  case callSum => rfl
  case run t      => exact next t
  case runFail t  => exact next t
  case call t op =>
    cases op
    case decrement        => rfl
    case fetchAndClearTag => rfl
    case increment i =>
      cases Step.of_next h
      case fail run => simp at run
      case increment =>
        have bound : s.counted + 1 < 2 ^ 62 := by simpa [counted, Op.counts] using bound
        have hn := natAbs_refCount_after (l := s.effects) (i := i)
        have hm : countedAt s.effects i ≤ s.counted := countedAt_le
        have : (2 : Word).toInt = 2 := rfl
        simp only [overflows, BitVec.saddOverflow, r.word, toInt_toWord (fits_after hb), Bool.or_eq_false_iff,
          decide_eq_false_iff_not]
        cases (after s.effects i).tag <;> simp only [Bool.toInt_true, Bool.toInt_false] <;> omega

end Refined

theorem refined (h : (system n T).Reachable s) : Refined s :=
  h.invariant (fun _ => .initial) fun _ _ _ r st => r.step (.of_next st)

-- The words refine counters of integer count and Boolean tag, whatever the threads interleave.
theorem refines (h : (system n T).Reachable s) (bound : s.counted < 2 ^ 62) :
    (∀ i, (s.word i).toTaggedCounter = after s.effects i) ∧
    (∀ i, (s.word i).refCount.toInt = s.count (.increment i) - s.count (.decrement i)) ∧
    (∀ i, (s.word i).tag = true ↔ DecrementedSinceClear s.effects i) ∧
    (∀ t, s.calls.filter (·.1 = t) = (s.pc t).pending.map (t, ·) ++ s.effects.filter (·.1 = t)) ∧
    (∀ l s', s.next l = some s' → s'.counted < 2 ^ 62 → s.overflows l = false) ∧
    (∀ t k i sum, s.pc t = .sum k i sum → sum.toInt.natAbs < 2 ^ 62) := by
  have r := refined h
  refine ⟨fun i => ?words, fun i => ?counts, fun i => ?tags, r.calls, fun l s' => r.not_overflows, fun t k i sum pc => ?sums⟩
  case words  => rw [r.word, toTaggedCounter_toWord (fits_after bound)]
  case counts => rw [r.toInt_refCount bound, refCount_after]; rfl
  case tags   => rw [r.word, tag_toWord, tag_after]
  case sums   => exact (r.sums bound t k i sum pc).trans_lt (sum_before_le |>.trans_lt bound)

-- A decrement fails once by interference and once spuriously. The collector clears the tags afterwards.
def interferes : List (Label 2 Bool) :=
  let i := Fin.last 1
  [.call true (.increment i), .call true (.decrement i), .call false (.increment i), .run true, .runFail true,
    .run true, .call false (.decrement i), .run false, .call true (.decrement i), .run true,
    .callSum false .clearTagsAndReadRefCountSum, .run false, .run false, .run false]

def interfered : State 2 Bool :=
  (System.exec next new interferes).getD new

theorem refines_interfered : interfered.count (.decrement (Fin.last 1)) = 3 ∧
    (interfered.word (Fin.last 1)).toTaggedCounter = { refCount := -1 } := by
  have he : System.exec next new interferes = some interfered := rfl
  have h := refines (System.reachable_of_exec (.init new_initial) he) (by decide)
  refine ⟨by decide, ?_⟩
  rw [h.left]
  decide

end State
end TaggedCounter
