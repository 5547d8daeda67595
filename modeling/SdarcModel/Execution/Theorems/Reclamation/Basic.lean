import SdarcModel.Execution.Theorems.Reclamation.Judgement

namespace Sdarc

namespace Memory

variable {n : Nat} {T C : Type} {m m' : Memory n T C} {t : Thread T} {p : Ptr}

-- No compare-and-set is under way.
def NoCas (m : Memory n T C) : Prop :=
  ∀ t p, (m.pc t).owes p = false

theorem NoCas.funded [Fintype T] [Fintype C] (nc : NoCas m) : Funded m := by
  intro p h
  have : m.owed p = 0 := Finset.sum_eq_zero fun t _ => by simp [nc t p]
  omega

theorem NoCas.initial (h : m.Initial) : NoCas m := by
  simp [NoCas, h.pc, Pc.owes]

variable [DecidableEq T]

theorem NoCas.effect (nc : NoCas m) (e : Effect m m') : NoCas m' := by
  intro t p
  have := nc t p
  cases e <;> grind -linarith

variable [DecidableEq C]

theorem owes_start [Fintype T] {a : Act n C} (ha : a.isCompareAndSet = false) (pc : m.pc t = .idle)
    (h : m.start t a = some m') : (m'.pc t).owes p = false := by
  cases a <;> simp only [start, Option.ite_none_right_eq_some, Option.some.injEq, reduceCtorEq] at h
  case compareAndSet => contradiction
  case load => subst h; simp [Pc.owes]
  case store x new =>
    obtain ⟨_, rfl⟩ := h
    cases m.cell x <;> simp [dropNullable, Pc.owes]
  all_goals
    obtain ⟨_, rfl⟩ := h
    simp [Pc.owes, pc]

theorem NoCas.threadStep [Fintype T] {a : Act n C} (nc : NoCas m) (ha : a.isCompareAndSet = false)
    (h : m.threadStep t a = some m') : NoCas m' := by
  intro u p
  have hu := nc u p
  have ht := nc t p
  have st := Step.of_threadStep h
  induction st
  case casSome pc _ _ _ _ =>
    -- Only `compare_and_set` itself could have got here.
    cases a <;> simp only [Memory.threadStep, run, pc, if_true, reduceCtorEq] at h
    all_goals
      have := owes_start (p := p) ha pc h
      grind -linarith
  all_goals grind -linarith

omit [DecidableEq T] [DecidableEq C] in
-- A thread that still mentions a dead object does not change its counters any more.
theorem Dead.unfreed_of_counts (w : WellFormed m) (safe : m.Safe) (h : (m.pc t).Counts p) : m.freed p = 0 := by
  by_contra hf
  have d := safe p (Nat.pos_of_ne_zero hf)
  have hm := d.published.made t
  have hn := d.dropNotify (t := t) w safe
  cases pc : m.pc t <;> simp_all [Pc.Counts, Pc.Mentions, Pc.Making]

end Memory

namespace State

variable {n : Nat} {T C : Type} [Fintype T] [Fintype C] {s s' : State n T C}

-- What holds of a run up to a state, as long as each state was funded.
structure Sound (s : State n T C) : Prop where
  wellFormed : WellFormed s
  gated      : s.mem.WellGated
  balanced   : s.mem.Balanced
  judged     : Judged s

namespace Sound

variable [DecidableEq T] [DecidableEq C]

omit [DecidableEq T] [DecidableEq C] in
theorem initial (h : s.Initial) : Sound s where
  wellFormed := .initial h
  gated      := .initial h.mem
  balanced   := .initial h.mem
  judged     := .initial h

theorem step (so : Sound s) (f : s.mem.Funded) (st : Step s l s') : Sound s' := by
  have ⟨w, g, b, jd⟩ := so
  induction st
  case thread t m a _ st =>
    have hc p (h : (s.mem.pc t).Counts p) : s.mem.freed p = 0 :=
      Memory.Dead.unfreed_of_counts w.mem jd.safe h
    exact {
      wellFormed := w.step (.thread ‹_› st)
      gated      := g.step st
      balanced   := b.step w.mem.referenced w.mem.slotted w.mem.weak hc st
      judged     := jd.thread w f b st a }
  case collector idle st =>
    have e := st.effect w idle
    exact {
      wellFormed := w.step (.collector idle st)
      gated      := g.effect e
      balanced   := b.effect w.mem.referenced e
      judged     := jd.collector w g f b idle st }

variable (so : Sound s)
include so

omit [DecidableEq T] [DecidableEq C] in
theorem unfreed_of_handles (h : 0 < s.mem.handles p) : s.mem.freed p = 0 := by
  by_contra hf
  have := (so.judged.safe p (Nat.pos_of_ne_zero hf)).unowned.handles
  omega

omit [DecidableEq T] [DecidableEq C] in
theorem unfreed_of_mentions (h : (s.mem.pc t).Mentions p) (hn : s.mem.pc t ≠ .dropNotify p) :
    s.mem.freed p = 0 := by
  by_contra hf
  have d := so.judged.safe p (Nat.pos_of_ne_zero hf)
  exact hn (d.dropNotify so.wellFormed.mem so.judged.safe h)

end Sound

omit [Fintype C] in
-- Only `drop_sdarc_inner` frees.
theorem removed_of_freed [DecidableEq T] [DecidableEq C] (h : s.next l = some s')
    (hf : s.mem.freed p < s'.mem.freed p) : l = .collector ∧ s.col.pc.Removed p := by
  cases Step.of_next h
  case thread st => simp [st.freed_eq] at hf
  case collector idle st =>
    refine ⟨rfl, ?_⟩
    induction st <;> grind -linarith

end State

section

variable (n : Nat) (T C : Type) [DecidableEq T] [Fintype T] [DecidableEq C] [Fintype C]

-- The runs in which the counter sum of an object is never down at zero while a compare-and-set that has
-- put it into a cell has yet to increment.
def systemFunded : System (State n T C) (Label n T C) :=
  system n T C |>.restrict fun s _ _ => s.mem.Funded

end

namespace State

variable {n : Nat} {T C : Type} [DecidableEq T] [Fintype T] [DecidableEq C] [Fintype C] {s s' : State n T C}
  {p : Ptr}

theorem sound (h : (systemFunded n T C).Reachable s) : Sound s :=
  h.restrict_invariant (fun _ => .initial) fun _ _ _ f so st => so.step f (.of_next st)

omit [Fintype C] in
theorem noCas (h : (systemNoCas n T C).Reachable s) : s.mem.NoCas := by
  refine h.invariant_with (I := (·.mem.NoCas)) (fun _ h => wellFormed h.of_restrict) (fun s h => ?init) ?step
  case init => exact .initial (State.Initial.mem h)
  case step =>
    rintro s₁ l s₂ w - nc ⟨st, hl⟩
    change s₁.next l = some s₂ at st
    cases l
    case thread t a =>
      simp only [next] at st
      split at st <;> try contradiction
      simp only [Option.map_eq_some_iff] at st
      obtain ⟨m, hm, st⟩ := st
      exact st ▸ nc.threadStep hl hm
    case collector =>
      cases Step.of_next st
      case collector idle st => exact nc.effect (st.effect w idle)

theorem funded_of_noCas (h : (systemNoCas n T C).Reachable s) : (systemFunded n T C).Reachable s := by
  induction h
  case init h         => exact .init h
  case step hr st ih  => exact ih.step ⟨st.left, (noCas hr).funded⟩

-- Readers, writers and the collector: what the collector frees is out of reach, so that `load` neither
-- increments a freed counter nor returns a freed object.
theorem load_unfreed (h : (systemNoCas n T C).Reachable s) :
    (∀ l s' p, s.next l = some s' → s.mem.freed p < s'.mem.freed p →
      s.mem.Unowned p ∧ ∀ t, ¬(s.mem.pc t).Reading p) ∧
    (∀ t p c j x i, s.mem.pc t = .incrAdd p c j (.read (.cell x) i) →
      s.mem.freed p = 0 ∧ c = s.mem.counters p ∧ s.mem.used c = true) ∧
    (∀ t p x i, s.mem.pc t = .readLeave (.cell x) i (some p) → s.mem.freed p = 0) ∧
    (∀ p, 0 < s.mem.handles p → s.mem.freed p = 0) := by
  have so := sound (funded_of_noCas h)
  have w := so.wellFormed.mem
  refine ⟨fun l s' p hs hf => ?freeing, fun t p c j x i pc => ?incrementing, fun t p x i pc => ?returning,
    fun p => so.unfreed_of_handles⟩
  case freeing =>
    have d := so.judged.removed p (removed_of_freed hs hf).right
    exact ⟨d.unowned, d.unread⟩
  case incrementing =>
    have hp : (s.mem.pc t).Mentions p := by simp [pc, Pc.Mentions]
    have hf := so.unfreed_of_mentions hp (by simp [pc])
    have hc := w.slotted.holds t p c (by simp [pc, Pc.Holds])
    exact ⟨hf, hc, hc ▸ w.slotted.used p (w.referenced.pc t p hp).lt hf⟩
  case returning => exact so.unfreed_of_mentions (t := t) (by simp [pc, Pc.Mentions]) (by simp [pc])

-- The collector has found the object of `collects` dead twice, and is about to free it.
def collecting : State 1 Bool Unit :=
  (System.exec next empty (collects.take 34)).getD empty

theorem collecting_reachable : (systemNoCas 1 Bool Unit).Reachable collecting :=
  have he : System.exec next empty (collects.take 34) = some collecting := rfl
  (System.run_restrict_of_exec (by decide) he).reachable (.init empty_initial)

theorem load_unfreed_collecting : collecting.mem.Unowned 0 ∧ ∀ t, ¬(collecting.mem.pc t).Reading 0 :=
  have hs : collecting.next .collector = some collected := rfl
  (load_unfreed collecting_reachable).left .collector collected 0 hs (by decide)

-- The same for `upgrade`, through any number of deaths and resurrections.
theorem upgrade_unfreed (h : (systemNoCas n T C).Reachable s) :
    (∀ l s' p, s.next l = some s' → s.mem.freed p < s'.mem.freed p →
      s.mem.handles p = 0 ∧ ∀ t, (s.mem.pc t).owns p = false ∧ ∀ w i,
        s.mem.pc t ≠ .incrRead p (.read (.weak w) i) ∧ ∀ c j, s.mem.pc t ≠ .incrAdd p c j (.read (.weak w) i)) ∧
    (∀ t p w i, s.mem.pc t = .readLeave (.weak w) i (some p) → s.mem.freed p = 0) ∧
    (∀ p, 0 < s.mem.handles p → s.mem.freed p = 0) := by
  have so := sound (funded_of_noCas h)
  refine ⟨fun l s' p hs hf => ?freeing, fun t p w i pc => ?returning, fun p => so.unfreed_of_handles⟩
  case freeing =>
    have d := so.judged.removed p (removed_of_freed hs hf).right
    refine ⟨d.unowned.handles, fun t => ⟨d.unowned.owns t, fun w i => ?_⟩⟩
    have := d.unread t
    constructor <;> grind -linarith
  case returning => exact so.unfreed_of_mentions (t := t) (by simp [pc, Pc.Mentions]) (by simp [pc])

-- An object is downgraded and upgraded again.
def upgrades : List (Label 1 Bool Unit) :=
  .thread (some true) (.new 0) :: runs true 2 ++
    .thread (some true) (.downgrade 0) :: runs true 1 ++ .thread (some true) (.alloc 1) :: runs true 5 ++
    .thread (some true) (.upgrade 1 (Fin.last 0)) :: runs true 3

def upgraded : State 1 Bool Unit :=
  (System.exec next empty upgrades).getD empty

theorem upgraded_reachable : (systemNoCas 1 Bool Unit).Reachable upgraded :=
  have he : System.exec next empty upgrades = some upgraded := rfl
  (System.run_restrict_of_exec (by decide) he).reachable (.init empty_initial)

theorem upgrade_unfreed_upgraded :
    upgraded.mem.pc (some true) = .readLeave (.weak 1) 0 (some 0) ∧ upgraded.mem.freed 0 = 0 :=
  ⟨rfl, (upgrade_unfreed upgraded_reachable).right.left (some true) 0 1 0 rfl⟩

end State
end Sdarc
