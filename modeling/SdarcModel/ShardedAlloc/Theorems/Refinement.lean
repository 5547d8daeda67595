import SdarcModel.ShardedAlloc.Theorems.Pool
import SdarcModel.ShardedAlloc.Theorems.Report
import SdarcModel.ShardedAlloc.Theorems.Sequential

namespace ShardedAlloc

open Heap (Alike)

-- The slot that an act of another thread gives back.
def Act.freed : Act n → Option ShardedDataPtr
  | .deallocate p => some p
  | _             => none

theorem Act.freed_eq {a : Act n} (h : a.freed = some p) : a = .deallocate p := by
  cases a <;> simp_all [freed]

-- `init_func` panics where the run does.
def Act.Follows (initFunc : Fin n → Option V) (pc : Pc n) (a : Act n) : Prop :=
  ∀ i u fresh slot k (hk : k < n), pc = .init i u fresh slot k → (a = .initPanics ↔ initFunc ⟨k, hk⟩ = none)

namespace State

variable {n : Nat} {T V : Type} {s s' : State n T} {t v : T} {i : Fin n} {initFunc : Fin n → Option V} {h h' : Heap n V}

-- The units that a call of `t` has to do with while it holds the lock of shard `i`.
def Concerns (s : State n T) (t : T) (i : Fin n) (u : AllocUnit) : Prop :=
  u ∈ (s.groups i).allUnits ∨ (s.pc t).Fresh u

def Agrees (s : State n T) (t : T) (i : Fin n) (h : Heap n V) : Prop :=
  ∀ p, s.Concerns t i p.unit → h.usageFlag p = s.usageFlag p

-- The others work on units of their own.
theorem Sound.not_concerns (so : Sound s) (hv : v ≠ t) (hi : (s.pc t).Holds i)
    (hu : (s.pc v).Fresh u ∨ ∃ j, (s.pc v).Uses j u) : ¬s.Concerns t i u := by
  rintro (hm | hf)
  case inl =>
    rcases hu with hf | ⟨j, hj⟩
    case inl => exact (so.placed.fresh v u hf).right.right.left (some i) hm
    case inr =>
      have hlock := so.locked.shard v j |>.mp hj.holds
      obtain rfl : i = j := Option.some.inj (so.placed.disjoint u (some i) (some j) hm (so.placed.uses v j u hj))
      rw [so.locked.shard t i |>.mp hi] at hlock
      exact hv (Option.some.inj hlock).symm
  case inr =>
    obtain ⟨-, -, hg, ht⟩ := so.placed.fresh t u hf
    rcases hu with hf' | ⟨j, hj⟩
    case inl => exact hv (ht v hf')
    case inr => exact hg (some j) (so.placed.uses v j u hj)

theorem Sound.lt_of_concerns (so : Sound s) (hc : s.Concerns t i u) : u < s.next :=
  hc.elim (so.placed.lt u (some i)) fun hf => (so.placed.fresh t u hf).left

-- What a step of another thread is to the call.
structure Beside (s s' : State n T) (t : T) (i : Fin n) (freed : Option ShardedDataPtr) : Prop where
  pc     : s'.pc t = s.pc t
  groups : s'.groups i = s.groups i
  next   : s.next ≤ s'.next
  flags  : ∀ p, s.Concerns t i p.unit → s'.usageFlag p = if freed = some p then 0 else s.usageFlag p
  live   : ∀ p, p.unit ∈ (s.groups i).allUnits → p ∈ s'.live → p ∈ s.live ∧ freed ≠ some p
  freed  : ∀ p, freed = some p → p ∈ s.live

variable [DecidableEq T]

theorem Sound.beside_run (so : Sound s) (hv : v ≠ t) (hi : (s.pc t).Holds i) (st : s.run v = some s') :
    Beside s s' t i none := by
  have st' := Step.of_run so.flags st
  have busy : s.pc v ≠ .idle := fun pc => by simp [run, pc] at st
  have scan i' u fresh j (pc : s.pc v = .scan i' u fresh j) : ¬s.Concerns t i u :=
    so.not_concerns hv hi (by cases fresh <;> simp [pc, Pc.Fresh, Pc.Uses])
  have claims p (hp : (s.pc v).Claims p) : ¬s.Concerns t i p.unit := so.not_concerns hv hi hp.fresh_or_uses
  clear st
  constructor
  case pc     => exact st'.pc_of_ne hv.symm
  case groups => exact so.locked.groups_eq st' hi hv.symm
  case next   => induction st' <;> simp
  case flags =>
    intro p hp
    have := so.lt_of_concerns hp
    simp only [reduceCtorEq, if_false]
    clear so hi hv
    induction st' <;> first
      | rfl
      | grind
  case live =>
    intro p hp hl
    have := so.lt_of_concerns (t := t) (.inl hp)
    have hc : s.Concerns t i p.unit := .inl hp
    refine ⟨?_, by simp⟩
    clear so hi hv
    induction st' <;> first
      | exact hl
      | grind
  case freed => simp

theorem Sound.beside (so : Sound s) (hv : v ≠ t) (hi : (s.pc t).Holds i) (st : s.nextOf v a = some s') :
    Beside s s' t i a.freed := by
  cases a
  case run => exact so.beside_run hv hi st
  case deallocate p =>
    obtain ⟨hp, hl⟩ := deallocate_live st
    have hf : s.usageFlag p = 1 := so.owned.used p |>.mpr (.inl hp)
    simp only [nextOf, clearFlag, hf, if_true, id_eq, Option.ite_none_right_eq_some, Option.some.injEq] at st
    obtain ⟨-, rfl⟩ := st
    constructor
    case flags => intro q _; simp [Act.freed, Function.update_apply, eq_comm]
    case live =>
      intro q _ hq
      have := so.owned.nodup.mem_erase_iff.mp hq
      exact ⟨this.right, fun he => this.left (Option.some.inj he).symm⟩
    case freed => rintro q ⟨⟩; exact hp
    all_goals simp
  case initPanics =>
    simp only [nextOf] at st
    split at st <;> simp only [Option.ite_none_right_eq_some, Option.some.injEq, reduceCtorEq] at st
    obtain ⟨-, rfl⟩ := st
    constructor <;> simp [Act.freed, hv.symm]
  all_goals
    simp only [nextOf, Option.ite_none_right_eq_some, Option.some.injEq] at st
    obtain ⟨⟨-, free⟩, rfl⟩ := st
    constructor <;> simp [Act.freed, hv.symm]

-- A step of the call itself, on a heap that has seen the deallocations so far.
structure Resumed (initFunc : Fin n → Option V) (s s' : State n T) (t : T) (i : Fin n) (h h' : Heap n V) : Prop where
  agrees : s'.Agrees t i h'
  clock  : h.clock ≤ h'.clock
  next   : h'.next = h.next ∨ ∃ u, (s'.pc t).Fresh u
  resume : ∀ env, (h.clock < h'.clock → env h.clock = []) →
    resume env initFunc (s.groups i) h (s.pc t) = resume env initFunc (s'.groups i) h' (s'.pc t)

omit [DecidableEq T] in
theorem Agrees.setFlag (ag : s.Agrees t i h) (hc : ∀ u, s'.Concerns t i u → s.Concerns t i u)
    (hs : s'.usageFlag = Function.update s.usageFlag p x) : s'.Agrees t i (h.access.setFlag p x) := by
  intro q hq
  have := ag q (hc _ hq)
  by_cases he : q = p <;> simp [Heap.access, Heap.setFlag, hs, he, this]

omit [DecidableEq T] in
-- A step that swaps a usage flag.
theorem Agrees.resumed_setFlag (ag : s.Agrees t i h) (hc : ∀ u, s'.Concerns t i u → s.Concerns t i u)
    (hs : s'.usageFlag = Function.update s.usageFlag p x)
    (hr : ∀ env, env h.clock = [] → resume env initFunc (s.groups i) h (s.pc t) =
      resume env initFunc (s'.groups i) (h.access.setFlag p x) (s'.pc t)) :
    Resumed initFunc s s' t i h (h.access.setFlag p x) where
  agrees        := ag.setFlag hc hs
  clock         := Nat.le_succ _
  next          := .inl rfl
  resume env he := hr env (he (Nat.lt_succ_self _))

omit [DecidableEq T] in
theorem Sound.concerns_scan (so : Sound s) (pc : s.pc t = .scan i u fresh j) : s.Concerns t i u := by
  cases fresh
  case true  => exact .inr (by simp [pc, Pc.Fresh])
  case false => exact .inl (so.placed.uses t i u (by simp [pc, Pc.Uses]))

theorem initPanics_iff (pc : s.pc t = .init i u fresh slot k) (hk : k < n) (st : s.nextOf t a = some s') :
    a = .initPanics ↔ s'.pc t = .unwind i u fresh slot := by
  cases a <;> simp [nextOf, run, pc, hk] at st ⊢
  all_goals simp [← st]

theorem resumed (so : Sound s) (hi : (s.pc t).Holds i) (hp : (s.pc t).Allocates) (fo : a.Follows initFunc (s.pc t))
    (st : s.nextOf t a = some s') (busy : s'.pc t ≠ .idle) (ag : s.Agrees t i h)
    (hn : s.pc t = .allocate i → (s.groups i).indexesOfUnitsToCheckForAllocation = [] → h.next = s.next) :
    ∃ h', Resumed initFunc s s' t i h h' := by
  have so' := so.step (.of_nextOf so.flags st)
  have live := so'.live t
  cases State.Step.of_nextOf so.flags st
  case newUnit j pc empty =>
    obtain rfl : j = i := by simpa [pc, Pc.Holds] using hi
    have hn := hn pc empty
    refine ⟨h.newUnit, fun p hc => ?agrees, Nat.le_refl _, .inr ⟨s.next, by simp [Pc.Fresh]⟩, fun env _ => ?resume⟩
    case agrees =>
      by_cases hu : p.unit = s.next
      case pos => simp [Heap.newUnit, hn, hu]
      case neg =>
        have hc : s.Concerns t j p.unit := .inl (by simpa [Concerns, Pc.Fresh, Ne.symm hu] using hc)
        simpa [Heap.newUnit, hn, hu] using ag p hc
    case resume =>
      rw [pc, Resume.newUnit empty, hn]
      simp
  case tryUnit j k ks u pc first unit =>
    obtain rfl : j = i := by simpa [pc, Pc.Holds] using hi
    refine ⟨h, fun p hc => ag p ?_, Nat.le_refl _, .inl rfl, fun env _ => ?_⟩
    · simpa [Concerns, Pc.Fresh] using hc.imp_right (by simp [Pc.Fresh])
    · rw [pc, Resume.tryUnit first unit]
      simp
  case scanUnused j u fresh m pc hm flag =>
    obtain rfl : j = i := by simpa [pc, Pc.Holds] using hi
    have hf := (ag _ (so.concerns_scan pc)).trans flag
    refine ⟨h.access.setFlag ⟨u, m, hm⟩ 1, ag.resumed_setFlag (fun u' hc => ?_) rfl fun env he => ?_⟩
    · simpa [Concerns, pc, Pc.Fresh] using hc
    · rw [pc, Resume.scanUnused he hm hf]
      simp
  case scanUsed j u fresh m pc hm flag =>
    obtain rfl : j = i := by simpa [pc, Pc.Holds] using hi
    have hf := (ag _ (so.concerns_scan pc)).trans flag
    refine ⟨h.access.setFlag ⟨u, m, hm⟩ 1, ag.resumed_setFlag (fun u' hc => ?_) rfl fun env he => ?_⟩
    · simpa [Concerns, pc, Pc.Fresh] using hc
    · rw [pc, Resume.scanUsed he hm hf]
      simp
  case scanFull j u m pc hm =>
    obtain rfl : j = i := by simpa [pc, Pc.Holds] using hi
    refine ⟨h, fun p hc => ag p ?_, Nat.le_refl _, .inl rfl, fun env _ => ?_⟩
    · simpa [Concerns, Pc.Fresh, pc, AllocUnitGroup.removeFirstIndex_allUnits] using hc
    · rw [pc, Resume.scanFull hm]
      simp
  case init j u fresh slot k pc hk =>
    obtain rfl : j = i := by simpa [pc, Pc.Holds] using hi
    have runs : ¬initFunc ⟨k, hk⟩ = none := by
      rw [← fo j u fresh slot k hk pc, initPanics_iff pc hk st]
      simp
    obtain ⟨v, hv⟩ := Option.ne_none_iff_exists'.mp runs
    refine ⟨h.write ⟨u, slot⟩ ⟨k, hk⟩ v, fun p hc => ag p ?_, Nat.le_refl _, .inl rfl, fun env _ => ?_⟩
    · simpa [Concerns, pc, Pc.Fresh] using hc
    · rw [pc, Resume.init hk hv]
      simp
  case initPanics j u fresh slot k pc hk =>
    obtain rfl : j = i := by simpa [pc, Pc.Holds] using hi
    have panics : initFunc ⟨k, hk⟩ = none := by
      rw [← fo j u fresh slot k hk pc, initPanics_iff pc hk st]
      simp
    have hd : (shardIndexesUntil (⟨k, hk⟩ : Fin n)).Nodup := (List.nodup_finRange n).sublist (List.take_sublist ..)
    obtain ⟨cell, he⟩ := dropInPlace_foldl (h := h) ⟨u, slot⟩ hd
    refine ⟨(shardIndexesUntil ⟨k, hk⟩).foldl (·.dropInPlace ⟨u, slot⟩) h, fun p hc => ?_, ?_, .inl ?_, fun env _ => ?_⟩
    · rw [he]
      exact ag p (by simpa [Concerns, pc, Pc.Fresh] using hc)
    · rw [he]
    · rw [he]
    · rw [pc, Resume.initPanics hk panics]
      simp
  case unwindNewUnit j u slot pc used =>
    obtain rfl : j = i := by simpa [pc, Pc.Holds] using hi
    have hf := (ag ⟨u, slot⟩ (.inr (by simp [pc, Pc.Fresh]))).trans used
    refine ⟨h.access.setFlag ⟨u, slot⟩ 0, ag.resumed_setFlag (fun u' hc => ?_) rfl fun env he => ?_⟩
    · simpa [Concerns, pc, Pc.Fresh] using hc
    · rw [pc, Resume.unwindNewUnit he hf]
      simp
  case dropNewUnit j u m pc hm flag =>
    obtain rfl : j = i := by simpa [pc, Pc.Holds] using hi
    have hf := (ag ⟨u, m, hm⟩ (.inr (by simp [pc, Pc.Fresh]))).trans flag
    refine ⟨h.access, fun p hc => ag p ?_, Nat.le_succ _, .inl rfl, fun env he => ?_⟩
    · simpa [Concerns, pc, Pc.Fresh] using hc
    · rw [pc, Resume.dropNewUnit (he (Nat.lt_succ_self _)) hm hf]
      simp
  all_goals simp_all [Pc.Allocates]

-- What the steps of the call keep as long as it lasts.
structure Kept (s s' : State n T) (t : T) (i : Fin n) : Prop where
  allocates : (s'.pc t).Allocates
  holds     : (s'.pc t).Holds i
  live      : s'.live = s.live
  allUnits  : (s'.groups i).allUnits = (s.groups i).allUnits
  next      : s.next ≤ s'.next
  fresh     : ∀ u, (s.pc t).Fresh u → (s'.pc t).Fresh u

theorem Step.kept (st : Step s t s') (hi : (s.pc t).Holds i) (hp : (s.pc t).Allocates) (busy : s'.pc t ≠ .idle)
    (live : ∀ e, s'.pc t ≠ .panicked e) : Kept s s' t i := by
  induction st
  -- the steps of other calls and those that end this one are excluded
  all_goals first
    | simp_all [Pc.Allocates]; done
    | constructor <;> simp_all [Pc.Allocates, Pc.Holds, Pc.Fresh, AllocUnitGroup.removeFirstIndex_allUnits]

-- What the state after the call has in common with the result of the sequential function.
structure Returned (s : State n T) (i : Fin n) (env : Nat → List ShardedDataPtr)
    (r : Except Unwind ShardedDataPtr × AllocUnitGroup × Heap n V) : Prop where
  group  : r.2.1 = s.groups i
  flags  : ∀ p, p.unit ∈ (s.groups i).allUnits → (r.2.2.tick env).usageFlag p = s.usageFlag p
  result : match r.1 with
    | .ok p    => s.live.head? = some p
    | .error e => e = .initFunc

omit [DecidableEq T] in
theorem Returned.alike (re : Returned s i env' b) (al : AlikeResults env env' a b) : Returned s i env a where
  group  := al.right.left.trans re.group
  flags  := al.right.right.tick ▸ re.flags
  result := al.left ▸ re.result

theorem returned (so : Sound s) (hi : (s.pc t).Holds i) (hp : (s.pc t).Allocates) (st : s.nextOf t a = some s')
    (idle : s'.pc t = .idle) (ag : s.Agrees t i h) :
    Returned s' i (fun _ => []) (resume (fun _ => []) initFunc (s.groups i) h (s.pc t)) := by
  cases State.Step.of_nextOf so.flags st
  case initNewUnit j u slot k pc hk =>
    obtain rfl : j = i := by simpa [pc, Pc.Holds] using hi
    rw [pc, Resume.initialized hk]
    refine ⟨by simp, fun p hm => ?_, by simp⟩
    have hc : s.Concerns t j p.unit := by simpa [Concerns, pc, Pc.Fresh, AllocUnitGroup.pushUnit, eq_comm] using hm
    simpa [Heap.tick] using ag p hc
  case initUnit j u slot k pc hk =>
    obtain rfl : j = i := by simpa [pc, Pc.Holds] using hi
    rw [pc, Resume.initialized hk]
    exact ⟨rfl, fun p hm => by simpa [Heap.tick] using ag p (.inl hm), rfl⟩
  case unwindUnit j u slot pc used =>
    obtain rfl : j = i := by simpa [pc, Pc.Holds] using hi
    have hu : u ∈ (s.groups j).allUnits := so.placed.uses t j u (by simp [pc, Pc.Uses])
    rw [pc, Resume.unwindUnit rfl ((ag ⟨u, slot⟩ (.inl hu)).trans used)]
    have ag' : (s.setFlag ⟨u, slot⟩ 0).Agrees t j (h.access.setFlag ⟨u, slot⟩ 0) := ag.setFlag (fun _ => id) rfl
    exact ⟨rfl, fun p hm => by simpa [Heap.tick] using ag' p (.inl hm), rfl⟩
  case droppedNewUnit j u m pc hm =>
    obtain rfl : j = i := by simpa [pc, Pc.Holds] using hi
    rw [pc, Resume.droppedNewUnit hm]
    exact ⟨rfl, fun p hm => by simpa [Heap.tick, Heap.dealloc] using ag p (.inl hm), rfl⟩
  all_goals simp_all [Pc.Allocates]

-- The deallocations that the others make during the run, each before one access.
structure Others (s : State n T) (tr : List (State n T × T × Act n)) (t : T) (i : Fin n) (clock : Nat)
    (env : Nat → List ShardedDataPtr) : Prop where
  later : ∀ c < clock, env c = []
  live  : ∀ c, ∀ p ∈ env c, p.unit ∈ (s.groups i).allUnits ∧ p ∈ s.live
  made  : ∀ c, ∀ p ∈ env c, ∃ e ∈ tr, e.2.1 ≠ t ∧ e.2.2 = .deallocate p
  once  : ∀ c c' p, p ∈ env c → p ∈ env c' → c = c'

namespace Others

variable {tr : List (State n T × T × Act n)} {e : State n T × T × Act n}

omit [DecidableEq T]

theorem nil : Others s tr t i clock fun _ => [] := by
  constructor <;> simp

theorem own (ot : Others s' tr t i clock' env) (k : Kept s s' t i) (hc : clock ≤ clock') :
    Others s (e :: tr) t i clock env where
  later c hlt   := ot.later c (hlt.trans_le hc)
  live c p hp   := k.allUnits ▸ k.live ▸ ot.live c p hp
  made c p hp   := by
    obtain ⟨e', he, hm⟩ := ot.made c p hp
    exact ⟨e', List.mem_cons_of_mem _ he, hm⟩
  once          := ot.once

theorem beside (ot : Others s' tr t i clock env) (be : Beside s s' t i freed) : Others s (e :: tr) t i clock env where
  later       := ot.later
  live c p hp := by
    obtain ⟨hm, hl⟩ := ot.live c p hp
    rw [be.groups] at hm
    exact ⟨hm, (be.live p hm hl).left⟩
  made c p hp := by
    obtain ⟨e', he, hm⟩ := ot.made c p hp
    exact ⟨e', List.mem_cons_of_mem _ he, hm⟩
  once        := ot.once

theorem deallocate (ot : Others s' tr t i clock env) (be : Beside s s' t i (some p)) (hv : v ≠ t)
    (hm : p.unit ∈ (s.groups i).allUnits) :
    Others s ((s, v, .deallocate p) :: tr) t i clock (Function.update env clock (p :: env clock)) := by
  have ot' := ot.beside be (e := (s, v, .deallocate p))
  have hn c : p ∉ env c := by
    intro hp
    obtain ⟨hm, hl⟩ := ot.live c p hp
    exact (be.live p (be.groups ▸ hm) hl).right rfl
  have cases c q (hq : q ∈ Function.update env clock (p :: env clock) c) : c = clock ∧ q = p ∨ q ∈ env c := by
    by_cases hc : c = clock
    case pos => subst hc; simpa using hq
    case neg => exact .inr (by simpa [hc] using hq)
  constructor
  case later =>
    intro c hlt
    rw [Function.update_of_ne hlt.ne, ot.later c hlt]
  case live =>
    intro c q hq
    rcases cases c q hq with ⟨-, rfl⟩ | hq
    case inl => exact ⟨hm, be.freed q rfl⟩
    case inr => exact ot'.live c q hq
  case made =>
    intro c q hq
    rcases cases c q hq with ⟨-, rfl⟩ | hq
    case inl => exact ⟨_, List.mem_cons_self, hv, rfl⟩
    case inr => exact ot'.made c q hq
  case once =>
    intro c c' q hq hq'
    rcases cases c q hq with ⟨hc, rfl⟩ | hq <;> rcases cases c' q hq' with ⟨hc', he⟩ | hq'
    · rw [hc, hc']
    · exact absurd hq' (hn c')
    · exact absurd (he ▸ hq) (hn c)
    · exact ot.once c c' q hq hq'

end Others

theorem Step.fresh_of_newUnit (st : Step s t s') (pc : s.pc t = .allocate i)
    (hg : (s.groups i).indexesOfUnitsToCheckForAllocation = []) : (s'.pc t).Fresh s.next := by
  induction st <;> simp_all [Pc.Fresh]

omit [DecidableEq T] in
theorem Sound.live_not_fresh (so : Sound s) (hp : p ∈ s.live) : ¬(s.pc t).Fresh p.unit := by
  intro hf
  obtain ⟨-, g, hg⟩ := so.owned.live p hp
  exact (so.placed.fresh t _ hf).right.right.left g hg

-- The induction is on the run, from its end: a heap that the sequential function starts from has to be
-- extended by what the others do later.
theorem refined (so : Sound s) (hi : (s.pc t).Holds i) (hp : (s.pc t).Allocates) (r : (system n T).Run s tr s')
    (busy : ∀ e ∈ tr, e.1.pc t ≠ .idle) (idle : s'.pc t = .idle)
    (fo : ∀ e ∈ tr, e.2.1 = t → e.2.2.Follows initFunc (e.1.pc t)) :
    ∃ next, s.next ≤ next ∧ ∀ h : Heap n V, s.Agrees t i h → (h.next = next ∨ ∃ u, (s.pc t).Fresh u) →
      ∃ env, Others s tr t i h.clock env ∧ Returned s' i env (resume env initFunc (s.groups i) h (s.pc t)) := by
  induction r
  case refl => simp [idle, Pc.Allocates] at hp
  case step s₁ l s₂ tr s₃ stp r ih =>
    obtain ⟨v, a⟩ := l
    have st := Step.of_nextOf so.flags stp
    have so₂ := so.step st
    have ih := fun hi hp => ih so₂ hi hp (fun e he => busy e (List.mem_cons_of_mem _ he)) idle
      fun e he => fo e (List.mem_cons_of_mem _ he)
    by_cases hv : v = t
    case pos =>
      subst hv
      by_cases idle' : s₂.pc v = .idle
      case pos =>
        cases r
        case refl => exact ⟨_, Nat.le_refl _, fun h ag _ => ⟨_, .nil, returned so hi hp stp idle' ag⟩⟩
        case step => exact absurd idle' (busy _ (List.mem_cons_of_mem _ List.mem_cons_self))
      case neg =>
        have k := st.kept hi hp idle' (so₂.live v)
        have fo := fo _ List.mem_cons_self rfl
        obtain ⟨next, hle, ih⟩ := ih k.holds k.allocates
        by_cases hc : s₁.pc v = .allocate i ∧ (s₁.groups i).indexesOfUnitsToCheckForAllocation = []
        case pos =>
          refine ⟨s₁.next, Nat.le_refl _, fun h ag hn => ?_⟩
          have hn := hn.resolve_right (by simp [hc, Pc.Fresh])
          obtain ⟨h', re⟩ := resumed so hi hp fo stp idle' ag fun _ _ => hn
          obtain ⟨env, ot, ret⟩ := ih h' re.agrees (.inr ⟨_, st.fresh_of_newUnit hc.left hc.right⟩)
          exact ⟨env, ot.own k re.clock, re.resume env (ot.later _) ▸ ret⟩
        case neg =>
          refine ⟨next, k.next.trans hle, fun h ag hn => ?_⟩
          obtain ⟨h', re⟩ := resumed so hi hp fo stp idle' ag fun pc hg => absurd ⟨pc, hg⟩ hc
          have hn' : h'.next = next ∨ ∃ u, (s₂.pc v).Fresh u := by
            rcases re.next with he | hf
            · exact hn.imp he.trans fun ⟨u, hu⟩ => ⟨u, k.fresh u hu⟩
            · exact .inr hf
          obtain ⟨env, ot, ret⟩ := ih h' re.agrees hn'
          exact ⟨env, ot.own k re.clock, re.resume env (ot.later _) ▸ ret⟩
    case neg =>
      have be := so.beside hv hi stp
      obtain ⟨next, hle, ih⟩ := ih (be.pc ▸ hi) (be.pc ▸ hp)
      rw [be.pc, be.groups] at ih
      refine ⟨next, be.next.trans hle, fun h ag hn => ?_⟩
      have concerns u (hc : s₂.Concerns t i u) : s₁.Concerns t i u := by simpa [Concerns, be.pc, be.groups] using hc
      by_cases hm : ∃ p, a = .deallocate p ∧ p.unit ∈ (s₁.groups i).allUnits
      case pos =>
        obtain ⟨p, rfl, hm⟩ := hm
        have ag' : s₂.Agrees t i { h with usageFlag := Function.update h.usageFlag p 0 } := by
          intro q hq
          rw [be.flags q (concerns _ hq)]
          by_cases he : q = p
          · simp [Act.freed, he]
          · simp [Act.freed, he, Ne.symm he, ag q (concerns _ hq)]
        obtain ⟨env, ot, ret⟩ := ih _ ag' hn
        exact ⟨_, ot.deallocate be hv hm, ret.alike (resume_alike _ _ (Alike.deallocated env h p))⟩
      case neg =>
        have ag' : s₂.Agrees t i h := by
          intro q hq
          have hf : a.freed ≠ some q := fun he =>
            (concerns _ hq).elim (fun hm' => hm ⟨q, Act.freed_eq he, hm'⟩) (so.live_not_fresh (be.freed q he))
          rw [be.flags q (concerns _ hq), if_neg hf]
          exact ag q (concerns _ hq)
        obtain ⟨env, ot, ret⟩ := ih h ag' hn
        exact ⟨env, ot.beside be, ret⟩

-- The heap for a call of the sequential function that begins in this state. Other threads may take the units up
-- to `u` before the call makes one.
def heap (s : State n T) (u : AllocUnit) : Heap n V where
  next        := u
  usageFlag   := s.usageFlag
  deallocated := s.deallocated
  cell _ _    := none
  dropped     := []
  clock       := 0

omit [DecidableEq T] in
theorem Sound.ready (so : Sound s) (i : Fin n) (hn : s.next ≤ u) : Ready (s.groups i) (s.heap (V := V) u) where
  flags      := so.flags
  units v hv := (so.placed.lt v (some i) hv).trans_le hn
  bounds     := so.scanned.bounds (some i)

omit [DecidableEq T] in
theorem Others.wellFreed (ot : Others s tr t i 0 env) (so : Sound s) (hn : s.next ≤ u) :
    Heap.WellFreed env (s.heap (V := V) u) where
  used c _ p hp := by
    obtain ⟨hm, hl⟩ := ot.live c p hp
    exact ⟨(so.placed.lt p.unit (some i) hm).trans_le hn, so.owned.used p |>.mpr (.inl hl)⟩
  once := ot.once

-- A call of `allocate` among other threads is the sequential one with their deallocations between its accesses:
-- it ends with the same group and usage flags, and gives out the same slot or unwinds with it.
theorem allocate_sequential (h : (system n T).Reachable s₁) (call : s₁.pc t = .allocate i)
    (run : (system n T).Run s₁ tr s₂) (busy : ∀ e ∈ tr, e.1.pc t ≠ .idle) (idle : s₂.pc t = .idle)
    (follows : ∀ e ∈ tr, e.2.1 = t → e.2.2.Follows initFunc (e.1.pc t)) :
    ∃ env u, Others s₁ tr t i 0 env ∧
      Returned s₂ i env (allocate env initFunc (s₁.groups i) (s₁.heap u)) ∧
      Ended env initFunc (s₁.groups i) (s₁.heap u) (allocate env initFunc (s₁.groups i) (s₁.heap u)) := by
  have so := Sound.reachable h
  have hi : (s₁.pc t).Holds i := by simp [call, Pc.Holds]
  obtain ⟨u, hn, seq⟩ := refined so hi (by simp [call, Pc.Allocates]) run busy idle follows
  obtain ⟨env, ot, ret⟩ := seq (s₁.heap u) (fun _ _ => rfl) (.inl rfl)
  rw [call] at ret
  exact ⟨env, u, ot, ret, ended initFunc (so.ready i hn) (ot.wellFreed so hn)⟩

-- A call that begins while the only slot given out is in use, and gets that slot.
def allocating : State 1 Bool :=
  (System.exec (fun s l => s.nextOf l.1 l.2) allocated [(true, .allocateAndInit (Fin.last 0))]).getD empty

def deallocatesAmid : List (Bool × Act 1) :=
  (true, .run) :: allocated.live.map (fun p => (false, .deallocate p)) ++ .replicate 3 (true, .run)

def allocatedAgain : State 1 Bool :=
  (System.exec (fun s l => s.nextOf l.1 l.2) allocating deallocatesAmid).getD empty

theorem allocate_sequential_again : ∃ env u p,
    (allocate env (fun _ : Fin 1 => some 7) (allocating.groups (Fin.last 0)) (allocating.heap u)).1 = .ok p ∧
      allocatedAgain.live = [p] ∧ allocated.live = [p] := by
  have ha : System.exec (fun s l => s.nextOf l.1 l.2) empty allocates = some allocated := rfl
  have hs : System.exec (fun s l => s.nextOf l.1 l.2) allocated [(true, .allocateAndInit (Fin.last 0))] =
    some allocating := rfl
  have hr : System.exec (fun s l => s.nextOf l.1 l.2) allocating deallocatesAmid = some allocatedAgain := rfl
  have busy : ∀ e ∈ System.trace (fun s l => s.nextOf l.1 l.2) allocating deallocatesAmid, e.1.pc true ≠ .idle := by
    decide
  have runs : ∀ e ∈ System.trace (fun s l => s.nextOf l.1 l.2) allocating deallocatesAmid, e.2.2 ≠ .initPanics := by
    decide
  have follows : ∀ e ∈ System.trace (fun s l => s.nextOf l.1 l.2) allocating deallocatesAmid, e.2.1 = true →
      e.2.2.Follows (fun _ => some 7) (e.1.pc true) := by
    intro e he _ _ _ _ _ _ _ _
    simp [runs e he]
  obtain ⟨env, u, -, ret, en⟩ := allocate_sequential (System.reachable_of_exec (reachable_of_exec ha) hs) rfl
    (System.run_of_exec hr) busy rfl follows
  have hl : allocatedAgain.live = [⟨0, 0, by decide⟩] := rfl
  refine ⟨env, u, ⟨0, 0, by decide⟩, ?_, hl, rfl⟩
  have result := ret.result
  rw [hl] at result
  generalize allocate env _ _ (allocating.heap u) = r at en result ⊢
  cases en
  case allocated     => simpa [eq_comm] using result
  case unwound hp _ _ => simp at hp

end State
end ShardedAlloc
