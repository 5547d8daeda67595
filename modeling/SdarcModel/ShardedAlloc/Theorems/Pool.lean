import SdarcModel.Library.Pool
import SdarcModel.Library.Simulation
import SdarcModel.ShardedAlloc.Theorems.Safety
import Mathlib.Logic.Embedding.Basic

namespace ShardedAlloc.State

variable {n : Nat} {T α : Type} {s s' : State n T} {t : T}

-- The addresses given out and not yet given back.
def inUse (address : ShardedDataPtr ↪ α) (s : State n T) : Set α :=
  {a | ∃ p ∈ s.live, address p = a}

-- An allocation ends with its last `init_func`, a deallocation is one access.
def poolOp (address : ShardedDataPtr ↪ α) (s : State n T) : T × Act n → Option (Pool.Op T α)
  | (t, .deallocate p) => some (.give t (address p))
  | (t, .run) =>
    match s.pc t with
    | .init _ u _ slot k => if k < n then none else some (.take t (address ⟨u, slot⟩))
    | _                  => none
  | _ => none

variable {address : ShardedDataPtr ↪ α}

theorem inUse_eq (h : s'.live = s.live) : s'.inUse address = s.inUse address := by
  simp only [inUse, h]

theorem inUse_give (h : s'.live = p :: s.live) : s'.inUse address = insert (address p) (s.inUse address) := by
  ext a
  simp [inUse, h, eq_comm]

theorem inUse_take (o : WellOwned s) (h : s'.live = s.live.erase p) : s'.inUse address = s.inUse address \ {address p} := by
  ext a
  simp only [inUse, h, o.nodup.mem_erase_iff, Set.mem_ofPred_eq, Set.mem_sdiff, Set.mem_singleton_iff]
  constructor
  case mp =>
    rintro ⟨q, ⟨hne, hq⟩, rfl⟩
    exact ⟨⟨q, hq, rfl⟩, fun he => hne (address.injective he)⟩
  case mpr =>
    rintro ⟨⟨q, hq, rfl⟩, hne⟩
    exact ⟨q, ⟨fun he => hne (he ▸ rfl), hq⟩, rfl⟩

variable [DecidableEq T]

theorem deallocate_live (h : s.nextOf t (.deallocate p) = some s') : p ∈ s.live ∧ s'.live = s.live.erase p := by
  simp only [nextOf, Option.ite_none_right_eq_some, Option.some.injEq] at h
  obtain ⟨⟨_, hp⟩, rfl⟩ := h
  refine ⟨hp, ?_⟩
  simp only [clearFlag]
  split <;> rfl

-- The accesses of a call change what is given out only where an allocation ends.
theorem run_live (address : ShardedDataPtr ↪ α) (v : s.FlagsValid) (h : s.run t = some s') :
    s'.live = s.live ∧ s.poolOp address (t, .run) = none ∨
      ∃ i u fresh slot k, s.pc t = .init i u fresh slot k ∧ ¬k < n ∧ s'.live = ⟨u, slot⟩ :: s.live := by
  have st := Step.of_nextOf v (a := .run) h
  induction st
  case initNewUnit i u slot k pc hk => exact .inr ⟨i, u, true, slot, k, pc, hk, rfl⟩
  case initUnit i u slot k pc hk    => exact .inr ⟨i, u, false, slot, k, pc, hk, rfl⟩
  case init pc hk                   => exact .inl ⟨rfl, by simp [poolOp, pc, hk]⟩
  case initPanics pc hk             => exact .inl ⟨rfl, by simp [poolOp, pc, hk]⟩
  all_goals first
    | exact .inl ⟨rfl, by simp only [poolOp, *]⟩
    | simp [run, *] at h

-- What is given out is a pool: an allocation gives out an address which nobody has, and every deallocation
-- gives back one that somebody has.
theorem inUse_simulates (address : ShardedDataPtr ↪ α) :
    (Pool.system T α).Simulates (system n T) (inUse address) (poolOp address) where
  init s h := by
    simp [Pool.system, inUse, State.Initial.live h]
  step s₁ l s₂ op hr stp hop := by
    obtain ⟨t, a⟩ := l
    have so := Sound.reachable hr
    cases a <;> simp only [poolOp, reduceCtorEq, Option.some.injEq] at hop
    case deallocate p =>
      obtain ⟨hp, hl⟩ := deallocate_live stp
      rw [← hop, inUse_take so.owned hl]
      exact .give ⟨p, hp, rfl⟩
    case run =>
      rcases run_live address so.flags stp with ⟨_, none⟩ | ⟨i, u, fresh, slot, k, pc, hk, hl⟩
      case inl => simp [poolOp, hop] at none
      case inr =>
        obtain rfl : Pool.Op.take t (address ⟨u, slot⟩) = op := by simpa [pc, hk] using hop
        have hc := (so.owned.claims t ⟨u, slot⟩ (by simp [pc, Pc.Claims])).left
        rw [inUse_give hl]
        exact .take fun ⟨p, hp, he⟩ => hc (address.injective he ▸ hp)
  stutter s₁ l s₂ hr stp hop := by
    obtain ⟨t, a⟩ := l
    have so := Sound.reachable hr
    refine inUse_eq ?_
    cases a <;> simp only [system, System.ofNext, nextOf, Option.ite_none_right_eq_some, Option.some.injEq] at stp
    case deallocate => simp [poolOp] at hop
    case run =>
      rcases run_live address so.flags stp with ⟨hl, _⟩ | ⟨i, u, fresh, slot, k, pc, hk, _⟩
      case inl => exact hl
      case inr => simp [poolOp, pc, hk] at hop
    case initPanics =>
      split at stp <;> simp only [Option.ite_none_right_eq_some, Option.some.injEq, reduceCtorEq] at stp
      exact stp.right ▸ rfl
    all_goals exact stp.right ▸ rfl

end ShardedAlloc.State
