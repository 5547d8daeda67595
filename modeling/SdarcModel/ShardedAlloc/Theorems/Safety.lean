import SdarcModel.ShardedAlloc.Theorems.Slots

namespace ShardedAlloc.State

variable {n : Nat} {T : Type} {s s' : State n T} {t : T}

structure Sound (s : State n T) : Prop where
  flags   : s.FlagsValid
  locked  : WellLocked s
  placed  : WellPlaced s
  owned   : WellOwned s
  scanned : WellScanned s
  live    : ∀ t e, s.pc t ≠ .panicked e

namespace Sound

theorem initial (h : s.Initial) : Sound s where
  flags p  := .inl (h.usageFlag p)
  locked   := .initial h
  placed   := .initial h
  owned    := .initial h
  scanned  := .initial h
  live t e := by simp [h.pc]

variable [DecidableEq T]

theorem step (so : Sound s) (st : Step s t s') : Sound s' := by
  have np := st.not_panicked so.owned so.scanned (so.live t)
  exact {
    flags    := st.flagsValid so.flags
    locked   := so.locked.step st np
    placed   := so.placed.step so.locked st np
    owned    := so.owned.step so.placed so.scanned st
    scanned  := so.scanned.step so.placed so.owned so.flags st
    live v e := by
      by_cases hv : v = t
      case pos => exact hv ▸ np e
      case neg => exact st.pc_of_ne hv ▸ so.live v e }

theorem reachable (h : (system n T).Reachable s) : Sound s :=
  h.invariant (fun _ => .initial) fun _ l _ so hs => so.step (t := l.1) (.of_nextOf so.flags hs)

end Sound

end ShardedAlloc.State
