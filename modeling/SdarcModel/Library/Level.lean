import Mathlib.Data.List.Chain
import Mathlib.Data.Nat.Find

-- Relations without long chains: every element has a level, which goes up along the relation.
namespace Chain

variable {α : Type*} (R : α → α → Prop) (S : α → Prop)

-- A chain of `R` in `S` of length `k + 1` that ends in `a`.
def EndsIn (a : α) (k : Nat) : Prop :=
  ∃ l : List α, (∀ b ∈ l, S b) ∧ (l ++ [a]).IsChain R ∧ l.length = k

open Classical in
-- The length of the longest of those of length at most `L`.
noncomputable def level (L : Nat) (a : α) : Nat :=
  Nat.findGreatest (EndsIn R S a) (L - 1) + 1

variable {R S} {L : Nat} {a b : α}

theorem EndsIn.extend (h : EndsIn R S a k) (ha : S a) (hr : R a b) : EndsIn R S b (k + 1) := by
  obtain ⟨l, hl, hc, hk⟩ := h
  refine ⟨l ++ [a], ?_, ?_, by simp [hk]⟩
  · simp only [List.mem_append, List.mem_singleton]
    rintro c (h | rfl)
    · exact hl c h
    · exact ha
  · rw [List.isChain_append]
    refine ⟨hc, .singleton b, fun x hx y hy => ?_⟩
    simp only [List.getLast?_append, List.getLast?_singleton, List.head?_cons, Option.mem_def,
      Option.some.injEq, Option.some_or] at hx hy
    exact hx ▸ hy ▸ hr

variable (bound : ∀ l : List α, (∀ a ∈ l, S a) → l.IsChain R → l.length ≤ L)
include bound

theorem EndsIn.lt (h : EndsIn R S a k) (ha : S a) : k < L := by
  obtain ⟨l, hl, hc, rfl⟩ := h
  have := bound (l ++ [a]) (by grind) hc
  rw [List.length_append, List.length_singleton] at this
  omega

omit bound in
theorem level_pos : 0 < level R S L a :=
  Nat.succ_pos _

theorem level_le (ha : S a) : level R S L a ≤ L := by
  classical
  have h : EndsIn R S a 0 := ⟨[], by simp, .singleton a, rfl⟩
  have hl := h.lt bound ha
  have hg : Nat.findGreatest (EndsIn R S a) (L - 1) ≤ L - 1 := Nat.findGreatest_le _
  rw [level]
  omega

theorem level_lt (ha : S a) (hb : S b) (hr : R a b) : level R S L a < level R S L b := by
  classical
  have h₀ : EndsIn R S a 0 := ⟨[], by simp, .singleton a, rfl⟩
  have h : EndsIn R S a (Nat.findGreatest (EndsIn R S a) (L - 1)) := Nat.findGreatest_spec (Nat.zero_le _) h₀
  have h := h.extend ha hr
  have hl := h.lt bound hb
  have hg := Nat.le_findGreatest (Nat.le_sub_one_of_lt hl) h
  rw [level, level]
  omega

end Chain
