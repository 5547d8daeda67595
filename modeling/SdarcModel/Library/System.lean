import Mathlib.Logic.Relation

-- Labelled transition systems. A label fixes everything a step leaves open, so that a system given
-- by a partial function on states and labels (`ofNext`) can be run on a list of labels.
structure System (σ α : Type*) where
  Init : σ → Prop
  Step : σ → α → σ → Prop

namespace System

variable {σ α τ β : Type*}

def ofNext (init : σ → Prop) (next : σ → α → Option σ) : System σ α where
  Init := init
  Step s₁ a s₂ := next s₁ a = some s₂

-- The system whose runs are the runs of `S` in which every step meets the condition `c`.
def restrict (S : System σ α) (c : σ → α → σ → Prop) : System σ α where
  Init := S.Init
  Step s₁ a s₂ := S.Step s₁ a s₂ ∧ c s₁ a s₂

inductive Reachable (S : System σ α) : σ → Prop
  | init : S.Init s → Reachable S s
  | step : Reachable S s₁ → S.Step s₁ a s₂ → Reachable S s₂

-- A run from one state to another, with the state before each step and the step's label.
inductive Run (S : System σ α) : σ → List (σ × α) → σ → Prop
  | refl : Run S s [] s
  | step : S.Step s₁ a s₂ → Run S s₂ tr s₃ → Run S s₁ ((s₁, a) :: tr) s₃

variable {S : System σ α} {c : σ → α → σ → Prop} {I : σ → Prop}

theorem Reachable.invariant (h : S.Reachable s) (init : ∀ s, S.Init s → I s)
    (step : ∀ s₁ a s₂, I s₁ → S.Step s₁ a s₂ → I s₂) : I s := by
  induction h
  case init h         => exact init _ h
  case step _ stp ih  => exact step _ _ _ ih stp

-- An inductive invariant may use what is already known of reachable states.
theorem Reachable.invariant_with (h : S.Reachable s) {J : σ → Prop} (known : ∀ s, S.Reachable s → J s)
    (init : ∀ s, S.Init s → I s)
    (step : ∀ s₁ a s₂, J s₁ → J s₂ → I s₁ → S.Step s₁ a s₂ → I s₂) : I s := by
  induction h
  case init h          => exact init _ h
  case step hr stp ih  => exact step _ _ _ (known _ hr) (known _ (hr.step stp)) ih stp

theorem Reachable.restrict_invariant {c : σ → α → σ → Prop} (h : (S.restrict c).Reachable s)
    (init : ∀ s, S.Init s → I s) (step : ∀ s₁ a s₂, c s₁ a s₂ → I s₁ → S.Step s₁ a s₂ → I s₂) : I s :=
  h.invariant init fun _ _ _ hi stp => step _ _ _ stp.right hi stp.left

theorem Reachable.of_restrict (h : (S.restrict c).Reachable s) : S.Reachable s := by
  induction h
  case init h        => exact .init h
  case step _ stp ih => exact ih.step stp.left

namespace Run

theorem reachable (r : S.Run s₁ tr s₂) (h : S.Reachable s₁) : S.Reachable s₂ := by
  induction r
  case refl          => exact h
  case step stp _ ih => exact ih (h.step stp)

theorem invariant (r : S.Run s₁ tr s₂) (h : I s₁)
    (step : ∀ s₁ a s₂, I s₁ → S.Step s₁ a s₂ → I s₂) : I s₂ := by
  induction r
  case refl          => exact h
  case step stp _ ih => exact ih (step _ _ _ h stp)

theorem of_restrict (r : (S.restrict c).Run s₁ tr s₂) : S.Run s₁ tr s₂ := by
  induction r
  case refl          => exact .refl
  case step stp _ ih => exact .step stp.left ih

theorem trans (r₁ : S.Run s₁ tr₁ s₂) (r₂ : S.Run s₂ tr₂ s₃) : S.Run s₁ (tr₁ ++ tr₂) s₃ := by
  induction r₁
  case refl          => exact r₂
  case step stp _ ih => exact .step stp (ih r₂)

-- The run up to one of its steps, the step, and the run after it.
theorem split_append (r : S.Run s₁ (tr₁ ++ (s, a) :: tr₂) s₂) :
    ∃ s', S.Run s₁ tr₁ s ∧ S.Step s a s' ∧ S.Run s' tr₂ s₂ := by
  induction tr₁ generalizing s₁
  case nil =>
    cases r
    case step stp r => exact ⟨_, .refl, stp, r⟩
  case cons e tr₁ ih =>
    cases r
    case step stp r =>
      obtain ⟨s', r₁, h⟩ := ih r
      exact ⟨s', .step stp r₁, h⟩

theorem split (r : S.Run s₁ tr s₂) (h : (s, a) ∈ tr) :
    ∃ tr₁ tr₂ s', S.Run s₁ tr₁ s ∧ S.Step s a s' ∧ S.Run s' tr₂ s₂ := by
  obtain ⟨tr₁, tr₂, rfl⟩ := List.append_of_mem h
  exact ⟨tr₁, tr₂, r.split_append⟩

-- A number that a step raises by one at most takes every value on its way.
theorem exists_step {f : σ → Nat} (r : S.Run s₁ tr s₂) (h : I s₁)
    (inv : ∀ s₁ a s₂, I s₁ → S.Step s₁ a s₂ → I s₂)
    (step : ∀ s₁ a s₂, I s₁ → S.Step s₁ a s₂ → f s₂ ≤ f s₁ + 1) (h₁ : f s₁ ≤ k) (h₂ : k < f s₂) :
    ∃ tr₁ s a s' tr₂, tr = tr₁ ++ (s, a) :: tr₂ ∧ S.Run s₁ tr₁ s ∧ S.Step s a s' ∧ S.Run s' tr₂ s₂ ∧
      f s = k ∧ f s' = k + 1 := by
  induction r
  case refl => omega
  case step s₁ a s tr s₂ stp r ih =>
    have hs := step _ _ _ h stp
    by_cases hk : f s ≤ k
    case pos =>
      obtain ⟨tr₁, s', a', s'', tr₂, rfl, r₁, h'⟩ := ih (inv _ _ _ h stp) hk h₂
      exact ⟨_, s', a', s'', tr₂, rfl, .step stp r₁, h'⟩
    case neg => exact ⟨[], s₁, a, s, tr, rfl, .refl, stp, r, by omega, by omega⟩

theorem head {P : σ → Prop} (r : S.Run s₁ tr s₂) (h : ∀ e ∈ tr, P e.1) (hs : P s₂) : P s₁ := by
  cases r
  case refl => exact hs
  case step => exact h _ List.mem_cons_self

-- A run whose steps all meet a condition is a run of the system restricted to it.
theorem restrict {c : σ → α → Prop} (r : S.Run s₁ tr s₂) (h : ∀ e ∈ tr, c e.1 e.2) :
    (S.restrict fun s a _ => c s a).Run s₁ tr s₂ := by
  induction r
  case refl => exact .refl
  case step stp r ih =>
    rw [List.forall_mem_cons] at h
    exact .step ⟨stp, h.left⟩ (ih h.right)

-- A property of all states of a run is one of all its steps.
theorem restrict_of_forall {P : σ → Prop} (r : S.Run s₁ tr s₂) (h : ∀ e ∈ tr, P e.1) (hs : P s₂) :
    (S.restrict fun s _ s' => P s ∧ P s').Run s₁ tr s₂ := by
  induction r
  case refl => exact .refl
  case step stp r ih =>
    rw [List.forall_mem_cons] at h
    exact .step ⟨stp, h.left, r.head h.right hs⟩ (ih h.right hs)

-- A run has a property throughout just when each of its steps meets the condition `c` under which a
-- step keeps the property.
theorem forall_iff {P : σ → Prop} {c : σ → α → Prop} (r : S.Run s₁ tr s₂) (h : I s₁) (hp : P s₁)
    (step : ∀ s₁ a s₂, I s₁ → S.Step s₁ a s₂ → I s₂)
    (iff : ∀ s₁ a s₂, I s₁ → P s₁ → S.Step s₁ a s₂ → (P s₂ ↔ c s₁ a)) :
    (∀ e ∈ tr, c e.1 e.2) ↔ (∀ e ∈ tr, P e.1) ∧ P s₂ := by
  induction r
  case refl => simp [hp]
  case step s₁ a s₂ tr s₃ stp r ih =>
    have hc := iff _ _ _ h hp stp
    simp only [List.forall_mem_cons]
    by_cases hp₂ : P s₂
    case pos =>
      rw [ih (step _ _ _ h stp) hp₂]
      simp [hp, hc.mp hp₂]
    case neg =>
      have hn : ¬((∀ e ∈ tr, P e.1) ∧ P s₃) := by cases r <;> simp_all
      rw [and_assoc]
      simp only [mt hc.mpr hp₂, hn, false_and, and_false]

end Run

-- Running a list of labels: `none` once a label is not enabled.
def exec (next : σ → α → Option σ) : σ → List α → Option σ
  | s, []      => some s
  | s, a :: as => (next s a).bind (exec next · as)

theorem reachable_of_exec {init : σ → Prop} {next : σ → α → Option σ} {as : List α}
    (h : (ofNext init next).Reachable s₁) (he : exec next s₁ as = some s₂) :
    (ofNext init next).Reachable s₂ := by
  induction as generalizing s₁
  case nil => cases he; exact h
  case cons a as ih =>
    simp only [exec, Option.bind_eq_some_iff] at he
    have ⟨s, hs, he⟩ := he
    exact ih (h.step hs) he

-- The states before each of the steps of `exec`, with the step's label.
def trace (next : σ → α → Option σ) : σ → List α → List (σ × α)
  | _, []      => []
  | s, a :: as => (s, a) :: ((next s a).map (trace next · as)).getD []

theorem run_of_exec {init : σ → Prop} {next : σ → α → Option σ} {as : List α} (he : exec next s₁ as = some s₂) :
    (ofNext init next).Run s₁ (trace next s₁ as) s₂ := by
  induction as generalizing s₁
  case nil => cases he; exact .refl
  case cons a as ih =>
    simp only [exec, Option.bind_eq_some_iff] at he
    have ⟨s, hs, he⟩ := he
    simp only [trace, hs, Option.map_some, Option.getD_some]
    exact .step hs (ih he)

theorem run_restrict_of_trace {init : σ → Prop} {next : σ → α → Option σ} {c : σ → α → Prop} {as : List α}
    (hc : ∀ e ∈ trace next s₁ as, c e.1 e.2) (he : exec next s₁ as = some s₂) :
    ((ofNext init next).restrict fun s a _ => c s a).Run s₁ (trace next s₁ as) s₂ :=
  (run_of_exec he).restrict hc

theorem mem_of_mem_trace {next : σ → α → Option σ} {as : List α} (h : e ∈ trace next s as) : e.2 ∈ as := by
  induction as generalizing s
  case nil => simp [trace] at h
  case cons a as ih =>
    simp only [trace, List.mem_cons] at h ⊢
    refine h.imp (fun h => by rw [h]) fun h => ?_
    cases hs : next s a
    case none   => simp [hs] at h
    case some s => exact ih (by simpa [hs] using h)

theorem run_restrict_of_exec {init : σ → Prop} {next : σ → α → Option σ} {c : α → Prop} {as : List α}
    (hc : ∀ a ∈ as, c a) (he : exec next s₁ as = some s₂) :
    ((ofNext init next).restrict fun _ a _ => c a).Run s₁ (trace next s₁ as) s₂ :=
  run_restrict_of_trace (fun _ h => hc _ (mem_of_mem_trace h)) he

end System
