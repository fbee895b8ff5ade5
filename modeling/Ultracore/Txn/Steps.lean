-- SUMMARY: Runs of a partial step function under a condition on each step, and their invariants.
import Mathlib.Tactic.Common

/-!
# Step functions

A system given by a function that executes one action, where the action is possible. A run
takes steps that all satisfy a condition on the state before them.
-/

namespace Txn

variable {C A : Type}

/-- The states reached from `c₀` by steps that satisfy `Ok`. -/
inductive Steps (step : C → A → Option C) (Ok : C → A → Prop) (c₀ : C) : C → Prop where
  | refl : Steps step Ok c₀ c₀
  | step {c c' : C} {a : A} : Steps step Ok c₀ c → Ok c a → step c a = some c' →
      Steps step Ok c₀ c'

/-- Execute a list of actions, as long as they are possible and allowed. -/
def playSteps (step : C → A → Option C) (ok : C → A → Bool) : C → List A → Option C
  | c, [] => some c
  | c, a :: as => if ok c a then (step c a).bind fun c' => playSteps step ok c' as else none

section
variable {step : C → A → Option C} {Ok : C → A → Prop} {c₀ c c' : C}

/-- What holds at first and every allowed step keeps holds in every state reached. -/
theorem Steps.invariant {K : C → Prop} (h₀ : K c₀)
    (hstep : ∀ {c a c'}, K c → Ok c a → step c a = some c' → K c')
    (hrun : Steps step Ok c₀ c) : K c := by
  induction hrun with
  | refl => exact h₀
  | step _ hok hs ih => exact hstep ih hok hs

theorem Steps.trans (h : Steps step Ok c₀ c) (h' : Steps step Ok c c') : Steps step Ok c₀ c' := by
  induction h' with
  | refl => exact h
  | step _ hok hs ih => exact .step ih hok hs

/-- A weaker condition allows more. -/
theorem Steps.mono {Ok' : C → A → Prop} (hok : ∀ c a, Ok c a → Ok' c a)
    (h : Steps step Ok c₀ c) : Steps step Ok' c₀ c := by
  induction h with
  | refl => exact .refl
  | step _ ha hs ih => exact .step ih (hok _ _ ha) hs

theorem playSteps_run {ok : C → A → Bool} {as : List A} (h : playSteps step ok c as = some c') :
    Steps step (fun c a => ok c a = true) c c' := by
  induction as generalizing c with
  | nil =>
    cases Option.some.inj h
    exact .refl
  | cons a as ih =>
    unfold playSteps at h
    split at h
    · rename_i hok
      obtain ⟨c₁, hs, hrest⟩ := Option.bind_eq_some_iff.mp h
      have hfirst : Steps step (fun c a => ok c a = true) c c₁ := .step .refl hok hs
      exact hfirst.trans (ih hrest)
    · cases h

end

end Txn
