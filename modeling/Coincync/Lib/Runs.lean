/-
# Runs

A machine with partial steps, run under a condition on each step.  `Reaches.invariant` is the one
induction over runs.  `run` executes a list of actions and tests the condition on the way, so a
concrete run is reached by one evaluation (`Reaches.run`).
-/
import Mathlib

namespace Coincync.Lib

variable {σ α : Type} {step : σ → α → Option σ}

/-- **The states of a run** whose every step, taken from `s` with action `a`, satisfies `P s a`. -/
inductive Reaches (step : σ → α → Option σ) (P : σ → α → Prop) (s₀ : σ) : σ → Prop
  | start : Reaches step P s₀ s₀
  | next {s s' : σ} (a : α) : Reaches step P s₀ s → P s a → step s a = some s' →
      Reaches step P s₀ s'

variable {P : σ → α → Prop} {s₀ : σ}

/-- **What holds at the start and is kept by every step holds in every state reached.** -/
theorem Reaches.invariant {s : σ} {I : σ → Prop} (h₀ : I s₀)
    (hstep : ∀ s a s', I s → P s a → step s a = some s' → I s') (h : Reaches step P s₀ s) :
    I s := by
  induction h with
  | start => exact h₀
  | next a _ hP hs ih => exact hstep _ a _ ih hP hs

theorem Reaches.mono {Q : σ → α → Prop} {s : σ} (hPQ : ∀ s a, P s a → Q s a)
    (h : Reaches step P s₀ s) : Reaches step Q s₀ s := by
  induction h with
  | start => exact .start
  | next a _ hP hs ih => exact .next a ih (hPQ _ a hP) hs

/-- Execute the actions one after the other, as long as each passes the test. -/
def run (step : σ → α → Option σ) (test : σ → α → Bool) : σ → List α → Option σ
  | s, [] => some s
  | s, a :: as => if test s a = true then (step s a).bind fun s' => run step test s' as else none

variable {test : σ → α → Bool}

/-- **What a tested run ends in is reached.** -/
theorem Reaches.run (htest : ∀ s a, test s a = true → P s a) :
    ∀ {as : List α} {s s' : σ},
    Reaches step P s₀ s → Lib.run step test s as = some s' → Reaches step P s₀ s'
  | [], _, _, h, hrun => Option.some.inj hrun ▸ h
  | a :: as, s, s', h, hrun => by
    rw [Lib.run] at hrun
    split at hrun
    · rename_i hpass
      obtain ⟨s₁, hs₁, hrest⟩ := Option.bind_eq_some_iff.mp hrun
      exact Reaches.run htest (.next a h (htest s a hpass) hs₁) hrest
    · cases hrun

/-- **A tested run that passes a final test** ends in a state that is reached and passes it. -/
theorem Reaches.exists_of_run {as : List α} {p : σ → Bool}
    (htest : ∀ s a, test s a = true → P s a) (h : (Lib.run step test s₀ as).any p = true) :
    ∃ s, Reaches step P s₀ s ∧ p s = true := by
  cases hrun : Lib.run step test s₀ as with
  | none =>
    rw [hrun] at h
    cases h
  | some s =>
    rw [hrun] at h
    exact ⟨s, Reaches.run htest .start hrun, h⟩

end Coincync.Lib
