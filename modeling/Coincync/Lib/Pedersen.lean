/-
# Commitments over two generators

A commitment to a value `v` is `v • H + r • B` for some blinding `r`.  Commitments to values add up
to a commitment to the sum (`Opens.sum`), and moving along `B` does not change the value
(`Opens.of_sub_eq_smul`).
-/
import Mathlib

namespace Coincync.Lib

variable {F M : Type} [Field F] [AddCommGroup M] [Module F M] {H B P Q : M} {v w : F}

/-! ## 1. Openings -/

/-- **The point commits to the value**, on `H`, with some blinding on `B`. -/
def Opens (H B P : M) (v : F) : Prop := ∃ r : F, P = v • H + r • B

theorem opens_zero (H B : M) : Opens H B 0 (0 : F) := ⟨0, by rw [zero_smul, zero_smul, add_zero]⟩

theorem Opens.add (hP : Opens H B P v) (hQ : Opens H B Q w) : Opens H B (P + Q) (v + w) := by
  obtain ⟨r, rfl⟩ := hP
  obtain ⟨s, rfl⟩ := hQ
  refine ⟨r + s, ?_⟩
  rw [add_smul, add_smul]
  abel

theorem Opens.of_sub_eq_smul (hP : Opens H B P v) {z : F} (hz : P - Q = z • B) : Opens H B Q v := by
  obtain ⟨r, rfl⟩ := hP
  refine ⟨r - z, ?_⟩
  rw [sub_smul, ← hz]
  abel

theorem Opens.sum {points : List M} {values : List F}
    (h : List.Forall₂ (Opens H B) points values) : Opens H B points.sum values.sum := by
  induction h with
  | nil => exact opens_zero H B
  | cons hP _ ih =>
    rw [List.sum_cons, List.sum_cons]
    exact hP.add ih

/-! ## 2. Binding -/

/-- **No point commits to two values.** -/
def Binding (F : Type) {M : Type} [Field F] [AddCommGroup M] [Module F M] (H B : M) : Prop :=
  ∀ (P : M) (v w : F), Opens H B P v → Opens H B P w → v = w

theorem Binding.natCast_eq {p m n : ℕ} [CharP F p] (hb : Binding F H B) (hm : m < p) (hn : n < p)
    (h : Opens H B P (m : F)) (h' : Opens H B P (n : F)) : m = n :=
  CharP.natCast_injOn_Iio F p hm hn (hb P _ _ h h')

end Coincync.Lib
