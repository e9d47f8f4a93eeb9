/-
# Kernels

`compute_root` of `src/storage/kernels.rs`, and `compute_kernel_excess` and `verify_kernel_set` of
`src/crypto/mw_cutthrough.rs`.  A kernel keeps the excess of a transaction, its fee and its height
when inputs and outputs are pruned.  The root covers the excesses and the heights and not the fees,
which the verifier adds up: lists with one root get one verdict if their fees have one sum.  The
excesses are multiples of `G`, and the verifier compares their sum with a multiple of `H`.
-/
import Coincync.Crypto.WideSuite

namespace Coincync

open Lib

/-! ## 1. Kernels -/

structure MwKernel where
  excess : FixedBytes 32
  signature : Bytes
  fee : UInt64
  height : UInt64

/-- The errors of `verify_kernel_set`. -/
inductive KernelError
  | mwCutthroughVerifyFailed
  | amountOverflow
  deriving DecidableEq

/-- What `compute_root` reads of a kernel. -/
def MwKernel.covered (k : MwKernel) : FixedBytes 32 × UInt64 := (k.excess, k.height)

/-- What it feeds to the hasher for one kernel. -/
def rootEntry (c : FixedBytes 32 × UInt64) : Bytes := c.1.toList ++ u64LeBytes c.2

namespace Suite

variable {F G : Type} [Field F] [AddCommGroup G] [Module F G] (S : Suite F G)

def computeRoot (kernels : List MwKernel) : FixedBytes 32 :=
  S.blake3 ((kernels.map MwKernel.covered).flatMap rootEntry)

/-- The loop of `verify_kernel_set`: the sum of the excesses and the sum of the fees. -/
def sumKernels : List MwKernel → G → Nat → Except KernelError (G × Nat)
  | [], excessSum, feeSum => .ok (excessSum, feeSum)
  | k :: rest, excessSum, feeSum =>
    match S.decompress k.excess with
    | none => .error .mwCutthroughVerifyFailed
    | some p =>
      if feeSum + k.fee.toNat < 2 ^ 64 then sumKernels rest (excessSum + p) (feeSum + k.fee.toNat)
      else .error .amountOverflow

def verifyKernelSet (kernels : List MwKernel) : Except KernelError Unit :=
  match S.sumKernels kernels 0 0 with
  | .error e => .error e
  | .ok (excessSum, feeSum) =>
    if S.compress excessSum ≠ S.compress ((feeSum : F) • S.generatorH) then
      .error .mwCutthroughVerifyFailed
    else .ok ()

def computeKernelExcess (outputBlindings inputBlindings : List F) : FixedBytes 32 :=
  S.compress ((outputBlindings.sum - inputBlindings.sum) • S.generator)

/-! ## 2. What the root covers -/

def kernelFees (kernels : List MwKernel) : Nat := (kernels.map fun k => k.fee.toNat).sum

theorem sumKernels_of_points : ∀ {ks : List MwKernel} {ps : List G} (e : G) {f : Nat},
    f < 2 ^ 64 → (ks.map MwKernel.excess).mapM S.decompress = some ps →
    S.sumKernels ks e f =
      if f + kernelFees ks < 2 ^ 64 then .ok (e + ps.sum, f + kernelFees ks)
      else .error .amountOverflow
  | [], _, e, f, hf, h => by
    cases h
    simpa [sumKernels, kernelFees] using hf
  | k :: ks, _, e, f, hf, h => by
    have htotal : kernelFees (k :: ks) = k.fee.toNat + kernelFees ks := List.sum_cons
    simp only [List.map_cons, List.mapM_cons, Option.bind_eq_bind, Option.bind_eq_some_iff] at h
    obtain ⟨p, hp, ps, hps, ⟨⟩⟩ := h
    simp only [sumKernels, hp, htotal, List.sum_cons]
    split_ifs with hfee hall hall
    · rw [sumKernels_of_points _ hfee hps, if_pos (by omega), add_assoc, add_assoc]
    · rw [sumKernels_of_points _ hfee hps, if_neg (by omega)]
    · omega
    · rfl

theorem sumKernels_of_no_point : ∀ {ks : List MwKernel} (e : G) (f : Nat) (r : G × Nat),
    (ks.map MwKernel.excess).mapM S.decompress = none → S.sumKernels ks e f ≠ .ok r
  | [], _, _, _, h => by cases h
  | k :: ks, e, f, r, h => by
    rw [sumKernels]
    cases hp : S.decompress k.excess with
    | none => exact nofun
    | some p =>
      simp only [List.map_cons, List.mapM_cons, hp] at h
      split_ifs
      · refine sumKernels_of_no_point _ _ _ ?_
        cases hks : (ks.map MwKernel.excess).mapM S.decompress with
        | none => rfl
        | some ps => simp [hks] at h
      · exact nofun

/-- **The verdict depends on the excesses and on the sum of the fees.** -/
theorem verifyKernelSet_eq_ok_iff {ks : List MwKernel} : S.verifyKernelSet ks = .ok () ↔
    ∃ ps, (ks.map MwKernel.excess).mapM S.decompress = some ps ∧ kernelFees ks < 2 ^ 64 ∧
      S.compress ps.sum = S.compress ((kernelFees ks : F) • S.generatorH) := by
  rw [verifyKernelSet]
  cases hps : (ks.map MwKernel.excess).mapM S.decompress with
  | none =>
    cases hsum : S.sumKernels ks 0 0 with
    | error e => simp
    | ok r => exact absurd hsum (S.sumKernels_of_no_point 0 0 r hps)
  | some ps =>
    rw [S.sumKernels_of_points 0 (by decide) hps, zero_add, zero_add]
    simp only [Option.some.injEq, exists_eq_left']
    split_ifs with hfit
    · simp only [ne_eq, ite_not, hfit, true_and]
      split_ifs with hpass <;> simp [hpass]
    · exact iff_of_false nofun fun hpass => hfit hpass.1

theorem rootEntry_injective : Function.Injective rootEntry := by
  rintro ⟨e, h⟩ ⟨e', h'⟩ heq
  obtain ⟨hexcess, hheight⟩ := List.append_inj heq (by simp)
  exact Prod.ext (List.Vector.eq _ _ hexcess) (u64LeBytes_inj hheight)

/-- **Kernel lists with one root** have the same excesses and heights; verdict and fees are the same
exactly if the fees add up to the same. -/
theorem verdict_of_computeRoot_eq {ks ls : List MwKernel}
    (hinj : Set.InjOn S.blake3 ((fun l => (l.map MwKernel.covered).flatMap rootEntry) '' {ks, ls}))
    (hroot : S.computeRoot ks = S.computeRoot ls) :
    ks.map MwKernel.covered = ls.map MwKernel.covered ∧
      ((S.verifyKernelSet ks = .ok () ↔ S.verifyKernelSet ls = .ok ()) ∧
        kernelFees ks = kernelFees ls ↔ kernelFees ks = kernelFees ls) := by
  have hcovered : ks.map MwKernel.covered = ls.map MwKernel.covered :=
    flatMap_inj_of_length (w := 40) (by decide) (fun c => by simp [rootEntry]) rootEntry_injective
      (hinj ⟨ks, by simp, rfl⟩ ⟨ls, by simp, rfl⟩ hroot)
  have hexcess : ks.map MwKernel.excess = ls.map MwKernel.excess := by
    simpa [Function.comp_def, MwKernel.covered] using congrArg (List.map Prod.fst) hcovered
  refine ⟨hcovered, and_iff_right_of_imp fun hfees => ?_⟩
  rw [verifyKernelSet_eq_ok_iff, verifyKernelSet_eq_ok_iff, hexcess, hfees]

/-! ## 3. Balanced transactions -/

/-- A transaction: amounts with their blindings, and what its kernel keeps. -/
structure MwTransaction (F : Type) where
  inputs : List (UInt64 × F)
  outputs : List (UInt64 × F)
  fee : UInt64
  signature : Bytes
  height : UInt64

/-- The inputs pay for the outputs and the fee. -/
def MwTransaction.balanced (tx : MwTransaction F) : Bool :=
  (tx.inputs.map fun c => c.1.toNat).sum =
    (tx.outputs.map fun c => c.1.toNat).sum + tx.fee.toNat

/-- The blinding that is left over. -/
def MwTransaction.excess (tx : MwTransaction F) : F :=
  (tx.outputs.map Prod.snd).sum - (tx.inputs.map Prod.snd).sum

def totalFee (txs : List (MwTransaction F)) : Nat := (txs.map fun tx => tx.fee.toNat).sum

/-- The kernel of a transaction. -/
def kernelOf (tx : MwTransaction F) : MwKernel :=
  ⟨S.computeKernelExcess (tx.outputs.map Prod.snd) (tx.inputs.map Prod.snd), tx.signature, tx.fee,
    tx.height⟩

theorem mapM_decompress_kernelOf (txs : List (MwTransaction F)) :
    ((txs.map S.kernelOf).map MwKernel.excess).mapM S.decompress =
      some (txs.map fun tx => tx.excess • S.generator) := by
  induction txs with
  | nil => rfl
  | cons tx txs ih =>
    simp only [List.map_cons, List.mapM_cons, ih, kernelOf, computeKernelExcess,
      S.decompress_compress]
    rfl

/-- **Balanced transactions pass the sum check** exactly if their fees fit and vanish as a scalar,
and the excesses cancel; that they are balanced does not help. -/
theorem verifyKernelSet_kernelOf_iff
    (hindep : LinearIndependent F ![S.generator, S.generatorH]) (txs : List (MwTransaction F)) :
    S.verifyKernelSet (txs.map S.kernelOf) = .ok () ↔
      totalFee txs < 2 ^ 64 ∧ (totalFee txs : F) = 0 ∧ (txs.map MwTransaction.excess).sum = 0 := by
  have hfees : kernelFees (txs.map S.kernelOf) = totalFee txs := by
    simp [kernelFees, totalFee, Function.comp_def, kernelOf]
  have hpoints : (txs.map fun tx => tx.excess • S.generator).sum =
      (txs.map MwTransaction.excess).sum • S.generator := by
    rw [List.sum_smul, List.map_map]
    rfl
  rw [verifyKernelSet_eq_ok_iff, mapM_decompress_kernelOf, hfees]
  simp only [Option.some.injEq, exists_eq_left', hpoints]
  generalize (txs.map MwTransaction.excess).sum = e
  refine and_congr_right fun _ => ⟨fun hpoint => ?_, ?_⟩
  · obtain ⟨he, hf⟩ := LinearIndependent.pair_iff.mp hindep e (-totalFee txs) (by
      rw [S.compress_injective hpoint, neg_smul, add_neg_cancel])
    exact ⟨neg_eq_zero.mp hf, he⟩
  · rintro ⟨hf, rfl⟩
    rw [hf, zero_smul, zero_smul]

end Suite

namespace WideSuite

open Suite

/-- The suite that is run. -/
def kernelSuite : Suite W (W × W) := suite (SmallSuite.digest 32 1)

def change (value fee : UInt64) : MwTransaction W := ⟨[(value + fee, 1)], [(value, 1)], fee, [], 0⟩

/-- Without a fee, and with the same blinding, the check passes. -/
theorem free_change_verifies :
    kernelSuite.verifyKernelSet [kernelSuite.kernelOf (change 5 0)] = .ok () := by
  have hindep : LinearIndependent W ![kernelSuite.generator, kernelSuite.generatorH] := by
    rw [show kernelSuite.generatorH = (0, 1) from generatorH_eq _, LinearIndependent.pair_iff]
    intro s t h
    change s • ((1, 0) : W × W) + t • ((0, 1) : W × W) = 0 at h
    simpa using h
  refine (kernelSuite.verifyKernelSet_kernelOf_iff hindep [change 5 0]).mpr ?_
  simp [totalFee, change, MwTransaction.excess]

/-- **A fee fails the check**, though the transaction is balanced. -/
theorem fee_fails_sum_check : (change 5 1).balanced = true ∧
    kernelSuite.verifyKernelSet [kernelSuite.kernelOf (change 5 1)] =
      .error .mwCutthroughVerifyFailed := by
  decide +kernel

/-- A kernel with no excess. -/
def kernel (fee : UInt64) : MwKernel := ⟨kernelSuite.compress 0, [], fee, 0⟩

theorem order_leaves_verdict :
    (kernelSuite.verifyKernelSet [kernel 0, kernel 1] = .ok () ↔
      kernelSuite.verifyKernelSet [kernel 1, { kernel 0 with signature := [1] }] = .ok ()) ∧
      kernelFees [kernel 0, kernel 1] =
        kernelFees [kernel 1, { kernel 0 with signature := [1] }] := by
  refine (kernelSuite.verdict_of_computeRoot_eq ?_ rfl).2.mpr rfl
  rintro _ ⟨_, rfl | rfl, rfl⟩ _ ⟨_, rfl | rfl, rfl⟩ _ <;> rfl

/-- **The fee is not in the root**: one root, two verdicts. -/
theorem root_leaves_fee_open :
    kernelSuite.computeRoot [kernel 0] = kernelSuite.computeRoot [kernel 1] ∧
      kernelSuite.verifyKernelSet [kernel 0] = .ok () ∧
      kernelSuite.verifyKernelSet [kernel 1] = .error .mwCutthroughVerifyFailed := by
  decide +kernel

end WideSuite

end Coincync
