/-
# Difficulty adjustment

`src/consensus/difficulty.rs`: dual-window ASERT in 128-bit fixed point, and the conversions
between targets and numbers.  A `u128` is a natural number with its bound written out where an
operation saturates or wraps; `checked_shl` wraps, since it only refuses shifts of 128 and more.
-/
import Coincync.Constants

namespace Coincync

/-! ## 1. Targets as numbers -/

/-- `u128::MAX`. -/
def u128Max : Nat := 2 ^ 128 - 1

/-- The upper 128 bits of a target (`target_to_u128` of `validation.rs`). -/
def targetToU128 (target : Hash) : Nat := target.upperBe 16

theorem targetToU128_le (target : Hash) : targetToU128 target ≤ u128Max :=
  Nat.le_sub_one_of_lt (target.upperBe_lt (by decide))

/-- `target_to_u128` of `difficulty.rs`: at least 1. -/
def targetToU128Pos (target : Hash) : Nat := max (targetToU128 target) 1

/-- The bytes of a 128-bit number, most significant first. -/
def u128BeBytes (v : Nat) : Lib.Bytes := (Lib.leBytes 16 v).reverse

/-- `u128_to_target`: the number in the upper half, zeros in the lower. -/
def u128ToTarget (value : Nat) : Hash :=
  ⟨⟨u128BeBytes (max value 1) ++ List.replicate 16 0, by simp [u128BeBytes]⟩⟩

def maxTarget : Hash := ⟨Lib.FixedBytes.replicate 32 0xFF⟩

/-- `calculate_difficulty_from_target` (`work_from_target`): `u128::MAX` over the upper half. -/
def calculateDifficultyFromTarget (target : Hash) : Nat :=
  if targetToU128 target = 0 then u128Max else u128Max / targetToU128 target

/-! ## 2. Fixed-point arithmetic -/

def minDifficulty : Nat := 500

/-- `ASERT_HALFLIFE`, in seconds. -/
def asertHalflife : Nat := 3600

def difficultyShortWindow : Nat := 8

def difficultyLongWindow : Nat := 144

def emergencyDifficultyBlocks : Nat := 12

def emergencyTimeMultiplier : Nat := 10

def emergencyDropFactor : Nat := 4

def radix : Nat := 2 ^ 16

/-- `pow2_frac`: a degree-4 polynomial for `radix * 2^(x/radix)`. -/
def pow2Frac (x : Nat) : Nat :=
  let t := 3638 + 630 * x / radix
  let t := 15743 + t * x / radix
  let t := 45426 + t * x / radix
  radix + t * x / radix

/-- `decompose_fixed_point`: integer and fractional part, the fraction non-negative. -/
def decomposeFixedPoint (exponentFp : Int) : Int × Nat :=
  if 0 ≤ exponentFp then
    (min (exponentFp / radix) (2 ^ 31 - 1), exponentFp.toNat % radix)
  else
    let absExp := (-(max exponentFp (-(2 ^ 127) + 1))).toNat
    let absInt := absExp / radix
    let absFrac := absExp % radix
    if absFrac = 0 then (-(min absInt (2 ^ 31 - 1) : Nat), 0)
    else (-(min absInt (2 ^ 31 - 2) : Nat) - 1, radix - absFrac)

/-- `safe_mul_u128`: saturating. -/
def safeMulU128 (a b : Nat) : Nat := min (a * b) u128Max

/-- `safe_mul_shift`: `target * fracPow2 / radix`, as `target` plus a correction. -/
def safeMulShift (target fracPow2 : Nat) : Nat :=
  let extra := fracPow2 - radix
  if extra = 0 then target
  else
    let adjustment :=
      if target ≤ u128Max / extra then target * extra / radix
      else (target / radix * extra) % 2 ^ 128
    min (target + adjustment) u128Max

/-! ## 3. ASERT -/

structure DifficultyBlock where
  height : Nat
  timestamp : Nat
  target : Hash
  deriving DecidableEq

/-- `i128::checked_mul` with the source's fallback to the bounds. -/
def mulI128 (a b : Int) : Int :=
  let p := a * b
  if -(2 ^ 127) ≤ p ∧ p < 2 ^ 127 then p else if 0 ≤ a then 2 ^ 127 - 1 else -(2 ^ 127)

/-- `apply_asert`, with the block time and the half-life of its two calls. -/
def applyAsert (currentTarget : Nat) (anchor tip : DifficultyBlock) : Nat :=
  let heightDiff := tip.height - anchor.height
  if heightDiff = 0 then currentTarget
  else
    let timeDiff : Int := tip.timestamp - anchor.timestamp
    let timeError := timeDiff - heightDiff * targetBlockTime
    let exponentFp := (mulI128 timeError radix).tdiv asertHalflife
    let (intPart, fracPart) := decomposeFixedPoint exponentFp
    let clampedInt := max (-64) (min intPart 64)
    let adjusted := safeMulShift currentTarget (pow2Frac fracPart)
    if 0 ≤ clampedInt then max ((adjusted * 2 ^ clampedInt.toNat) % 2 ^ 128) 1
    else max (adjusted / 2 ^ (-clampedInt).toNat) 1

/-- `get_anchor`: the block `depth` from the end, or the first. -/
def getAnchor (blocks : List DifficultyBlock) (depth : Nat) (default : DifficultyBlock) :
    DifficultyBlock :=
  blocks.getD (blocks.length - min depth blocks.length) default

def needsEmergencyDrop (blocks : List DifficultyBlock) (currentHeight : Nat) : Bool :=
  if currentHeight < emergencyDifficultyBlocks * 2 then false
  else if blocks.length < emergencyDifficultyBlocks then false
  else
    match blocks.getLast?, blocks[blocks.length - emergencyDifficultyBlocks]? with
    | some tip, some checkBlock =>
      decide (emergencyDifficultyBlocks * targetBlockTime * emergencyTimeMultiplier <
        tip.timestamp - checkBlock.timestamp)
    | _, _ => false

/-- `Ord::clamp`. -/
def clampNat (lo hi v : Nat) : Nat := max lo (min v hi)

/-- `calculate_difficulty`: the target of the block after the window. -/
def calculateDifficulty (blocks : List DifficultyBlock) (currentHeight : Nat) : Hash :=
  if blocks.length < 2 then maxTarget
  else
    match blocks.getLast? with
    | none => maxTarget
    | some tip =>
      let tipTarget := targetToU128Pos tip.target
      let shortTarget := applyAsert tipTarget (getAnchor blocks difficultyShortWindow tip) tip
      let longTarget := applyAsert tipTarget (getAnchor blocks difficultyLongWindow tip) tip
      let combined :=
        min (safeMulU128 shortTarget 70 + safeMulU128 longTarget 30) u128Max / 100
      let maxVal := safeMulU128 tipTarget 2
      let minVal := tipTarget / 2
      let maxT := u128Max / minDifficulty
      let minBound := max minVal 1
      let maxBound := max (min maxVal maxT) minBound
      let clamped := clampNat minBound maxBound combined
      let finalTarget :=
        if needsEmergencyDrop blocks currentHeight then
          let emergencyMax := safeMulU128 tipTarget (2 * emergencyDropFactor)
          let emerMin := max minVal 1
          let emerMax := max (min emergencyMax maxT) emerMin
          clampNat emerMin emerMax (safeMulU128 clamped emergencyDropFactor)
        else clamped
      u128ToTarget finalTarget

end Coincync
