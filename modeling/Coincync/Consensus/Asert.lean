/-
# What the difficulty adjustment can do

Two facts about `calculate_difficulty`.  The target it computes is at most the floor difficulty
allows and within the clamp of the last target of its window -- a factor of 2, or 8 upwards under
the emergency rule -- as soon as that last target respects the floor itself
(`calculateDifficulty_bounds`): the floor does not come from one call, it is kept from block to
block.  And a window of blocks that came exactly on time repeats its last target
(`calculateDifficulty_steady`).
-/
import Coincync.Consensus.Difficulty

namespace Coincync

open Lib List

variable {window : List DifficultyBlock} {tip : DifficultyBlock}

/-! ## 1. Targets and numbers -/

theorem targetToU128_u128ToTarget {v : Nat} (hv : v ≤ u128Max) :
    targetToU128 (u128ToTarget v) = max v 1 := by
  have hlen : (u128BeBytes (max v 1)).length = 16 := by simp [u128BeBytes]
  have htake : (u128ToTarget v).asSlice.take 16 = u128BeBytes (max v 1) := by
    change (u128BeBytes (max v 1) ++ List.replicate 16 0).take 16 = _
    rw [take_append_of_le_length (by omega), take_of_length_le (by omega)]
  rw [targetToU128, Hash.upperBe, htake, u128BeBytes, foldl_be_reverse, fromLeBytes_leBytes]
  refine Nat.mod_eq_of_lt ?_
  have hmax : u128Max < 256 ^ 16 := by decide
  omega

/-! ## 2. The clamp -/

/-- How far above the last target the next may be: the clamp, times the emergency factor. -/
def upwardClamp (window : List DifficultyBlock) (currentHeight : Nat) : Nat :=
  if needsEmergencyDrop window currentHeight then 8 else 2

theorem clampNat_le {lo hi v : Nat} (h : lo ≤ hi) : clampNat lo hi v ≤ hi :=
  max_le h (min_le_right _ _)

section

variable (currentHeight : Nat) (hlen : 2 ≤ window.length) (hlast : window.getLast? = some tip)
include currentHeight hlen hlast

/-- **The clamp**: whatever ASERT computes, the last clamp decides. -/
theorem calculateDifficulty_clamped :
    let target := targetToU128 (calculateDifficulty window currentHeight)
    1 ≤ target ∧ targetToU128Pos tip.target / 2 ≤ target ∧
      target ≤ upwardClamp window currentHeight * targetToU128Pos tip.target ∧
      target ≤ max (u128Max / minDifficulty) (targetToU128Pos tip.target) := by
  intro target
  have hpos : 1 ≤ targetToU128Pos tip.target := le_max_right _ _
  have htip : targetToU128Pos tip.target ≤ u128Max :=
    max_le (targetToU128_le _) (by decide)
  have hfit : u128Max / minDifficulty ≤ u128Max := Nat.div_le_self _ _
  generalize hp : targetToU128Pos tip.target = p at htip hpos ⊢
  generalize hm : u128Max / minDifficulty = maxT at hfit ⊢
  have hclamp : ∃ v, targetToU128 (calculateDifficulty window currentHeight) = max v 1 ∧
      v ≤ max maxT p ∧ max (p / 2) 1 ≤ v ∧ v ≤ upwardClamp window currentHeight * p := by
    rw [calculateDifficulty, if_neg (by omega), hlast]
    simp only [hp, hm, upwardClamp, safeMulU128, emergencyDropFactor]
    split_ifs with he
    all_goals
      refine ⟨_, targetToU128_u128ToTarget ?_, ?_, le_max_left _ _, ?_⟩
      · exact (clampNat_le (le_max_right _ _)).trans (by omega)
      · exact (clampNat_le (le_max_right _ _)).trans (by omega)
      · exact (clampNat_le (le_max_right _ _)).trans (by omega)
  obtain ⟨v, hv, hle, hlow, hup⟩ := hclamp
  have htarget : target = max v 1 := hv
  rw [htarget]
  omega

/-- **The clamp and the floor.** -/
theorem calculateDifficulty_bounds (htip : targetToU128Pos tip.target ≤ u128Max / minDifficulty) :
    let target := targetToU128 (calculateDifficulty window currentHeight)
    1 ≤ target ∧ target ≤ u128Max / minDifficulty ∧ targetToU128Pos tip.target / 2 ≤ target ∧
      target ≤ upwardClamp window currentHeight * targetToU128Pos tip.target := by
  intro target
  obtain ⟨hpos, hlow, hup, hfloor⟩ := calculateDifficulty_clamped currentHeight hlen hlast
  exact ⟨hpos, hfloor.trans (max_le le_rfl htip), hlow, hup⟩

end

/-! ## 3. Blocks on time -/

/-- **The window came on time**: every block of it is as many block times before the last as its
height is below the last one's, and the twelfth from the end is eleven heights below. -/
structure OnTime (window : List DifficultyBlock) (tip : DifficultyBlock) : Prop where
  last : window.getLast? = some tip
  paced : ∀ a ∈ window,
    a.timestamp + (tip.height - a.height) * targetBlockTime = tip.timestamp
  twelfth : ∀ a, window[window.length - 12]? = some a → tip.height ≤ a.height + 11

theorem pow2Frac_zero : pow2Frac 0 = radix := by decide

theorem applyAsert_onTime {target : Nat} {anchor : DifficultyBlock} (hpos : 1 ≤ target)
    (hlt : target < 2 ^ 128)
    (htime : anchor.timestamp + (tip.height - anchor.height) * targetBlockTime = tip.timestamp) :
    applyAsert target anchor tip = target := by
  unfold applyAsert
  dsimp only
  by_cases h0 : tip.height - anchor.height = 0
  · rw [if_pos h0]
  · have herror : (tip.timestamp : Int) - anchor.timestamp -
        ((tip.height - anchor.height : Nat) : Int) * targetBlockTime = 0 := by
      have h120 : targetBlockTime = 120 := rfl
      rw [h120] at htime ⊢
      omega
    have hexp : (mulI128 0 radix).tdiv asertHalflife = 0 := by decide
    have hparts : decomposeFixedPoint 0 = (0, 0) := by decide
    have hmul : safeMulShift target (pow2Frac 0) = target := by
      rw [pow2Frac_zero, safeMulShift, if_pos (Nat.sub_self _)]
    simp only [herror, hexp, hparts, hmul]
    rw [if_neg h0, if_pos (by decide)]
    change max (target * 2 ^ 0 % 2 ^ 128) 1 = target
    rw [pow_zero, mul_one, Nat.mod_eq_of_lt hlt]
    exact max_eq_left hpos

theorem getAnchor_mem (depth : Nat) (hlast : window.getLast? = some tip) :
    getAnchor window depth tip ∈ window := by
  unfold getAnchor
  rw [getD_eq_getElem?_getD]
  cases h : window[window.length - min depth window.length]? with
  | none => exact mem_of_getLast? hlast
  | some a => exact mem_of_getElem? h

theorem OnTime.needsEmergencyDrop (h : OnTime window tip) (currentHeight : Nat) :
    needsEmergencyDrop window currentHeight = false := by
  unfold Coincync.needsEmergencyDrop
  split_ifs
  · rfl
  · rfl
  · rw [h.last]
    cases hcheck : window[window.length - emergencyDifficultyBlocks]? with
    | none => rfl
    | some a =>
      have htime := h.paced a (mem_of_getElem? hcheck)
      have hnear := h.twelfth a hcheck
      have hlate : tip.timestamp - a.timestamp ≤
          emergencyDifficultyBlocks * targetBlockTime * emergencyTimeMultiplier := by
        have hmul := Nat.mul_le_mul_right targetBlockTime
          (show tip.height - a.height ≤ 11 by omega)
        simp only [targetBlockTime, emergencyDifficultyBlocks, emergencyTimeMultiplier] at *
        omega
      exact decide_eq_false hlate.not_gt

/-- **A window that came on time repeats its last target**, as far as that respects the floor. -/
theorem calculateDifficulty_steady (h : OnTime window tip) (hlen : 2 ≤ window.length)
    (hpos : 1 ≤ targetToU128 tip.target)
    (hfloor : targetToU128 tip.target ≤ u128Max / minDifficulty) (currentHeight : Nat) :
    calculateDifficulty window currentHeight = u128ToTarget (targetToU128 tip.target) := by
  have htip : targetToU128Pos tip.target = targetToU128 tip.target := max_eq_left hpos
  have hkeep : ∀ depth, applyAsert (targetToU128 tip.target) (getAnchor window depth tip) tip =
      targetToU128 tip.target := fun depth => by
    refine applyAsert_onTime hpos ?_ (h.paced _ (getAnchor_mem depth h.last))
    exact lt_of_le_of_lt (targetToU128_le _) (by decide)
  rw [calculateDifficulty, if_neg (by omega), h.last]
  simp only [htip, hkeep, h.needsEmergencyDrop, Bool.false_eq_true, if_false]
  generalize targetToU128 tip.target = t at hpos hfloor
  have hmax : u128Max = 340282366920938463463374607431768211455 := by decide
  congr 1
  simp only [clampNat, safeMulU128, hmax, minDifficulty] at hfloor ⊢
  omega

end Coincync
