/-
# The exact target and the loose gate

A block's target is checked twice: `add_block` asks for the exact value of `calculate_difficulty`,
and `validate_difficulty_target` (`src/consensus/validation.rs`) for a value that is not wildly off
the parent's.  The second must never reject what the first asks for.  It does not: the clamp of
`calculate_difficulty` leaves a factor of 1/2 to 8 against the parent's target, and the gate works
with 0.031 to 32 even where it divides both values by 1024 before it compares them.
-/
import Coincync.Consensus.Asert
import Coincync.Consensus.Validation

namespace Coincync

open Lib

/-- `ratio_scaled` of the gate: the target in thousandths of the parent's. -/
def ratioScaled (target prev : Nat) : Nat :=
  if u128Max / 1000 < target then target / 1024 * 1000 / max (prev / 1024) 1
  else target * 1000 / prev

theorem ratioScaled_bounds {target prev : Nat} (hpos : 0 < prev) (htarget : 1 ≤ target)
    (hlow : prev / 2 ≤ target) (hup : target ≤ 8 * prev) :
    31 ≤ ratioScaled target prev ∧ ratioScaled target prev ≤ 32000 := by
  unfold ratioScaled
  split_ifs with hbig
  · have hlarge : 1048576 ≤ u128Max / 1000 := by decide
    generalize u128Max / 1000 = limit at hbig hlarge
    have hb : 0 < max (prev / 1024) 1 := by omega
    generalize hbdef : max (prev / 1024) 1 = b at hb ⊢
    constructor
    · refine (Nat.le_div_iff_mul_le hb).mpr ?_
      omega
    · refine Nat.div_le_of_le_mul ?_
      omega
  · constructor
    · refine (Nat.le_div_iff_mul_le hpos).mpr ?_
      omega
    · refine Nat.div_le_of_le_mul ?_
      omega

section

variable {G : Type}

theorem validateDifficultyTarget_of_clamped {b parent : Block G}
    (htarget : 1 ≤ targetToU128 b.header.target)
    (hlow : targetToU128Pos parent.header.target / 2 ≤ targetToU128 b.header.target)
    (hup : targetToU128 b.header.target ≤ 8 * targetToU128Pos parent.header.target) :
    validateDifficultyTarget b parent = [] := by
  have hmax : targetToU128 maxTarget = u128Max := by decide
  have hne : b.header.target ≠ Hash.zero := by
    intro h0
    rw [h0] at htarget
    exact absurd htarget (by decide)
  have hle := targetToU128_le b.header.target
  unfold validateDifficultyTarget
  simp only [hmax]
  rw [if_neg (by omega), if_neg hne]
  by_cases hprev : 0 < targetToU128 parent.header.target ∧ 0 < targetToU128 b.header.target
  · rw [if_pos hprev, errorUnless_eq_nil_iff]
    have hsame : targetToU128Pos parent.header.target = targetToU128 parent.header.target :=
      max_eq_left hprev.1
    rw [hsame] at hlow hup
    obtain ⟨hmin, hmaxr⟩ := ratioScaled_bounds hprev.1 htarget hlow hup
    change _ ≤ ratioScaled _ _ ∧ ratioScaled _ _ ≤ _
    split_ifs
    · omega
    · omega
  · rw [if_neg hprev]

/-- **The exact target of the block after a window passes the gate around its parent**, which the
window ends in, for any timestamp of the block. -/
theorem asert_target_passes_gate (window : List DifficultyBlock) (tip : DifficultyBlock)
    (currentHeight : Nat) (b parent : Block G) (hlen : 2 ≤ window.length)
    (hlast : window.getLast? = some tip) (htip : tip.target = parent.header.target)
    (htarget : b.header.target = calculateDifficulty window currentHeight) :
    validateDifficultyTarget b parent = [] := by
  obtain ⟨hpos, hlow, hup, -⟩ := calculateDifficulty_clamped currentHeight hlen hlast
  have hclamp : upwardClamp window currentHeight ≤ 8 := by
    unfold upwardClamp
    split_ifs <;> omega
  rw [← htarget, htip] at hlow hup
  rw [← htarget] at hpos
  exact validateDifficultyTarget_of_clamped hpos hlow (hup.trans (Nat.mul_le_mul_right _ hclamp))

end

/-- A window of two blocks an hour apart, and a block that follows at once. -/
theorem asert_target_passes_gate_pair :
    let window : List DifficultyBlock :=
      [⟨0, 0, u128ToTarget (2 ^ 118)⟩, ⟨1, 3720, u128ToTarget (2 ^ 118)⟩]
    let block (height timestamp : UInt64) (target : Hash) : Block Unit :=
      ⟨⟨FixedBytes.replicate 4 0, 1, height, timestamp, Hash.zero, Hash.zero, Hash.zero, 0, 0,
        target, ⟨FixedBytes.replicate 32 0⟩, FixedBytes.replicate 32 0, none,
        FixedBytes.replicate 32 0, FixedBytes.replicate 32 0⟩, []⟩
    validateDifficultyTarget (block 2 3721 (calculateDifficulty window 2))
      (block 1 3720 (u128ToTarget (2 ^ 118))) = [] := by
  intro window block
  exact asert_target_passes_gate window ⟨1, 3720, u128ToTarget (2 ^ 118)⟩ 2 _ _ (by decide) rfl
    rfl rfl

end Coincync
