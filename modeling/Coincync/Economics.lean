/-
# Emission curve and fee split

`src/emission/curve.rs` and `src/consensus/fee_market.rs`: the block subsidy as a function of the
height, the congestion multiplier of the minimum fee, and the split of a block's fees between
miner and burn.
-/
import Coincync.Constants

namespace Coincync

/-! ## 1. Emission -/

/-- The supply cap in atomic units. -/
def capAtomic : Nat := totalSupplyTarget * coin

/-- `base_reward_from_supply`: the remaining supply over the divisor, floored at the tail. -/
def baseRewardFromSupply (cumulativeSupply : Nat) : Amount :=
  ⟨UInt64.ofNat (max ((capAtomic - cumulativeSupply) / emissionDivisor) tailEmission)⟩

/-- The step of the integration. -/
def supplyStep (height : Nat) : Nat :=
  if 1000000 < height then 10000
  else if 100000 < height then 1000
  else if 10000 < height then 100
  else 10

/-- The `while h < height` loop of `estimate_supply_at_height`; every pass advances `h`, so
`height` passes are enough. -/
def estimateSupplyLoop (height : Nat) : Nat → Nat → Nat → Nat
  | 0, supply, _ => supply
  | fuel + 1, supply, h =>
    if h < height then
      let asymptoticReward := (capAtomic - supply) / emissionDivisor
      let reward := max asymptoticReward tailEmission
      if asymptoticReward < tailEmission then
        min (supply + min (tailEmission * (height - h)) (2 ^ 128 - 1)) (2 ^ 128 - 1)
      else
        let blocksInStep := min (height - h) (supplyStep height)
        estimateSupplyLoop height fuel (supply + reward * blocksInStep) (h + blocksInStep)
    else supply

def estimateSupplyAtHeight (height : Nat) : Nat :=
  if height = 0 then 0 else min (estimateSupplyLoop height height 0 0) capAtomic

/-- `calculate_block_reward` (`base_reward`). -/
def calculateBlockReward (height : Nat) : Amount :=
  baseRewardFromSupply (estimateSupplyAtHeight height)

/-! ## 2. Fees -/

/-- `congestion_multiplier`, times 100. -/
def congestionMultiplier (congestionPct : Nat) : Nat :=
  if congestionPct < 50 then 100
  else if congestionPct < 75 then 150
  else if congestionPct < 90 then 200
  else 300

/-- `FeeDistribution`: the parts the validator and the chain read. -/
structure FeeDistribution where
  toMiner : Amount
  burned : Amount

/-- `distribute_fee`: the miner's percentage, the remainder burned. -/
def distributeFee (total : Amount) (congested : Bool) : FeeDistribution :=
  let minerPct := if congested then 50 else 70
  let toMiner := min (total.val * minerPct / 100) total.val
  ⟨⟨UInt64.ofNat toMiner⟩, ⟨UInt64.ofNat (total.val - toMiner)⟩⟩

/-- Block fullness in percent. -/
def congestionPct (size : Nat) : Nat := size * 100 / maxBlockSize

end Coincync
