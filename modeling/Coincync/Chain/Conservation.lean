/-
# Emission and fees are accounted for

What a block may claim is computed twice.  The validator computes `max_coinbase`, the subsidy and
the miner's share of the fees, and holds the declared amounts of the coinbase outputs to exactly
that.  The chain computes `block_fee_burn` for its statistics, with its own sum of the fees, its own
test of the activation height and its own congestion.  `BlockChecks.conserves` says that the two
agree block by block: what the coinbase declares and what is burned are the subsidy and the fees.
Over a chain this is an induction (`coinbase_and_burn_conserved`), in which the heights run through
`1, ..., n`: a `u64` height cannot wrap because the timestamps, which rise with every block, are
`u64` too.
-/
import Coincync.Chain.Growth

namespace Coincync

open Lib List

variable {F G : Type} [Field F] [AddCommGroup G] [Module F G] {S : Suite F G}

/-! ## 1. Amounts -/

theorem Amount.val_sum_of_lt {l : List Amount} (h : (l.map Amount.val).sum < 2 ^ 64) :
    (Amount.sum l).val = (l.map Amount.val).sum := by
  rw [Amount.val_sum, saturate]
  omega

theorem Amount.val_of_checkedAdd {a b c : Amount} (h : a.checkedAdd b = some c) :
    c.val = a.val + b.val := by
  unfold Amount.checkedAdd at h
  split_ifs at h with hlt
  cases h
  exact UInt64.toNat_ofNat_of_lt' hlt

/-- **`distribute_fee` loses nothing.** -/
theorem distributeFee_total (total : Amount) (congested : Bool) :
    (distributeFee total congested).toMiner.val + (distributeFee total congested).burned.val =
      total.val := by
  have hlt : total.val < 2 ^ 64 := total.atomic.toNat_lt
  simp only [distributeFee, Amount.val, UInt64.toNat_ofNat']
  simp only [Amount.val] at hlt
  generalize (if congested = true then 50 else 70) = pct
  have hle := min_le_right (total.atomic.toNat * pct / 100) total.atomic.toNat
  rw [Nat.mod_eq_of_lt (by omega), Nat.mod_eq_of_lt (by omega)]
  omega

/-! ## 2. One block -/

/-- The amounts that the coinbase outputs of a block declare. -/
def coinbaseTotal (b : Block G) : Nat :=
  (((b.transactions.filter fun tx => tx.isCoinbase).flatMap Transaction.outputs).map
    fun o => (declaredAmount o).toNat).sum

/-- The fees that the transactions of a block pay. -/
def blockFees (b : Block G) : Nat :=
  ((b.transactions.filter fun tx => !tx.isCoinbase).map fun tx => tx.fee.val).sum

section

variable [DecidableEq G]

/-- **A loop without errors has added up every declared amount.** -/
theorem coinbaseOutputsLoop_total {v1012Active : Bool} {l : List (TxOutput × Nat)} :
    ∀ {total : Nat}, (coinbaseOutputsLoop S v1012Active l total).1 = [] →
      (coinbaseOutputsLoop S v1012Active l total).2 =
        total + (l.map fun o => (declaredAmount o.1).toNat).sum := by
  induction l with
  | nil =>
    intro total _
    simp [coinbaseOutputsLoop]
  | cons o t ih =>
    intro total h
    unfold coinbaseOutputsLoop at h ⊢
    split_ifs at h ⊢ with hlen hfits
    · simp only [append_eq_nil_iff] at h
      simp only [map_cons, sum_cons]
      rw [ih h.2]
      omega
    · simp at h

variable [DecidableEq F] {cfg : NodeConfig} {network : NetworkType}

namespace BlockChecks

variable {ctx : CallContext G} {b : Block G} {prev : Option (Block G)} {U : UtxoSet}
  {cp : Option Nat}

section

variable (h : BlockChecks S cfg ctx b prev U cp network)

include h

theorem coinbaseTotal_eq (hheight : 0 < b.height) (hfs : fastSync cfg b.height cp = false) :
    ∃ maxCb, maxCoinbase cfg.build b (b.size S) = .ok maxCb ∧ coinbaseTotal b = maxCb.val := by
  obtain ⟨c, rest, hb, hc, hrest⟩ := h.coinbase_first
  obtain ⟨maxCb, hmax, hd⟩ := h.coinbase
  refine ⟨maxCb, hmax, ?_⟩
  -- the one coinbase is the first transaction
  have htotal : coinbaseTotal b = (c.outputs.map fun o => (declaredAmount o).toNat).sum := by
    have hfilter : rest.filter (fun tx => tx.isCoinbase) = [] := by
      rw [filter_eq_nil_iff]
      intro tx htx
      simp [hrest tx htx]
    simp [coinbaseTotal, hb, hc, hfilter]
  simp only [coinbaseAndDuplicateErrors, append_eq_nil_iff, Block.coinbase, hb,
    head?_cons, coinbaseErrors] at hd
  have hamount : coinbaseAmountErrors S (v1012RulesActive network b.height) c maxCb = [] := by
    simpa [hheight, hfs] using hd.1.1.1.1.2.2
  simp only [coinbaseAmountErrors, append_eq_nil_iff] at hamount
  obtain ⟨hloop, hsum⟩ := hamount
  rw [if_pos hloop, errorUnless_eq_nil_iff, coinbaseOutputsLoop_total hloop] at hsum
  have hindex : c.outputs.zipIdx.map (fun o => (declaredAmount o.1).toNat) =
      c.outputs.map fun o => (declaredAmount o).toNat := by
    rw [show (fun o : TxOutput × Nat => (declaredAmount o.1).toNat) =
        (fun o => (declaredAmount o).toNat) ∘ Prod.fst from rfl, ← map_map,
      zipIdx_map_fst]
  rw [htotal, ← hsum, hindex, zero_add]

theorem totalFees_eq :
    b.totalFees =
      Amount.sum ((b.transactions.filter fun tx => !tx.isCoinbase).map Transaction.fee) := by
  obtain ⟨c, rest, hb, hc, hrest⟩ := h.coinbase_first
  have hfilter : rest.filter (fun tx => !tx.isCoinbase) = rest := by
    rw [filter_eq_self]
    intro tx htx
    simp [hrest tx htx]
  simp [Block.totalFees, hb, hc, hfilter]

/-- **One block accounts for its subsidy and its fees.** -/
theorem conserves (hheight : 0 < b.height) (hfs : fastSync cfg b.height cp = false)
    (hfees : blockFees b < 2 ^ 64) :
    coinbaseTotal b + blockFeeBurn S cfg.build b =
      (calculateBlockReward b.height).val + blockFees b := by
  obtain ⟨maxCb, hmax, htotal⟩ := h.coinbaseTotal_eq hheight hfs
  -- both sides start from the same exact sum of the fees
  have hsum : b.totalFees.val = blockFees b := by
    have hmap : (((b.transactions.filter fun tx => !tx.isCoinbase).map Transaction.fee).map
        Amount.val).sum = blockFees b := by
      rw [blockFees, map_map]
      rfl
    rw [h.totalFees_eq, Amount.val_sum_of_lt (by rw [hmap]; exact hfees), hmap]
  have hburn : blockFeeBurn S cfg.build b =
      if b.height < feeDistributionHeight cfg.build ∨ b.totalFees.val = 0 then 0
      else
        (distributeFee b.totalFees
          (decide (congestionThreshold ≤ congestionPct (b.size S)))).burned.val := by
    rw [h.totalFees_eq]
    rfl
  simp only [maxCoinbase] at hmax
  split at hmax
  · rename_i v hv
    cases hmax
    rw [htotal, Amount.val_of_checkedAdd hv, hburn]
    split_ifs with hactive hnone hnone
    · -- active with fees, yet not active or without fees
      omega
    · have := distributeFee_total b.totalFees
        (decide (congestionThreshold ≤ congestionPct (b.size S)))
      omega
    · omega
    · omega
  · cases hmax

end

end BlockChecks

/-! ## 3. A chain -/

/-- **The blocks the law is about**: not validated in fast-sync, with fees that fit a `u64`. -/
def FullyValidated (cfg : NodeConfig) (_s : Grown G) (a : Arrival G) : Prop :=
  fastSync cfg a.block.height a.checkpoint = false ∧ blockFees a.block < 2 ^ 64

omit [DecidableEq G] [DecidableEq F] in
theorem genesis_timestamp_pos (network : NetworkType) :
    0 < (createGenesisBlockFor S network).header.timestamp.toNat := by
  cases network with
  | mainnet => exact Nat.zero_lt_of_ne_zero (by decide : (1790812800 : UInt64).toNat ≠ 0)
  | testnet => exact Nat.zero_lt_of_ne_zero (by decide : (1776818628 : UInt64).toNat ≠ 0)
  | regtest => exact Nat.zero_lt_of_ne_zero (by decide : (1776818628 : UInt64).toNat ≠ 0)

/-- **A growing chain is as high as it is long.** -/
def Leveled (chain : List (Block G)) : Prop :=
  ∃ t rest, chain = t :: rest ∧ t.height = rest.length ∧ rest.length < t.header.timestamp.toNat

omit [DecidableEq G] [DecidableEq F] in
theorem leveled_genesis (network : NetworkType) : Leveled (Grown.genesis S network).chain := by
  refine ⟨_, [], rfl, ?_, genesis_timestamp_pos network⟩
  rw [Block.height, createGenesisBlockFor_height]
  rfl

variable {ctx : CallContext G}

theorem BlockChecks.leveled {b t : Block G} {rest : List (Block G)}
    {U : UtxoSet} {cp : Option Nat} (h : BlockChecks S cfg ctx b (some t) U cp network)
    (hheight : t.height = rest.length) (htime : rest.length < t.header.timestamp.toNat) :
    b.height = rest.length + 1 ∧ rest.length + 1 < b.header.timestamp.toNat := by
  have hheader := h.header
  simp only [validateHeader, checkHeaderVsPrev, Option.map_some, append_eq_nil_iff,
    errorUnless_eq_nil_iff] at hheader
  obtain ⟨⟨⟨-, ⟨⟨-, hh⟩, -⟩, ht⟩, -⟩, -⟩ := hheader
  have hlater : t.header.timestamp.toNat < b.header.timestamp.toNat := UInt64.lt_iff_toNat_lt.mp ht
  have hbound := b.header.timestamp.toNat_lt
  refine ⟨?_, by omega⟩
  unfold Block.height at hheight ⊢
  rw [hh, UInt64.toNat_add, UInt64.toNat_one, hheight]
  omega

theorem Leveled.cons {b : Block G} {chain : List (Block G)} {U : UtxoSet}
    {cp : Option Nat} (h : Leveled chain) (hb : BlockChecks S cfg ctx b chain.head? U cp network) :
    Leveled (b :: chain) := by
  obtain ⟨t, rest, rfl, hheight, htime⟩ := h
  exact ⟨b, t :: rest, rfl, hb.leveled hheight htime⟩

/-- What the blocks above genesis declare and burn, against what was emitted and paid. -/
def Conserved (S : Suite F G) (build : BuildConfig) (chain : List (Block G)) : Prop :=
  (chain.dropLast.map coinbaseTotal).sum + (chain.dropLast.map (blockFeeBurn S build)).sum =
    ((List.range' 1 (chain.length - 1)).map fun h => (calculateBlockReward h).val).sum +
      (chain.dropLast.map blockFees).sum

/-- **Payouts and burn account exactly for emission and fees.** -/
theorem coinbase_and_burn_conserved {s : Grown G}
    (h : Reaches (grow S cfg network) (FullyValidated cfg) (Grown.genesis S network) s) :
    (s.chain.dropLast.map coinbaseTotal).sum +
        (s.chain.dropLast.map (blockFeeBurn S cfg.build)).sum =
      ((List.range' 1 (s.chain.length - 1)).map fun h => (calculateBlockReward h).val).sum +
        (s.chain.dropLast.map blockFees).sum := by
  have hinv : Leveled s.chain ∧ Conserved S cfg.build s.chain := by
    have hstart : Leveled (Grown.genesis S network).chain ∧
        Conserved S cfg.build (Grown.genesis S network).chain := ⟨leveled_genesis network, rfl⟩
    refine h.invariant (I := fun s => Leveled s.chain ∧ Conserved S cfg.build s.chain) hstart ?_
    rintro s a s' ⟨hlevel, hcons⟩ ⟨hfs, hfees⟩ hgrow
    obtain ⟨hchecks, rfl⟩ := grow_eq_some hgrow
    refine ⟨hlevel.cons hchecks, ?_⟩
    -- the new block adds its own account at the top height
    obtain ⟨t, rest, hchain, hheight, htime⟩ := hlevel
    rw [hchain, head?_cons] at hchecks
    obtain ⟨hheight', -⟩ := hchecks.leveled hheight htime
    have hblock := hchecks.conserves (by omega) hfs hfees
    unfold Conserved at hcons ⊢
    rw [hchain] at hcons ⊢
    have hrange : List.range' 1 ((a.block :: t :: rest).length - 1) =
        List.range' 1 ((t :: rest).length - 1) ++ [a.block.height] := by
      simp only [length_cons, Nat.add_sub_cancel]
      rw [range'_1_concat, hheight', add_comm]
    rw [hrange, map_append, sum_append, dropLast_cons_of_ne_nil (cons_ne_nil t rest)]
    simp only [map_cons, sum_cons, map_nil, sum_nil]
    omega
  exact hinv.2

end

namespace SmallChain

open SmallSuite

/-- A build with the fee split from the first block on. -/
def splitCfg : NodeConfig := ⟨⟨false, false⟩, (expectedGenesisHash .regtest).bytes⟩

def splitFeeBlock : Block Z :=
  child genesis genesis.header.target
    [coinbaseTx (UInt64.ofNat ((calculateBlockReward 1).val + 1400000)) 5, honestSpend]

/-- A chain on which a fee is split and the rest is burned. -/
theorem split_fee_conserved :
    ∃ s, grow suite splitCfg .regtest (Grown.genesis suite .regtest) (arrives splitFeeBlock) =
        some s ∧
      blockFeeBurn suite splitCfg.build splitFeeBlock = 600000 ∧
      (s.chain.dropLast.map coinbaseTotal).sum +
          (s.chain.dropLast.map (blockFeeBurn suite splitCfg.build)).sum =
        ((List.range' 1 (s.chain.length - 1)).map fun h => (calculateBlockReward h).val).sum +
          (s.chain.dropLast.map blockFees).sum := by
  have hcheck : (grow suite splitCfg .regtest (Grown.genesis suite .regtest)
        (arrives splitFeeBlock)).isSome = true ∧
      fastSync splitCfg splitFeeBlock.height none = false ∧ blockFees splitFeeBlock < 2 ^ 64 ∧
      blockFeeBurn suite splitCfg.build splitFeeBlock = 600000 := by
    decide +kernel
  obtain ⟨hgrow, hfs, hfees, hburn⟩ := hcheck
  obtain ⟨s, hs⟩ := Option.isSome_iff_exists.mp hgrow
  exact ⟨s, hs, hburn, coinbase_and_burn_conserved (.next _ .start ⟨hfs, hfees⟩ hs)⟩

end SmallChain

end Coincync
