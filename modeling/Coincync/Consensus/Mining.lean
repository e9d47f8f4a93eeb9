/-
# Blocks with nothing but a coinbase

A miner without transactions puts the block reward into one output and hashes.  `minedBlock` is
the block that comes out, two minutes after its parent, and `minedBlock_valid` says that it is
valid -- with EVERY UTXO set and whatever the checkpoint: of all the checks only those of the
transactions after the first read the set, and there are none.  A miner may also raise the header
version and put something into the `extra` field of the coinbase (`minedBlockWith`).
-/
import Coincync.Consensus.Validation

namespace Coincync

open Lib List

/-! ## 1. The reward -/

/-- **The block reward is between the tail emission and the reward of genesis.** -/
theorem calculateBlockReward_bounds (height : Nat) :
    tailEmission ≤ (calculateBlockReward height).val ∧
      (calculateBlockReward height).val ≤ (calculateBlockReward 0).val := by
  have hval : ∀ supply, (baseRewardFromSupply supply).val =
      max ((capAtomic - supply) / emissionDivisor) tailEmission := by
    intro supply
    have hle : (capAtomic - supply) / emissionDivisor ≤ capAtomic / emissionDivisor :=
      Nat.div_le_div_right (Nat.sub_le _ _)
    have hfit : max (capAtomic / emissionDivisor) tailEmission < 2 ^ 64 := by decide
    change (UInt64.ofNat _).toNat = _
    rw [UInt64.toNat_ofNat']
    refine Nat.mod_eq_of_lt (lt_of_le_of_lt ?_ hfit)
    exact max_le_max hle le_rfl
  unfold calculateBlockReward
  rw [hval, hval]
  refine ⟨le_max_right _ _, max_le_max (Nat.div_le_div_right ?_) le_rfl⟩
  change capAtomic - _ ≤ capAtomic - 0
  omega

variable {F G : Type} [Field F] [AddCommGroup G] [Module F G] (S : Suite F G)

/-! ## 2. The block -/

/-- The output with the reward: in clear, and committed to with no blinding. -/
def rewardOutput (reward : Amount) (payee : PublicKey) : TxOutput where
  stealthAddress := payee
  txPublicKey := payee
  commitment := S.compress (S.commit reward.atomic 0)
  encryptedAmount := u64LeBytes reward.atomic
  viewTag := 0
  lockHeight := none
  encryptedMemo := []

/-- The coinbase of an empty block. -/
def rewardCoinbase (reward : Amount) (payee : PublicKey) : Transaction G where
  version := 1
  txType := .coinbase
  inputs := []
  outputs := [rewardOutput S reward payee]
  fee := Amount.zero
  rangeProof := []
  extra := []

/-- The same coinbase with something in its `extra` field. -/
def rewardCoinbaseWith (extra : Bytes) (reward : Amount) (payee : PublicKey) : Transaction G :=
  { rewardCoinbase S reward payee with extra := extra }

/-- **The block that a miner without transactions puts on top of `parent`**, two minutes later. -/
def minedBlock (network : NetworkType) (parent : Block G) (target : Hash) (nonce : UInt64)
    (payee : PublicKey) : Block G :=
  let height := parent.header.height + 1
  let timestamp := parent.header.timestamp + 120
  let coinbase := rewardCoinbase S (calculateBlockReward height.toNat) payee
  { header :=
      { networkMagic := network.magicBytes
        version := 1
        height := height
        timestamp := timestamp
        prevHash := parent.hash S
        txRoot := S.merkleRoot [coinbase.hash S]
        anchor := computeFullAnchor S (parent.hash S) height timestamp
        algorithm := randomxAlgorithm
        nonce := nonce
        target := target
        minerPubkey := payee
        supplyCommitment := FixedBytes.replicate 32 0
        checkpointVote := none
        sparkSetRoot := FixedBytes.replicate 32 0
        mwKernelRoot := FixedBytes.replicate 32 0 }
    transactions := [coinbase] }

/-- The same block at a header version, with an `extra` field. -/
def minedBlockWith (version : UInt8) (extra : Bytes) (network : NetworkType) (parent : Block G)
    (target : Hash) (nonce : UInt64) (payee : PublicKey) : Block G :=
  let plain := minedBlock S network parent target nonce payee
  let coinbase := rewardCoinbaseWith S extra (calculateBlockReward plain.height) payee
  { header := { plain.header with version := version, txRoot := S.merkleRoot [coinbase.hash S] }
    transactions := [coinbase] }

theorem size_rewardCoinbaseWith (extra : Bytes) (reward : Amount) (payee : PublicKey) :
    (rewardCoinbaseWith S extra reward payee).size S = 140 + extra.length := by
  simp [Transaction.size, Transaction.toBytes, rewardCoinbaseWith, rewardCoinbase, rewardOutput,
    vecBytes, TxOutput.toBytes, optionBytes]
  omega

theorem declaredAmount_rewardOutput (reward : Amount) (payee : PublicKey) :
    declaredAmount (rewardOutput S reward payee) = reward.atomic := by
  have hfit : reward.atomic.toNat < 256 ^ 8 := reward.atomic.toNat_lt
  rw [declaredAmount, rewardOutput, take_of_length_le (length_u64LeBytes _).le, u64LeBytes,
    fromLeBytes_leBytes, Nat.mod_eq_of_lt hfit, UInt64.ofNat_toNat]

theorem amountLengthOk_rewardOutput (v1012Active : Bool) (reward : Amount) (payee : PublicKey) :
    amountLengthOk v1012Active (rewardOutput S reward payee) = true := by
  have hlength : (rewardOutput S reward payee).encryptedAmount.length = 8 := length_u64LeBytes _
  simp only [amountLengthOk, hlength, le_refl, decide_true, ite_self]

section

omit [AddCommGroup G]

theorem validateDifficultyTarget_same {b p : Block G}
    (htarget : targetToU128 b.header.target = targetToU128 p.header.target)
    (hpos : 1 ≤ targetToU128 b.header.target) : validateDifficultyTarget b p = [] := by
  have hmax : targetToU128 maxTarget = u128Max := by decide
  have hne : b.header.target ≠ Hash.zero := by
    intro h0
    rw [h0] at hpos
    exact absurd hpos (by decide)
  have hle := targetToU128_le b.header.target
  unfold validateDifficultyTarget
  simp only [hmax]
  rw [if_neg (by omega), if_neg hne, ← htarget, if_pos ⟨hpos, hpos⟩, errorUnless_eq_nil_iff]
  generalize targetToU128 b.header.target = t at hpos hle
  have hratio : (if u128Max / 1000 < t then t / 1024 * 1000 / max (t / 1024) 1
      else t * 1000 / t) = 1000 := by
    split_ifs with hbig
    · have hthousand : 1 ≤ u128Max / 1000 / 1024 := by decide
      have hpart : 1 ≤ t / 1024 := hthousand.trans (Nat.div_le_div_right hbig.le)
      rw [max_eq_left hpart, mul_comm]
      exact Nat.mul_div_cancel 1000 hpart
    · rw [mul_comm]
      exact Nat.mul_div_cancel 1000 hpos
  rw [hratio]
  split_ifs
  · exact ⟨by decide, by decide⟩
  · exact ⟨by decide, by decide⟩

end

/-! ## 3. Its validity -/

section

variable {S} {cfg : NodeConfig} {ctx : CallContext G} {network : NetworkType} {parent : Block G}
  {target : Hash} {nonce : UInt64} {payee : PublicKey} {version : UInt8} {extra : Bytes}

/-- **What the miner has to see to**: the header version is neither below the parent's nor below
what the height asks for, the clock of the node is not behind, the target is the parent's, and the
nonce was found. -/
structure MinesWith (S : Suite F G) (ctx : CallContext G) (version : UInt8) (extra : Bytes)
    (parent : Block G) (target : Hash) : Prop where
  ratchet : parent.header.version ≤ version
  enough : blockVersionAtHeight (parent.header.height + 1).toNat ≤ version
  short : extra.length ≤ 1000
  later : parent.header.timestamp < parent.header.timestamp + 120
  clock : ∃ now, ctx.now = some now ∧
    parent.header.timestamp + 120 ≤ now + maxTimestampDrift
  randomxUp : ctx.randomxUp = true
  same : targetToU128 target = targetToU128 parent.header.target
  target_pos : 1 ≤ targetToU128 target
  found : ∀ key data, (⟨S.randomx key data⟩ : Hash).meetsDifficulty target = true
  reward : S.commit (calculateBlockReward (parent.header.height + 1).toNat).atomic 0 ≠ 0

variable (h : MinesWith S ctx version extra parent target)

include h in
theorem validateHeader_minedBlockWith :
    validateHeader S ctx.now (minedBlockWith S version extra network parent target nonce payee).header
      (some parent.header) = [] := by
  obtain ⟨now, hnow, hclock⟩ := h.clock
  simp only [validateHeader, append_eq_nil_iff]
  refine ⟨⟨⟨?_, ?_⟩, rfl⟩, ?_⟩
  · simp only [checkHeaderVersionMin, errorUnless_eq_nil_iff]
    exact h.enough
  · simp only [checkHeaderVsPrev, append_eq_nil_iff, errorUnless_eq_nil_iff]
    exact ⟨⟨⟨h.ratchet, rfl⟩, rfl⟩, h.later⟩
  · simp only [checkHeaderFutureTimestamp, hnow, errorUnless_eq_nil_iff, not_and, UInt64.not_lt]
    exact fun _ => hclock

include h in
theorem powStage_minedBlockWith (cp : Option Nat) :
    (powStage S cfg ctx.randomxUp (minedBlockWith S version extra network parent target nonce payee)
      (some parent) cp).1 = [] := by
  set b := minedBlockWith S version extra network parent target nonce payee
  have hpow : verifyHeaderPow S cfg ctx.randomxUp (parent.header.hash S) b.header = .ok () := by
    rw [h.randomxUp]
    -- the anchor is computed as the check computes it
    refine (if_neg (not_not.mpr rfl)).trans ((if_neg (not_not.mpr rfl)).trans ?_)
    exact (if_neg nofun).trans (if_pos (h.found _ _))
  have hgate : validateDifficultyTarget b parent = [] :=
    validateDifficultyTarget_same h.same h.target_pos
  have hbranch : (powBranch S cfg ctx.randomxUp b parent cp).1 = [] := by
    unfold powBranch
    split_ifs
    · rfl
    · rfl
    · rw [hpow]
  unfold powStage
  split_ifs
  · simp only [hbranch, hgate, append_nil]
  · rfl

variable [DecidableEq G]

theorem coinbaseErrors_rewardCoinbaseWith {b : Block G} {reward : Amount}
    (hreward : S.commit reward.atomic 0 ≠ 0) (v1012Active fs : Bool) :
    coinbaseErrors S b (rewardCoinbaseWith S extra reward payee) reward v1012Active fs = [] := by
  have houtputs : (rewardCoinbaseWith S extra reward payee : Transaction G).outputs =
      [rewardOutput S reward payee] := rfl
  have hcommit : coinbaseCommitmentErrors S (rewardOutput S reward payee, 0) = [] := by
    have hpoint : S.decompress (rewardOutput S reward payee).commitment =
        some (S.commit reward.atomic 0) := S.decompress_compress _
    simp only [coinbaseCommitmentErrors, declaredAmount_rewardOutput, hpoint,
      append_eq_nil_iff, errorUnless_eq_nil_iff]
    exact ⟨rfl, hreward⟩
  have hfit : reward.atomic.toNat < 2 ^ 64 := reward.atomic.toNat_lt
  have hloop : coinbaseOutputsLoop S v1012Active [(rewardOutput S reward payee, 0)] 0 =
      ([], reward.val) := by
    simp only [coinbaseOutputsLoop, amountLengthOk_rewardOutput, declaredAmount_rewardOutput,
      if_true, hcommit, append_nil, zero_add, hfit]
    rfl
  simp only [coinbaseErrors, coinbaseAmountErrors, houtputs, zipIdx_cons, zipIdx_nil,
    hloop, append_eq_nil_iff, errorUnless_eq_nil_iff, length_singleton]
  refine ⟨⟨⟨⟨cons_ne_nil _ _, fun hn => hn.1 rfl⟩, by decide⟩, ?_⟩, ?_⟩
  · exact fun hmany => absurd hmany (by decide)
  · split_ifs
    · rfl
    · rfl

variable [DecidableEq F]

include h in
/-- **A mined block is valid**, with every UTXO set and every checkpoint. -/
theorem minedBlockWith_valid (U : UtxoSet) (cp : Option Nat) :
    (validateBlockWithCheckpointForNetwork S cfg ctx
      (minedBlockWith S version extra network parent target nonce payee) (some parent) U cp
      network).valid = true := by
  set b := minedBlockWith S version extra network parent target nonce payee
  set reward := calculateBlockReward (parent.header.height + 1).toNat
  have hshort := h.short
  have htxs : b.transactions = [rewardCoinbaseWith S extra reward payee] :=
    rfl
  have hsize : b.size S = 340 + extra.length := by
    rw [Block.size, htxs]
    simp only [map_cons, map_nil, sum_cons, sum_nil, size_rewardCoinbaseWith]
    omega
  have hreward : maxCoinbase cfg.build
      b (340 + extra.length) =
      .ok reward := by
    have hfees : b.totalFees = Amount.zero := rfl
    have hadd : ∀ a : Amount, a.checkedAdd Amount.zero = some a := by
      intro a
      have hlt : a.val + Amount.zero.val < 2 ^ 64 := a.atomic.toNat_lt
      rw [Amount.checkedAdd, if_pos hlt]
      exact congrArg (fun v => some (⟨v⟩ : Amount)) UInt64.ofNat_toNat
    unfold maxCoinbase
    simp only [hfees]
    rw [if_neg (fun hn => absurd hn.2 (by decide)), hadd]
    rfl
  rw [validateBlock_valid_iff]
  refine ⟨?_, rfl, validateHeader_minedBlockWith h, powStage_minedBlockWith h cp, ?_, ?_, ?_,
    cons_ne_nil _ _, rfl, ?_, rfl, ⟨_, by rw [hsize]; exact hreward, ?_⟩, ?_⟩
  · unfold checkBlockNetworkMagic
    split_ifs
    · rfl
    · exact errorUnless_eq_nil_iff.mpr rfl
  · rw [hsize]
    refine errorUnless_eq_nil_iff.mpr ?_
    have hmax : maxBlockSize = 2097152 := rfl
    omega
  · rw [checkBlockWeight, errorUnless_eq_nil_iff, blockWeight, htxs]
    simp only [map_cons, map_nil, sum_cons, sum_nil, size_rewardCoinbaseWith]
    change 140 + extra.length + 0 * 256 + 0 ≤ maxBlockSize * 4
    have hmax : maxBlockSize = 2097152 := rfl
    omega
  · exact errorUnless_eq_nil_iff.mpr (show 1 ≤ maxTxsPerBlock by decide)
  · exact errorUnless_eq_nil_iff.mpr rfl
  · obtain ⟨htail, hmax⟩ := calculateBlockReward_bounds (parent.header.height + 1).toNat
    have hsupply : checkBlockTailSupply b = [] := by
      simp only [checkBlockTailSupply, append_eq_nil_iff, errorUnless_eq_nil_iff]
      exact ⟨htail, hmax⟩
    have hcoinbase : ∀ v1012Active fs, coinbaseErrors S
        b
        (rewardCoinbaseWith S extra reward payee)
        reward v1012Active fs = [] :=
      fun v1012Active fs => coinbaseErrors_rewardCoinbaseWith h.reward v1012Active fs
    simp only [coinbaseAndDuplicateErrors, Block.coinbase, htxs, head?_cons, hsupply,
      hcoinbase, append_eq_nil_iff, true_and]
    refine ⟨⟨⟨rfl, rfl⟩, rfl⟩, ?_⟩
    split_ifs
    · rfl
    · rfl
  · have hnone : nonFirst b = [] :=
      rfl
    simp only [lateErrors, hnone, flatMap_nil, ite_self, append_nil]

end

end Coincync
