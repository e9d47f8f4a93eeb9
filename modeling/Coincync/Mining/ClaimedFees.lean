/-
# The fees a miner claims

The builder of a block adds to the subsidy what `calculate_claimable_fees` answers; the validator
demands the subsidy and the miner's share that it works out of the finished block (`maxCoinbase`).
Both give the miner 70 percent of the fees, or 50 where the block is congested.  But the builder
judges congestion by the transactions alone and the validator by the block, with its coinbase and
200 bytes for the header; and the builder's sum of the fees wraps where the validator's saturates.
`candidate_coinbase_exact_iff` says when the two come to one amount.
-/
import Coincync.Consensus.Mining
import Coincync.Mining.Template

namespace Coincync

open Lib List

variable {F G : Type} [Field F] [AddCommGroup G] [Module F G] (S : Suite F G)
  {build : BuildConfig} {height : Nat}

/-! ## 1. Shares -/

/-- The fees of transactions, as a number. -/
def feesOf (txs : List (Transaction G)) : Nat := (txs.map fun tx => tx.fee.val).sum

/-- Whether a size counts as congestion. -/
def congested (size : Nat) : Bool := decide (congestionThreshold ≤ congestionPct size)

/-- The percentage of the miner. -/
def minerPct (congested : Bool) : Nat := if congested = true then 50 else 70

def minerShare (build : BuildConfig) (height fees : Nat) (congested : Bool) : Nat :=
  if height < feeDistributionHeight build then fees else fees * minerPct congested / 100

theorem minerPct_le (c : Bool) : 50 ≤ minerPct c ∧ minerPct c ≤ 70 := by
  cases c <;> decide

theorem toMiner_val (total : Amount) (c : Bool) :
    (distributeFee total c).toMiner.val = total.val * minerPct c / 100 := by
  have hlt : total.val < 2 ^ 64 := total.atomic.toNat_lt
  have hpct := (minerPct_le c).2
  have hle : total.val * minerPct c / 100 ≤ total.val := by
    refine Nat.div_le_of_le_mul ?_
    rw [Nat.mul_comm 100]
    exact Nat.mul_le_mul_left _ (by omega)
  change (UInt64.ofNat (min (total.val * minerPct c / 100) total.val)).toNat = _
  rw [min_eq_left hle, UInt64.toNat_ofNat_of_lt' (show _ < 2 ^ 64 by omega)]

/-- **What the builder claims.** -/
theorem calculateClaimableFees_eq (build : BuildConfig) (height : Nat)
    (txs : List (Transaction G)) :
    calculateClaimableFees S build height txs =
      minerShare build height (feesOf txs % 2 ^ 64)
        (congested ((txs.map (Transaction.size S)).sum)) := by
  have hlt : feesOf txs % 2 ^ 64 < 2 ^ 64 := Nat.mod_lt _ (by decide)
  unfold calculateClaimableFees minerShare
  change (if feesOf txs % 2 ^ 64 = 0 then 0 else _) = _
  by_cases hzero : feesOf txs % 2 ^ 64 = 0
  · rw [if_pos hzero, hzero, Nat.zero_mul, Nat.zero_div, ite_self]
  · rw [if_neg hzero]
    split_ifs
    · rfl
    · rw [toMiner_val]
      change (UInt64.ofNat (feesOf txs % 2 ^ 64)).toNat * _ / 100 = _
      rw [UInt64.toNat_ofNat_of_lt' hlt]
      rfl

omit [AddCommGroup G] in
/-- **What the validator demands.** -/
theorem maxCoinbase_eq_ok_iff {b : Block G} {size : Nat} {v : Amount} :
    maxCoinbase build b size = .ok v ↔
      v.val = (calculateBlockReward b.height).val +
        minerShare build b.height b.totalFees.val (congested size) := by
  have hshare : (if feeDistributionHeight build ≤ b.height ∧ 0 < b.totalFees.val then
      (distributeFee b.totalFees (decide (congestionThreshold ≤ congestionPct size))).toMiner
      else b.totalFees).val = minerShare build b.height b.totalFees.val (congested size) := by
    unfold minerShare
    by_cases hheight : b.height < feeDistributionHeight build
    · rw [if_pos hheight, if_neg fun h => absurd h.1 (Nat.not_le.mpr hheight)]
    · rw [if_neg hheight]
      by_cases hfees : 0 < b.totalFees.val
      · rw [if_pos ⟨Nat.not_lt.mp hheight, hfees⟩, toMiner_val]
        rfl
      · rw [if_neg fun h => hfees h.2, Nat.eq_zero_of_not_pos hfees, Nat.zero_mul, Nat.zero_div]
  have hv : v.val < 2 ^ 64 := v.atomic.toNat_lt
  unfold maxCoinbase
  simp only
  generalize (if feeDistributionHeight build ≤ b.height ∧ 0 < b.totalFees.val then
    (distributeFee b.totalFees (decide (congestionThreshold ≤ congestionPct size))).toMiner
    else b.totalFees) = share at hshare ⊢
  unfold Amount.checkedAdd
  rw [← hshare]
  split_ifs with hfits
  · simp only [Except.ok.injEq]
    constructor
    · rintro rfl
      exact UInt64.toNat_ofNat_of_lt' hfits
    · intro hval
      rw [← hval]
      exact congrArg Amount.mk (UInt64.ofNat_toNat (x := v.atomic))
  · exact iff_of_false nofun (by omega)

omit [AddCommGroup G] in
theorem totalFees_of_cons {b : Block G} {coinbase : Transaction G} {txs : List (Transaction G)}
    (h : b.transactions = coinbase :: txs) : b.totalFees.val = min (feesOf txs) (2 ^ 64 - 1) := by
  rw [Block.totalFees, h, drop_one, tail_cons, Amount.val_sum, map_map]
  rfl

/-! ## 2. The candidate -/

/-- The sums that have, after wrapping, the share that the highest amount has. -/
def wrappedFees : Bool → Bool → List Nat
  | false, false => [2 ^ 64 - 1]
  | true, true => [2 ^ 64 - 2, 2 ^ 64 - 1]
  | false, true => [13176245766935394010, 13176245766935394011]
  | true, false => []

/-- **When the claim is what is demanded.**  Before the split the fees only have to fit beside the
subsidy. -/
def ClaimsAgree (build : BuildConfig) (height fees : Nat) (builder validator : Bool) : Prop :=
  if height < feeDistributionHeight build then
    (calculateBlockReward height).val + fees < 2 ^ 64
  else if fees < 2 ^ 64 then builder = validator ∨ fees ∈ [0, 1, 2, 4]
  else fees % 2 ^ 64 ∈ wrappedFees builder validator

theorem share_eq_iff (fees : Nat) (c c' : Bool) :
    fees * minerPct c / 100 = fees * minerPct c' / 100 ↔ c = c' ∨ fees ∈ [0, 1, 2, 4] := by
  cases c <;> cases c' <;>
    simp only [minerPct, mem_cons, not_mem_nil, or_false, if_true, Bool.false_eq_true,
      if_false, true_or, reduceCtorEq, false_or]
  · omega
  · omega

theorem wrapped_eq_iff {fees : Nat} (h : fees < 2 ^ 64) (c c' : Bool) :
    fees * minerPct c / 100 = (2 ^ 64 - 1) * minerPct c' / 100 ↔ fees ∈ wrappedFees c c' := by
  cases c <;> cases c' <;>
    simp only [minerPct, wrappedFees, mem_cons, not_mem_nil, or_false, if_true,
      Bool.false_eq_true, if_false, iff_false]
  all_goals omega

theorem claimsAgree_iff (build : BuildConfig) (height fees : Nat) (c c' : Bool) :
    min ((calculateBlockReward height).val + minerShare build height (fees % 2 ^ 64) c)
        (2 ^ 64 - 1) =
      (calculateBlockReward height).val + minerShare build height (min fees (2 ^ 64 - 1)) c' ↔
    ClaimsAgree build height fees c c' := by
  obtain ⟨hlow, hhigh⟩ := calculateBlockReward_bounds height
  have htail : 0 < tailEmission := by decide
  have hgenesis : (calculateBlockReward 0).val < 2 ^ 60 := by decide
  have hmod : fees % 2 ^ 64 < 2 ^ 64 := Nat.mod_lt _ (by decide)
  have hfit : fees < 2 ^ 64 → fees % 2 ^ 64 = fees := Nat.mod_eq_of_lt
  unfold ClaimsAgree minerShare
  generalize (calculateBlockReward height).val = reward at hlow hhigh ⊢
  split_ifs with hheight hfees
  · omega
  · have hshare : fees * minerPct c / 100 * 100 ≤ fees * 70 :=
      (Nat.div_mul_le_self _ _).trans (Nat.mul_le_mul_left _ (minerPct_le c).2)
    rw [hfit hfees, min_eq_left (show fees ≤ 2 ^ 64 - 1 by omega), min_eq_left (by omega),
      Nat.add_left_cancel_iff, share_eq_iff]
  · have hshare : fees % 2 ^ 64 * minerPct c / 100 * 100 ≤ fees % 2 ^ 64 * 70 :=
      (Nat.div_mul_le_self _ _).trans (Nat.mul_le_mul_left _ (minerPct_le c).2)
    rw [min_eq_right (show 2 ^ 64 - 1 ≤ fees by omega), min_eq_left (by omega),
      Nat.add_left_cancel_iff, wrapped_eq_iff hmod]

variable {S} {payout : Payout} {signalBits : UInt32} {t : Template G} {c : CandidateBlock G}

theorem candidate_of_template (h : buildBlockFromTemplate S build payout signalBits t = .ok c)
    (hheight : t.height < 2 ^ 64) (nonce : UInt64) :
    (c.intoBlock nonce).height = t.height ∧ ∃ coinbase o,
      (c.intoBlock nonce).transactions = coinbase :: t.transactions ∧ coinbase.outputs = [o] ∧
      coinbase.size S = coinbaseBytes signalBits ∧
      (declaredAmount o).toNat = min ((calculateBlockReward t.height).val +
        calculateClaimableFees S build t.height t.transactions) (2 ^ 64 - 1) := by
  have hnat : (UInt64.ofNat t.height).toNat = t.height := UInt64.toNat_ofNat_of_lt' hheight
  unfold buildBlockFromTemplate buildCoinbaseWithFees at h
  cases hpay : payout.derive (UInt64.ofNat t.height) with
  | none =>
    simp only [hpay, Option.map_none] at h
    split_ifs at h
  | some address =>
    simp only [hpay, Option.map_some] at h
    split_ifs at h
    cases h
    refine ⟨hnat, _, _, rfl, rfl, size_of_buildCoinbaseWithFees hpay
      (show buildCoinbaseWithFees S payout _ (calculateClaimableFees S build t.height t.transactions)
        signalBits = _ by rw [buildCoinbaseWithFees, hpay]; rfl), ?_⟩
    rw [hnat, declaredAmount, candidateOutput, take_of_length_le (length_u64LeBytes _).le,
      u64LeBytes, fromLeBytes_leBytes]
    have hlt := (UInt64.ofNat (min ((calculateBlockReward t.height).val +
      calculateClaimableFees S build t.height t.transactions) (2 ^ 64 - 1))).toNat_lt
    rw [Nat.mod_eq_of_lt (show _ < 256 ^ 8 from hlt), UInt64.ofNat_toNat,
      UInt64.toNat_ofNat_of_lt' (show _ < 2 ^ 64 by omega)]

/-- **The coinbase of a candidate has the exact total that the validator demands** if and only if
the two sides agree about the fees: the builder by the sizes of the transactions, the validator with
the header and the coinbase added. -/
theorem candidate_coinbase_exact_iff
    (h : buildBlockFromTemplate S build payout signalBits t = .ok c)
    (hheight : t.height < 2 ^ 64) (nonce : UInt64) :
    (∃ coinbase o, (c.intoBlock nonce).coinbase = some coinbase ∧ coinbase.outputs = [o] ∧
      maxCoinbase build (c.intoBlock nonce) ((c.intoBlock nonce).size S) =
        .ok ⟨declaredAmount o⟩) ↔
    ClaimsAgree build t.height (feesOf t.transactions)
      (congested ((t.transactions.map (Transaction.size S)).sum))
      (congested (200 + coinbaseBytes signalBits +
        (t.transactions.map (Transaction.size S)).sum)) := by
  obtain ⟨hblock, coinbase, o, htxs, hout, hbytes, hamount⟩ := candidate_of_template h hheight nonce
  have hsize : 200 + coinbaseBytes signalBits + (t.transactions.map (Transaction.size S)).sum =
      (c.intoBlock nonce).size S := by
    rw [Block.size, htxs, map_cons, sum_cons, hbytes, add_assoc]
  have hfees := totalFees_of_cons htxs
  have hcoinbase : (c.intoBlock nonce).coinbase = some coinbase := by
    rw [Block.coinbase, htxs]
    rfl
  rw [hsize, ← claimsAgree_iff, ← calculateClaimableFees_eq, ← hamount, ← hfees, ← hblock]
  constructor
  · rintro ⟨coinbase', o', hcoinbase', hout', hmax⟩
    rw [hcoinbase] at hcoinbase'
    cases hcoinbase'
    rw [hout] at hout'
    cases hout'
    exact maxCoinbase_eq_ok_iff.mp hmax
  · intro hagree
    exact ⟨coinbase, o, hcoinbase, hout, maxCoinbase_eq_ok_iff.mpr hagree⟩

namespace SmallChain

open SmallSuite

/-! ## 3. Around four fifths -/

theorem size_with_extra (tx : Transaction Z) (extra : Bytes) :
    ({ tx with extra := extra } : Transaction Z).size suite + tx.extra.length =
      tx.size suite + extra.length := by
  simp only [Transaction.size, Transaction.toBytes, vecBytes, length_append,
    length_flatMap, length_singleton, map_const', sum_replicate, smul_eq_mul]
  simp only [lenBytes, length_leBytes]
  omega

/-- A transfer of 419400 bytes. -/
def bulkySpend : Transaction Z := { maturedSpend with extra := List.replicate 416661 0 }

theorem size_bulkySpend : bulkySpend.size suite = 419400 := by
  have hsize := size_with_extra maturedSpend (List.replicate 416661 0)
  have hplain : maturedSpend.size suite = 2739 ∧ maturedSpend.extra.length = 0 := by
    decide +kernel
  rw [length_replicate, hplain.1, hplain.2, Nat.add_zero] at hsize
  -- the kernel must not count the 416661 bytes
  unfold bulkySpend
  rw [hsize]

/-- A template of so many of them, at height 600. -/
def bulky (n : Nat) : Template Z where
  height := 600
  prevHash := genesis.hash suite
  timestamp := 1800000000
  networkMagic := NetworkType.regtest.magicBytes
  target := genesis.header.target
  difficulty := 1
  transactions := List.replicate n bulkySpend

theorem fees_bulky (n : Nat) : feesOf (bulky n).transactions = n * 12000000 := by
  rw [feesOf, bulky, map_replicate, sum_replicate, smul_eq_mul]
  rfl

theorem sizes_bulky (n : Nat) :
    (((bulky n).transactions.map (Transaction.size suite)).sum) = n * 419400 := by
  rw [bulky, map_replicate, sum_replicate, size_bulkySpend, smul_eq_mul]

theorem build_bulky (n : Nat) :
    ∃ c, buildBlockFromTemplate suite cfg.build payee 0 (bulky n) = .ok c := by
  obtain ⟨c, -, hc, -⟩ := buildBlockFromTemplate_ok suite cfg.build 0
    (show (bulky n).networkMagic = NetworkType.regtest.magicBytes from rfl)
    (show 1800000000 < 2 ^ 63 by decide)
    (show payee.derive (UInt64.ofNat (bulky n).height) = some (⟨compress 5⟩, ⟨compress 6⟩) from rfl)
  exact ⟨c, hc⟩

/-- **With one of them the coinbase is exact.** -/
theorem bulky_coinbase_exact : ∃ c,
    buildBlockFromTemplate suite cfg.build payee 0 (bulky 1) = .ok c ∧
    ∃ coinbase o, (c.intoBlock 0).coinbase = some coinbase ∧ coinbase.outputs = [o] ∧
      maxCoinbase cfg.build (c.intoBlock 0) ((c.intoBlock 0).size suite) =
        .ok ⟨declaredAmount o⟩ := by
  obtain ⟨c, hc⟩ := build_bulky 1
  refine ⟨c, hc, (candidate_coinbase_exact_iff hc (show 600 < 2 ^ 64 by decide) 0).mpr ?_⟩
  rw [fees_bulky, sizes_bulky, ClaimsAgree,
    if_neg (show ¬ (bulky 1).height < feeDistributionHeight cfg.build by decide),
    if_pos (by decide)]
  exact .inl (by decide)

/-- **Four of them are not congestion, the block with them is.** -/
theorem crossing_coinbase_differs :
    ∃ c coinbase o v, buildBlockFromTemplate suite cfg.build payee 0 (bulky 4) = .ok c ∧
      (c.intoBlock 0).coinbase = some coinbase ∧ coinbase.outputs = [o] ∧
      maxCoinbase cfg.build (c.intoBlock 0) ((c.intoBlock 0).size suite) = .ok v ∧
      (declaredAmount o).toNat = v.val + 9600000 := by
  obtain ⟨c, hc⟩ := build_bulky 4
  obtain ⟨hheight, coinbase, o, htxs, hout, -, hamount⟩ :=
    candidate_of_template hc (show 600 < 2 ^ 64 by decide) 0
  have hsize : congested ((c.intoBlock 0).size suite) = true := by
    have hsum := sizes_bulky 4
    rw [Block.size, htxs, map_cons, sum_cons, hsum]
    refine decide_eq_true ((Nat.le_div_iff_mul_le (by decide)).mpr ?_)
    change 80 * 2097152 ≤ _
    omega
  have hclaim : calculateClaimableFees suite cfg.build (bulky 4).height (bulky 4).transactions =
      33600000 := by
    rw [calculateClaimableFees_eq, fees_bulky, sizes_bulky]
    decide
  have hgenesis : (calculateBlockReward 0).val < 2 ^ 60 := by decide
  have hbound := (calculateBlockReward_bounds 600).2
  have h600 : (bulky 4).height = 600 := rfl
  have hshare : minerShare cfg.build 600 (min (4 * 12000000) (2 ^ 64 - 1)) true = 24000000 := by
    decide
  obtain ⟨reward, hreward⟩ : ∃ n, (calculateBlockReward 600).val = n := ⟨_, rfl⟩
  rw [hclaim, h600, hreward] at hamount
  have hv : (UInt64.ofNat (reward + 24000000)).toNat = reward + 24000000 :=
    UInt64.toNat_ofNat_of_lt' (show _ < 2 ^ 64 by omega)
  refine ⟨c, coinbase, o, ⟨UInt64.ofNat (reward + 24000000)⟩, hc, ?_, hout,
    maxCoinbase_eq_ok_iff.mpr ?_, ?_⟩
  · rw [Block.coinbase, htxs]
    rfl
  · rw [totalFees_of_cons htxs, fees_bulky, hsize, hheight, h600, hreward, hshare]
    exact hv
  · change _ = (UInt64.ofNat _).toNat + 9600000
    omega

end SmallChain

end Coincync
