/-
# Block validation

`validate_block_with_checkpoint_for_network` of `src/consensus/validation.rs` with its sub-checks.
The source collects error messages and never fails; a block is valid when it collected none.
Here every sub-check returns the list of its errors and the driver strings the lists together,
with the source's early returns; `validateBlock_valid_iff` inverts it once for all later proofs.
-/
import Coincync.Economics
import Coincync.Consensus.TxValidation

namespace Coincync

open Lib Suite

/-! ## 1. Results -/

/-- The violations of `check_tx_privacy`. -/
inductive PrivacyError
  | transparentOutputForbidden
  | rawPubkeyForbidden
  | unshieldedForbidden
  deriving DecidableEq

/-- The errors a block can collect, with the values their messages carry. -/
inductive BlockError
  | wrongNetworkMagic (got expected : FixedBytes 4)
  | checkpointMismatch (height : Nat) (expected got : Hash)
  | versionBelowMinimum (version minimum : UInt8) (height : UInt64)
  | nonGenesisWithoutParent
  | versionDecrease (prev version : UInt8)
  | invalidHeight (expected got : UInt64)
  | previousHashMismatch
  | timestampNotGreater
  | checkpointVoteFuture (cpHeight height : UInt64)
  | systemClock
  | timestampTooFarInFuture
  | pow (e : PowError)
  | noPreviousBlock
  | targetTooEasy
  | targetZero
  | difficultyOutOfBounds (ratio minRatio maxRatio : Nat)
  | tooLarge (size : Nat)
  | weightTooHigh (weight : Nat)
  | tooManyTransactions (count : Nat)
  | missingCoinbase
  | noTransactions
  | firstNotCoinbase
  | invalidMerkleRoot
  | privacy (e : PrivacyError)
  | coinbaseMaxOverflow (reward share : Amount)
  | rewardBelowTail (reward : Nat)
  | rewardAboveGenesis (reward genesisReward : Nat)
  | coinbaseNoOutputs
  | coinbaseInvalidInputs
  | coinbaseTooManyOutputs (count : Nat)
  | coinbaseSplitTooSmall (count : Nat) (maxCoinbase : Amount)
  | coinbaseAmountEncoding (idx length : Nat)
  | coinbaseCommitmentMismatch (idx : Nat) (declared : UInt64)
  | coinbaseIdentity (idx : Nat)
  | coinbaseNotOnCurve (idx : Nat)
  | coinbaseSumOverflow (idx : Nat)
  | coinbaseTotalMismatch (total expected : Nat)
  | duplicateTxHash
  | duplicateKeyImage (ki : KeyImage)
  | duplicateStealth (txIdx outIdx : Nat)
  | feeOverflow (idx size : Nat)
  | feeTooLow (idx fee minimum : Nat)
  | multipleCoinbase (idx : Nat)
  | invalidTransaction (idx : Nat) (e : TxError)
  deriving DecidableEq

/-- The one warning. -/
inductive BlockWarning
  | clockBefore2020
  deriving DecidableEq

/-- What the proof-of-work stage traces: the check succeeded, it was skipped below a checkpoint,
or the skip was asked for in a build that does not have it. -/
inductive BlockLog
  | powVerified
  | powSkipped
  | fastSyncNotBuilt
  deriving DecidableEq

/-- `BlockValidation`, with the trace of the proof-of-work stage. -/
structure BlockValidation where
  valid : Bool
  errors : List BlockError
  warnings : List BlockWarning
  log : List BlockLog

/-- The result after these `add_error` and `add_warning` calls. -/
def BlockValidation.collected (errors : List BlockError) (warnings : List BlockWarning)
    (log : List BlockLog) : BlockValidation :=
  ⟨errors.isEmpty, errors, warnings, log⟩

@[simp] theorem BlockValidation.collected_valid_iff {errors : List BlockError}
    {warnings : List BlockWarning} {log : List BlockLog} :
    (BlockValidation.collected errors warnings log).valid = true ↔ errors = [] :=
  List.isEmpty_iff

/-- `add_error` unless `p`. -/
def errorUnless (p : Prop) [Decidable p] (e : BlockError) : List BlockError :=
  if p then [] else [e]

@[simp] theorem errorUnless_eq_nil_iff {p : Prop} [Decidable p] {e : BlockError} :
    errorUnless p e = [] ↔ p := by
  unfold errorUnless
  by_cases h : p
  · simp [h]
  · simp [h]

variable {F G : Type} [Field F] [AddCommGroup G] [Module F G] (S : Suite F G)

/-! ## 2. The header -/

def checkBlockNetworkMagic (b : Block G) (network : NetworkType) : List BlockError :=
  if b.header.networkMagic = FixedBytes.replicate 4 0 ∧ b.height = 0 then []
  else
    errorUnless (b.header.networkMagic = network.magicBytes)
      (.wrongNetworkMagic b.header.networkMagic network.magicBytes)

def checkBlockConsensusCheckpoint (b : Block G) : List BlockError :=
  match expectedCheckpointHash b.height with
  | some expected =>
    errorUnless (b.hash S = expected) (.checkpointMismatch b.height expected (b.hash S))
  | none => []

def checkHeaderVersionMin (h : BlockHeader) : List BlockError :=
  let minVersion := blockVersionAtHeight h.height.toNat
  errorUnless (minVersion ≤ h.version) (.versionBelowMinimum h.version minVersion h.height)

/-- `check_header_vs_prev`.  The expected height is `prev.height + 1` of type `u64`. -/
def checkHeaderVsPrev (h : BlockHeader) (prev : Option BlockHeader) : List BlockError :=
  match prev with
  | none => errorUnless (h.height = 0) .nonGenesisWithoutParent
  | some prev =>
    errorUnless (prev.version ≤ h.version) (.versionDecrease prev.version h.version) ++
      errorUnless (h.height = prev.height + 1) (.invalidHeight (prev.height + 1) h.height) ++
      errorUnless (h.prevHash = prev.hash S) .previousHashMismatch ++
      errorUnless (prev.timestamp < h.timestamp) .timestampNotGreater

def checkHeaderCheckpointVote (h : BlockHeader) : List BlockError :=
  match h.checkpointVote with
  | some (cpHeight, _) =>
    errorUnless (cpHeight < h.height) (.checkpointVoteFuture cpHeight h.height)
  | none => []

/-- The errors of `check_header_future_timestamp`. -/
def checkHeaderFutureTimestamp (now : Option UInt64) (h : BlockHeader) : List BlockError :=
  match now with
  | none => [.systemClock]
  | some now =>
    errorUnless (¬(0 < h.height ∧ now + maxTimestampDrift < h.timestamp)) .timestampTooFarInFuture

/-- The warning of `check_header_future_timestamp`. -/
def clockWarnings (now : Option UInt64) : List BlockWarning :=
  match now with
  | some now => if now < 1577836800 then [.clockBefore2020] else []
  | none => []

def validateHeader (now : Option UInt64) (h : BlockHeader) (prev : Option BlockHeader) :
    List BlockError :=
  checkHeaderVersionMin h ++ checkHeaderVsPrev S h prev ++ checkHeaderCheckpointVote h ++
    checkHeaderFutureTimestamp now h

def validateDifficultyTarget (b prev : Block G) : List BlockError :=
  let targetValue := targetToU128 b.header.target
  if targetToU128 maxTarget < targetValue then [.targetTooEasy]
  else if b.header.target = Hash.zero then [.targetZero]
  else
    let prevValue := targetToU128 prev.header.target
    if 0 < prevValue ∧ 0 < targetValue then
      let ratioScaled :=
        if u128Max / 1000 < targetValue then targetValue / 1024 * 1000 / max (prevValue / 1024) 1
        else targetValue * 1000 / prevValue
      let timeDiff := b.header.timestamp.toNat - prev.header.timestamp.toNat
      let minRatio := if targetBlockTime * 5 ≤ timeDiff then 4 else 31
      let maxRatio := if targetBlockTime * 5 ≤ timeDiff then 256000 else 32000
      errorUnless (minRatio ≤ ratioScaled ∧ ratioScaled ≤ maxRatio)
        (.difficultyOutOfBounds ratioScaled minRatio maxRatio)
    else []

def allowCheckpointCryptoSkip (cfg : NodeConfig) : Bool := cfg.build.insecureFastSync

/-- `fast_sync_requested`: the block is at or below the checkpoint. -/
def fastSyncRequested (height : Nat) (checkpointHeight : Option Nat) : Bool :=
  match checkpointHeight with
  | some cp => decide (height ≤ cp)
  | none => false

def fastSync (cfg : NodeConfig) (height : Nat) (checkpointHeight : Option Nat) : Bool :=
  fastSyncRequested height checkpointHeight && allowCheckpointCryptoSkip cfg

/-- The three-way branch around `verify_pow`, with its trace. -/
def powBranch (cfg : NodeConfig) (randomxUp : Bool) (b prev : Block G)
    (checkpointHeight : Option Nat) : List BlockError × List BlockLog :=
  if fastSync cfg b.height checkpointHeight = true then ([], [.powSkipped])
  else if fastSyncRequested b.height checkpointHeight = true then ([], [.fastSyncNotBuilt])
  else
    match verifyHeaderPow S cfg randomxUp (prev.header.hash S) b.header with
    | .ok () => ([], [.powVerified])
    | .error e => ([.pow e], [])

/-- The proof-of-work stage: nothing for height 0, the branch above and the target check
otherwise. -/
def powStage (cfg : NodeConfig) (randomxUp : Bool) (b : Block G) (prev : Option (Block G))
    (checkpointHeight : Option Nat) : List BlockError × List BlockLog :=
  if 0 < b.height then
    match prev with
    | some prev =>
      let branch := powBranch S cfg randomxUp b prev checkpointHeight
      (branch.1 ++ validateDifficultyTarget b prev, branch.2)
    | none => ([.noPreviousBlock], [])
  else ([], [])

/-! ## 3. The block as a whole -/

def checkBlockSize (size : Nat) : List BlockError :=
  errorUnless (size ≤ maxBlockSize) (.tooLarge size)

/-- The weight of a block: bytes, and 256 for every ring member. -/
def blockWeight (b : Block G) : Nat :=
  (b.transactions.map fun tx =>
    tx.size S + (tx.inputs.map fun i => i.ringMembers.length).sum * 256).sum

def checkBlockWeight (b : Block G) : List BlockError :=
  errorUnless (blockWeight S b ≤ maxBlockSize * 4) (.weightTooHigh (blockWeight S b))

def checkBlockTxCount (b : Block G) : List BlockError :=
  errorUnless (b.transactions.length ≤ maxTxsPerBlock) (.tooManyTransactions b.transactions.length)

def checkBlockFirstTxIsCoinbase (b : Block G) : List BlockError :=
  match b.coinbase with
  | some first => errorUnless (first.isCoinbase = true) .firstNotCoinbase
  | none => [.noTransactions]

/-- The transaction hashes, computed once. -/
def txHashes (b : Block G) : List Hash := b.transactions.map (Transaction.hash S)

def checkBlockMerkleRoot (b : Block G) : List BlockError :=
  errorUnless (S.merkleRoot (txHashes S b) = b.header.txRoot) .invalidMerkleRoot

section

variable [DecidableEq G]

def checkTxPrivacy (tx : Transaction G) : Except PrivacyError Unit := do
  checkAll (fun o : TxOutput => require ((S.decompressNonIdentity o.commitment).isSome = true)
    .transparentOutputForbidden) tx.outputs
  checkAll (fun o : TxOutput =>
    require ((S.decompressNonIdentity o.stealthAddress.bytes).isSome = true)
      .rawPubkeyForbidden) tx.outputs
  require (tx.inputs ≠ []) .unshieldedForbidden

/-- `check_block_privacy_policy`: the first violation of a non-coinbase transaction. -/
def checkBlockPrivacyPolicy (b : Block G) : List BlockError :=
  match checkAll (fun tx => checkIf (!tx.isCoinbase) (checkTxPrivacy S tx)) b.transactions with
  | .ok () => []
  | .error e => [.privacy e]

end

/-! ## 4. The coinbase -/

/-- `max_coinbase`: the subsidy plus the miner's share of the fees, or the overflow error. -/
def maxCoinbase (build : BuildConfig) (b : Block G) (size : Nat) : Except BlockError Amount :=
  let expectedReward := calculateBlockReward b.height
  let totalFees := b.totalFees
  let share :=
    if feeDistributionHeight build ≤ b.height ∧ 0 < totalFees.val then
      (distributeFee totalFees (decide (congestionThreshold ≤ congestionPct size))).toMiner
    else totalFees
  match expectedReward.checkedAdd share with
  | some v => .ok v
  | none => .error (.coinbaseMaxOverflow expectedReward share)

def checkBlockTailSupply (b : Block G) : List BlockError :=
  let reward := (calculateBlockReward b.height).val
  let genesisReward := (calculateBlockReward 0).val
  errorUnless (tailEmission ≤ reward) (.rewardBelowTail reward) ++
    errorUnless (reward ≤ genesisReward) (.rewardAboveGenesis reward genesisReward)

/-- The declared amount of a coinbase output: the first eight bytes, little endian. -/
def declaredAmount (o : TxOutput) : UInt64 := UInt64.ofNat (fromLeBytes (o.encryptedAmount.take 8))

/-- The length rule for the amount of a coinbase output. -/
def amountLengthOk (v1012Active : Bool) (o : TxOutput) : Bool :=
  if v1012Active = true then decide (o.encryptedAmount.length = 8)
  else decide (8 ≤ o.encryptedAmount.length)

variable [DecidableEq G]

/-- The commitment checks of one coinbase output. -/
def coinbaseCommitmentErrors (o : TxOutput × Nat) : List BlockError :=
  errorUnless (o.1.commitment = S.compress (S.commit (declaredAmount o.1) 0))
      (.coinbaseCommitmentMismatch o.2 (declaredAmount o.1)) ++
    match S.decompress o.1.commitment with
    | some p => errorUnless (p ≠ 0) (.coinbaseIdentity o.2)
    | none => [.coinbaseNotOnCurve o.2]

/-- The loop over the coinbase outputs: its errors and the total declared. -/
def coinbaseOutputsLoop (v1012Active : Bool) : List (TxOutput × Nat) → Nat → List BlockError × Nat
  | [], total => ([], total)
  | o :: t, total =>
    if amountLengthOk v1012Active o.1 = true then
      if total + (declaredAmount o.1).toNat < 2 ^ 64 then
        let rest := coinbaseOutputsLoop v1012Active t (total + (declaredAmount o.1).toNat)
        (coinbaseCommitmentErrors S o ++ rest.1, rest.2)
      else (coinbaseCommitmentErrors S o ++ [.coinbaseSumOverflow o.2], total)
    else
      let rest := coinbaseOutputsLoop v1012Active t total
      (.coinbaseAmountEncoding o.2 o.1.encryptedAmount.length :: rest.1, rest.2)

/-- The amounts of the coinbase: every output checked, and the total exactly `maxCoinbase`. -/
def coinbaseAmountErrors (v1012Active : Bool) (coinbase : Transaction G) (maxCb : Amount) :
    List BlockError :=
  let loop := coinbaseOutputsLoop S v1012Active coinbase.outputs.zipIdx 0
  loop.1 ++
    if loop.1 = [] then errorUnless (loop.2 = maxCb.val) (.coinbaseTotalMismatch loop.2 maxCb.val)
    else []

/-- The coinbase section of the driver. -/
def coinbaseErrors (b : Block G) (coinbase : Transaction G) (maxCb : Amount)
    (v1012Active fastSync : Bool) : List BlockError :=
  errorUnless (coinbase.outputs ≠ []) .coinbaseNoOutputs ++
    errorUnless (¬(coinbase.inputs ≠ [] ∧ coinbase.isCoinbase = false)) .coinbaseInvalidInputs ++
    errorUnless (coinbase.outputs.length ≤ 16) (.coinbaseTooManyOutputs coinbase.outputs.length) ++
    errorUnless (1 < coinbase.outputs.length →
        min (minOutputAmount * coinbase.outputs.length) (2 ^ 64 - 1) ≤ maxCb.val)
      (.coinbaseSplitTooSmall coinbase.outputs.length maxCb) ++
    if 0 < b.height ∧ fastSync = false then coinbaseAmountErrors S v1012Active coinbase maxCb
    else []

/-! ## 5. Duplicates, fees and transactions -/

def checkBlockDuplicateTxHashes (b : Block G) : List BlockError :=
  (duplicatesBy id [] (txHashes S b)).map fun _ => .duplicateTxHash

/-- `check_block_duplicate_key_images`: over all transactions, coinbase included. -/
def checkBlockDuplicateKeyImages (b : Block G) : List BlockError :=
  (duplicatesBy id [] (b.transactions.flatMap Transaction.keyImages)).map .duplicateKeyImage

def positionedOutputs (b : Block G) : List (TxOutput × Nat × Nat) :=
  b.transactions.zipIdx.flatMap fun tx => tx.1.outputs.zipIdx.map fun o => (o.1, tx.2, o.2)

/-- The v1.0.12 rule: no two outputs of the block share an address. -/
def checkBlockDuplicateStealth (b : Block G) : List BlockError :=
  (duplicatesBy (fun o => o.1.stealthAddress.bytes) [] (positionedOutputs b)).map fun o =>
    .duplicateStealth o.2.1 o.2.2

/-- The fee a transaction of this size must pay, or none where a product leaves `u64`. -/
def dynamicMin (txSize multiplier : Nat) : Option Nat :=
  if txSize * minFeePerByte < 2 ^ 64 ∧ txSize * minFeePerByte * multiplier < 2 ^ 64 then
    some (txSize * minFeePerByte * multiplier / 100)
  else none

/-- The fee check of one transaction. -/
def feeErrors (multiplier : Nat) (tx : Transaction G × Nat) : List BlockError :=
  match dynamicMin (tx.1.size S) multiplier with
  | none => [.feeOverflow tx.2 (tx.1.size S)]
  | some minimum => errorUnless (minimum ≤ tx.1.fee.val) (.feeTooLow tx.2 tx.1.fee.val minimum)

/-- The transactions after the first, with their positions in the block. -/
def nonFirst (b : Block G) : List (Transaction G × Nat) := b.transactions.zipIdx.drop 1

variable [DecidableEq F]

/-- What becomes of one transaction after the first: with fast-sync only a second coinbase is
refused. -/
def txErrors (cfg : NodeConfig) (ctx : CallContext G) (U : UtxoSet) (height : Nat)
    (network : NetworkType) (fastSync : Bool) (tx : Transaction G × Nat) : List BlockError :=
  if tx.1.isCoinbase = true then [.multipleCoinbase tx.2]
  else if fastSync = true then []
  else
    match validateTransactionForNetwork S cfg ctx tx.1 U height network with
    | .ok () => []
    | .error e => [.invalidTransaction tx.2 e]

/-! ## 6. The driver -/

/-- Everything up to the coinbase, for a block that has transactions. -/
def structuralErrors (cfg : NodeConfig) (ctx : CallContext G) (b : Block G)
    (prev : Option (Block G)) (checkpointHeight : Option Nat) : List BlockError :=
  validateHeader S ctx.now b.header (prev.map Block.header) ++
    (powStage S cfg ctx.randomxUp b prev checkpointHeight).1 ++
    checkBlockSize (b.size S) ++ checkBlockWeight S b ++ checkBlockTxCount b

/-- The checks between `max_coinbase` and the fail-fast return. -/
def coinbaseAndDuplicateErrors (cfg : NodeConfig) (b : Block G) (checkpointHeight : Option Nat)
    (network : NetworkType) (maxCb : Amount) : List BlockError :=
  let v1012Active := v1012RulesActive network b.height
  checkBlockTailSupply b ++
    (match b.coinbase with
      | some coinbase =>
        coinbaseErrors S b coinbase maxCb v1012Active (fastSync cfg b.height checkpointHeight)
      | none => []) ++
    checkBlockDuplicateTxHashes S b ++ checkBlockDuplicateKeyImages b ++
    checkBlockDuplicateKeyImages b ++
    if v1012Active = true then checkBlockDuplicateStealth b else []

/-- The fee checks and the transaction checks, made only on a block without errors so far. -/
def lateErrors (cfg : NodeConfig) (ctx : CallContext G) (b : Block G) (U : UtxoSet)
    (checkpointHeight : Option Nat) (network : NetworkType) : List BlockError :=
  let fs := fastSync cfg b.height checkpointHeight
  (if 0 < b.height ∧ fs = false then
      (nonFirst b).flatMap (feeErrors S (congestionMultiplier (congestionPct (b.size S))))
    else []) ++
    (nonFirst b).flatMap (txErrors S cfg ctx U b.height network fs)

def validateBlockWithCheckpointForNetwork (cfg : NodeConfig) (ctx : CallContext G) (b : Block G)
    (prev : Option (Block G)) (U : UtxoSet) (checkpointHeight : Option Nat)
    (network : NetworkType) : BlockValidation :=
  let magicErrors := checkBlockNetworkMagic b network
  if magicErrors ≠ [] then .collected magicErrors [] []
  else
    let cpErrors := checkBlockConsensusCheckpoint S b
    if cpErrors ≠ [] then .collected cpErrors [] []
    else
      let log := (powStage S cfg ctx.randomxUp b prev checkpointHeight).2
      let warnings := clockWarnings ctx.now
      let errors := structuralErrors S cfg ctx b prev checkpointHeight
      if b.transactions = [] then .collected (errors ++ [.missingCoinbase]) warnings log
      else
        let errors := errors ++ checkBlockFirstTxIsCoinbase b ++ checkBlockMerkleRoot S b ++
          checkBlockPrivacyPolicy S b
        match maxCoinbase cfg.build b (b.size S) with
        | .error e => .collected (errors ++ [e]) warnings log
        | .ok maxCb =>
          let errors := errors ++
            coinbaseAndDuplicateErrors S cfg b checkpointHeight network maxCb
          if errors ≠ [] then .collected errors warnings log
          else
            .collected (errors ++ lateErrors S cfg ctx b U checkpointHeight network) warnings log

/-! ## 7. What a valid block has passed -/

/-- Every check a valid block has passed. -/
structure BlockChecks (cfg : NodeConfig) (ctx : CallContext G) (b : Block G)
    (prev : Option (Block G)) (U : UtxoSet) (checkpointHeight : Option Nat)
    (network : NetworkType) : Prop where
  magic : checkBlockNetworkMagic b network = []
  checkpoint : checkBlockConsensusCheckpoint S b = []
  header : validateHeader S ctx.now b.header (prev.map Block.header) = []
  pow : (powStage S cfg ctx.randomxUp b prev checkpointHeight).1 = []
  size : checkBlockSize (b.size S) = []
  weight : checkBlockWeight S b = []
  txCount : checkBlockTxCount b = []
  nonempty : b.transactions ≠ []
  firstCoinbase : checkBlockFirstTxIsCoinbase b = []
  merkleRoot : checkBlockMerkleRoot S b = []
  privacy : checkBlockPrivacyPolicy S b = []
  coinbase : ∃ maxCb, maxCoinbase cfg.build b (b.size S) = .ok maxCb ∧
    coinbaseAndDuplicateErrors S cfg b checkpointHeight network maxCb = []
  late : lateErrors S cfg ctx b U checkpointHeight network = []

/-- **The one inversion of block validation.** -/
theorem validateBlock_valid_iff {cfg : NodeConfig} {ctx : CallContext G} {b : Block G}
    {prev : Option (Block G)} {U : UtxoSet} {cp : Option Nat} {network : NetworkType} :
    (validateBlockWithCheckpointForNetwork S cfg ctx b prev U cp network).valid = true ↔
      BlockChecks S cfg ctx b prev U cp network := by
  unfold validateBlockWithCheckpointForNetwork
  simp only
  constructor
  · intro h
    split_ifs at h with hm hc ht
    · rw [BlockValidation.collected_valid_iff] at h
      exact absurd h hm
    · rw [BlockValidation.collected_valid_iff] at h
      exact absurd h hc
    · simp at h
    · split at h
      · simp at h
      · rename_i maxCb hcb
        split_ifs at h with he
        · rw [BlockValidation.collected_valid_iff] at h
          exact absurd h he
        · simp only [ne_eq, not_not] at hm hc he
          simp only [BlockValidation.collected_valid_iff, List.append_eq_nil_iff,
            structuralErrors] at h he
          obtain ⟨⟨⟨⟨⟨⟨⟨h1, h2⟩, h3⟩, h4⟩, h5⟩, h6⟩, h7⟩, h8⟩ := he.1
          exact ⟨hm, hc, h1, h2, h3, h4, h5, ht, h6, h7, h8, ⟨maxCb, hcb, he.2⟩, h.2⟩
  · intro h
    obtain ⟨maxCb, hcb, hd⟩ := h.coinbase
    have hs : structuralErrors S cfg ctx b prev cp = [] := by
      simp only [structuralErrors, h.header, h.pow, h.size, h.weight, h.txCount, List.append_nil]
    simp [h.magic, h.checkpoint, h.nonempty, hcb, hs, h.firstCoinbase, h.merkleRoot, h.privacy, hd,
      h.late]

end Coincync
