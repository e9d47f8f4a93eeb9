/-
# Transaction validation

`validate_transaction_for_network` of `src/consensus/validation.rs` with its sub-checks, in the
source's order.  Every check returns the first error; `validateTransaction_ok_iff` is the one
inversion of the whole function that later proofs use.
-/
import Coincync.Lib.Checks
import Coincync.Consensus.RingSignature
import Coincync.Consensus.Pow
import Coincync.Storage.Utxos

namespace Coincync

open Lib Suite

/-! ## 1. Context and errors -/

/-- What a validation call reads besides its arguments: the wall clock in seconds (none if it is
before the epoch), whether RandomX is up, and which cache lookups hit. -/
structure CallContext (G : Type) where
  now : Option UInt64
  randomxUp : Bool
  ringSigHit : Transaction G → Nat → Bool
  rangeProofHit : Transaction G → Bool

/-- The errors of transaction validation, with the values their messages carry. -/
inductive TxError
  | invalidTxVersion (version : UInt8)
  | v2NotActive (currentHeight : Nat)
  | invalidInputCount (count : Nat)
  | invalidOutputCount (count : Nat)
  | encryptedAmountLength (outIdx length : Nat)
  | encryptedMemoTooLarge (outIdx length : Nat)
  | inputOutputRatio (inputs outputs : Nat)
  | outputInputRatio (outputs inputs : Nat)
  | nonUniformInputs (inputs : Nat)
  | nonUniformOutputs (outputs : Nat)
  | churnOutputs (outputs : Nat)
  | duplicateKeyImage
  | duplicateStealthInTx (outIdx : Nat)
  | stealthCollision (outIdx : Nat)
  | memberCommitmentMismatch (inputIdx memberIdx : Nat) (spent : Bool)
  | immatureCoinbase (inputIdx memberIdx outputHeight age required : Nat)
  | timeLocked (inputIdx memberIdx : Nat) (lockHeight : UInt64) (currentHeight : Nat)
  | nonExistentOutput (inputIdx memberIdx : Nat)
  | invalidRingSize (expected got : Nat)
  | duplicateRingMember (inputIdx : Nat)
  | ringSignature (idx : Nat)
  | rangeProofInvalid
  | commitmentMismatch
  deriving DecidableEq

variable {F G : Type} [Field F] [AddCommGroup G] [Module F G] (S : Suite F G)

/-! ## 2. Checks on the transaction alone -/

def checkTxVersionRange (tx : Transaction G) : Except TxError Unit :=
  require (¬(tx.version = 0 ∨ maxTxVersion < tx.version)) (.invalidTxVersion tx.version)

def checkTxV2Activation (tx : Transaction G) (currentHeight : Nat) : Except TxError Unit :=
  require (¬(2 ≤ tx.version ∧ currentHeight < v2TxActivationHeight)) (.v2NotActive currentHeight)

/-- The v1.0.12 size limits of one output. -/
def checkOutputSizes (o : TxOutput × Nat) : Except TxError Unit := do
  require (o.1.encryptedAmount.length = 8) (.encryptedAmountLength o.2 o.1.encryptedAmount.length)
  require (o.1.encryptedMemo.length ≤ maxOutputMemoSize)
    (.encryptedMemoTooLarge o.2 o.1.encryptedMemo.length)

def checkTxInputOutputCounts (tx : Transaction G) (v1012Active : Bool) : Except TxError Unit := do
  require (tx.inputs ≠ []) (.invalidInputCount 0)
  require (tx.outputs ≠ []) (.invalidOutputCount 0)
  checkIf v1012Active (checkAll checkOutputSizes tx.outputs.zipIdx)
  require (tx.inputs.length ≤ maxTxInputs) (.invalidInputCount tx.inputs.length)
  require (tx.outputs.length ≤ maxTxOutputs) (.invalidOutputCount tx.outputs.length)

def checkTxIoRatioLegacy (tx : Transaction G) : Except TxError Unit := do
  require (tx.inputs.length ≤ tx.outputs.length * 32)
    (.inputOutputRatio tx.inputs.length tx.outputs.length)
  require (tx.outputs.length ≤ tx.inputs.length * 32)
    (.outputInputRatio tx.outputs.length tx.inputs.length)

def checkTxUniformShape (tx : Transaction G) (currentHeight : Nat) : Except TxError Unit :=
  if currentHeight < uniformTxShapeHeight then .ok ()
  else if ¬(tx.txType = .transfer ∨ tx.txType = .churn) then .ok ()
  else do
    require (tx.inputs.length = standardInputCount) (.nonUniformInputs tx.inputs.length)
    require (tx.outputs.length = standardOutputCount ∨
      tx.outputs.length = standardOutputCount + 1) (.nonUniformOutputs tx.outputs.length)
    require (¬(tx.txType = .churn ∧ tx.outputs.length ≠ standardOutputCount))
      (.churnOutputs tx.outputs.length)

/-! ## 3. Checks against the UTXO set -/

/-- `check_tx_no_double_spend`: the key images are new, in the transaction and on the chain. -/
def checkTxNoDoubleSpend (tx : Transaction G) (U : UtxoSet) : Except TxError Unit :=
  checkAllNew TxInput.keyImage (fun _ => .duplicateKeyImage)
    (fun i => require (U.containsKeyImage i.keyImage = false) .duplicateKeyImage) [] tx.inputs

/-- The v1.0.12 rule at the top of `check_tx_ring_members`: no output reuses an address. -/
def checkTxStealthAddresses (tx : Transaction G) (U : UtxoSet) : Except TxError Unit :=
  checkAllNew (fun o : TxOutput × Nat => o.1.stealthAddress.bytes)
    (fun o => .duplicateStealthInTx o.2)
    (fun o => require (U.getOutputIndexEntry o.1.stealthAddress.bytes = none)
      (.stealthCollision o.2)) [] tx.outputs.zipIdx

def checkRingMemberCoinbaseMaturity (build : BuildConfig) (isCoinbase : Bool)
    (outputHeight currentHeight inputIdx memberIdx : Nat) : Except TxError Unit :=
  let age := currentHeight - outputHeight
  let required := minOutputAgeAtHeight build currentHeight
  require (isCoinbase = true → required ≤ age)
    (.immatureCoinbase inputIdx memberIdx outputHeight age required)

def checkRingMemberTimeLock (lockHeight : Option UInt64)
    (currentHeight inputIdx memberIdx : Nat) : Except TxError Unit :=
  match lockHeight with
  | some lh =>
    require (lh.toNat ≤ currentHeight) (.timeLocked inputIdx memberIdx lh currentHeight)
  | none => .ok ()

/-- The checks a ring member is held to once an output is found for it. -/
def checkFoundMember (build : BuildConfig) (currentHeight : Nat) (spent : Bool)
    (commitment : FixedBytes 32) (height : Nat) (isCoinbase : Bool) (lockHeight : Option UInt64)
    (inputIdx : Nat) (member : RingMemberRef × Nat) : Except TxError Unit := do
  require (member.1.commitment = commitment) (.memberCommitmentMismatch inputIdx member.2 spent)
  checkRingMemberCoinbaseMaturity build isCoinbase height currentHeight inputIdx member.2
  checkRingMemberTimeLock lockHeight currentHeight inputIdx member.2

/-- One ring member: the live set, then the output index, then the bootstrap rule. -/
def checkRingMember (build : BuildConfig) (U : UtxoSet) (currentHeight inputIdx : Nat)
    (member : RingMemberRef × Nat) : Except TxError Unit :=
  match U.getOutputByStealth member.1.publicKey.bytes with
  | some o =>
    checkFoundMember build currentHeight false o.output.commitment o.height o.isCoinbase
      o.output.lockHeight inputIdx member
  | none =>
    match U.getOutputIndexEntry member.1.publicKey.bytes with
    | some e =>
      checkFoundMember build currentHeight true e.commitment e.height e.isCoinbase e.lockHeight
        inputIdx member
    | none =>
      -- an output that never existed is allowed while the chain is young
      require (currentHeight < strictRingMemberHeight) (.nonExistentOutput inputIdx member.2)

def checkTxRingMembers (build : BuildConfig) (tx : Transaction G) (U : UtxoSet)
    (currentHeight : Nat) (v1012Active : Bool) : Except TxError Unit := do
  checkIf v1012Active (checkTxStealthAddresses tx U)
  checkAll (fun i : TxInput G × Nat =>
    checkAll (checkRingMember build U currentHeight i.2) i.1.ringMembers.zipIdx) tx.inputs.zipIdx

/-- The number of outputs a ring may be drawn from. -/
def availableOutputs (U : UtxoSet) (v1012Active : Bool) : Nat :=
  if v1012Active = true then U.totalOutputsEver.toNat - U.reorgDisconnectsTotal.toNat
  else U.outputCount

def checkTxRingSizeAndUniqueMembers (tx : Transaction G) (U : UtxoSet) (currentHeight : Nat)
    (v1012Active : Bool) : Except TxError Unit :=
  checkAll (fun i : TxInput G × Nat => do
    let ringSize := effectiveRingSize currentHeight (availableOutputs U v1012Active)
    require (i.1.ringMembers.length = ringSize)
      (.invalidRingSize ringSize i.1.ringMembers.length)
    checkAllNew RingMemberRef.publicKey (fun _ => .duplicateRingMember i.2) (fun _ => .ok ()) []
      i.1.ringMembers) tx.inputs.zipIdx

/-! ## 4. Cryptographic checks -/

variable [DecidableEq F] [DecidableEq G]

/-- `verify_ring_signature`, given what the cache answered. -/
def ringSigVerdict (ctx : CallContext G) (tx : Transaction G) (i : TxInput G × Nat) : Bool :=
  ctx.ringSigHit tx i.2 || clsagVerifyInput S tx i.1

/-- `check_tx_ring_signatures`.  Which failing input the message names depends on the schedule of
the worker threads; here it is the first. -/
def checkTxRingSignaturesIn (ctx : CallContext G) (tx : Transaction G) : Except TxError Unit :=
  checkAll (fun i : TxInput G × Nat =>
    require (ringSigVerdict S ctx tx i = true) (.ringSignature i.2)) tx.inputs.zipIdx

/-- `RangeProof::from_bytes` (`borsh`): a version byte and a length-prefixed vector, nothing
after it. -/
def rangeProofFromBytes : Bytes → Option (UInt8 × Bytes)
  | [] => none
  | version :: rest =>
    if 4 ≤ rest.length ∧ (rest.drop 4).length = fromLeBytes (rest.take 4) then
      some (version, rest.drop 4)
    else none

def nextPowerOfTwo (n : Nat) : Nat := if n ≤ 1 then 1 else 2 ^ ((n - 1).log2 + 1)

/-- Decode every encoding, or none. -/
def decodePoints : List (FixedBytes 32) → Option (List G)
  | [] => some []
  | b :: t => (S.decompress b).bind fun p => (decodePoints t).map (p :: ·)

/-- `verify_range_proofs_bp_plus`: commitments padded with commitments to zero. -/
def verifyRangeProofsBpPlus (points : List G) (version : UInt8) (data : Bytes) : Bool :=
  if points = [] then data.isEmpty
  else if data = [] ∨ version ≠ 3 then false
  else
    S.bpPlusVerify
      (points ++ List.replicate (nextPowerOfTwo points.length - points.length) (S.commit 0 0)) data

/-- `verify_output_range_proofs`, given what the cache answered. -/
def verifyOutputRangeProofs (ctx : CallContext G) (tx : Transaction G) : Bool :=
  if tx.isCoinbase then true
  else if tx.rangeProof = [] then false
  else
    match rangeProofFromBytes tx.rangeProof with
    | none => false
    | some (version, data) =>
      match decodePoints S (tx.outputs.map TxOutput.commitment) with
      | none => false
      | some points =>
        ctx.rangeProofHit tx || (version == 3 && verifyRangeProofsBpPlus S points version data)

def checkTxRangeProofs (ctx : CallContext G) (tx : Transaction G) : Except TxError Unit :=
  require (verifyOutputRangeProofs S ctx tx = true) .rangeProofInvalid

/-- Decode every encoding to a point other than the identity, or none. -/
def decodeNonIdentity : List (FixedBytes 32) → Option (List G)
  | [] => some []
  | b :: t => (S.decompressNonIdentity b).bind fun p => (decodeNonIdentity t).map (p :: ·)

def verifyBalanceProof (tx : Transaction G) : Bool :=
  if tx.isCoinbase then true
  else if tx.inputs = [] ∨ tx.outputs = [] then false
  else
    match decodeNonIdentity S (tx.inputs.map TxInput.pseudoOutputCommitment),
        decodePoints S (tx.outputs.map TxOutput.commitment) with
    | some pseudo, some outputs =>
      decide (pseudo.sum = outputs.sum + S.commit tx.fee.atomic 0)
    | _, _ => false

def checkTxBalanceProof (tx : Transaction G) : Except TxError Unit :=
  require (verifyBalanceProof S tx = true) .commitmentMismatch

/-! ## 5. The driver -/

def validateTransactionForNetwork (cfg : NodeConfig) (ctx : CallContext G) (tx : Transaction G)
    (U : UtxoSet) (currentHeight : Nat) (network : NetworkType) : Except TxError Unit := do
  let v1012Active := v1012RulesActive network currentHeight
  checkTxVersionRange tx
  if tx.isCoinbase = true then .ok ()
  else do
    checkTxV2Activation tx currentHeight
    checkTxInputOutputCounts tx v1012Active
    checkTxIoRatioLegacy tx
    checkTxUniformShape tx currentHeight
    checkTxNoDoubleSpend tx U
    checkTxRingMembers cfg.build tx U currentHeight v1012Active
    checkTxRingSizeAndUniqueMembers tx U currentHeight v1012Active
    checkTxRingSignaturesIn S ctx tx
    checkTxRangeProofs S ctx tx
    checkTxBalanceProof S tx

/-- Every check a non-coinbase transaction passes. -/
structure TxChecks (cfg : NodeConfig) (ctx : CallContext G) (tx : Transaction G) (U : UtxoSet)
    (currentHeight : Nat) (v1012Active : Bool) : Prop where
  v2Activation : checkTxV2Activation tx currentHeight = .ok ()
  counts : checkTxInputOutputCounts tx v1012Active = .ok ()
  ioRatio : checkTxIoRatioLegacy tx = .ok ()
  uniformShape : checkTxUniformShape tx currentHeight = .ok ()
  noDoubleSpend : checkTxNoDoubleSpend tx U = .ok ()
  ringMembers : checkTxRingMembers cfg.build tx U currentHeight v1012Active = .ok ()
  ringSize : checkTxRingSizeAndUniqueMembers tx U currentHeight v1012Active = .ok ()
  ringSignatures : checkTxRingSignaturesIn S ctx tx = .ok ()
  rangeProofs : checkTxRangeProofs S ctx tx = .ok ()
  balanceProof : checkTxBalanceProof S tx = .ok ()

variable {tx : Transaction G}

/-- **What an accepted transaction has passed.** -/
theorem validateTransaction_ok_iff {cfg : NodeConfig} {ctx : CallContext G} {U : UtxoSet}
    {currentHeight : Nat} {network : NetworkType} :
    validateTransactionForNetwork S cfg ctx tx U currentHeight network = .ok () ↔
      checkTxVersionRange tx = .ok () ∧
        (tx.isCoinbase = false →
          TxChecks S cfg ctx tx U currentHeight (v1012RulesActive network currentHeight)) := by
  unfold validateTransactionForNetwork
  rw [Except.bind_ok_iff]
  refine and_congr_right fun _ => ?_
  cases htx : tx.isCoinbase with
  | true => simp
  | false =>
    simp only [Bool.false_eq_true, if_false, Except.bind_ok_iff, true_implies]
    constructor
    · rintro ⟨h1, h2, h3, h4, h5, h6, h7, h8, h9, h10⟩
      exact ⟨h1, h2, h3, h4, h5, h6, h7, h8, h9, h10⟩
    · rintro ⟨h1, h2, h3, h4, h5, h6, h7, h8, h9, h10⟩
      exact ⟨h1, h2, h3, h4, h5, h6, h7, h8, h9, h10⟩

omit [AddCommGroup G] [DecidableEq G] in
theorem checkTxNoDoubleSpend_ok_iff {U : UtxoSet} :
    checkTxNoDoubleSpend tx U = .ok () ↔
      tx.keyImages.Nodup ∧ ∀ k ∈ tx.keyImages, k ∉ U.keyImages := by
  unfold checkTxNoDoubleSpend Transaction.keyImages
  rw [checkAllNew_ok_iff]
  simp [UtxoSet.containsKeyImage]

omit [AddCommGroup G] [DecidableEq G] in
theorem checkTxInputOutputCounts_ok {v1012Active : Bool}
    (h : checkTxInputOutputCounts tx v1012Active = .ok ()) :
    tx.inputs.length ≤ maxTxInputs ∧ tx.outputs.length ≤ maxTxOutputs := by
  unfold checkTxInputOutputCounts at h
  simp only [Except.bind_ok_iff, require_ok_iff] at h
  exact h.2.2.2

/-! ## 6. The cache's answers -/

/-- A hit says that the signature has verified against the ring and the pseudo-output of SOME input
of the transaction; the key does not say of which. -/
def HitsVerified (ctx : CallContext G) (tx : Transaction G) : Prop :=
  ∀ n i, tx.inputs[n]? = some i → ctx.ringSigHit tx n = true →
    ∃ j ∈ tx.inputs, clsagVerifyInput S tx { j with signature := i.signature } = true

/-- **Where the hits of a call come from**: the cache at some point of a history without colliding
digests, in which whatever was asked under the signing hash of the transaction was asked of the
ring and the pseudo-output of one of its inputs (the signing hash covers both). -/
structure HitsFrom (history : List (CacheEvent G)) (ctx : CallContext G) (tx : Transaction G) :
    Prop where
  hit : ∀ n i, tx.inputs[n]? = some i → ctx.ringSigHit tx n = true →
    ∃ past, past <+: history ∧ callKey S tx i ∈ (cacheAfter S past).ringSigCache
  keys : CacheKeysInjective S (AskedWith history tx)
  signing : ∀ tx' i, AskedIn history (.call tx' i) → tx'.signingHash S = tx.signingHash S →
    ∃ j ∈ tx.inputs, j.ringMembers = i.ringMembers ∧
      j.pseudoOutputCommitment = i.pseudoOutputCommitment

theorem HitsFrom.verified {history : List (CacheEvent G)} {ctx : CallContext G}
    (h : HitsFrom S history ctx tx) : HitsVerified S ctx tx := by
  intro n i hi hhit
  have hmem : AskedWith history tx (.call tx i) := .inr ⟨i, List.mem_of_getElem? hi, rfl⟩
  obtain ⟨past, hpast, hkey⟩ := h.hit n i hi hhit
  have hsound : RingSigCacheSound S (AskedIn history) (cacheAfter S past) :=
    cacheAfter_sound S past fun q ⟨e, he, hop⟩ => ⟨e, hpast.subset he, hop⟩
  obtain ⟨q, hq, hkey, hans⟩ := hsound _ hkey
  obtain ⟨tx', i', rfl, hmsg, hsig⟩ := exists_call_of_key_eq S h.keys (.inl hq) hmem hkey
  obtain ⟨j, hj, hring, hpseudo⟩ := h.signing tx' i' hq hmsg
  rw [CacheQuestion.answer, clsagVerifyInput, hmsg, ClsagSignature.toBytes_injective S hsig,
    ← hring, ← hpseudo] at hans
  exact ⟨j, hj, hans⟩

theorem allSigsValid_foldl (tx : Transaction G) : ∀ (l : List (ScheduledInput G)) (s : RingSigCheck),
    (∀ w ∈ l, clsagVerifyInput S tx w.input = true) → s.allSigsValid = true →
      (l.foldl (ringSigCheckStep S tx) s).allSigsValid = true
  | [], _, _, h => h
  | w :: l, s, hl, h => by
    refine allSigsValid_foldl tx l _ (fun w' hw' => hl w' (.tail _ hw')) ?_
    unfold ringSigCheckStep
    rw [if_pos h, verifyRingSignature_eq]
    split_ifs with hk
    · exact h
    · rw [hl w (.head _)]
      exact h

/-- **The cache refuses nothing.**  What passes without a hit passes the stateful check, whatever
the cache holds and whatever order the inputs are reached in. -/
theorem checkTxRingSignatures_of_valid {tx : Transaction G} {schedule : List (ScheduledInput G)}
    (hs : IsSchedule tx schedule) (c : VerificationCache) (ctx : CallContext G)
    (h : checkTxRingSignaturesIn S { ctx with ringSigHit := fun _ _ => false } tx = .ok ()) :
    (checkTxRingSignatures S c tx schedule).1 = .ok () := by
  have hvalid := allSigsValid_foldl S tx schedule ⟨true, none, c⟩ (fun w hw => ?_) rfl
  · unfold checkTxRingSignatures
    simp only [hvalid, if_true]
  · have hw' : (w.input, w.idx) ∈ tx.inputs.zipIdx :=
      hs.subset (List.mem_map_of_mem (f := fun w => (w.input, w.idx)) hw)
    have hok := checkAll_ok_iff.mp h _ hw'
    rw [require_ok_iff] at hok
    simpa [ringSigVerdict] using hok

open CacheExample in
theorem own_signatures_accepted : IsSchedule (CacheExample.tx sig1) (schedule sig1) ∧
    (checkTxRingSignatures linkSuite .new (CacheExample.tx sig1) (schedule sig1)).1 = .ok () := by
  have hs : IsSchedule (CacheExample.tx sig1) (schedule sig1) := .refl _
  exact ⟨hs, checkTxRingSignatures_of_valid _ hs _ ⟨none, false, fun _ _ => false, fun _ => false⟩
    (by decide +kernel)⟩

end Coincync
