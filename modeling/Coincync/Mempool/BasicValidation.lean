/-
# The mempool's first gate

`validate_transaction_basic` of `src/consensus/validation.rs`: what a transaction is held to before
the chain is looked at.  Its ring rule is a fixed minimum of eleven members.  Consensus asks for an
exact size instead, `effective_ring_size`, and that shrinks with the outputs on the chain while the
chain is young -- "rather than making transactions impossible".  So on a chain with fewer than
eleven outputs, below height 10000, consensus accepts exactly the rings that this gate refuses
(`basic_ring_gate_iff`).
-/
import Coincync.Chain.Growth

namespace Coincync

open Lib Suite

variable {height : Nat}

/-! ## 1. The gate -/

def minTxSize : Nat := 100

def maxTxSize : Nat := 500000

def bootstrapMinRingSize : Nat := 11

/-- The errors of `validate_transaction_basic`, with the values their messages carry. -/
inductive BasicError
  | invalidTxVersion (version : UInt8)
  | noInputs
  | noOutputs
  | transactionTooLarge (size max : Nat)
  | transactionTooSmall (size min : Nat)
  | feeTooLow (fee min : Nat)
  | ringTooSmall (got min : Nat)
  | missingRangeProof
  | duplicateKeyImage
  | invalidInputCount (count max : Nat)
  | invalidOutputCount (count max : Nat)
  | outputTooSmall (amount min : Nat)
  | encryptedAmountTooLarge (length : Nat)
  | encryptedMemoTooLarge (length : Nat)
  | zeroStealthAddress
  | invalidStealthAddress
  | zeroCommitment
  | invalidCommitment
  | zeroKeyImage (idx : Nat)
  | invalidKeyImage (idx : Nat)
  deriving DecidableEq

variable {F G : Type} [Field F] [AddCommGroup G] [Module F G] (S : Suite F G)

/-- What is asked of one output. -/
def checkBasicOutput (o : TxOutput) : Except BasicError Unit := do
  require (o.encryptedAmount ≠ []) (.outputTooSmall 0 minOutputAmount)
  require (o.encryptedAmount.length ≤ 64) (.encryptedAmountTooLarge o.encryptedAmount.length)
  require (o.encryptedMemo.length ≤ 256) (.encryptedMemoTooLarge o.encryptedMemo.length)
  require (o.stealthAddress.bytes ≠ FixedBytes.replicate 32 0) .zeroStealthAddress
  require ((S.decompress o.stealthAddress.bytes).isSome = true) .invalidStealthAddress
  require (o.commitment ≠ FixedBytes.replicate 32 0) .zeroCommitment
  require ((S.decompress o.commitment).isSome = true) .invalidCommitment

/-- What is asked of the key image of one input. -/
def checkBasicKeyImage (i : TxInput G × Nat) : Except BasicError Unit := do
  require (i.1.keyImage.bytes ≠ FixedBytes.replicate 32 0) (.zeroKeyImage i.2)
  require ((S.decompress i.1.keyImage.bytes).isSome = true) (.invalidKeyImage i.2)

/-- The mandatory ring of one input. -/
def checkBasicRing (i : TxInput G) : Except BasicError Unit :=
  require (bootstrapMinRingSize ≤ i.ringMembers.length)
    (.ringTooSmall i.ringMembers.length bootstrapMinRingSize)

/-- The checks before the ring: version, shape, size, fee. -/
def checkBasicHead (tx : Transaction G) : Except BasicError Unit := do
  require (¬(tx.version = 0 ∨ maxTxVersion < tx.version)) (.invalidTxVersion tx.version)
  require (tx.inputs ≠ []) .noInputs
  require (tx.outputs ≠ []) .noOutputs
  require (tx.size S ≤ maxTxSize) (.transactionTooLarge (tx.size S) maxTxSize)
  require (minTxSize ≤ tx.size S) (.transactionTooSmall (tx.size S) minTxSize)
  require (¬(tx.fee.atomic.toNat < tx.size S * minFeePerByte ∧ tx.isCoinbase = false))
    (.feeTooLow tx.fee.atomic.toNat (tx.size S * minFeePerByte))

/-- The checks after the ring. -/
def checkBasicTail (tx : Transaction G) : Except BasicError Unit := do
  checkIf (!tx.isCoinbase) (require (tx.rangeProof ≠ []) .missingRangeProof)
  checkAllNew TxInput.keyImage (fun _ => .duplicateKeyImage) (fun _ => .ok ()) [] tx.inputs
  require (tx.inputs.length ≤ maxTxInputs) (.invalidInputCount tx.inputs.length maxTxInputs)
  require (tx.outputs.length ≤ maxTxOutputs) (.invalidOutputCount tx.outputs.length maxTxOutputs)
  checkAll (checkBasicOutput S) tx.outputs
  checkIf (!tx.isCoinbase) (checkAll (checkBasicKeyImage S) tx.inputs.zipIdx)

def validateTransactionBasic (tx : Transaction G) : Except BasicError Unit := do
  checkBasicHead S tx
  checkIf (!tx.isCoinbase) (checkAll checkBasicRing tx.inputs)
  checkBasicTail S tx

/-! ## 2. When the gate speaks of the ring -/

/-- The error is not about the ring. -/
def BasicError.NotRing (e : BasicError) : Prop := ∀ got min, e ≠ .ringTooSmall got min

theorem failsWith_checkBasicOutput (o : TxOutput) :
    FailsWith BasicError.NotRing (checkBasicOutput S o) := by
  unfold checkBasicOutput
  refine .bind (failsWith_require ?_) <| .bind (failsWith_require ?_) <|
    .bind (failsWith_require ?_) <| .bind (failsWith_require ?_) <|
    .bind (failsWith_require ?_) <| .bind (failsWith_require ?_) <| failsWith_require ?_
  all_goals intro got min h; cases h

theorem failsWith_checkBasicKeyImage (i : TxInput G × Nat) :
    FailsWith BasicError.NotRing (checkBasicKeyImage S i) := by
  unfold checkBasicKeyImage
  refine .bind (failsWith_require ?_) (failsWith_require ?_)
  all_goals intro got min h; cases h

/-- **What comes after the ring check never blames the ring.** -/
theorem failsWith_checkBasicTail (tx : Transaction G) :
    FailsWith BasicError.NotRing (checkBasicTail S tx) := by
  unfold checkBasicTail
  refine .bind (failsWith_checkIf (failsWith_require ?_)) <|
    .bind (failsWith_checkAllNew (fun _ => ?_) (fun _ e he => ?_) []) <|
    .bind (failsWith_require ?_) <| .bind (failsWith_require ?_) <|
    .bind (failsWith_checkAll (failsWith_checkBasicOutput S)) <|
    failsWith_checkIf (failsWith_checkAll (failsWith_checkBasicKeyImage S))
  case refine_3 => cases he
  all_goals intro got min h; cases h

variable {tx : Transaction G}

theorem checkBasicHead_ok_iff :
    checkBasicHead S tx = .ok () ↔
      ¬(tx.version = 0 ∨ maxTxVersion < tx.version) ∧ tx.inputs ≠ [] ∧ tx.outputs ≠ [] ∧
        tx.size S ≤ maxTxSize ∧ minTxSize ≤ tx.size S ∧
        ¬(tx.fee.atomic.toNat < tx.size S * minFeePerByte ∧ tx.isCoinbase = false) := by
  simp only [checkBasicHead, Except.bind_ok_iff, require_ok_iff]

/-- **The gate blames the ring exactly when a ring is too small**, for a transaction whose other
data has passed up to there. -/
theorem basic_blames_ring_iff (hhead : checkBasicHead S tx = .ok ()) (htx : tx.isCoinbase = false) :
    (∃ got min, validateTransactionBasic S tx = .error (.ringTooSmall got min)) ↔
      ∃ i ∈ tx.inputs, i.ringMembers.length < bootstrapMinRingSize := by
  have hgate : validateTransactionBasic S tx =
      (checkAll checkBasicRing tx.inputs >>= fun _ => checkBasicTail S tx) := by
    rw [validateTransactionBasic, hhead, htx]
    rfl
  rw [hgate]
  constructor
  · rintro ⟨got, min, h⟩
    cases hall : checkAll checkBasicRing tx.inputs with
    | error e =>
      obtain ⟨i, hi, hfail⟩ := exists_mem_of_checkAll_error hall
      refine ⟨i, hi, ?_⟩
      by_contra hring
      rw [checkBasicRing, require_ok_iff.mpr (not_lt.mp hring)] at hfail
      cases hfail
    | ok u =>
      rw [hall] at h
      exact absurd rfl (failsWith_checkBasicTail S tx _ h got min)
  · rintro ⟨i, hi, hring⟩
    cases hall : checkAll checkBasicRing tx.inputs with
    | error e =>
      obtain ⟨j, hj, hfail⟩ := exists_mem_of_checkAll_error hall
      unfold checkBasicRing require at hfail
      split_ifs at hfail
      cases hfail
      exact ⟨_, _, rfl⟩
    | ok u =>
      have := require_ok_iff.mp (checkAll_ok_iff.mp hall i hi)
      exact absurd this (not_le.mpr hring)

/-! ## 3. The gate and consensus -/

/-- **Where the consensus ring size reaches the minimum of the gate.** -/
theorem bootstrapMin_le_effectiveRingSize_iff {available : Nat} :
    bootstrapMinRingSize ≤ effectiveRingSize height available ↔
      10000 ≤ height ∨ bootstrapMinRingSize ≤ available := by
  unfold bootstrapMinRingSize effectiveRingSize ringSizeAtHeight
  by_cases h : height < 10000
  · simp only [h, if_true]
    split_ifs <;> omega
  · simp only [h, if_false]
    split_ifs <;> omega

variable [DecidableEq F] [DecidableEq G] {v1012Active : Bool}

theorem TxChecks.ringMembers_length {cfg : NodeConfig} {ctx : CallContext G} {U : UtxoSet}
    (h : TxChecks S cfg ctx tx U height v1012Active) {i : TxInput G} (hi : i ∈ tx.inputs) :
    i.ringMembers.length = effectiveRingSize height (availableOutputs U v1012Active) := by
  obtain ⟨n, hn⟩ := List.getElem?_of_mem hi
  have hmem : (i, n) ∈ tx.inputs.zipIdx := List.mem_zipIdx_iff_getElem?.mpr hn
  have hsize := checkAll_ok_iff.mp h.ringSize (i, n) hmem
  simp only [Except.bind_ok_iff, require_ok_iff] at hsize
  exact hsize.1

theorem TxChecks.basicHead {cfg : NodeConfig} {ctx : CallContext G} {U : UtxoSet}
    (h : TxChecks S cfg ctx tx U height v1012Active) (hversion : checkTxVersionRange tx = .ok ())
    (hfee : tx.size S * minFeePerByte ≤ tx.fee.atomic.toNat) (hmin : minTxSize ≤ tx.size S)
    (hmax : tx.size S ≤ maxTxSize) : checkBasicHead S tx = .ok () := by
  have hcounts := h.counts
  simp only [checkTxInputOutputCounts, Except.bind_ok_iff, require_ok_iff] at hcounts
  rw [checkBasicHead_ok_iff]
  refine ⟨require_ok_iff.mp hversion, hcounts.1, hcounts.2.1, hmax, hmin, ?_⟩
  rintro ⟨hlow, -⟩
  exact absurd hfee (not_le.mpr hlow)

/-- **The ring gate against consensus.**  A transaction that consensus accepts, of admissible size
and fee, passes the ring rule of the gate exactly when the bootstrap heights are over or the chain
has eleven outputs to draw from; and these are exactly the heights and numbers of outputs at which
some ring size suits both. -/
theorem basic_ring_gate_iff :
    (∀ (cfg : NodeConfig) (ctx : CallContext G) (tx : Transaction G) (U : UtxoSet) (height : Nat)
        (network : NetworkType), 1 ≤ height → tx.isCoinbase = false →
      tx.size S * minFeePerByte ≤ tx.fee.atomic.toNat → minTxSize ≤ tx.size S →
      tx.size S ≤ maxTxSize →
      validateTransactionForNetwork S cfg ctx tx U height network = .ok () →
      ((∀ got min, validateTransactionBasic S tx ≠ .error (.ringTooSmall got min)) ↔
        10000 ≤ height ∨
          bootstrapMinRingSize ≤ availableOutputs U (v1012RulesActive network height))) ∧
    (∀ height available,
      (∃ ringSize, ringSize = effectiveRingSize height available ∧
        bootstrapMinRingSize ≤ ringSize) ↔
        10000 ≤ height ∨ bootstrapMinRingSize ≤ available) := by
  refine ⟨?_, ?_⟩
  · intro cfg ctx tx U height network _ htx hfee hmin hmax hvalid
    obtain ⟨hversion, hchecks⟩ := (validateTransaction_ok_iff S).mp hvalid
    have hall := hchecks htx
    have hhead := hall.basicHead S hversion hfee hmin hmax
    have hinputs := ((checkBasicHead_ok_iff S).mp hhead).2.1
    obtain ⟨i, hi⟩ := List.exists_mem_of_ne_nil _ hinputs
    rw [← bootstrapMin_le_effectiveRingSize_iff]
    have hblame := basic_blames_ring_iff S hhead htx
    constructor
    · intro hno
      by_contra hsmall
      obtain ⟨got, min, h⟩ := hblame.mpr ⟨i, hi, by
        rw [hall.ringMembers_length S hi]; exact not_le.mp hsmall⟩
      exact hno got min h
    · intro hsize got min h
      obtain ⟨j, hj, hring⟩ := hblame.mp ⟨got, min, h⟩
      rw [hall.ringMembers_length S hj] at hring
      exact absurd hsize (not_le.mpr hring)
  · intro height available
    rw [← bootstrapMin_le_effectiveRingSize_iff]
    constructor
    · rintro ⟨ringSize, rfl, h⟩
      exact h
    · intro h
      exact ⟨_, rfl, h⟩

namespace SmallChain

open SmallSuite

/-- The set after the block that pays eleven outputs. -/
def splitUtxos : UtxoSet := genesisUtxos.connect suite 1 split1.transactions

def hitCtx : CallContext Z := { ctx with ringSigHit := fun _ _ => true }

/-- A ring of eleven passes both. -/
theorem matured_ring_passes_gate :
    bootstrapMinRingSize ≤ availableOutputs splitUtxos (v1012RulesActive .regtest 11) ∧
      ∀ got min, validateTransactionBasic suite maturedSpend ≠ .error (.ringTooSmall got min) := by
  have hdata : maturedSpend.size suite * minFeePerByte ≤ maturedSpend.fee.atomic.toNat ∧
      minTxSize ≤ maturedSpend.size suite ∧ maturedSpend.size suite ≤ maxTxSize ∧
      validateTransactionForNetwork suite cfg hitCtx maturedSpend splitUtxos 11 .regtest = .ok () ∧
      bootstrapMinRingSize ≤ availableOutputs splitUtxos (v1012RulesActive .regtest 11) := by
    decide +kernel
  obtain ⟨hfee, hmin, hmax, hvalid, havailable⟩ := hdata
  refine ⟨havailable, ?_⟩
  exact ((basic_ring_gate_iff suite).1 cfg hitCtx maturedSpend splitUtxos 11 .regtest (by decide)
    rfl hfee hmin hmax hvalid).mpr (Or.inr havailable)

/-- **A transfer that consensus accepts at height 1 and the gate refuses for its ring of two.** -/
theorem accepted_ring_refused_by_gate :
    honestSpend.isCoinbase = false ∧
      honestSpend.size suite * minFeePerByte ≤ honestSpend.fee.atomic.toNat ∧
      minTxSize ≤ honestSpend.size suite ∧ honestSpend.size suite ≤ maxTxSize ∧
      validateTransactionForNetwork suite cfg ctx honestSpend genesisUtxos 1 .regtest = .ok () ∧
      validateTransactionBasic suite honestSpend = .error (.ringTooSmall 2 11) := by
  decide +kernel

end SmallChain

end Coincync
