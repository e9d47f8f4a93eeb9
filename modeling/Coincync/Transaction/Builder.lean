/-
# The transaction builder

`src/transaction/builder.rs`.  Inputs and outputs are added one at a time; `build` checks that the
amounts balance, proves the ranges and signs.  What is outside of this development, the range prover
and the encryption of memos, is `Prover`.
-/
import Coincync.Constants
import Coincync.Crypto.Stealth
import Coincync.Lib.Checks
import Coincync.Transaction.Types

namespace Coincync

open Lib Suite List Except

/-! ## 1. Data -/

structure SpendableInput (F : Type) where
  txHash : Hash
  outputIndex : UInt8
  amount : Amount
  oneTimeSecret : SecretKey
  blinding : F
  height : Nat

structure Recipient where
  spendPublic : PublicKey
  viewPublic : PublicKey
  amount : Amount
  lockHeight : Option UInt64

/-- `OutputBuilder`, with the transaction secret, which the source keeps in a list beside it. -/
structure OutputBuilder (F : Type) where
  stealthAddress : StealthAddress
  amount : Amount
  commitment : FixedBytes 32
  blinding : F
  encryptedAmount : Bytes
  viewTag : UInt8
  lockHeight : Option UInt64
  recipientViewPublic : Option PublicKey
  txSecret : SecretKey

structure InputBuilder (F G : Type) where
  realIndex : Nat
  ring : List (RingMember G)
  ringRefs : List RingMemberRef
  oneTimeSecret : SecretKey
  amount : Amount
  blinding : F

structure TransactionBuilder (F G : Type) where
  txType : TxType
  inputs : List (InputBuilder F G)
  outputs : List (OutputBuilder F)
  fee : Amount
  targetHeight : Nat
  memo : Option Bytes
  extra : Bytes
  txVersion : UInt8

/-- What `build` takes from elsewhere: `create_aggregated_range_proof_for_height` and
`encrypt_memo`. -/
structure Prover (ρ F : Type) where
  rangeProof : List Amount → List F → Nat → ρ → Except WalletError (Bytes × ρ)
  encryptMemo : Bytes → SecretKey → PublicKey → Except WalletError Bytes

variable {ρ F G : Type} [Field F] [AddCommGroup G] [Module F G] (K : KeySuite F G)

/-! ## 2. What the recipient shares -/

namespace KeySuite

/-- The shared secret, from the shared point. -/
def sharedSecret (shared : G) (idx : UInt8) : FixedBytes 32 :=
  (K.hashDomain (ascii "COINCYNC_SHARED_v2") (K.sharedInput shared idx)).bytes

/-- The eight bytes that an amount is masked with. -/
def amountMask (secret : FixedBytes 32) : Bytes :=
  (K.hashDomain (ascii "COINCYNC_AMOUNT_KEY") secret.toList).asSlice.take 8

/-- The blinding factor of an output. -/
def blindingOf (secret : FixedBytes 32) : F :=
  K.scalarFromBytes (K.hashDomain (ascii "COINCYNC_BLINDING") secret.toList).bytes

/-- An amount under its mask. -/
def maskAmount (amount : Amount) (secret : FixedBytes 32) : Bytes :=
  List.zipWith (· ^^^ ·) (u64LeBytes amount.atomic) (K.amountMask secret)

/-- `PedersenCommitment::commit`. -/
def commitBytes (amount : Amount) (blinding : F) : FixedBytes 32 :=
  K.compress (K.commit amount.atomic blinding)

def encryptAmount (amount : Amount) (txSecret : SecretKey) (viewPublic : PublicKey) (idx : UInt8) :
    Bytes :=
  match K.decompress viewPublic.bytes with
  | none => List.replicate 8 0
  | some view => K.maskAmount amount (K.sharedSecret (K.scalarOf txSecret • view) idx)

def computeViewTag (txSecret : SecretKey) (viewPublic : PublicKey) (idx : UInt8) : UInt8 :=
  match K.decompress viewPublic.bytes with
  | none => 0
  | some view =>
    (K.hashDomain (ascii "COINCYNC_VIEWTAG_v2")
      (K.sharedInput (K.scalarOf txSecret • view) idx)).bytes.head

/-- **The output pays the amount to the spend key**, for the one who has the view secret: address,
commitment and mask are made from the point that is shared with them. -/
def PaysTo (o : TxOutput) (a : F) (spend : G) (idx : UInt8) (amount : Amount) : Prop :=
  ∃ R, K.decompress o.txPublicKey.bytes = some R ∧
    o.stealthAddress = K.oneTimeKey (a • R) spend idx ∧
    o.commitment = K.commitBytes amount (K.blindingOf (K.sharedSecret (a • R) idx)) ∧
    o.encryptedAmount = K.maskAmount amount (K.sharedSecret (a • R) idx)

end KeySuite

/-! ## 3. Adding inputs and outputs -/

/-- The transaction output, with its memo. -/
def OutputBuilder.finish (o : OutputBuilder F) (memo : Bytes) : TxOutput :=
  ⟨o.stealthAddress.publicKey, o.stealthAddress.txPublicKey, o.commitment, o.encryptedAmount,
    o.viewTag, o.lockHeight, memo⟩

namespace TransactionBuilder

variable (b : TransactionBuilder F G) (rng : Rng ρ F)

/-- `TransactionBuilder::transfer().with_target_height(height)`. -/
def transfer (height : Nat) : TransactionBuilder F G :=
  ⟨.transfer, [], [], Amount.zero, height, none, [], blockVersionAtHeight height⟩

/-- The builder with outputs put last. -/
def append (outputs : List (OutputBuilder F)) : TransactionBuilder F G :=
  { b with outputs := b.outputs ++ outputs }

omit [Field F] [AddCommGroup G] [Module F G] in
theorem append_append (os os' : List (OutputBuilder F)) :
    (b.append os).append os' = b.append (os ++ os') := by
  rw [append, append, append, append_assoc]

/-- A ring member is decoded; `who` is `real` or `decoy`. -/
def decodeMember (who : String) (m : RingMemberRef) : Except WalletError (RingMember G) :=
  match K.decompress m.publicKey.bytes, K.decompress m.commitment with
  | none, _ => .error (.cryptoError ("invalid " ++ who ++ " public key point"))
  | _, none => .error (.cryptoError ("invalid " ++ who ++ " commitment point"))
  | some p, some c => .ok ⟨p, c⟩

/-- `add_input`: the real output takes its position among the decoys. -/
def addInput (input : SpendableInput F) (decoys : List RingMemberRef) (realPosition : Nat) :
    Except WalletError (TransactionBuilder F G) := do
  require (2 ≤ decoys.length + 1) (.invalidRingSize 2 (decoys.length + 1))
  require (realPosition < decoys.length + 1)
    (.invalidRingSize (decoys.length + 1) (realPosition + 1))
  let real : RingMemberRef :=
    ⟨K.publicKey input.oneTimeSecret, K.commitBytes input.amount input.blinding⟩
  let before ← (decoys.take realPosition).mapM (decodeMember K "decoy")
  let here ← decodeMember K "real" real
  let after ← (decoys.drop realPosition).mapM (decodeMember K "decoy")
  .ok { b with inputs := b.inputs ++ [⟨realPosition, before ++ here :: after,
    decoys.take realPosition ++ real :: decoys.drop realPosition, input.oneTimeSecret,
    input.amount, input.blinding⟩] }

def addOutputExt (recipient : Recipient) (idx : UInt8) (isSubaddress : Bool) (r : ρ) :
    Except WalletError (TransactionBuilder F G × ρ) := do
  require (b.outputs.length < maxTxOutputs) (.invalidOutputCount (b.outputs.length + 1) maxTxOutputs)
  require (minOutputAmount ≤ recipient.amount.val)
    (.outputTooSmall recipient.amount.val minOutputAmount)
  let ((st, txSecret), r) ← K.generateStealthAddressCheckedExt rng recipient.spendPublic
    recipient.viewPublic idx isSubaddress r
  match K.decompress recipient.viewPublic.bytes with
  | none => .error (.cryptoError "invalid recipient view public key for blinding derivation")
  | some view =>
    let blinding := K.blindingOf (K.sharedSecret (K.scalarOf txSecret • view) idx)
    .ok (b.append [⟨st, recipient.amount, K.commitBytes recipient.amount blinding, blinding,
      K.encryptAmount recipient.amount txSecret recipient.viewPublic idx,
      K.computeViewTag txSecret recipient.viewPublic idx, recipient.lockHeight,
      some recipient.viewPublic, txSecret⟩], r)

def addChange (spendPublic viewPublic : PublicKey) (amount : Amount) (idx : UInt8) (r : ρ) :
    Except WalletError (TransactionBuilder F G × ρ) :=
  b.addOutputExt K rng ⟨spendPublic, viewPublic, amount, none⟩ idx false r

/-- `add_dummy_output`: an output of nothing to keys that nobody has, unless there is no room. -/
def addDummyOutput (r : ρ) : Except WalletError (TransactionBuilder F G × ρ) :=
  if maxTxOutputs ≤ b.outputs.length then .ok (b, r)
  else
    let spend := rng.key r
    let view := rng.key spend.2
    let viewPublic := K.publicKey view.1
    let idx := UInt8.ofNat b.outputs.length
    (K.generateStealthAddressCheckedExt rng (K.publicKey spend.1) viewPublic idx false view.2).map
      fun ((st, txSecret), r) =>
        let blinding := rng.scalar r
        (b.append [⟨st, Amount.zero, K.commitBytes Amount.zero blinding.1, blinding.1,
          K.encryptAmount Amount.zero txSecret viewPublic idx,
          K.computeViewTag txSecret viewPublic idx, none, none, txSecret⟩], blinding.2)

/-- A number of dummy outputs, one after the other. -/
def addDummyOutputs (b : TransactionBuilder F G) :
    Nat → ρ → Except WalletError (TransactionBuilder F G × ρ)
  | 0, r => .ok (b, r)
  | n + 1, r => do
    let (b, r) ← b.addDummyOutput K rng r
    b.addDummyOutputs n r

section

variable {K b rng} {r r' : ρ} {b' : TransactionBuilder F G}

/-- **An output for a recipient** is put last, and the recipient can read it. -/
theorem addOutputExt_eq_ok {recipient : Recipient} {idx : UInt8} {sub : Bool}
    (h : b.addOutputExt K rng recipient idx sub r = .ok (b', r')) :
    b.outputs.length < maxTxOutputs ∧ minOutputAmount ≤ recipient.amount.val ∧
      ∃ o, b' = b.append [o] ∧ o.amount = recipient.amount ∧ o.lockHeight = recipient.lockHeight ∧
        ∀ a spend, K.Publishes a recipient.spendPublic recipient.viewPublic sub spend →
          ∀ memo, K.PaysTo (o.finish memo) a spend idx recipient.amount := by
  obtain ⟨⟨⟩, hroom, h⟩ := bind_eq_ok_iff.mp h
  obtain ⟨⟨⟩, hmin, h⟩ := bind_eq_ok_iff.mp h
  obtain ⟨⟨⟨st, tx⟩, r₁⟩, hgen, h⟩ := bind_eq_ok_iff.mp h
  refine ⟨require_ok_iff.mp hroom, require_ok_iff.mp hmin, ?_⟩
  simp only at h
  cases hview : K.decompress recipient.viewPublic.bytes with
  | none =>
    rw [hview] at h
    cases h
  | some view =>
    rw [hview] at h
    cases h
    refine ⟨_, rfl, rfl, rfl, fun a spend hpub memo => ?_⟩
    obtain ⟨⟨R, hR, hkey⟩, V, R', hV, hR', hshared⟩ := KeySuite.generated_addressedTo hpub hgen
    obtain rfl : R' = R := Option.some.inj (hR'.symm.trans hR)
    obtain rfl : view = V := Option.some.inj (hview.symm.trans hV)
    refine ⟨R', hR, hkey, ?_, ?_⟩
    · change K.commitBytes _ (K.blindingOf (K.sharedSecret (K.scalarOf tx • view) idx)) = _
      rw [hshared]
    · change K.encryptAmount recipient.amount tx recipient.viewPublic idx = _
      rw [KeySuite.encryptAmount, hview]
      simp only [hshared]

theorem addDummyOutput_eq_ok (h : b.addDummyOutput K rng r = .ok (b', r')) :
    ∃ dummies : List (OutputBuilder F), b' = b.append dummies ∧
      dummies.length = (if b.outputs.length < maxTxOutputs then 1 else 0) ∧
      ∀ o ∈ dummies, o.amount = Amount.zero := by
  unfold addDummyOutput at h
  split_ifs at h with hfull
  · cases h
    exact ⟨[], by rw [append, append_nil], by rw [if_neg (not_lt.mpr hfull)]; rfl, nofun⟩
  · obtain ⟨made, -, h⟩ := map_eq_ok_iff.mp h
    cases h
    exact ⟨[_], rfl, by rw [if_pos (not_le.mp hfull)]; rfl, forall_mem_singleton.mpr rfl⟩

/-- **Dummy outputs** are of nothing, and are put in as long as there is room. -/
theorem addDummyOutputs_eq_ok {n : Nat} (h : b.addDummyOutputs K rng n r = .ok (b', r')) :
    ∃ dummies : List (OutputBuilder F), b' = b.append dummies ∧
      (b.outputs.length + n ≤ maxTxOutputs → dummies.length = n) ∧
      ∀ o ∈ dummies, o.amount = Amount.zero := by
  induction n generalizing b r with
  | zero =>
    cases h
    exact ⟨[], by rw [append, append_nil], fun _ => rfl, nofun⟩
  | succ n ih =>
    obtain ⟨⟨b₁, r₁⟩, hone, h⟩ := bind_eq_ok_iff.mp h
    obtain ⟨one, rfl, hone, hzero⟩ := addDummyOutput_eq_ok hone
    obtain ⟨rest, rfl, hlen, hrest⟩ := ih h
    refine ⟨one ++ rest, append_append _ _ _, fun hroom => ?_, forall_mem_append.mpr ⟨hzero, hrest⟩⟩
    rw [if_pos (by omega)] at hone
    rw [append, length_append, hone] at hlen
    rw [length_append, hone, hlen (by omega), add_comm]

end

/-! ## 4. Building -/

/-- The sum, if it fits (`try_fold` of `checked_add`). -/
def checkedSum (amounts : List Amount) : Except WalletError Nat :=
  let sum := (amounts.map Amount.val).sum
  if sum < 2 ^ 64 then .ok sum else .error .amountOverflow

theorem checkedSum_eq_ok {amounts : List Amount} {n : Nat} (h : checkedSum amounts = .ok n) :
    n = (amounts.map Amount.val).sum := by
  simp only [checkedSum] at h
  split_ifs at h
  exact (Except.ok.inj h).symm

/-- The outputs, with the memo on the first that has a recipient. -/
def finishOutputs (P : Prover ρ F) (memo : Option Bytes) :
    List (OutputBuilder F) → Except WalletError (List TxOutput)
  | [] => .ok []
  | o :: rest =>
    match memo, o.recipientViewPublic with
    | some text, some view =>
      (P.encryptMemo text o.txSecret view).map fun m => o.finish m :: rest.map (·.finish [])
    | _, _ => (finishOutputs P memo rest).map (o.finish [] :: ·)

omit [Field F] in
theorem finishOutputs_eq_ok {P : Prover ρ F} {memo : Option Bytes} {outputs : List (OutputBuilder F)}
    {l : List TxOutput} (h : finishOutputs P memo outputs = .ok l) :
    List.Forall₂ (fun (o : OutputBuilder F) t => ∃ m, t = o.finish m) outputs l := by
  have hplain : ∀ rest : List (OutputBuilder F),
      List.Forall₂ (fun (o : OutputBuilder F) t => ∃ m, t = o.finish m) rest
        (rest.map (·.finish [])) := by
    intro rest
    induction rest with
    | nil => exact .nil
    | cons o rest ih => exact .cons ⟨[], rfl⟩ ih
  induction outputs generalizing l with
  | nil =>
    cases h
    exact .nil
  | cons o rest ih =>
    unfold finishOutputs at h
    split at h
    · obtain ⟨m, -, rfl⟩ := map_eq_ok_iff.mp h
      exact .cons ⟨m, rfl⟩ (hplain rest)
    · obtain ⟨l', hl', rfl⟩ := map_eq_ok_iff.mp h
      exact .cons ⟨[], rfl⟩ (ih hl')

/-- Scalars drawn one after the other. -/
def drawScalars : Nat → ρ → List F × ρ
  | 0, r => ([], r)
  | n + 1, r =>
    let s := rng.scalar r
    let rest := drawScalars n s.2
    (s.1 :: rest.1, rest.2)

omit [Field F] in
theorem length_drawScalars (n : Nat) (r : ρ) : (drawScalars rng n r).1.length = n := by
  induction n generalizing r with
  | zero => rfl
  | succ n ih => exact congrArg Nat.succ (ih _)

/-- The blindings of the pseudo-outputs: random, but for the last, so that they add up to those of
the outputs. -/
def pseudoBlindings (r : ρ) : List F × ρ :=
  let drawn := drawScalars rng (b.inputs.length - 1) r
  (drawn.1 ++ [(b.outputs.map (·.blinding)).sum - drawn.1.sum], drawn.2)

/-- An input before it is signed. -/
def unsignedInput (input : InputBuilder F G) (pseudo : F) : TxInput G :=
  ⟨⟨K.compress (keyImageFromSecret K.toSuite (K.scalarOf input.oneTimeSecret))⟩, input.ringRefs,
    ⟨0, 0, FixedBytes.replicate 32 0, []⟩, K.commitBytes input.amount pseudo⟩

variable [DecidableEq G]

/-- `clsag_sign` of one input. -/
def signInput (message : Bytes) (input : InputBuilder F G) (pseudo : F) (r : ρ) :
    Except WalletError (TxInput G × ρ) :=
  match K.decompress (K.commitBytes input.amount pseudo) with
  | none => .error (.cryptoError "invalid pseudo-output commitment")
  | some pseudoOutput =>
    let alpha := rng.scalar r
    let draws := drawScalars rng input.ring.length alpha.2
    match clsagSign K.toSuite message input.ring input.realIndex (K.scalarOf input.oneTimeSecret)
        (input.blinding - pseudo) pseudoOutput alpha.1 draws.1 with
    | .error (.invalidRingSize expected got) => .error (.invalidRingSize expected got)
    | .error .invalidSigningParameters => .error .invalidSigningParameters
    | .ok signature => .ok ({ unsignedInput K input pseudo with signature := signature }, draws.2)

/-- The inputs are signed in their order. -/
def signInputs (message : Bytes) :
    List (InputBuilder F G × F) → ρ → Except WalletError (List (TxInput G) × ρ)
  | [], r => .ok ([], r)
  | (input, pseudo) :: rest, r => do
    let (first, r) ← signInput K rng message input pseudo r
    let (others, r) ← signInputs message rest r
    .ok (first :: others, r)

def build (P : Prover ρ F) (r : ρ) : Except WalletError (Transaction G × ρ) := do
  require (b.txType = .coinbase ∨ b.inputs ≠ []) (.invalidInputCount 0 maxTxInputs)
  require (b.outputs ≠ []) (.invalidOutputCount 0 maxTxOutputs)
  let inputSum ← checkedSum (b.inputs.map (·.amount))
  let outputSum ← checkedSum (b.outputs.map (·.amount))
  require (outputSum + b.fee.val < 2 ^ 64) .amountOverflow
  require (inputSum = outputSum + b.fee.val)
    (.transactionUnbalanced inputSum (outputSum + b.fee.val))
  let outputs ← finishOutputs P b.memo b.outputs
  let (proof, r) ←
    P.rangeProof (b.outputs.map (·.amount)) (b.outputs.map (·.blinding)) b.targetHeight r
  let pseudo := b.pseudoBlindings rng r
  let paired := b.inputs.zip pseudo.1
  let unsigned : Transaction G := ⟨b.txVersion, b.txType,
    paired.map fun p => unsignedInput K p.1 p.2, outputs, b.fee, proof, b.extra⟩
  let (inputs, r) ← signInputs K rng (unsigned.signingHash K.toSuite).asSlice paired pseudo.2
  .ok ({ unsigned with inputs := inputs }, r)

variable {K b rng} {r r' : ρ}

theorem length_signInputs {message : Bytes} {paired : List (InputBuilder F G × F)}
    {inputs : List (TxInput G)} (h : signInputs K rng message paired r = .ok (inputs, r')) :
    inputs.length = paired.length := by
  induction paired generalizing inputs r r' with
  | nil =>
    cases h
    rfl
  | cons p rest ih =>
    obtain ⟨⟨first, r₁⟩, -, h⟩ := bind_eq_ok_iff.mp h
    obtain ⟨⟨others, r₂⟩, hothers, h⟩ := bind_eq_ok_iff.mp h
    cases h
    rw [length_cons, length_cons, ih hothers]

/-- **What is built** has the builder's outputs and fee, an input for each of the builder's, and
amounts that balance. -/
theorem build_eq_ok {P : Prover ρ F} {tx : Transaction G} (h : b.build K rng P r = .ok (tx, r')) :
    tx.txType = b.txType ∧ tx.fee = b.fee ∧ tx.inputs.length = b.inputs.length ∧
      List.Forall₂ (fun (o : OutputBuilder F) t => ∃ m, t = o.finish m) b.outputs tx.outputs ∧
      (b.inputs.map (·.amount.val)).sum = (b.outputs.map (·.amount.val)).sum + b.fee.val := by
  obtain ⟨⟨⟩, -, h⟩ := bind_eq_ok_iff.mp h
  obtain ⟨⟨⟩, -, h⟩ := bind_eq_ok_iff.mp h
  obtain ⟨inputSum, hin, h⟩ := bind_eq_ok_iff.mp h
  obtain ⟨outputSum, hout, h⟩ := bind_eq_ok_iff.mp h
  obtain ⟨⟨⟩, -, h⟩ := bind_eq_ok_iff.mp h
  obtain ⟨⟨⟩, hbalance, h⟩ := bind_eq_ok_iff.mp h
  obtain ⟨outputs, houtputs, h⟩ := bind_eq_ok_iff.mp h
  obtain ⟨⟨proof, r₁⟩, -, h⟩ := bind_eq_ok_iff.mp h
  obtain ⟨⟨inputs, r₂⟩, hinputs, h⟩ := bind_eq_ok_iff.mp h
  cases h
  refine ⟨rfl, rfl, ?_, finishOutputs_eq_ok houtputs, ?_⟩
  · have hlen := length_signInputs hinputs
    have hpseudo : b.inputs.length ≤ (b.pseudoBlindings rng r₁).1.length := by
      rw [pseudoBlindings, length_append, length_drawScalars, length_singleton]
      omega
    rw [length_zip, min_eq_left hpseudo] at hlen
    exact hlen
  · rw [checkedSum_eq_ok hin, checkedSum_eq_ok hout, require_ok_iff] at hbalance
    simpa only [map_map, Function.comp_def] using hbalance

end TransactionBuilder

end Coincync
