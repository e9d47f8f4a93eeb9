/-
# Sending

`src/wallet/send/prepare.rs`: `prepare_privacy_transaction` selects inputs for the payments and the
fee of a transfer of one of three shapes, and prepares each for signing.  Selection and fee depend on
each other and are repeated until they agree.
-/
import Coincync.Transaction.Builder
import Coincync.Wallet.Selection

namespace Coincync

open Lib

/-! ## 1. Requests -/

structure Payment where
  spendPublic : PublicKey
  viewPublic : PublicKey
  amount : Amount
  isSubaddress : Bool

def Payment.hasSameDestination (p q : Payment) : Bool :=
  p.spendPublic == q.spendPublic && p.viewPublic == q.viewPublic

structure SpendContext where
  targetHeight : Nat
  ringSize : Nat
  minOutputAge : Nat

def SpendContext.withRingSize (build : BuildConfig) (targetHeight ringSize : Nat) :
    Except WalletError SpendContext :=
  if ringSize < 2 then .error (.invalidRingSize 2 ringSize)
  else .ok ⟨targetHeight, ringSize, minOutputAgeAtHeight build targetHeight⟩

structure SendRequest where
  payments : List Payment
  context : SpendContext
  feeMultiplier : FeeMultiplier
  memo : Option Bytes
  extra : Bytes

/-- `KeyEpoch`: the public keys are those of the secrets. -/
structure KeyEpoch where
  viewSecret : SecretKey
  spendSecret : SecretKey

structure RealOutputIdentity where
  locator : OutputLocator
  publicKey : PublicKey
  commitment : FixedBytes 32
  deriving DecidableEq

structure PreparedInput (F : Type) where
  input : SpendableInput F
  realOutput : RealOutputIdentity

inductive TransferShape
  | legacy
  | uniformStandard
  | uniformDripPair
  deriving DecidableEq

namespace TransferShape

/-- Two payments to one address. -/
def isDripPair : List Payment → Bool
  | [p, q] => p.hasSameDestination q
  | _ => false

def classify (payments : List Payment) (targetHeight : Nat) : Except WalletError TransferShape :=
  if targetHeight < uniformTxShapeHeight then .ok .legacy
  else if isDripPair payments = true then .ok .uniformDripPair
  else if payments.length ≤ 1 then .ok .uniformStandard
  else .error (.invalidState
    "Post-activation transfers must have one recipient or a same-address drip pair")

def isUniform (shape : TransferShape) : Bool := shape != .legacy

/-- The number of outputs the fee is estimated for, with `LEGACY_OUTPUT_PADDING`. -/
def outputCount (shape : TransferShape) (payments : List Payment) : Nat :=
  if shape.isUniform = true then standardOutputCount else payments.length + 3

end TransferShape

structure PreparedPrivacyTransaction (F : Type) where
  inputs : List (PreparedInput F)
  payments : List Payment
  changeAmount : Nat
  estimatedFee : Nat
  context : SpendContext
  shape : TransferShape
  spendPublic : PublicKey
  viewPublic : PublicKey
  memo : Option Bytes
  extra : Bytes

/-- `AllocatedRings`: for each input its decoys and its own position among them. -/
structure AllocatedRings where
  ringSize : Nat
  realOutputs : List RealOutputIdentity
  rings : List (List RingMemberRef × Nat)

variable {ρ F G : Type} [Field F] [AddCommGroup G] [Module F G] (K : KeySuite F G) (rng : Rng ρ F)

/-! ## 2. Preparing -/

/-- The secret that an output's spend key belongs to. -/
def KeyEpoch.effectiveSpend (keys : KeyEpoch) : Option Nat → Option Nat → SecretKey
  | some account, some index =>
    K.computeSubaddressSpendSecret keys.spendSecret keys.viewSecret account index
  | _, _ => keys.spendSecret

def prepareInput (keys : KeyEpoch) (u : UTXO) : Except WalletError (PreparedInput F) :=
  match u.outputLocator with
  | none => .error (.invalidState
    "wallet output has no canonical locator; run a full wallet rescan before spending")
  | some locator =>
    let blinding := K.scalarFromBytes u.amountBlindingBytes
    (K.computeOneTimeSecret ⟨u.txPublicKey, u.txPublicKey⟩ keys.viewSecret
      (keys.effectiveSpend K u.subaddressAccount u.subaddressIndex) u.outputIndex).map fun x =>
        ⟨⟨u.txHash, u.outputIndex, u.amount, x, blinding, u.height⟩,
          ⟨locator, K.publicKey x, K.commitBytes u.amount blinding⟩⟩

def prepareSelection (request : SendRequest) (keys : KeyEpoch) (shape : TransferShape)
    (s : Selection) : Except WalletError (PreparedPrivacyTransaction F) :=
  (s.selected.mapM fun e => prepareInput K keys e.2).map fun inputs =>
    ⟨inputs, request.payments, s.inputSum - s.totalNeeded, s.estimatedFee, request.context, shape,
      K.publicKey keys.spendSecret, K.publicKey keys.viewSecret, request.memo, request.extra⟩

/-- `prepare_privacy_transaction`, with the number of turns its loop may take. -/
def preparePrivacyTransaction {w : Balance} (walk : w.Walk) (request : SendRequest)
    (keys : KeyEpoch) (fuel : Nat) (r : ρ) :
    Option (Except WalletError (PreparedPrivacyTransaction F × ρ)) :=
  let context := request.context
  match TransferShape.classify request.payments context.targetHeight with
  | .error e => some (.error e)
  | .ok shape =>
    let totalSend := satSum (request.payments.map (·.amount.val))
    let fee (inputCount : Nat) := scaledFee inputCount (shape.outputCount request.payments)
      context.ringSize request.feeMultiplier
    let required :=
      saturate (totalSend + fee (if shape.isUniform = true then standardInputCount else 1))
    let ensure := Balance.ensureSpendable walk context.targetHeight context.minOutputAge
    match ensure required with
    | .error e => some (.error e)
    | .ok () =>
      let utxos := Balance.availableUtxos walk context.targetHeight context.minOutputAge
      let select := if shape.isUniform = true then selectUtxosUniform rng utxos
        else selectUtxos rng utxos .oldestFirst
      (selectionLoop ensure select fee totalSend fuel required r).map fun result =>
        result.bind fun s => (prepareSelection K request keys shape s.1).map (·, s.2)

section

variable {K rng} {w : Balance} {walk : w.Walk} {request : SendRequest} {keys : KeyEpoch} {r : ρ}

omit [Field F] in
theorem selects_of_shape (shape : TransferShape) (utxos : List Entry) (target : Nat) (r : ρ)
    (selected : List Entry) (r' : ρ)
    (h : (if shape.isUniform = true then selectUtxosUniform rng utxos
      else selectUtxos rng utxos .oldestFirst) target r = .ok (selected, r')) :
    Selects utxos target selected := by
  split_ifs at h
  · exact (selectUtxosUniform_eq_ok h).1
  · exact selectUtxos_eq_ok h

/-- **Preparing ends.** -/
theorem isSome_preparePrivacyTransaction :
    (preparePrivacyTransaction K rng walk request keys (2 ^ 64) r).isSome = true := by
  unfold preparePrivacyTransaction
  simp only
  split
  · rfl
  · split
    · rfl
    · rw [Option.isSome_map]
      refine isSome_selectionLoop (selects_of_shape _ _) ?_ (Nat.le_add_right _ _)
      unfold saturate
      omega

/-- **What is prepared**: a selection of what is available, with its fee and its change. -/
theorem preparePrivacyTransaction_eq_ok {fuel : Nat} {p : PreparedPrivacyTransaction F} {r' : ρ}
    (h : preparePrivacyTransaction K rng walk request keys fuel r = some (.ok (p, r'))) :
    ∃ s : Selection,
      s.selected.Subperm (Balance.availableUtxos walk request.context.targetHeight
        request.context.minOutputAge) ∧
      List.Forall₂ (fun e i => prepareInput K keys e.2 = .ok i) s.selected p.inputs ∧
      s.estimatedFee = scaledFee s.selected.length (p.shape.outputCount request.payments)
        request.context.ringSize request.feeMultiplier ∧
      s.totalNeeded = saturate (satSum (request.payments.map (·.amount.val)) + s.estimatedFee) ∧
      s.inputSum = saturate (s.selected.map Entry.amount).sum ∧ s.totalNeeded ≤ s.inputSum ∧
      p.payments = request.payments ∧ p.estimatedFee = s.estimatedFee ∧
      p.changeAmount = s.inputSum - s.totalNeeded ∧
      p.spendPublic = K.publicKey keys.spendSecret ∧ p.viewPublic = K.publicKey keys.viewSecret := by
  unfold preparePrivacyTransaction at h
  simp only at h
  split at h
  · cases Option.some.inj h
  · split at h
    · cases Option.some.inj h
    · obtain ⟨result, hloop, h⟩ := Option.map_eq_some_iff.mp h
      obtain ⟨⟨s, r₁⟩, rfl, h⟩ := Except.bind_eq_ok_iff.mp h
      obtain ⟨p, hp, h⟩ := Except.map_eq_ok_iff.mp h
      cases h
      obtain ⟨inputs, hinputs, rfl⟩ := Except.map_eq_ok_iff.mp hp
      obtain ⟨-, hsub, hfee, hneeded, hsum, hcovers⟩ :=
        selectionLoop_eq_ok (selects_of_shape _ _) hloop
      exact ⟨s, hsub, Except.mapM_eq_ok hinputs, hfee, hneeded, hsum, hcovers, rfl, rfl, rfl,
        rfl, rfl⟩

/-- **The inputs are worth the payments, the fee and the change.** -/
theorem prepared_inputs_conserve
    (hsum : ((Balance.unspentUtxos walk).map Entry.amount).sum < 2 ^ 64 - 1) :
    (preparePrivacyTransaction K rng walk request keys (2 ^ 64) r).isSome = true ∧
      ∀ fuel p r', preparePrivacyTransaction K rng walk request keys fuel r = some (.ok (p, r')) →
        ∃ chosen : List Entry, (chosen.map Prod.fst).Nodup ∧
          (∀ e ∈ chosen, w.utxos.lookup e.1 = some e.2 ∧
            w.Available request.context.targetHeight request.context.minOutputAge e.2) ∧
          List.Forall₂ (fun e i => prepareInput K keys e.2 = .ok i) chosen p.inputs ∧
          (chosen.map Entry.amount).sum = (request.payments.map (·.amount.val)).sum +
            p.estimatedFee + p.changeAmount ∧
          p.estimatedFee = scaledFee p.inputs.length (p.shape.outputCount request.payments)
            request.context.ringSize request.feeMultiplier := by
  refine ⟨isSome_preparePrivacyTransaction, fun fuel p r' h => ?_⟩
  obtain ⟨s, hsub, hinputs, hfee, hneeded, hin, hcovers, -, hpfee, hchange, -⟩ :=
    preparePrivacyTransaction_eq_ok h
  obtain ⟨l, hperm, hl⟩ := hsub.trans (Balance.availableUtxos_sublist walk _ _).subperm
  have hkeys : (s.selected.map Prod.fst).Nodup := by
    rw [← (hperm.map Prod.fst).nodup_iff]
    exact ((hl.trans List.filter_sublist).map Prod.fst).nodup walk.nodup_entries
  have hsmall : (s.selected.map Entry.amount).sum < 2 ^ 64 - 1 := by
    rw [← (hperm.map Entry.amount).sum_eq]
    exact ((hl.map Entry.amount).sum_le_sum fun _ _ => zero_le).trans_lt hsum
  refine ⟨s.selected, hkeys, fun e he => ?_, hinputs, ?_, ?_⟩
  · obtain ⟨hmem, havailable⟩ := List.mem_filter.mp (hsub.subset he)
    exact ⟨Balance.Walk.mem_entries hmem, Balance.isAvailable_iff.mp havailable⟩
  · rw [hpfee, hchange]
    exact Selection.conserves hneeded hin hcovers hsmall
  · rw [hpfee, hfee, hinputs.length_eq]

end

/-! ### A small wallet -/

namespace SmallWallet

open SmallSuite

def suite : KeySuite Z Z where
  toSuite := SmallSuite.suite (digest 32 7)
  scalarFromBytes b := ofNat b.head.toNat
  scalarFromBytes_toBytes := by
    change ∀ s : Z, ofNat (encode s).head.toNat = s
    decide +kernel

def secret (b : UInt8) : SecretKey := ⟨FixedBytes.replicate 32 b⟩

/-- A generator that always draws the same. -/
def fixedRng : Rng Unit Z :=
  ⟨fun r => (secret 9, r), fun r => (3, r), fun _ r => (0, r), fun _ _ h => h, fun l r => (l, r),
    fun _ _ => .refl _⟩

def keys : KeyEpoch := ⟨secret 5, secret 4⟩

/-- An output of the wallet. -/
def utxo (index : UInt8) (amount : UInt64) : UTXO :=
  ⟨Hash.zero, index, some ⟨1, index.toNat⟩, ⟨amount⟩, 1, ⟨FixedBytes.replicate 32 index⟩, false,
    FixedBytes.replicate 32 1, suite.publicKey (secret 6), none, none, none⟩

/-- A wallet with two outputs. -/
def wallet (x y : UInt64) : Balance := (Balance.new.addUtxo (utxo 0 x)).addUtxo (utxo 1 y)

def walk (x y : UInt64) : (wallet x y).Walk where
  order := [(Hash.zero, 0), (Hash.zero, 1)]
  nodup := by decide
  exhaustive := by
    simp only [wallet, Balance.addUtxo, Map.keys_insert_eq]
    change _ = insert (Hash.zero, 1) (insert (Hash.zero, 0) ∅)
    decide

/-- A payment to another wallet. -/
def payment (amount : UInt64) : Payment :=
  ⟨suite.publicKey (secret 8), suite.publicKey (secret 7), ⟨amount⟩, false⟩

def request (amounts : List UInt64) : SendRequest :=
  ⟨amounts.map payment, ⟨1000, 2, 10⟩, ⟨100, le_rfl, by decide⟩, none, []⟩

def prepared (x y : UInt64) (amounts : List UInt64) : Option (PreparedPrivacyTransaction Z) :=
  (preparePrivacyTransaction suite fixedRng (walk x y) (request amounts) keys (2 ^ 64) ()).bind fun made =>
    made.toOption.map Prod.fst

theorem of_prepared {x y : UInt64} {amounts : List UInt64} {p : PreparedPrivacyTransaction Z}
    (h : prepared x y amounts = some p) :
    preparePrivacyTransaction suite fixedRng (walk x y) (request amounts) keys (2 ^ 64) () =
      some (.ok (p, ())) := by
  obtain ⟨made, hmade, h⟩ := Option.bind_eq_some_iff.mp h
  rw [hmade]
  cases made with
  | error e => cases h
  | ok made =>
    cases h
    rfl

/-- A payment is prepared, with change. -/
theorem payment_conserves :
    ((Balance.unspentUtxos (walk 1000000000000 1000000000000)).map Entry.amount).sum < 2 ^ 64 - 1 ∧
      ∃ p, prepared 1000000000000 1000000000000 [5000000] = some p ∧
        ∃ chosen : List Entry, (chosen.map Prod.fst).Nodup ∧
          (chosen.map Entry.amount).sum = 5000000 + p.estimatedFee + p.changeAmount := by
  have hsum : ((Balance.unspentUtxos (walk 1000000000000 1000000000000)).map Entry.amount).sum <
      2 ^ 64 - 1 := by decide +kernel
  have hprepared : (prepared 1000000000000 1000000000000 [5000000]).isSome = true := by
    decide +kernel
  obtain ⟨p, hp⟩ := Option.isSome_iff_exists.mp hprepared
  obtain ⟨chosen, hkeys, -, -, hconserved, -⟩ :=
    (prepared_inputs_conserve hsum).2 _ _ _ (of_prepared hp)
  exact ⟨hsum, p, hp, chosen, hkeys, hconserved⟩

/-- **At the largest `u64` the sum of payment and fee saturates**, and the inputs, which are worth
that much, pass for enough. -/
theorem saturated_sum_passes :
    ((Balance.unspentUtxos (walk 18446744073709551614 1)).map Entry.amount).sum < 2 ^ 64 ∧
      ∃ p, prepared 18446744073709551614 1 [18446744073709551615] = some p ∧
        (p.inputs.map (·.input.amount.val)).sum <
          18446744073709551615 + p.estimatedFee + p.changeAmount := by
  have hsum : ((Balance.unspentUtxos (walk 18446744073709551614 1)).map Entry.amount).sum <
      2 ^ 64 := by decide +kernel
  have hprepared : (prepared 18446744073709551614 1 [18446744073709551615]).map (fun p =>
      decide ((p.inputs.map (·.input.amount.val)).sum <
        18446744073709551615 + p.estimatedFee + p.changeAmount)) = some true := by decide +kernel
  obtain ⟨p, hp, hless⟩ := Option.map_eq_some_iff.mp hprepared
  exact ⟨hsum, p, hp, of_decide_eq_true hless⟩

end SmallWallet

end Coincync
