/-
# Assembling what was prepared

`src/wallet/send/assembly.rs` and `inputs.rs`.  The outputs of a transfer are the payments, then the
change, then dummies; what an output is derived for is its position (`assemble_eq_ok`).  Change below
`MIN_OUTPUT_AMOUNT` cannot be an output and is added to the fee.
-/
import Coincync.Wallet.Send

namespace Coincync

open Coincync.Lib List Option Except

variable {ρ F G : Type} [Field F] [AddCommGroup G] [Module F G] (K : KeySuite F G) (rng : Rng ρ F)

/-! ## 1. The steps -/

namespace TransactionBuilder

/-- The loop of `add_prepared_inputs`. -/
def addInputs (b : TransactionBuilder F G) :
    List (PreparedInput F × (List RingMemberRef × Nat)) →
      Except WalletError (TransactionBuilder F G)
  | [] => .ok b
  | (p, ring) :: rest => do
    let b ← b.addInput K p.input ring.1 ring.2
    b.addInputs rest

def addPreparedInputs (b : TransactionBuilder F G) (inputs : List (PreparedInput F))
    (rings : AllocatedRings) (expectedRingSize : Nat) :
    Except WalletError (TransactionBuilder F G) := do
  require (inputs.length = rings.rings.length)
    (.ringCountMismatch inputs.length rings.rings.length)
  require (rings.ringSize = expectedRingSize) (.ringSizeMismatch expectedRingSize rings.ringSize)
  require (inputs.map (·.realOutput) = rings.realOutputs) .ringInputMismatch
  b.addInputs K (inputs.zip rings.rings)

/-- The loop over the payments, each with its index. -/
def addPayments (b : TransactionBuilder F G) :
    List (Payment × Nat) → ρ → Except WalletError (TransactionBuilder F G × ρ)
  | [], r => .ok (b, r)
  | (p, i) :: rest, r => do
    let (b, r) ← b.addOutputExt K rng ⟨p.spendPublic, p.viewPublic, p.amount, none⟩ (UInt8.ofNat i)
      p.isSubaddress r
    b.addPayments rest r

/-- Change that is enough for an output; less is added to the fee. -/
def addChangeOrFee (b : TransactionBuilder F G) (spendPublic viewPublic : PublicKey)
    (changeAmount estimatedFee : Nat) (idx : UInt8) (r : ρ) :
    Except WalletError ((TransactionBuilder F G × Nat) × ρ) :=
  if minOutputAmount ≤ changeAmount then
    (b.addChange K rng spendPublic viewPublic ⟨UInt64.ofNat changeAmount⟩ idx r).map fun x =>
      ((x.1, estimatedFee), x.2)
  else .ok ((b, saturate (estimatedFee + changeAmount)), r)

end TransactionBuilder

/-- How many dummy outputs a transfer gets: enough for a standard one, or up to two. -/
def TransferShape.dummies (shape : TransferShape) (changeAmount : Nat) (r : ρ) : Nat × ρ :=
  match shape with
  | .legacy => rng.below 3 r
  | .uniformStandard => (if minOutputAmount ≤ changeAmount then 0 else 1, r)
  | .uniformDripPair => (0, r)

/-- What is done with the change, and what the fee is. -/
def settleChange (p : PreparedPrivacyTransaction F) (b : TransactionBuilder F G) (r : ρ) :
    Except WalletError ((TransactionBuilder F G × Nat) × ρ) :=
  if p.shape = .uniformDripPair then .ok ((b, saturate (p.estimatedFee + p.changeAmount)), r)
  else b.addChangeOrFee K rng p.spendPublic p.viewPublic p.changeAmount p.estimatedFee
    (UInt8.ofNat p.payments.length) r

/-- `build_prepared_privacy_transaction` up to `build`. -/
def assemble (p : PreparedPrivacyTransaction F) (rings : AllocatedRings) (r : ρ) :
    Except WalletError (TransactionBuilder F G × ρ) := do
  let start : TransactionBuilder F G :=
    { TransactionBuilder.transfer p.context.targetHeight with memo := p.memo, extra := p.extra }
  let b ← start.addPreparedInputs K p.inputs rings p.context.ringSize
  let (b, r) ← b.addPayments K rng p.payments.zipIdx r
  let ((b, fee), r) ← settleChange K rng p b r
  let dummies := p.shape.dummies rng p.changeAmount r
  let (b, r) ← b.addDummyOutputs K rng dummies.1 dummies.2
  .ok ({ b with fee := ⟨UInt64.ofNat fee⟩ }, r)

def buildPreparedPrivacyTransaction [DecidableEq G] (P : Prover ρ F)
    (p : PreparedPrivacyTransaction F) (rings : AllocatedRings) (r : ρ) :
    Except WalletError (Transaction G × ρ) := do
  let (b, r) ← assemble K rng p rings r
  b.build K rng P r

/-! ## 2. Where the outputs stand -/

namespace TransactionBuilder

variable {K rng} {b b' : TransactionBuilder F G} {r r' : ρ}

theorem addInput_eq_ok {input : SpendableInput F} {decoys : List RingMemberRef} {pos : Nat}
    (h : b.addInput K input decoys pos = .ok b') :
    ∃ i : InputBuilder F G, b' = { b with inputs := b.inputs ++ [i] } ∧ i.amount = input.amount := by
  obtain ⟨⟨⟩, -, h⟩ := bind_eq_ok_iff.mp h
  obtain ⟨⟨⟩, -, h⟩ := bind_eq_ok_iff.mp h
  obtain ⟨before, -, h⟩ := bind_eq_ok_iff.mp h
  obtain ⟨here, -, h⟩ := bind_eq_ok_iff.mp h
  obtain ⟨after, -, h⟩ := bind_eq_ok_iff.mp h
  exact ⟨_, (Except.ok.inj h).symm, rfl⟩

theorem addInputs_eq_ok {l : List (PreparedInput F × (List RingMemberRef × Nat))}
    (h : b.addInputs K l = .ok b') : ∃ is : List (InputBuilder F G),
      b' = { b with inputs := b.inputs ++ is } ∧
        is.map (·.amount) = l.map (·.1.input.amount) := by
  induction l generalizing b with
  | nil =>
    cases h
    exact ⟨[], by rw [append_nil], rfl⟩
  | cons p rest ih =>
    obtain ⟨b₁, hone, h⟩ := bind_eq_ok_iff.mp h
    obtain ⟨i, rfl, hi⟩ := addInput_eq_ok hone
    obtain ⟨is, rfl, his⟩ := ih h
    exact ⟨i :: is, by simp, by rw [map_cons, map_cons, hi, his]⟩

theorem addPreparedInputs_eq_ok {inputs : List (PreparedInput F)} {rings : AllocatedRings} {n : Nat}
    (h : b.addPreparedInputs K inputs rings n = .ok b') : ∃ is : List (InputBuilder F G),
      b' = { b with inputs := b.inputs ++ is } ∧
        is.map (·.amount) = inputs.map (·.input.amount) := by
  obtain ⟨⟨⟩, hcount, h⟩ := bind_eq_ok_iff.mp h
  obtain ⟨⟨⟩, -, h⟩ := bind_eq_ok_iff.mp h
  obtain ⟨⟨⟩, -, h⟩ := bind_eq_ok_iff.mp h
  obtain ⟨is, hb, his⟩ := addInputs_eq_ok h
  refine ⟨is, hb, his.trans ?_⟩
  have hfst := map_fst_zip (require_ok_iff.mp hcount).le
  calc (inputs.zip rings.rings).map (·.1.input.amount)
      = ((inputs.zip rings.rings).map Prod.fst).map (·.input.amount) := by rw [List.map_map]; rfl
    _ = inputs.map (·.input.amount) := by rw [hfst]

variable (K) in
/-- **The output is for the recipient of a payment**, whoever that is, at an index. -/
def ForPayment (spendPub viewPub : PublicKey) (sub : Bool) (amount : Amount) (idx : UInt8)
    (o : OutputBuilder F) : Prop :=
  o.amount = amount ∧ ∀ a spend, K.Publishes a spendPub viewPub sub spend →
    ∀ memo, K.PaysTo (o.finish memo) a spend idx amount

/-- **The payments become the first outputs**, each derived for the index it has. -/
theorem addPayments_eq_ok {payments : List (Payment × Nat)}
    (h : b.addPayments K rng payments r = .ok (b', r')) :
    payments.length ≤ maxTxOutputs - b.outputs.length ∧
      ∃ os : List (OutputBuilder F), b' = b.append os ∧
        List.Forall₂ (fun x o => ForPayment K x.1.spendPublic x.1.viewPublic x.1.isSubaddress
          x.1.amount (UInt8.ofNat x.2) o) payments os := by
  induction payments generalizing b r with
  | nil =>
    cases h
    exact ⟨zero_le, [], by rw [append, append_nil], .nil⟩
  | cons x rest ih =>
    obtain ⟨⟨b₁, r₁⟩, hone, h⟩ := bind_eq_ok_iff.mp h
    obtain ⟨hroom, -, o, rfl, hamount, -, hpays⟩ := addOutputExt_eq_ok hone
    obtain ⟨hlen, os, rfl, hos⟩ := ih h
    refine ⟨?_, o :: os, by rw [append_append, singleton_append], .cons ⟨hamount, hpays⟩ hos⟩
    rw [append, length_append, length_singleton] at hlen
    rw [length_cons]
    omega

/-- **Change is put last, or added to the fee.** -/
theorem addChangeOrFee_eq_ok {spendPub viewPub : PublicKey} {changeAmount estimatedFee fee : Nat}
    {idx : UInt8} (h : b.addChangeOrFee K rng spendPub viewPub changeAmount estimatedFee idx r =
      .ok ((b', fee), r')) :
    if minOutputAmount ≤ changeAmount then
      fee = estimatedFee ∧ b.outputs.length < maxTxOutputs ∧ ∃ o, b' = b.append [o] ∧
        ForPayment K spendPub viewPub false ⟨UInt64.ofNat changeAmount⟩ idx o
    else fee = saturate (estimatedFee + changeAmount) ∧ b' = b := by
  unfold addChangeOrFee at h
  split_ifs at h ⊢
  · obtain ⟨x, hx, h⟩ := map_eq_ok_iff.mp h
    obtain ⟨heq, -⟩ := Prod.mk.inj h
    cases heq
    obtain ⟨hroom, -, o, ho, hamount, -, hpays⟩ := addOutputExt_eq_ok hx
    exact ⟨rfl, hroom, o, ho, hamount, hpays⟩
  · obtain ⟨heq, -⟩ := Prod.mk.inj (Except.ok.inj h)
    cases heq
    exact ⟨rfl, rfl⟩

end TransactionBuilder

/-- Is there an output for the change? -/
def PreparedPrivacyTransaction.KeepsOutput (p : PreparedPrivacyTransaction F) : Prop :=
  p.shape ≠ .uniformDripPair ∧ minOutputAmount ≤ p.changeAmount

instance (p : PreparedPrivacyTransaction F) : Decidable p.KeepsOutput := instDecidableAnd

section

open TransactionBuilder

variable {K rng} {p : PreparedPrivacyTransaction F} {rings : AllocatedRings} {r r' : ρ}

/-- **What is assembled**: payments, change and dummies, in this order. -/
theorem assemble_eq_ok {b : TransactionBuilder F G} (h : assemble K rng p rings r = .ok (b, r')) :
    b.txType = .transfer ∧ b.inputs.map (·.amount) = p.inputs.map (·.input.amount) ∧
      p.payments.length ≤ maxTxOutputs ∧
      b.fee = ⟨UInt64.ofNat (if p.KeepsOutput then p.estimatedFee
        else saturate (p.estimatedFee + p.changeAmount))⟩ ∧
      ∃ paid change dummies : List (OutputBuilder F), b.outputs = paid ++ (change ++ dummies) ∧
        List.Forall₂ (fun x o => ForPayment K x.1.spendPublic x.1.viewPublic x.1.isSubaddress
          x.1.amount (UInt8.ofNat x.2) o) p.payments.zipIdx paid ∧
        (p.KeepsOutput → ∃ o, change = [o] ∧ ForPayment K p.spendPublic p.viewPublic false
          ⟨UInt64.ofNat p.changeAmount⟩ (UInt8.ofNat p.payments.length) o) ∧
        (¬ p.KeepsOutput → change = []) ∧
        ∀ o ∈ dummies, o.amount = Amount.zero := by
  obtain ⟨b₁, hinputs, h⟩ := bind_eq_ok_iff.mp h
  obtain ⟨is, rfl, his⟩ := addPreparedInputs_eq_ok hinputs
  obtain ⟨⟨b₂, r₂⟩, hpayments, h⟩ := bind_eq_ok_iff.mp h
  obtain ⟨hlen, paid, rfl, hpaid⟩ := addPayments_eq_ok hpayments
  obtain ⟨⟨⟨b₃, fee⟩, r₃⟩, hchange, h⟩ := bind_eq_ok_iff.mp h
  obtain ⟨⟨b₄, r₄⟩, hpadded, h⟩ := bind_eq_ok_iff.mp h
  cases h
  obtain ⟨dummies, rfl, -, hdummies⟩ := addDummyOutputs_eq_ok hpadded
  have hfew : p.payments.length ≤ maxTxOutputs :=
    (p.payments.length_zipIdx ▸ hlen).trans (Nat.sub_le _ _)
  unfold settleChange at hchange
  by_cases hdrip : p.shape = .uniformDripPair
  · have hkeeps : ¬ p.KeepsOutput := fun h => h.1 hdrip
    rw [if_pos hdrip] at hchange
    rw [if_neg hkeeps]
    obtain ⟨heq, -⟩ := Prod.mk.inj (Except.ok.inj hchange)
    cases heq
    exact ⟨rfl, his, hfew, rfl, paid, [], dummies, rfl, hpaid, (absurd · hkeeps),
      fun _ => rfl, hdummies⟩
  · rw [if_neg hdrip] at hchange
    have hchange := addChangeOrFee_eq_ok hchange
    by_cases henough : minOutputAmount ≤ p.changeAmount
    · have hkeeps : p.KeepsOutput := ⟨hdrip, henough⟩
      rw [if_pos henough] at hchange
      rw [if_pos hkeeps]
      obtain ⟨rfl, -, o, rfl, ho⟩ := hchange
      refine ⟨rfl, his, hfew, rfl, paid, [o], dummies, ?_, hpaid, fun _ => ⟨o, rfl, ho⟩,
        (absurd hkeeps ·), hdummies⟩
      rw [append_append, append_append]
      rfl
    · have hkeeps : ¬ p.KeepsOutput := fun h => henough h.2
      rw [if_neg henough] at hchange
      rw [if_neg hkeeps]
      obtain ⟨rfl, rfl⟩ := hchange
      exact ⟨rfl, his, hfew, rfl, paid, [], dummies, rfl, hpaid, (absurd · hkeeps),
      fun _ => rfl, hdummies⟩

/-! ## 3. Change and fee -/

variable (K) in
/-- **Change is kept**: the fee is less than the estimate and `MIN_OUTPUT_AMOUNT`, and all else is
for the payments and the wallet, which can read its output. -/
def KeepsChange (keys : KeyEpoch) (p : PreparedPrivacyTransaction F) (tx : Transaction G) : Prop :=
  tx.fee.val < p.estimatedFee + minOutputAmount ∧
    ∃ change : Amount, (p.inputs.map (·.input.amount.val)).sum =
        (p.payments.map (·.amount.val)).sum + change.val + tx.fee.val ∧
      (0 < change.val → ∃ o, tx.outputs[p.payments.length]? = some o ∧
        K.PaysTo o (K.scalarOf keys.viewSecret) (K.scalarOf keys.spendSecret • K.generator)
          (UInt8.ofNat p.payments.length) change)

theorem sum_assembled {payments : List Payment} {paid change dummies : List (OutputBuilder F)}
    (hpaid : List.Forall₂ (fun x o => ForPayment K x.1.spendPublic x.1.viewPublic x.1.isSubaddress
      x.1.amount (UInt8.ofNat x.2) o) payments.zipIdx paid)
    (hdummies : ∀ o ∈ dummies, o.amount = Amount.zero) :
    ((paid ++ (change ++ dummies)).map (·.amount.val)).sum =
      (payments.map (·.amount.val)).sum + (change.map (·.amount.val)).sum := by
  have hpayments : paid.map (·.amount.val) = payments.map (·.amount.val) := by
    have hzip : paid.map (·.amount.val) = payments.zipIdx.map (·.1.amount.val) := by
      generalize payments.zipIdx = l at hpaid
      induction hpaid with
      | nil => rfl
      | cons h _ ih => rw [map_cons, map_cons, ih, h.1]
    calc paid.map (·.amount.val)
        = (payments.zipIdx.map Prod.fst).map (·.amount.val) := by rw [hzip, List.map_map]; rfl
      _ = payments.map (·.amount.val) := by rw [zipIdx_map_fst]
  have hzero : (dummies.map (·.amount.val)).sum = 0 := by
    refine sum_eq_zero fun n hn => ?_
    obtain ⟨o, ho, rfl⟩ := List.mem_map.mp hn
    rw [hdummies o ho]
    rfl
  rw [map_append, sum_append, hpayments, map_append, sum_append, hzero, add_zero]

theorem val_ofNat {n : Nat} (h : n < 2 ^ 64) : (⟨UInt64.ofNat n⟩ : Amount).val = n :=
  UInt64.toNat_ofNat_of_lt' h

variable [DecidableEq G] {P : Prover ρ F} {w : Balance} {walk : w.Walk} {request : SendRequest}
  {keys : KeyEpoch} {fuel : Nat} {r₀ r₁ : ρ} {tx : Transaction G}

/-- **Change is kept exactly if the transfer is no drip pair or its change is too small to keep.** -/
theorem change_kept_iff
    (hprepared : preparePrivacyTransaction K rng walk request keys fuel r₀ = some (.ok (p, r₁)))
    (hbuilt : buildPreparedPrivacyTransaction K rng P p rings r = .ok (tx, r')) :
    KeepsChange K keys p tx ↔
      p.shape ≠ .uniformDripPair ∨ p.changeAmount < minOutputAmount := by
  obtain ⟨s, -, -, hfee, hneeded, hin, hcovers, -, hpfee, hchange, hspend, hview⟩ :=
    preparePrivacyTransaction_eq_ok hprepared
  have hsmall : p.estimatedFee + p.changeAmount < 2 ^ 64 := by
    have hest : s.estimatedFee < 2 ^ 64 := by
      rw [hfee]
      unfold scaledFee saturate
      omega
    unfold saturate at hneeded hin
    omega
  obtain ⟨⟨b, r₂⟩, hassembled, hbuilt⟩ := bind_eq_ok_iff.mp hbuilt
  obtain ⟨-, hinputs, -, hbfee, paid, change, dummies, houtputs, hpaid, hkept, hnone, hdummies⟩ :=
    assemble_eq_ok hassembled
  obtain ⟨-, htxfee, -, hfinished, hbalance⟩ := build_eq_ok hbuilt
  rw [houtputs, sum_assembled hpaid hdummies] at hbalance
  have hvalues : b.inputs.map (·.amount.val) = p.inputs.map (·.input.amount.val) := by
    simpa only [List.map_map, Function.comp_def] using congrArg (List.map Amount.val) hinputs
  rw [hvalues, hbfee] at hbalance
  by_cases hkeeps : p.KeepsOutput
  · obtain ⟨o, rfl, hamount, hpays⟩ := hkept hkeeps
    rw [if_pos hkeeps] at hbfee hbalance
    refine iff_of_true ⟨?_, ⟨UInt64.ofNat p.changeAmount⟩, ?_, fun _ => ?_⟩ (.inl hkeeps.1)
    · rw [htxfee, hbfee, val_ofNat (by omega)]
      exact Nat.lt_add_of_pos_right (by decide)
    · rw [htxfee, hbfee, hbalance, map_singleton, sum_singleton, hamount]
    · have ho : b.outputs[p.payments.length]? = some o := by
        rw [houtputs, ← p.payments.length_zipIdx, hpaid.length_eq]
        simp
      obtain ⟨t, ht, m, rfl⟩ := exists_getElem?_of_forall₂ hfinished ho
      rw [hspend, hview] at hpays
      exact ⟨_, ht, hpays _ _ ⟨rfl, rfl⟩ m⟩
  · obtain rfl := hnone hkeeps
    rw [if_neg hkeeps, saturate, min_eq_left (Nat.le_sub_one_of_lt hsmall)] at hbfee hbalance
    rw [KeepsChange, htxfee, hbfee, val_ofNat hsmall] at *
    refine ⟨fun h => or_iff_not_imp_left.mpr fun _ => Nat.lt_of_add_lt_add_left h.1, fun h => ?_⟩
    have hlow : p.changeAmount < minOutputAmount :=
      not_le.mp fun hle => hkeeps ⟨h.resolve_right (not_lt.mpr hle), hle⟩
    exact ⟨Nat.add_lt_add_left hlow _, Amount.zero, hbalance, nofun⟩

end

namespace SmallWallet

open SmallSuite

/-- A range prover and memos that are not looked at. -/
def prover : Prover Unit Z := ⟨fun _ _ _ r => .ok ([], r), fun memo _ _ => .ok memo⟩

/-- Each input in a ring with one decoy. -/
def rings (p : PreparedPrivacyTransaction Z) : AllocatedRings :=
  ⟨2, p.inputs.map (·.realOutput), p.inputs.map fun _ =>
    ([⟨suite.publicKey (secret 7), suite.compress 11⟩], 0)⟩

def sent (x y : UInt64) (amounts : List UInt64) :
    Option (PreparedPrivacyTransaction Z × Transaction Z) :=
  (prepared x y amounts).bind fun p =>
    (buildPreparedPrivacyTransaction suite fixedRng prover p (rings p) ()).toOption.map fun made =>
      (p, made.1)

theorem of_sent {x y : UInt64} {amounts : List UInt64} {p : PreparedPrivacyTransaction Z}
    {tx : Transaction Z} (h : sent x y amounts = some (p, tx)) :
    prepared x y amounts = some p ∧
      buildPreparedPrivacyTransaction suite fixedRng prover p (rings p) () = .ok (tx, ()) := by
  obtain ⟨p', hp, h⟩ := bind_eq_some_iff.mp h
  obtain ⟨made, hmade, h⟩ := map_eq_some_iff.mp h
  obtain ⟨rfl, rfl⟩ := Prod.mk.inj h
  refine ⟨hp, ?_⟩
  cases hbuilt : buildPreparedPrivacyTransaction suite fixedRng prover p' (rings p') () with
  | error e =>
    rw [hbuilt] at hmade
    cases hmade
  | ok made' =>
    rw [hbuilt] at hmade
    rw [← Option.some.inj hmade]

/-- A single payment keeps its change. -/
theorem single_payment_keeps_change : ∃ p tx, sent 1000000000000 1000000000000 [5000000] =
    some (p, tx) ∧ minOutputAmount ≤ p.changeAmount ∧ KeepsChange suite keys p tx := by
  have hsent : (sent 1000000000000 1000000000000 [5000000]).map (fun x =>
      decide (x.1.shape ≠ .uniformDripPair ∧ minOutputAmount ≤ x.1.changeAmount)) = some true := by
    decide +kernel
  obtain ⟨⟨p, tx⟩, h, hx⟩ := map_eq_some_iff.mp hsent
  obtain ⟨hshape, hchange⟩ := of_decide_eq_true hx
  obtain ⟨hprepared, hbuilt⟩ := of_sent h
  exact ⟨p, tx, h, hchange, (change_kept_iff (of_prepared hprepared) hbuilt).mpr (.inl hshape)⟩

/-- **Two payments to one address give the change away**: nearly two coins, for a fee of 0.0000037. -/
theorem drip_pair_burns_change : ∃ p tx, sent 1000000000000 1000000000000 [5000000, 5000000] =
    some (p, tx) ∧ p.estimatedFee = 3704000 ∧ tx.fee.val = 1999990000000 := by
  have hsent : (sent 1000000000000 1000000000000 [5000000, 5000000]).map (fun x =>
      (x.1.estimatedFee, x.2.fee.val)) = some (3704000, 1999990000000) := by
    decide +kernel
  obtain ⟨⟨p, tx⟩, h, hx⟩ := map_eq_some_iff.mp hsent
  obtain ⟨hfee, htx⟩ := Prod.mk.inj hx
  exact ⟨p, tx, h, hfee, htx⟩

end SmallWallet

end Coincync
