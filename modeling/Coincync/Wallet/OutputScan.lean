/-
# Receiving

`scan_output` and `scan_transaction` of `src/wallet/scanner.rs`, with the derivation of the one-time
secret that follows.  The sender's side is in the builder and was written separately, so that the two
agree is a theorem: what pays to a spend key of the wallet is found by its scanner at its index, with
its amount, with a blinding factor that opens the commitment, and with a secret that spends it
(`receives_of_paysTo`).  A payment of a transfer is such an output whether it goes to a main address
or to a subaddress, and so is the change (`payments_received`).
-/
import Coincync.Wallet.Assembly

namespace Coincync

open Lib List

variable {ρ F G : Type} [Field F] [AddCommGroup G] [Module F G] (K : KeySuite F G)

/-! ## 1. The scanner -/

structure ScanKeys where
  viewSecret : SecretKey
  spendPublic : PublicKey
  epoch : Nat
  subaddressKeys : List (Nat × Nat × PublicKey)

/-- `DecryptedOutput`; where it stands in the chain is added later. -/
structure DecryptedOutput (F : Type) where
  txHash : Hash
  outputIndex : UInt8
  output : TxOutput
  amount : Amount
  blindingFactor : F
  sharedSecret : FixedBytes 32
  keyEpoch : Nat
  subaddressIndex : Option (Nat × Nat)

def computeSharedSecret (viewSecret : SecretKey) (txPublic : PublicKey) (idx : UInt8) :
    FixedBytes 32 :=
  match K.decompress txPublic.bytes with
  | none => FixedBytes.replicate 32 0
  | some R => K.sharedSecret (K.scalarOf viewSecret • R) idx

/-- The first eight bytes as an amount, nothing if there are fewer. -/
def readAmount (bytes : Bytes) : Amount :=
  ⟨UInt64.ofNat (if 8 ≤ bytes.length then fromLeBytes (bytes.take 8) else 0)⟩

def decryptAmount (encrypted : Bytes) (secret : FixedBytes 32) : Amount × F :=
  (readAmount (if 8 ≤ encrypted.length then
    List.zipWith (· ^^^ ·) (encrypted.take 8) (K.amountMask secret) else []), K.blindingOf secret)

namespace ScanKeys

variable (keys : ScanKeys)

/-- Which spend key the output is for: the primary one, or a subaddress. -/
def matched (st : StealthAddress) (idx : UInt8) : Option (Option (Nat × Nat)) :=
  if K.isOutputOurs st keys.viewSecret keys.spendPublic idx = true then some none
  else (keys.subaddressKeys.find? fun k => K.isOutputOurs st keys.viewSecret k.2.2 idx).map fun k =>
    some (k.1, k.2.1)

/-- One turn of `scan_output`. -/
def scan (o : TxOutput) (idx : UInt8) (txHash : Hash) (isCoinbase : Bool) :
    Option (DecryptedOutput F) :=
  let st : StealthAddress := ⟨o.stealthAddress, o.txPublicKey⟩
  if isCoinbase = true then
    -- amounts of coinbases are plain; old ones pay to the spend key itself
    if o.stealthAddress = keys.spendPublic ∨
        K.isOutputOurs st keys.viewSecret keys.spendPublic idx = true then
      some ⟨txHash, idx, o, readAmount o.encryptedAmount, 0, FixedBytes.replicate 32 0, keys.epoch,
        none⟩
    else none
  else
    (keys.matched K st idx).bind fun subaddress =>
      let secret := computeSharedSecret K keys.viewSecret o.txPublicKey idx
      let (amount, blinding) := decryptAmount K o.encryptedAmount secret
      if K.commitBytes amount blinding = o.commitment then
        some ⟨txHash, idx, o, amount, blinding, secret, keys.epoch, subaddress⟩
      else none

end ScanKeys

/-- `scan_output`: the first key set that finds it. -/
def scanOutput (keys : List ScanKeys) (o : TxOutput) (idx : UInt8) (txHash : Hash)
    (isCoinbase : Bool) : Option (DecryptedOutput F) :=
  keys.findSome? fun k => k.scan K o idx txHash isCoinbase

def scanTransaction (keys : List ScanKeys) (tx : Transaction G) : List (DecryptedOutput F) :=
  (tx.outputs.take 256).zipIdx.filterMap fun x =>
    scanOutput K keys x.1 (UInt8.ofNat x.2) (tx.hash K.toSuite) tx.isCoinbase

/-- The one-time secret of a found output (`decrypted_to_utxo`). -/
def KeyEpoch.oneTimeSecret (keys : KeyEpoch) (d : DecryptedOutput F) :
    Except WalletError SecretKey :=
  K.computeOneTimeSecret ⟨d.output.stealthAddress, d.output.txPublicKey⟩ keys.viewSecret
    (keys.effectiveSpend K (d.subaddressIndex.map Prod.fst) (d.subaddressIndex.map Prod.snd))
    d.outputIndex

/-! ## 2. A wallet that receives -/

/-- **A receiving wallet**: its keys, and the subaddresses it has registered. -/
structure Receiver where
  keys : KeyEpoch
  epoch : Nat
  subaddresses : List (Nat × Nat)

namespace Receiver

variable (v : Receiver)

/-- The spend point of a subaddress. -/
def point (s : Nat × Nat) : G := K.subaddressPoint v.keys.viewSecret v.keys.spendSecret s.1 s.2

/-- The keys its scanner is given. -/
def scanKeys : ScanKeys :=
  ⟨v.keys.viewSecret, K.publicKey v.keys.spendSecret, v.epoch,
    v.subaddresses.map fun s => (s.1, s.2, ⟨K.compress (v.point K s)⟩)⟩

/-- **The address is the wallet's**: its main address, or a registered subaddress with `C = a D`. -/
def HasAddress (spendPub viewPub : PublicKey) (isSubaddress : Bool) : Prop :=
  match isSubaddress with
  | false => spendPub = K.publicKey v.keys.spendSecret ∧ viewPub = K.publicKey v.keys.viewSecret
  | true => ∃ s ∈ v.subaddresses, spendPub = ⟨K.compress (v.point K s)⟩ ∧
      viewPub = ⟨K.compress (K.scalarOf v.keys.viewSecret • v.point K s)⟩

/-- The spend point is one the scanner looks for. -/
def Owns (spend : G) : Prop :=
  spend = K.scalarOf v.keys.spendSecret • K.generator ∨ ∃ s ∈ v.subaddresses, spend = v.point K s

/-- **The wallet receives the output at an index**: its scanner reports the output there, with the
amount, and with what is needed to spend it. -/
def Receives (tx : Transaction G) (i : Nat) (amount : Amount) : Prop :=
  ∃ o, tx.outputs[i]? = some o ∧ ∃ d ∈ scanTransaction K [v.scanKeys K] tx,
    d.output = o ∧ d.outputIndex.toNat = i ∧ d.amount = amount ∧
      K.commitBytes amount d.blindingFactor = o.commitment ∧
      ∃ x, v.keys.oneTimeSecret K d = .ok x ∧ K.publicKey x = o.stealthAddress

end Receiver

/-! ## 3. What is sent is received -/

theorem zipWith_xor_cancel {l mask : Bytes} (h : l.length ≤ mask.length) :
    List.zipWith (· ^^^ ·) (List.zipWith (· ^^^ ·) l mask) mask = l := by
  induction l generalizing mask with
  | nil => rfl
  | cons a l ih =>
    cases mask with
    | nil => cases h
    | cons m mask =>
      rw [zipWith_cons_cons, zipWith_cons_cons, ih (Nat.le_of_succ_le_succ h),
        UInt8.xor_assoc, UInt8.xor_self, UInt8.xor_zero]

variable {K} {v : Receiver} {spend : G} {idx : UInt8}

theorem decryptAmount_maskAmount (amount : Amount) (secret : FixedBytes 32) :
    decryptAmount K (K.maskAmount amount secret) secret = (amount, K.blindingOf secret) := by
  have hbytes := length_u64LeBytes amount.atomic
  have hmask : (K.amountMask secret).length = 8 := by simp [KeySuite.amountMask]
  have hlen : (K.maskAmount amount secret).length = 8 := by
    rw [KeySuite.maskAmount, length_zipWith, hbytes, hmask, Nat.min_self]
  rw [decryptAmount, if_pos hlen.ge, take_of_length_le hlen.le, KeySuite.maskAmount,
    zipWith_xor_cancel (hbytes.trans hmask.symm).le, readAmount, if_pos hbytes.ge,
    take_of_length_le hbytes.le, u64LeBytes, fromLeBytes_leBytes,
    Nat.mod_eq_of_lt (show _ < 256 ^ 8 from amount.atomic.toNat_lt), UInt64.ofNat_toNat]

theorem Receiver.HasAddress.publishes {spendPub viewPub : PublicKey} {sub : Bool}
    (h : v.HasAddress K spendPub viewPub sub) : ∃ spend, v.Owns K spend ∧
      K.Publishes (K.scalarOf v.keys.viewSecret) spendPub viewPub sub spend := by
  cases sub with
  | false => exact ⟨_, .inl rfl, h⟩
  | true =>
    obtain ⟨s, hs, hspend, hview⟩ := h
    exact ⟨_, .inr ⟨s, hs, rfl⟩, hspend, hview⟩

/-- **The scanner recognises an output of the wallet**, and the spend key it takes it for is the
output's. -/
theorem exists_matched (howns : v.Owns K spend) {st : StealthAddress}
    (hst : K.AddressedTo st (K.scalarOf v.keys.viewSecret) spend idx) :
    ∃ s, (v.scanKeys K).matched K st idx = some s ∧
      K.scalarOf (v.keys.effectiveSpend K (s.map Prod.fst) (s.map Prod.snd)) • K.generator =
        spend := by
  have hmain := KeySuite.isOutputOurs_iff hst
    (K.decompress_compress (K.scalarOf v.keys.spendSecret • K.generator))
  change ∃ s, (if K.isOutputOurs st v.keys.viewSecret (K.publicKey v.keys.spendSecret) idx = true
    then some none else ((v.scanKeys K).subaddressKeys.find? fun k =>
      K.isOutputOurs st v.keys.viewSecret k.2.2 idx).map fun k => some (k.1, k.2.1)) = some s ∧ _
  by_cases hours : K.isOutputOurs st v.keys.viewSecret (K.publicKey v.keys.spendSecret) idx = true
  · exact ⟨none, if_pos hours, hmain.mp hours⟩
  · have hsub : ∀ s, K.isOutputOurs st v.keys.viewSecret ⟨K.compress (v.point K s)⟩ idx = true ↔
        v.point K s = spend := fun s => KeySuite.isOutputOurs_iff hst (K.decompress_compress _)
    obtain ⟨s, hs, rfl⟩ := howns.resolve_left fun h => hours (hmain.mpr h.symm)
    cases hfind : (v.scanKeys K).subaddressKeys.find? fun k =>
        K.isOutputOurs st v.keys.viewSecret k.2.2 idx with
    | none =>
      have hall := find?_eq_none.mp hfind _ (mem_map_of_mem hs)
      exact absurd ((hsub s).mpr rfl) hall
    | some k =>
      obtain ⟨s', -, rfl⟩ := mem_map.mp (mem_of_find?_eq_some hfind)
      refine ⟨some s', ?_, ?_⟩
      · rw [if_neg hours]
        rfl
      · have hours' := find?_some hfind
        rw [← (hsub s').mp hours']
        exact K.scalarOf_computeSubaddressSpendSecret _ _ _ _

/-- **What pays to the wallet is found**, at its index, with its amount, and can be spent. -/
theorem receives_of_paysTo {tx : Transaction G} {i : Nat} {o : TxOutput} {amount : Amount}
    (htx : tx.txType = .transfer) (howns : v.Owns K spend) (ho : tx.outputs[i]? = some o)
    (hi : i < 256) (hpays : K.PaysTo o (K.scalarOf v.keys.viewSecret) spend (UInt8.ofNat i) amount) :
    v.Receives K tx i amount := by
  obtain ⟨R, hR, hkey, hcommit, hmask⟩ := hpays
  have hst : K.AddressedTo ⟨o.stealthAddress, o.txPublicKey⟩ (K.scalarOf v.keys.viewSecret) spend
      (UInt8.ofNat i) := ⟨R, hR, hkey⟩
  obtain ⟨s, hmatched, hs⟩ := exists_matched howns hst
  obtain ⟨x, hx, hpublic⟩ := KeySuite.exists_computeOneTimeSecret hst hs
  let secret := K.sharedSecret (K.scalarOf v.keys.viewSecret • R) (UInt8.ofNat i)
  have hshared : computeSharedSecret K (v.scanKeys K).viewSecret o.txPublicKey (UInt8.ofNat i) =
      secret := by
    rw [computeSharedSecret, hR]
    rfl
  let d : DecryptedOutput F := ⟨tx.hash K.toSuite, UInt8.ofNat i, o, amount, K.blindingOf secret,
    secret, v.epoch, s⟩
  have hscan : (v.scanKeys K).scan K o (UInt8.ofNat i) (tx.hash K.toSuite) tx.isCoinbase =
      some d := by
    have hplain : tx.isCoinbase = false := by rw [Transaction.isCoinbase, htx]; rfl
    have hdecrypted : decryptAmount K o.encryptedAmount secret = (amount, K.blindingOf secret) := by
      rw [hmask, decryptAmount_maskAmount]
    rw [ScanKeys.scan, hplain]
    simp only [Bool.false_eq_true, if_false, hmatched, Option.bind_some, hshared, hdecrypted]
    exact if_pos hcommit.symm
  refine ⟨o, ho, d, mem_filterMap.mpr ⟨(o, i), ?_, ?_⟩, rfl, ?_, rfl, hcommit.symm, x, hx, hpublic⟩
  · rw [mem_zipIdx_iff_getElem?, getElem?_take_of_lt hi]
    exact ho
  · rw [scanOutput, findSome?_cons, hscan]
  · exact UInt8.toNat_ofNat_of_lt' hi

variable [DecidableEq G] {rng : Rng ρ F} {P : Prover ρ F} {p : PreparedPrivacyTransaction F}
  {rings : AllocatedRings} {r r' : ρ} {tx : Transaction G}

/-- **Payments reach their recipients, and the change its sender.** -/
theorem payments_received
    (hbuilt : buildPreparedPrivacyTransaction K rng P p rings r = .ok (tx, r')) :
    (∀ i payment (v : Receiver), p.payments[i]? = some payment →
      v.HasAddress K payment.spendPublic payment.viewPublic payment.isSubaddress →
        v.Receives K tx i payment.amount) ∧
      ∀ v : Receiver, v.HasAddress K p.spendPublic p.viewPublic false → p.KeepsOutput →
        v.Receives K tx p.payments.length ⟨UInt64.ofNat p.changeAmount⟩ := by
  obtain ⟨⟨b, r₁⟩, hassembled, hbuilt⟩ := Except.bind_eq_ok_iff.mp hbuilt
  obtain ⟨htype, -, hfew, -, paid, change, dummies, houtputs, hpaid, hkept, -, -⟩ :=
    assemble_eq_ok hassembled
  obtain ⟨htx, -, -, hfinished, -⟩ := TransactionBuilder.build_eq_ok hbuilt
  have hlen : paid.length = p.payments.length := by rw [← hpaid.length_eq, length_zipIdx]
  have hindex : ∀ i, i ≤ p.payments.length → i < 256 := fun i hi =>
    (hi.trans hfew).trans_lt (by decide)
  -- an output of the builder that is for an address of the wallet
  have hreceives : ∀ (i : Nat) (o : OutputBuilder F) (v : Receiver) (spendPub viewPub : PublicKey)
      (sub : Bool) (amount : Amount), b.outputs[i]? = some o → i ≤ p.payments.length →
      v.HasAddress K spendPub viewPub sub →
      TransactionBuilder.ForPayment K spendPub viewPub sub amount (UInt8.ofNat i) o →
        v.Receives K tx i amount := by
    intro i o v spendPub viewPub sub amount ho hi hv hfor
    obtain ⟨t, ht, m, rfl⟩ := exists_getElem?_of_forall₂ hfinished ho
    obtain ⟨spend, howns, hpub⟩ := hv.publishes
    exact receives_of_paysTo (htx.trans htype) howns ht (hindex i hi) (hfor.2 _ _ hpub m)
  refine ⟨fun i payment v hi hv => ?_, fun v hv hkeeps => ?_⟩
  · have hilt : i < p.payments.length := (List.getElem?_eq_some_iff.mp hi).1
    have hzip : p.payments.zipIdx[i]? = some (payment, i) := by simp [hi]
    obtain ⟨o, ho, hfor⟩ := exists_getElem?_of_forall₂ hpaid hzip
    refine hreceives i o v _ _ _ _ ?_ hilt.le hv hfor
    rw [houtputs, getElem?_append_left (by omega)]
    exact ho
  · obtain ⟨o, rfl, hfor⟩ := hkept hkeeps
    refine hreceives _ o v _ _ _ _ ?_ le_rfl hv hfor
    rw [houtputs, ← hlen]
    simp

/-- A payment arrives, and so does its change. -/
theorem SmallWallet.payment_and_change_arrive : ∃ p tx,
    sent 1000000000000 1000000000000 [5000000] = some (p, tx) ∧
      Receiver.Receives suite ⟨⟨secret 7, secret 8⟩, 0, [(0, 1)]⟩ tx 0 ⟨5000000⟩ ∧
        Receiver.Receives suite ⟨keys, 0, []⟩ tx 1 ⟨UInt64.ofNat p.changeAmount⟩ := by
  have hsent : (sent 1000000000000 1000000000000 [5000000]).map (fun x =>
      decide (x.1.KeepsOutput)) = some true := by
    decide +kernel
  obtain ⟨⟨p, tx⟩, h, hx⟩ := Option.map_eq_some_iff.mp hsent
  obtain ⟨hprepared, hbuilt⟩ := of_sent h
  obtain ⟨-, -, -, -, -, -, -, hrequest, -, -, hspend, hview⟩ :=
    preparePrivacyTransaction_eq_ok (of_prepared hprepared)
  obtain ⟨hpayments, hchange⟩ := payments_received hbuilt
  rw [hrequest] at hpayments hchange
  exact ⟨p, tx, h, hpayments 0 (payment 5000000) _ rfl ⟨rfl, rfl⟩,
    hchange ⟨keys, 0, []⟩ ⟨hspend, hview⟩ (of_decide_eq_true hx)⟩

end Coincync
