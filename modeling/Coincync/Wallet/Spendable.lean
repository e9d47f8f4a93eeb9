/-
# What the wallet counts, it can spend

`scan_block_with_result` and `decrypted_to_utxo` of `src/wallet/scanner.rs`: from a block to the
outputs in the balance.  An output enters by one of several rules, and much later `prepare_input`
derives its secret by one formula, from what was stored.  The formula fits every rule but the one
for old coinbases, that the stealth address IS the spend key: there it adds a hash to the spend
secret, and what it gives is the secret of another key (`scanned_spendable_iff`).  Anybody who mines a block
can put such an output into its coinbase, with any amount.
-/
import Coincync.Consensus.SmallChain
import Coincync.Wallet.OutputScan

namespace Coincync

open Lib List Option

variable {F G : Type} [Field F] [AddCommGroup G] [Module F G] (K : KeySuite F G)

/-! ## 1. From a block to the balance -/

/-- The order of (`tx_hash`, `output_index`). -/
def OutputId.precedes (a b : OutputId) : Prop :=
  a.1.upperBe 32 < b.1.upperBe 32 ∨ a.1 = b.1 ∧ a.2 ≤ b.2

instance : DecidableRel OutputId.precedes := fun a b =>
  inferInstanceAs (Decidable (a.1.upperBe 32 < b.1.upperBe 32 ∨ a.1 = b.1 ∧ a.2 ≤ b.2))

/-- `canonical_output_locators`: the outputs of a block are numbered in the order of their keys. -/
def canonicalOutputLocators (height : Nat) (outputs : List OutputId) :
    List (OutputId × OutputLocator) :=
  (outputs.dedup.insertionSort OutputId.precedes).zipIdx.map fun x =>
    (x.1, ⟨height, x.2 % 2 ^ 32⟩)

/-- `DecryptedOutput` with its place in the chain. -/
structure LocatedOutput (F : Type) extends DecryptedOutput F where
  outputLocator : Option OutputLocator

inductive ScanResult (F : Type)
  | scanned (outputs : List (LocatedOutput F)) (height : Nat) (blockHash : Hash)
  | reorgDetected (atHeight : Nat) (actualPrev expectedPrev : Hash)

/-- The outputs of a block that have an index. -/
def Block.outputIds (b : Block G) : List OutputId :=
  b.transactions.flatMap fun tx =>
    (tx.outputs.take 256).zipIdx.map fun x => (tx.hash K.toSuite, UInt8.ofNat x.2)

/-- `scan_block_with_result`, after the journal's last entry. -/
def scanBlockWithResult (keys : List ScanKeys) (last : Option (Nat × Hash)) (b : Block G) :
    ScanResult F :=
  match last.filter fun e =>
      (b.height == e.1 + 1 && b.header.prevHash != e.2) || decide (b.height ≤ e.1) with
  | some e => .reorgDetected b.height b.header.prevHash e.2
  | none =>
    let locators := canonicalOutputLocators b.height (b.outputIds K)
    .scanned (b.transactions.flatMap fun tx => (scanTransaction K keys tx).map fun d =>
      ⟨d, locators.lookup (d.txHash, d.outputIndex)⟩) b.height (b.hash K.toSuite)

/-- `hex::encode`. -/
def hexEncode (bytes : Bytes) : String :=
  String.ofList (bytes.flatMap fun b =>
    [Nat.digitChar (b.toNat / 16), Nat.digitChar (b.toNat % 16)])

/-- `KeyImage::from_secret`, `x Hp(x G)`. -/
def KeySuite.keyImage (x : SecretKey) : KeyImage :=
  ⟨K.compress (K.scalarOf x • K.hp (K.scalarOf x • K.generator))⟩

def decryptedToUtxo (keys : KeyEpoch) (d : LocatedOutput F) (height : Nat) :
    Except WalletError UTXO :=
  if K.commitBytes d.amount d.blindingFactor ≠ d.output.commitment then
    .error (.invalidState ("decrypted output " ++ hexEncode d.txHash.bytes.toList ++ ":" ++
      toString d.outputIndex.toNat ++ " fails commitment check (amount/blinding don't match " ++
      "on-chain commitment); refusing to add to wallet balance"))
  else
    (keys.oneTimeSecret K d.toDecryptedOutput).map fun x =>
      { txHash := d.txHash, outputIndex := d.outputIndex, outputLocator := d.outputLocator,
        amount := d.amount, height := height, keyImage := K.keyImage x, spent := false,
        amountBlindingBytes := K.scalarToBytes d.blindingFactor,
        txPublicKey := d.output.txPublicKey, lockHeight := d.output.lockHeight.map UInt64.toNat,
        subaddressAccount := d.subaddressIndex.map Prod.fst,
        subaddressIndex := d.subaddressIndex.map Prod.snd }

/-- **A stored output can be spent as the output on the chain**: the secret that `prepare_input`
derives is that of the stealth address, its key image is the one on record, and amount and blinding
factor open the commitment. -/
def UTXO.Spendable (keys : KeyEpoch) (u : UTXO) (o : TxOutput) : Prop :=
  ∃ p, prepareInput K keys u = .ok p ∧ K.publicKey p.input.oneTimeSecret = o.stealthAddress ∧
    u.keyImage = K.keyImage p.input.oneTimeSecret ∧
    K.commitBytes u.amount (K.scalarFromBytes u.amountBlindingBytes) = o.commitment

namespace Receiver

variable (v : Receiver)

/-- The spend key that an output is taken for. -/
def spendKey : Option (Nat × Nat) → PublicKey
  | none => K.publicKey v.keys.spendSecret
  | some s => ⟨K.compress (v.point K s)⟩

/-- **The output pays to the spend key itself**, and is not derived from it. -/
def PaidPlainly (d : DecryptedOutput F) : Prop :=
  d.subaddressIndex = none ∧ d.output.stealthAddress = K.publicKey v.keys.spendSecret ∧
    K.isOutputOurs ⟨d.output.stealthAddress, d.output.txPublicKey⟩ v.keys.viewSecret
      (K.publicKey v.keys.spendSecret) d.outputIndex = false

end Receiver

/-! ## 2. Locators -/

theorem exists_lookup_canonicalOutputLocators {height : Nat} {outputs : List OutputId}
    {k : OutputId} (h : k ∈ outputs) :
    ∃ locator, (canonicalOutputLocators height outputs).lookup k = some locator := by
  have hmem : k ∈ outputs.dedup.insertionSort OutputId.precedes :=
    (perm_insertionSort _ _).mem_iff.mpr (mem_dedup.mpr h)
  obtain ⟨i, hi⟩ := mem_iff_getElem?.mp hmem
  refine ne_none_iff_exists'.mp fun hnone => ?_
  have hall := List.lookup_eq_none_iff.mp hnone (k, ⟨height, i % 2 ^ 32⟩) (List.mem_map.mpr
    ⟨(k, i), mem_zipIdx_iff_getElem?.mpr hi, rfl⟩)
  exact absurd rfl (bne_iff_ne.mp hall)

variable {K} {v : Receiver} {d : LocatedOutput F} {sets : List ScanKeys}
  {last : Option (Nat × Hash)} {b : Block G} {outputs : List (LocatedOutput F)} {height : Nat}
  {hash : Hash} {u : UTXO} {idx : UInt8} {st : StealthAddress}

/-! ## 3. What a scan takes -/

/-- **What one set of keys takes**: the output is matched, or it is a coinbase's and pays to the
spend key. -/
theorem ScanKeys.scan_eq_some {k : ScanKeys} {o : TxOutput} {txHash : Hash}
    {isCoinbase : Bool} {d : DecryptedOutput F} (h : k.scan K o idx txHash isCoinbase = some d) :
    d.output = o ∧ d.txHash = txHash ∧ d.outputIndex = idx ∧ d.keyEpoch = k.epoch ∧
      (k.matched K ⟨o.stealthAddress, o.txPublicKey⟩ idx = some d.subaddressIndex ∨
        isCoinbase = true ∧ d.subaddressIndex = none ∧ o.stealthAddress = k.spendPublic) := by
  unfold ScanKeys.scan at h
  simp only at h
  split_ifs at h with hcoinbase hours hcommit
  · cases h
    refine ⟨rfl, rfl, rfl, rfl, ?_⟩
    rcases hours with hplain | hours
    · exact .inr ⟨hcoinbase, rfl, hplain⟩
    · exact .inl (if_pos hours)
  · obtain ⟨s, hs, h⟩ := bind_eq_some_iff.mp h
    cases h
    exact ⟨rfl, rfl, rfl, rfl, .inl hs⟩
  · obtain ⟨-, -, h⟩ := bind_eq_some_iff.mp h
    cases h

theorem found_of_scanned (hscan : scanBlockWithResult K sets last b = .scanned outputs height hash)
    (hd : d ∈ outputs) : ∃ tx ∈ b.transactions, ∃ k ∈ sets,
      k.scan K d.output d.outputIndex (tx.hash K.toSuite) tx.isCoinbase =
        some d.toDecryptedOutput ∧ ∃ locator, d.outputLocator = some locator := by
  unfold scanBlockWithResult at hscan
  split at hscan
  · cases hscan
  · obtain ⟨rfl, -, -⟩ := ScanResult.scanned.inj hscan
    obtain ⟨tx, htx, hd⟩ := mem_flatMap.mp hd
    obtain ⟨d, hfound, rfl⟩ := List.mem_map.mp hd
    obtain ⟨⟨o, i⟩, ho, hscanned⟩ := mem_filterMap.mp hfound
    obtain ⟨k, hk, hone⟩ := exists_of_findSome?_eq_some hscanned
    obtain ⟨hout, hhash, hindex, -⟩ := ScanKeys.scan_eq_some hone
    refine ⟨tx, htx, k, hk, ?_, exists_lookup_canonicalOutputLocators ?_⟩
    · rw [hout, hindex]
      exact hone
    · exact mem_flatMap.mpr ⟨tx, htx, List.mem_map.mpr
        ⟨(o, i), ho, Prod.ext hhash.symm hindex.symm⟩⟩

theorem isOutputOurs_of_matched {s : Option (Nat × Nat)}
    (h : (v.scanKeys K).matched K st idx = some s) :
    K.isOutputOurs st v.keys.viewSecret (v.spendKey K s) idx = true := by
  unfold ScanKeys.matched at h
  split_ifs at h with hours
  · cases h
    exact hours
  · obtain ⟨k, hk, rfl⟩ := map_eq_some_iff.mp h
    obtain ⟨s, -, rfl⟩ := List.mem_map.mp (mem_of_find?_eq_some hk)
    have hours' := find?_some hk
    exact hours'

/-! ## 4. Spending -/

theorem KeySuite.isOutputOurs_eq_true_iff {view : SecretKey} {B : G} :
    K.isOutputOurs st view ⟨K.compress B⟩ idx = true ↔
      K.AddressedTo st (K.scalarOf view) B idx := by
  unfold KeySuite.isOutputOurs
  rw [K.decompress_compress]
  cases hR : K.decompress st.txPublicKey.bytes with
  | none => exact iff_of_false nofun fun ⟨R, hsome, _⟩ => by rw [hR] at hsome; cases hsome
  | some R =>
    constructor
    · intro h
      simp only at h
      split_ifs at h
      exact ⟨R, hR, beq_iff_eq.mp h⟩
    · rintro ⟨R', hR', hkey⟩
      cases hR.symm.trans hR'
      have hpoint : K.decompress st.publicKey.bytes ≠ none := by
        rw [hkey, KeySuite.oneTimeKey, K.decompress_compress]
        exact some_ne_none _
      simp only [hpoint, if_false, beq_iff_eq]
      exact hkey

theorem Receiver.spendKey_eq (v : Receiver) (s : Option (Nat × Nat)) :
    v.spendKey K s = ⟨K.compress (K.scalarOf (v.keys.effectiveSpend K (s.map Prod.fst)
      (s.map Prod.snd)) • K.generator)⟩ := by
  cases s with
  | none => rfl
  | some s =>
    exact congrArg (fun p => (⟨K.compress p⟩ : PublicKey))
      (K.scalarOf_computeSubaddressSpendSecret _ _ _ _).symm

theorem KeySuite.addressedTo_iff {view spend x : SecretKey}
    (h : K.computeOneTimeSecret st view spend idx = .ok x) :
    K.AddressedTo st (K.scalarOf view) (K.scalarOf spend • K.generator) idx ↔
      K.publicKey x = st.publicKey := by
  unfold KeySuite.computeOneTimeSecret at h
  cases hR : K.decompress st.txPublicKey.bytes with
  | none =>
    rw [hR] at h
    cases h
  | some R =>
    rw [hR] at h
    cases h
    have hpublic : K.publicKey ⟨K.scalarToBytes (K.hashToScalar (K.sharedInput
        (K.scalarOf view • R) idx) + K.scalarOf spend)⟩ =
        K.oneTimeKey (K.scalarOf view • R) (K.scalarOf spend • K.generator) idx := by
      rw [KeySuite.publicKey, KeySuite.scalarOf, K.scalarFromBytes_toBytes, add_smul,
        KeySuite.oneTimeKey]
    rw [hpublic]
    constructor
    · rintro ⟨R', hR', hkey⟩
      cases hR.symm.trans hR'
      exact hkey.symm
    · intro hkey
      exact ⟨R, hR, hkey.symm⟩

/-- **A stored output can be spent if and only if it is derived from its spend key.** -/
theorem spendable_iff (hu : decryptedToUtxo K v.keys d height = .ok u)
    (hlocated : ∃ locator, d.outputLocator = some locator) :
    u.Spendable K v.keys d.output ↔
      K.isOutputOurs ⟨d.output.stealthAddress, d.output.txPublicKey⟩ v.keys.viewSecret
        (v.spendKey K d.subaddressIndex) d.outputIndex = true := by
  obtain ⟨locator, hlocator⟩ := hlocated
  unfold decryptedToUtxo at hu
  split_ifs at hu with hcommit
  obtain ⟨x, hx, rfl⟩ := Except.map_eq_ok_iff.mp hu
  -- `prepare_input` does not know the stealth address, but the secret does not depend on it
  have hsecret : K.computeOneTimeSecret ⟨d.output.txPublicKey, d.output.txPublicKey⟩
      v.keys.viewSecret (v.keys.effectiveSpend K (d.subaddressIndex.map Prod.fst)
        (d.subaddressIndex.map Prod.snd)) d.outputIndex = .ok x := hx
  rw [v.spendKey_eq, KeySuite.isOutputOurs_eq_true_iff, KeySuite.addressedTo_iff hx]
  unfold UTXO.Spendable prepareInput
  simp only [hlocator, hsecret, Except.map, Except.ok.injEq, exists_eq_left',
    K.scalarFromBytes_toBytes, not_not.mp hcommit, and_true]

/-- **The wallet can spend what it has counted**, if and only if the output does not pay to the
spend key itself. -/
theorem scanned_spendable_iff {vs : List Receiver} (hepochs : (vs.map Receiver.epoch).Nodup)
    (hscan : scanBlockWithResult K (vs.map (Receiver.scanKeys K)) last b =
      .scanned outputs height hash) (hd : d ∈ outputs) (hv : v ∈ vs)
    (hepoch : d.keyEpoch = v.epoch) (hu : decryptedToUtxo K v.keys d height = .ok u) :
    u.Spendable K v.keys d.output ↔ ¬ v.PaidPlainly K d.toDecryptedOutput := by
  obtain ⟨tx, -, k, hk, hfound, hlocated⟩ := found_of_scanned hscan hd
  obtain ⟨v', hv', rfl⟩ := List.mem_map.mp hk
  obtain ⟨-, -, -, hepoch', hrule⟩ := ScanKeys.scan_eq_some hfound
  obtain rfl : v' = v := inj_on_of_nodup_map hepochs hv' hv (hepoch'.symm.trans hepoch)
  rw [spendable_iff hu hlocated]
  constructor
  · rintro hours ⟨hnone, -, hnot⟩
    rw [hnone] at hours
    exact absurd (hours.symm.trans hnot) (by decide)
  · intro hplain
    rcases hrule with hmatched | ⟨-, hnone, hkey⟩
    · exact isOutputOurs_of_matched hmatched
    · rw [hnone]
      exact Bool.not_eq_false _ ▸ fun hnot => hplain ⟨hnone, hkey, hnot⟩

namespace SmallWallet

open SmallSuite

/-- The wallet, with its main address only. -/
def receiver : Receiver := ⟨keys, 0, []⟩

/-- A block whose coinbase pays 5 to an address. -/
def minted (address : PublicKey) : Block Z :=
  ⟨SmallChain.genesis.header, [{ SmallChain.coinbaseTx 5 0 with
    outputs := [⟨address, suite.publicKey (secret 6), suite.commitBytes ⟨5⟩ 0, u64LeBytes 5, 0,
      none, []⟩] }]⟩

/-- What a new scanner finds in a block. -/
def found (b : Block Z) : List (LocatedOutput Z) :=
  match scanBlockWithResult suite [receiver.scanKeys suite] none b with
  | .scanned outputs _ _ => outputs
  | .reorgDetected _ _ _ => []

theorem exists_counted (address : PublicKey) (ours : Bool)
    (h : (found (minted address)).map (fun d => (decide (d.subaddressIndex = none ∧
      d.keyEpoch = 0 ∧ d.outputLocator ≠ none), suite.isOutputOurs ⟨d.output.stealthAddress,
        d.output.txPublicKey⟩ receiver.keys.viewSecret (suite.publicKey receiver.keys.spendSecret)
        d.outputIndex, (decryptedToUtxo suite receiver.keys d (minted address).height).toOption.map
      fun u => u.amount.val)) = [(true, ours, some 5)]) :
    ∃ d u, scanBlockWithResult suite ([receiver].map (Receiver.scanKeys suite)) none
        (minted address) =
          .scanned [d] (minted address).height ((minted address).hash suite.toSuite) ∧
      decryptedToUtxo suite receiver.keys d (minted address).height = .ok u ∧ u.amount.val = 5 ∧
      d.subaddressIndex = none ∧ d.keyEpoch = 0 ∧ (∃ locator, d.outputLocator = some locator) ∧
      suite.isOutputOurs ⟨d.output.stealthAddress, d.output.txPublicKey⟩
        receiver.keys.viewSecret (suite.publicKey receiver.keys.spendSecret) d.outputIndex =
          ours := by
  have hscan : scanBlockWithResult suite ([receiver].map (Receiver.scanKeys suite)) none
      (minted address) = .scanned (found (minted address)) (minted address).height
        ((minted address).hash suite.toSuite) := by
    simp only [found, scanBlockWithResult, filter_none, map_cons, map_nil]
  obtain ⟨d, hfound, hd⟩ := map_eq_singleton_iff.mp h
  obtain ⟨hfields, hrest⟩ := Prod.mk.inj hd
  obtain ⟨hours, hsome⟩ := Prod.mk.inj hrest
  obtain ⟨hnone, hepoch, hlocator⟩ := of_decide_eq_true hfields
  cases hu : decryptedToUtxo suite receiver.keys d (minted address).height with
  | error e =>
    rw [hu] at hsome
    cases hsome
  | ok u =>
    rw [hu] at hsome
    exact ⟨d, u, hfound ▸ hscan, hu, Option.some.inj hsome, hnone, hepoch,
      ne_none_iff_exists'.mp hlocator, hours⟩

def derivedAddress : PublicKey :=
  suite.oneTimeKey (suite.scalarOf (secret 5) • suite.scalarOf (secret 6) • suite.generator)
    (suite.scalarOf (secret 4) • suite.generator) 0

/-- **A coinbase to a one-time key can be spent.** -/
theorem derived_coinbase_spendable : ∃ d u,
    scanBlockWithResult suite ([receiver].map (Receiver.scanKeys suite)) none
        (minted derivedAddress) =
      .scanned [d] (minted derivedAddress).height ((minted derivedAddress).hash suite.toSuite) ∧
    decryptedToUtxo suite receiver.keys d (minted derivedAddress).height = .ok u ∧
      u.Spendable suite receiver.keys d.output := by
  obtain ⟨d, u, hscan, hu, -, -, hepoch, -, hours⟩ :=
    exists_counted derivedAddress true (by decide +kernel)
  refine ⟨d, u, hscan, hu, (scanned_spendable_iff
    (show ([receiver].map Receiver.epoch).Nodup by decide) hscan (.head _)
    mem_cons_self hepoch hu).mpr ?_⟩
  rintro ⟨-, -, hnot⟩
  exact absurd (hours.symm.trans hnot) (by decide)

/-- **A coinbase to the spend key is counted and cannot be spent.** -/
theorem plain_coinbase_counted : ∃ d u,
    scanBlockWithResult suite ([receiver].map (Receiver.scanKeys suite)) none
        (minted (suite.publicKey receiver.keys.spendSecret)) =
      .scanned [d] (minted (suite.publicKey receiver.keys.spendSecret)).height
        ((minted (suite.publicKey receiver.keys.spendSecret)).hash suite.toSuite) ∧
    decryptedToUtxo suite receiver.keys d
      (minted (suite.publicKey receiver.keys.spendSecret)).height = .ok u ∧
      u.amount.val = 5 ∧ ¬ u.Spendable suite receiver.keys d.output := by
  obtain ⟨d, u, hscan, hu, hamount, hnone, -, hlocated, hours⟩ :=
    exists_counted (suite.publicKey receiver.keys.spendSecret) false (by decide +kernel)
  refine ⟨d, u, hscan, hu, hamount, ?_⟩
  intro hspend
  have h := (spendable_iff hu hlocated).mp hspend
  rw [hnone] at h
  exact absurd (hours.symm.trans h) (by decide)

end SmallWallet

end Coincync
