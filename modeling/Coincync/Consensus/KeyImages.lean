/-
# Key images along a chain

An input carries its key image twice: the double-spend checks of transaction, block and UTXO set
read `TxInput.keyImage`, the ring-signature verifier reads `ClsagSignature.keyImage`.  Along a
chain of accepted blocks the first kind is pairwise distinct (`ConnectedChain.keyImages_nodup`).
Block validation never compares the two; `validate_transaction` of `src/transaction/validator.rs`
does.  Where every connected transaction passes that comparison the second kind is distinct too
(`signatureImages_nodup_of_matching`); without it one signature spends twice
(`double_spend_accepted`).
-/
import Coincync.Consensus.ValidBlock
import Coincync.Consensus.SmallChain

namespace Coincync

open Lib List

variable {F G : Type} [Field F] [AddCommGroup G] [Module F G] (S : Suite F G)

/-! ## 1. Chains of accepted blocks -/

/-- The key images the ring-signature verifier checked, over the non-coinbase inputs of a block. -/
def signatureImages (b : Block G) : List G :=
  b.transactions.flatMap fun tx =>
    if tx.isCoinbase then [] else tx.inputs.map fun i => i.signature.keyImage

/-- The comparison `input.signature.key_image.to_bytes() == input.key_image.as_bytes()` that
`validate_transaction` makes for every input. -/
def keyImagesMatch (tx : Transaction G) : Prop :=
  ∀ i ∈ tx.inputs, S.compress i.signature.keyImage = i.keyImage.bytes

instance (tx : Transaction G) : Decidable (keyImagesMatch S tx) :=
  inferInstanceAs (Decidable (∀ i ∈ tx.inputs, _))

variable [DecidableEq F] [DecidableEq G]

/-- **A chain of accepted blocks, newest first, with the UTXO set it leaves.** -/
inductive ConnectedChain (cfg : NodeConfig) (network : NetworkType) :
    List (Block G) → UtxoSet → Prop
  | genesis :
      ConnectedChain cfg network [createGenesisBlockFor S network]
        (UtxoSet.new.connect S 0 (createGenesisBlockFor S network).transactions)
  | connect {prev b : Block G} {chain : List (Block G)} {U : UtxoSet} (ctx : CallContext G)
      (cp : Option Nat) :
      ConnectedChain cfg network (prev :: chain) U →
      fastSync cfg b.height cp = false →
      (validateBlockWithCheckpointForNetwork S cfg ctx b (some prev) U cp network).valid = true →
      ConnectedChain cfg network (b :: prev :: chain) (U.connect S b.height b.transactions)
  | evict {chain : List (Block G)} {U : UtxoSet} (currentHeight keepDepth : Nat) :
      ConnectedChain cfg network chain U →
      ConnectedChain cfg network chain (U.evictOldOutputs currentHeight keepDepth)
  | persist {chain : List (Block G)} {U : UtxoSet} (db : Option OutputIndexDb) :
      ConnectedChain cfg network chain U → ConnectedChain cfg network chain { U with db := db }

/-! ## 2. The key images of the inputs -/

omit [DecidableEq F] [DecidableEq G] in
theorem keyImages_connect (U : UtxoSet) (height : Nat) (txs : List (Transaction G)) :
    (U.connect S height txs).keyImages = U.keyImages ∪ (spentKeyImages txs).toFinset := by
  rw [UtxoSet.connect_eq]

omit [DecidableEq F] [DecidableEq G] in
theorem spentKeyImages_genesis (network : NetworkType) :
    spentKeyImages (createGenesisBlockFor S network).transactions = [] := by
  obtain ⟨message, h⟩ := createGenesisBlockFor_transactions S network
  rw [h]
  rfl

namespace ConnectedChain

variable {S} {cfg : NodeConfig} {network : NetworkType} {chain : List (Block G)} {U : UtxoSet}

theorem keyImages_eq (h : ConnectedChain S cfg network chain U) :
    U.keyImages = (chain.flatMap fun b => spentKeyImages b.transactions).toFinset := by
  induction h with
  | genesis =>
    rw [keyImages_connect, flatMap_singleton, spentKeyImages_genesis]
    rfl
  | connect ctx cp _ _ _ ih =>
    rw [keyImages_connect, ih, Finset.union_comm, ← toFinset_append]
    rfl
  | evict h k _ ih =>
    unfold UtxoSet.evictOldOutputs
    split_ifs
    · exact ih
    · exact ih
  | persist db _ ih => exact ih

/-- **The input key images of a chain are pairwise distinct.** -/
theorem keyImages_nodup (h : ConnectedChain S cfg network chain U) :
    (chain.flatMap fun b => spentKeyImages b.transactions).Nodup := by
  induction h with
  | genesis =>
    rw [flatMap_singleton, spentKeyImages_genesis]
    exact nodup_nil
  | @connect prev b rest U ctx cp hchain hfs hvalid ih =>
    have hb := (validateBlock_valid_iff S).mp hvalid
    rw [flatMap_cons]
    refine hb.spentKeyImages_nodup.append ih fun k hk hk' => ?_
    -- what the chain spent is in the set, and the block spends nothing that is in the set
    refine hb.spentKeyImages_fresh hfs k hk ?_
    rw [hchain.keyImages_eq, mem_toFinset]
    exact hk'
  | evict h k _ ih => exact ih
  | persist db _ ih => exact ih

end ConnectedChain

/-! ## 3. The key images of the signatures -/

omit [DecidableEq F] [DecidableEq G] in
theorem spentKeyImages_eq_map {txs : List (Transaction G)}
    (h : ∀ tx ∈ txs, tx.isCoinbase = false → keyImagesMatch S tx) :
    spentKeyImages txs =
      (txs.flatMap fun tx => if tx.isCoinbase then [] else
        tx.inputs.map fun i => i.signature.keyImage).map fun I => ⟨S.compress I⟩ := by
  unfold spentKeyImages
  rw [map_flatMap]
  refine flatMap_congr fun tx htx => ?_
  cases hcb : tx.isCoinbase with
  | true => rfl
  | false =>
    simp only [Bool.false_eq_true, if_false, Transaction.keyImages, map_map]
    refine map_congr_left fun i hi => ?_
    rw [Function.comp_apply, h tx htx hcb i hi]

/-- **No signature key image authorises two spends** on a chain whose connected transactions all
pass the comparison of the two copies. -/
theorem signatureImages_nodup_of_matching {cfg : NodeConfig} {network : NetworkType}
    {chain : List (Block G)} {U : UtxoSet} (h : ConnectedChain S cfg network chain U)
    (hmatch : ∀ b ∈ chain, ∀ tx ∈ b.transactions, tx.isCoinbase = false → keyImagesMatch S tx) :
    (chain.flatMap signatureImages).Nodup := by
  have hmap : (chain.flatMap fun b => spentKeyImages b.transactions) =
      (chain.flatMap signatureImages).map fun I => (⟨S.compress I⟩ : KeyImage) := by
    rw [map_flatMap]
    exact flatMap_congr fun b hb => spentKeyImages_eq_map S (hmatch b hb)
  have hnd := h.keyImages_nodup
  rw [hmap] at hnd
  exact hnd.of_map

/-! ## 4. One signature, two spends -/

namespace SmallChain

open SmallSuite

def spendRing : List RingMemberRef :=
  [⟨⟨compress 7⟩, compress 30⟩, ⟨⟨compress 9⟩, compress 40⟩]

def spendOutput (address commitment : Z) : TxOutput where
  stealthAddress := ⟨compress address⟩
  txPublicKey := ⟨compress address⟩
  commitment := compress commitment
  encryptedAmount := List.replicate 8 0
  viewTag := 0
  lockHeight := none
  encryptedMemo := []

/-- An input that states `keyImage` and carries `sig`. -/
def spendInput (keyImage : Z) (sig : ClsagSignature Z) : TxInput Z :=
  ⟨⟨compress keyImage⟩, spendRing, sig, compress 25⟩

def spendTx (inputs : List (TxInput Z)) : Transaction Z where
  version := 1
  txType := .transfer
  inputs := inputs
  outputs := [spendOutput 61 17, spendOutput 62 37]
  fee := ⟨2000000⟩
  rangeProof := [3] ++ lenBytes 32 ++
    (digest 32 3 ((compress 17).toList ++ (compress 37).toList)).toList
  extra := []

/-- The one signature, with key image 41. -/
def doubleSpendSig : ClsagSignature Z := ⟨41, 87, encode 79, [encode 12, encode 4]⟩

def doubleSpendBlock : Block Z :=
  child genesis genesis.header.target
    [coinbaseTx (UInt64.ofNat ((calculateBlockReward 1).val + 2000000)) 5,
      spendTx [spendInput 51 doubleSpendSig, spendInput 52 doubleSpendSig]]

/-- **The verifier checked one key image twice on a chain of accepted blocks.** -/
theorem double_spend_accepted :
    ConnectedChain suite cfg .regtest [doubleSpendBlock, genesis]
        (genesisUtxos.connect suite 1 doubleSpendBlock.transactions) ∧
      (∀ i ∈ (spendTx [spendInput 51 doubleSpendSig, spendInput 52 doubleSpendSig]).inputs,
        clsagVerifyInput suite
          (spendTx [spendInput 51 doubleSpendSig, spendInput 52 doubleSpendSig]) i = true) ∧
      [doubleSpendBlock, genesis].flatMap signatureImages = [41, 41] :=
  ⟨.connect ctx none .genesis (by decide +kernel) (by decide +kernel), by decide +kernel,
    by decide +kernel⟩

def honestSpend : Transaction Z :=
  spendTx [spendInput 41 ⟨41, 87, encode 33, [encode 45, encode 4]⟩,
    spendInput 18 ⟨18, 30, encode 10, [encode 3, encode 30]⟩]

/-- A block with that transfer. -/
def honestSpendBlock : Block Z :=
  child genesis genesis.header.target
    [coinbaseTx (UInt64.ofNat ((calculateBlockReward 1).val + 2000000)) 5, honestSpend]

theorem honestSpendBlock_connected :
    ConnectedChain suite cfg .regtest [honestSpendBlock, genesis]
      (genesisUtxos.connect suite 1 honestSpendBlock.transactions) :=
  ConnectedChain.connect ctx none ConnectedChain.genesis (by decide +kernel) (by decide +kernel)

/-- A chain that meets the condition, with two spends on it. -/
theorem honestSpend_images_nodup :
    [honestSpendBlock, genesis].flatMap signatureImages = [41, 18] ∧
      ([honestSpendBlock, genesis].flatMap signatureImages).Nodup :=
  ⟨by decide +kernel,
    signatureImages_nodup_of_matching suite
      honestSpendBlock_connected
      (by decide +kernel)⟩

end SmallChain

end Coincync
