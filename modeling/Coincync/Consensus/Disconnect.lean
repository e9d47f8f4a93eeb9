/-
# Disconnecting a valid block

A reorganisation undoes blocks with `batch_disconnect_block`.  For a valid block this restores the
UTXO set exactly when the block's outputs were FRESH for it (`disconnect_restores_iff`).  The
v1.0.12 rules see to that for the outputs of ordinary transactions; a coinbase output may reuse an
address that the set already knows, and disconnecting it then removes the older output's entries
(`reused_coinbase_address_not_restored`).
-/
import Coincync.Consensus.ValidBlock
import Coincync.Consensus.SmallChain

namespace Coincync

open Lib

variable {U : UtxoSet}

/-! ## 1. Reachable sets -/

/-- **A UTXO set that the node can hold**: batches applied to the empty set, with evictions from
memory and changes of the database in between. -/
inductive UtxoSet.Reachable : UtxoSet → Prop
  | new : Reachable UtxoSet.new
  | applyBatch {U : UtxoSet} (batch : UtxoBatch) : Reachable U → Reachable (U.applyBatch batch)
  | evict {U : UtxoSet} (currentHeight keepDepth : Nat) :
      Reachable U → Reachable (U.evictOldOutputs currentHeight keepDepth)
  | persist {U : UtxoSet} (db : Option OutputIndexDb) : Reachable U → Reachable { U with db := db }

namespace UtxoSet

section

variable (hU : NoEmptyBuckets U)

include hU

theorem NoEmptyBuckets.addOutputExt (a : OutputAdd) : NoEmptyBuckets (U.addOutputExt a) :=
  ⟨hU.heightIndex.bucketInsert _ _, hU.locatorIndex.bucketInsert _ _⟩

theorem NoEmptyBuckets.removeOutput (key : OutputKey) : NoEmptyBuckets (U.removeOutput key) := by
  have hheight : Map.NoEmptyBucket (U.removeOutput key).heightIndex := by
    unfold UtxoSet.removeOutput
    cases U.addressOf key <;> cases U.outputs.lookup key <;>
      first | exact hU.heightIndex | exact hU.heightIndex.bucketRemove _ _
  have hlocator : Map.NoEmptyBucket (U.removeOutput key).locatorIndex := by
    unfold UtxoSet.removeOutput
    cases U.addressOf key <;> cases U.locatorOutputs.lookup key <;>
      first | exact hU.locatorIndex | exact hU.locatorIndex.bucketRemove _ _
  exact ⟨hheight, hlocator⟩

theorem NoEmptyBuckets.markKeyImageSpent (ki : KeyImage) :
    NoEmptyBuckets (U.markKeyImageSpent ki) := ⟨hU.1, hU.2⟩

theorem NoEmptyBuckets.removeKeyImage (ki : KeyImage) :
    NoEmptyBuckets (U.removeKeyImage ki) := ⟨hU.1, hU.2⟩

omit hU in
theorem NoEmptyBuckets.foldl {α : Type} {step : UtxoSet → α → UtxoSet}
    (hstep : ∀ U a, NoEmptyBuckets U → NoEmptyBuckets (step U a)) :
    ∀ (l : List α) {U : UtxoSet}, NoEmptyBuckets U → NoEmptyBuckets (l.foldl step U)
  | [], _, hU => hU
  | a :: t, U, hU => NoEmptyBuckets.foldl hstep t (hstep U a hU)

theorem NoEmptyBuckets.applyBatch (batch : UtxoBatch) : NoEmptyBuckets (U.applyBatch batch) := by
  have hadds := NoEmptyBuckets.foldl (fun _ x h => h.addOutputExt x) batch.adds hU
  have hspent := NoEmptyBuckets.foldl (fun _ x h => h.markKeyImageSpent x) batch.keyImages hadds
  have hremoved := NoEmptyBuckets.foldl (fun _ x h => h.removeOutput x) batch.removes hspent
  exact NoEmptyBuckets.foldl (fun _ x h => h.removeKeyImage x) batch.keyImageRemovals hremoved

theorem NoEmptyBuckets.evictOldOutputs (currentHeight keepDepth : Nat) :
    NoEmptyBuckets (U.evictOldOutputs currentHeight keepDepth) := by
  unfold UtxoSet.evictOldOutputs
  split_ifs with h
  · exact hU
  · exact ⟨hU.1, hU.2⟩

end

theorem Reachable.noEmptyBuckets (h : Reachable U) : NoEmptyBuckets U := by
  induction h with
  | new => exact ⟨Map.noEmptyBucket_empty, Map.noEmptyBucket_empty⟩
  | applyBatch batch _ ih => exact ih.applyBatch batch
  | evict currentHeight keepDepth _ ih => exact ih.evictOldOutputs currentHeight keepDepth
  | persist db _ ih => exact ⟨ih.1, ih.2⟩

/-! ## 2. The counters -/

theorem toNat_saturatingSucc_iterate : ∀ (n : Nat) (d : UInt64),
    (saturatingSucc^[n] d).toNat = min (d.toNat + n) (2 ^ 64 - 1)
  | 0, d => by
    have := d.toNat_lt
    simp only [Function.iterate_zero, id_eq]
    omega
  | n + 1, d => by
    rw [Function.iterate_succ_apply, toNat_saturatingSucc_iterate n]
    unfold saturatingSucc
    have hlt := d.toNat_lt
    split_ifs with hd
    · -- already at the bound
      have hmax : d.toNat = 2 ^ 64 - 1 := by rw [hd]; rfl
      omega
    · have hne : d.toNat ≠ 2 ^ 64 - 1 := fun hc => hd (UInt64.toNat_inj.mp (by rw [hc]; rfl))
      have hadd : (d + 1).toNat = d.toNat + 1 := by
        rw [UInt64.toNat_add, UInt64.toNat_one]
        omega
      omega

/-- `total_outputs_ever.saturating_sub(reorg_disconnects_total)`. -/
def canonicalOutputs (U : UtxoSet) : Nat :=
  U.totalOutputsEver.toNat - U.reorgDisconnectsTotal.toNat

theorem canonicalOutputs_shift_iff {e d : UInt64} {n : Nat} (hn : n < 2 ^ 64) :
    (e + UInt64.ofNat n).toNat - (saturatingSucc^[n] d).toNat = e.toNat - d.toNat ↔
      e.toNat + n < 2 ^ 64 ∨ e.toNat ≤ d.toNat := by
  have he := e.toNat_lt
  have hd := d.toNat_lt
  rw [toNat_saturatingSucc_iterate, UInt64.toNat_add, UInt64.toNat_ofNat', Nat.mod_eq_of_lt hn]
  omega

/-- **The set is restored**: everything in memory, and the number of outputs on the chain. -/
structure Restored (U U' : UtxoSet) : Prop where
  view : SameView U' U
  canonicalOutputs : U'.canonicalOutputs = U.canonicalOutputs

end UtxoSet

/-! ## 3. The round trip -/

variable {F G : Type} [Field F] [AddCommGroup G] [Module F G] (S : Suite F G)
  [DecidableEq F] [DecidableEq G]

theorem BlockChecks.adds_length_lt {cfg : NodeConfig} {ctx : CallContext G} {b : Block G}
    {prev : Option (Block G)} {cp : Option Nat} {network : NetworkType}
    (h : BlockChecks S cfg ctx b prev U cp network) (hfs : fastSync cfg b.height cp = false) :
    (blockAdds S b.height b.transactions).length < 2 ^ 64 := by
  have hcount := h.txCount
  rw [checkBlockTxCount, errorUnless_eq_nil_iff, maxTxsPerBlock] at hcount
  have hsum := List.sum_le_card_nsmul (b.transactions.map fun tx => tx.outputs.length) 16 (by
    simpa [List.forall_mem_map] using h.outputs_length_le hfs)
  simp only [List.length_map, smul_eq_mul] at hsum
  simp only [blockAdds, txAdds, List.length_flatMap, List.length_map, List.length_zipIdx]
  omega

/-- **Disconnecting a valid block restores the set exactly when its outputs were fresh.** -/
theorem disconnect_restores_iff {cfg : NodeConfig} {ctx : CallContext G} {b : Block G}
    {prev : Option (Block G)} {U : UtxoSet} {cp : Option Nat} {network : NetworkType}
    (hU : U.Reachable)
    (hv : (validateBlockWithCheckpointForNetwork S cfg ctx b prev U cp network).valid = true)
    (hfs : fastSync cfg b.height cp = false) :
    U.Restored ((U.connect S b.height b.transactions).disconnect S b.transactions) ↔
      (∀ a ∈ blockAdds S b.height b.transactions, U.Fresh a) ∧
        (U.totalOutputsEver.toNat + (blockAdds S b.height b.transactions).length < 2 ^ 64 ∨
          U.totalOutputsEver.toNat ≤ U.reorgDisconnectsTotal.toNat) := by
  have hb := (validateBlock_valid_iff S).mp hv
  have hnd := hb.adds_keys_nodup hfs b.height
  have hview := UtxoSet.disconnect_connect_iff S hU.noEmptyBuckets hnd (hb.spentKeyImages_fresh hfs)
  have hcount := UtxoSet.canonicalOutputs_shift_iff (e := U.totalOutputsEver)
    (d := U.reorgDisconnectsTotal) (hb.adds_length_lt S hfs)
  have heq : ((U.connect S b.height b.transactions).disconnect S b.transactions).canonicalOutputs =
      (U.totalOutputsEver + UInt64.ofNat (blockAdds S b.height b.transactions).length).toNat -
        (saturatingSucc^[(blockAdds S b.height b.transactions).length]
          U.reorgDisconnectsTotal).toNat := by
    rw [UtxoSet.disconnect_connect_eq S hnd]
    rfl
  constructor
  · intro h
    exact ⟨hview.mp h.view, hcount.mp (heq.symm.trans h.canonicalOutputs)⟩
  · rintro ⟨hfresh, hfits⟩
    exact ⟨hview.mpr hfresh, heq.trans (hcount.mpr hfits)⟩

/-! ## 4. A coinbase address used again -/

namespace SmallChain

open SmallSuite

/-- The set after the first block. -/
def utxos1 : UtxoSet := genesisUtxos.connect suite 1 block1.transactions

def reuseBlock2 : Block Z := emptyChild block1 genesis.header.target 5

/-- The second block pays a new address. -/
def freshBlock2 : Block Z := emptyChild block1 genesis.header.target 6

theorem utxos1_reachable : utxos1.Reachable :=
  UtxoSet.Reachable.applyBatch _ (UtxoSet.Reachable.applyBatch _ UtxoSet.Reachable.new)

theorem freshBlock2_valid :
    (validateBlockWithCheckpointForNetwork suite cfg ctx freshBlock2 (some block1) utxos1 none
      .regtest).valid = true := by
  decide +kernel

/-- **Disconnecting a block takes the address of an older block's output with it.** -/
theorem reused_coinbase_address_not_restored :
    utxos1.Reachable ∧
      (validateBlockWithCheckpointForNetwork suite cfg ctx reuseBlock2 (some block1) utxos1 none
        .regtest).valid = true ∧
      v1012RulesActive .regtest reuseBlock2.height = true ∧
      ((utxos1.connect suite 2 reuseBlock2.transactions).disconnect suite
        reuseBlock2.transactions).stealthIndex ≠ utxos1.stealthIndex ∧
      (utxos1.outputIndex.lookup (compress 5)).isSome = true ∧
      ((utxos1.connect suite 2 reuseBlock2.transactions).disconnect suite
        reuseBlock2.transactions).outputIndex.lookup (compress 5) = none :=
  ⟨utxos1_reachable, by decide +kernel, by decide +kernel, by decide +kernel, by decide +kernel,
    by decide +kernel⟩

/-- A block that pays a new address is undone. -/
theorem fresh_block_restored :
    utxos1.Restored ((utxos1.connect suite freshBlock2.height freshBlock2.transactions).disconnect
      suite freshBlock2.transactions) :=
  (disconnect_restores_iff suite utxos1_reachable freshBlock2_valid (by decide +kernel)).mpr
    ⟨by decide +kernel, by decide +kernel⟩

end SmallChain

end Coincync
