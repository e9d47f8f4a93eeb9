/-
# Connecting and disconnecting a block

What `apply_batch` does to the UTXO set as a whole: connecting a block is one list of insertions
into each map (`connect_eq`), and disconnecting it is one list of removals (`disconnect_eq`), as
long as the set holds the block's outputs under their keys.  From that, the round trip: connect,
then disconnect, gives the set back iff the block was FRESH for it (`disconnect_connect_iff`),
none of its output keys and none of its addresses being there before.
-/
import Coincync.Storage.Utxos

namespace Coincync

open Lib List Finset Map

/-! ## 1. A list of outputs -/

namespace UtxoSet

theorem uint64_add_one_add (n : UInt64) (k : Nat) :
    n + 1 + UInt64.ofNat k = n + UInt64.ofNat (k + 1) := by
  rw [UInt64.ofNat_add, UInt64.add_assoc, UInt64.add_comm 1]
  rfl

theorem foldl_addOutputExt : ∀ (adds : List OutputAdd) (U : UtxoSet),
    adds.foldl addOutputExt U =
      { U with
        outputs := Map.insertAll (adds.map fun a => (a.key, a.outputRef)) U.outputs
        heightIndex := Map.bucketInsertAll (adds.map fun a => (a.height, a.key)) U.heightIndex
        locatorIndex := Map.bucketInsertAll (adds.map fun a => (a.height, a.key)) U.locatorIndex
        locatorOutputs :=
          Map.insertAll (adds.map fun a => (a.key, a.locatorOutput)) U.locatorOutputs
        stealthIndex := Map.orInsertAll (adds.map fun a => (a.stealth, a.key)) U.stealthIndex
        outputIndex := Map.orInsertAll (adds.map fun a => (a.stealth, a.indexEntry)) U.outputIndex
        totalOutputsEver := U.totalOutputsEver + UInt64.ofNat adds.length }
  | [], U => by
    simp [Map.insertAll, Map.orInsertAll, Map.bucketInsertAll]
  | a :: t, U => by
    rw [foldl_cons, foldl_addOutputExt t, length_cons, ← uint64_add_one_add]
    rfl

/-- The outputs are in the set, each as it was added, under its key. -/
def HoldsAdds (U : UtxoSet) (adds : List OutputAdd) : Prop :=
  ∀ a ∈ adds, U.outputs.lookup a.key = some a.outputRef ∧
    U.locatorOutputs.lookup a.key = some a.locatorOutput

theorem removeOutput_of_holds {U : UtxoSet} {a : OutputAdd}
    (ho : U.outputs.lookup a.key = some a.outputRef)
    (hl : U.locatorOutputs.lookup a.key = some a.locatorOutput) :
    U.removeOutput a.key =
      { U with
        outputs := U.outputs.erase a.key
        heightIndex := Map.bucketRemove U.heightIndex a.height a.key
        locatorIndex := Map.bucketRemove U.locatorIndex a.height a.key
        locatorOutputs := U.locatorOutputs.erase a.key
        stealthIndex := U.stealthIndex.erase a.stealth
        outputIndex := U.outputIndex.erase a.stealth
        db := U.db.map fun db => db.erase a.stealth
        reorgDisconnectsTotal := saturatingSucc U.reorgDisconnectsTotal } := by
  have haddr : U.addressOf a.key = some a.stealth := by
    unfold addressOf
    rw [ho]
    rfl
  unfold removeOutput
  rw [haddr, ho, hl]
  rfl

theorem foldl_removeOutput : ∀ (adds : List OutputAdd) (U : UtxoSet),
    (adds.map OutputAdd.key).Nodup → HoldsAdds U adds →
    (adds.map OutputAdd.key).foldl removeOutput U =
      { U with
        outputs := Map.eraseAll (adds.map OutputAdd.key) U.outputs
        heightIndex := Map.bucketRemoveAll (adds.map fun a => (a.height, a.key)) U.heightIndex
        locatorIndex := Map.bucketRemoveAll (adds.map fun a => (a.height, a.key)) U.locatorIndex
        locatorOutputs := Map.eraseAll (adds.map OutputAdd.key) U.locatorOutputs
        stealthIndex := Map.eraseAll (adds.map OutputAdd.stealth) U.stealthIndex
        outputIndex := Map.eraseAll (adds.map OutputAdd.stealth) U.outputIndex
        db := U.db.map (Map.eraseAll (adds.map OutputAdd.stealth))
        reorgDisconnectsTotal := saturatingSucc^[adds.length] U.reorgDisconnectsTotal }
  | [], U, _, _ => by
    have hid : U.db.map (Map.eraseAll []) = U.db := by
      cases U.db <;> rfl
    simp [Map.eraseAll, Map.bucketRemoveAll, hid]
  | a :: t, U, hnd, hU => by
    obtain ⟨ho, hl⟩ := hU a (.head _)
    rw [List.map_cons, nodup_cons] at hnd
    rw [List.map_cons, foldl_cons, removeOutput_of_holds ho hl, foldl_removeOutput t _ hnd.2]
    · cases U.db <;> rfl
    · -- the keys of the rest differ from the key removed
      intro b hb
      have hne : b.key ≠ a.key := fun h => hnd.1 (h ▸ List.mem_map_of_mem hb)
      obtain ⟨hob, hlb⟩ := hU b (.tail _ hb)
      exact ⟨by rw [Finmap.lookup_erase_ne hne, hob], by rw [Finmap.lookup_erase_ne hne, hlb]⟩

theorem foldl_markKeyImageSpent : ∀ (kis : List KeyImage) (U : UtxoSet),
    kis.foldl markKeyImageSpent U = { U with keyImages := U.keyImages ∪ kis.toFinset }
  | [], U => by simp
  | k :: t, U => by
    rw [foldl_cons, foldl_markKeyImageSpent t]
    simp [markKeyImageSpent]

theorem foldl_removeKeyImage : ∀ (kis : List KeyImage) (U : UtxoSet),
    kis.foldl removeKeyImage U = { U with keyImages := U.keyImages \ kis.toFinset }
  | [], U => by simp
  | k :: t, U => by
    rw [foldl_cons, foldl_removeKeyImage t]
    congr 1
    ext x
    simp only [removeKeyImage, mem_sdiff, mem_erase, mem_toFinset, toFinset_cons, mem_insert]
    tauto

end UtxoSet

/-! ## 2. A block -/

section

variable {F G : Type} [Field F] [AddCommGroup G] [Module F G] (S : Suite F G)

/-- Connecting a block: `apply_batch(batch_from_block(..))`. -/
def UtxoSet.connect (U : UtxoSet) (height : Nat) (txs : List (Transaction G)) : UtxoSet :=
  U.applyBatch (batchFromBlock S height txs)

/-- Disconnecting a block: `apply_batch(batch_disconnect_block(..))`. -/
def UtxoSet.disconnect (U : UtxoSet) (txs : List (Transaction G)) : UtxoSet :=
  U.applyBatch (batchDisconnectBlock S txs)

theorem batchDisconnectBlock_removes (height : Nat) (txs : List (Transaction G)) :
    (batchDisconnectBlock S txs).removes = (blockAdds S height txs).map OutputAdd.key := by
  unfold batchDisconnectBlock blockAdds
  rw [map_flatMap]
  refine flatMap_congr fun tx _ => ?_
  rw [txAdds, List.map_map, range_eq_range', ← zipIdx_map_snd 0 tx.outputs, List.map_map]
  rfl

theorem UtxoSet.connect_eq (U : UtxoSet) (height : Nat) (txs : List (Transaction G)) :
    U.connect S height txs =
      { (blockAdds S height txs).foldl addOutputExt U with
        keyImages := U.keyImages ∪ (spentKeyImages txs).toFinset } := by
  unfold connect applyBatch batchFromBlock
  simp only [foldl_nil, foldl_markKeyImageSpent, foldl_addOutputExt]

theorem UtxoSet.disconnect_eq (U : UtxoSet) (height : Nat) (txs : List (Transaction G)) :
    U.disconnect S txs =
      { ((blockAdds S height txs).map OutputAdd.key).foldl removeOutput U with
        keyImages :=
          (((blockAdds S height txs).map OutputAdd.key).foldl removeOutput U).keyImages \
            (spentKeyImages txs).toFinset } := by
  unfold disconnect applyBatch
  rw [batchDisconnectBlock_removes S height, foldl_removeKeyImage]
  rfl

end

/-! ## 3. Fresh outputs -/

namespace UtxoSet

/-- **The set knows nothing of the output**: neither its key nor its address. -/
@[mk_iff]
structure Fresh (U : UtxoSet) (a : OutputAdd) : Prop where
  outputs : U.outputs.lookup a.key = none
  locatorOutputs : U.locatorOutputs.lookup a.key = none
  heightIndex : a.key ∉ Map.bucket U.heightIndex a.height
  locatorIndex : a.key ∉ Map.bucket U.locatorIndex a.height
  stealthIndex : U.stealthIndex.lookup a.stealth = none
  outputIndex : U.outputIndex.lookup a.stealth = none

instance (U : UtxoSet) (a : OutputAdd) : Decidable (Fresh U a) :=
  decidable_of_iff' _ (fresh_iff U a)

/-- The parts of the set that validation and decoy selection read: everything in memory but the
two counters. -/
structure SameView (U U' : UtxoSet) : Prop where
  outputs : U.outputs = U'.outputs
  keyImages : U.keyImages = U'.keyImages
  heightIndex : U.heightIndex = U'.heightIndex
  locatorIndex : U.locatorIndex = U'.locatorIndex
  locatorOutputs : U.locatorOutputs = U'.locatorOutputs
  stealthIndex : U.stealthIndex = U'.stealthIndex
  outputIndex : U.outputIndex = U'.outputIndex

/-- The two height indexes hold no empty set. -/
structure NoEmptyBuckets (U : UtxoSet) : Prop where
  heightIndex : Map.NoEmptyBucket U.heightIndex
  locatorIndex : Map.NoEmptyBucket U.locatorIndex

end UtxoSet

/-! ## 4. The round trip -/

section

variable {F G : Type} [Field F] [AddCommGroup G] [Module F G] (S : Suite F G)

namespace UtxoSet

variable {U : UtxoSet} {height : Nat} {txs : List (Transaction G)}

theorem holdsAdds_connect (hnd : ((blockAdds S height txs).map OutputAdd.key).Nodup) :
    HoldsAdds (U.connect S height txs) (blockAdds S height txs) := by
  intro a ha
  rw [connect_eq, foldl_addOutputExt]
  -- two added outputs with one key are the same output
  have hinj : ∀ b ∈ blockAdds S height txs, b.key = a.key → b = a := fun b hb h =>
    inj_on_of_nodup_map hnd hb ha h
  constructor
  all_goals
    refine lookup_insertAll_of_mem ?_ (by simpa using ⟨a, ha, rfl⟩)
    intro e he hk
    obtain ⟨b, hb, rfl⟩ := List.mem_map.mp he
    rw [hinj b hb hk]

theorem disconnect_connect_eq (hnd : ((blockAdds S height txs).map OutputAdd.key).Nodup) :
    (U.connect S height txs).disconnect S txs =
      let adds := blockAdds S height txs
      { outputs := Map.eraseAll (adds.map OutputAdd.key)
          (Map.insertAll (adds.map fun a => (a.key, a.outputRef)) U.outputs)
        keyImages := (U.keyImages ∪ (spentKeyImages txs).toFinset) \ (spentKeyImages txs).toFinset
        heightIndex := Map.bucketRemoveAll (adds.map fun a => (a.height, a.key))
          (Map.bucketInsertAll (adds.map fun a => (a.height, a.key)) U.heightIndex)
        locatorIndex := Map.bucketRemoveAll (adds.map fun a => (a.height, a.key))
          (Map.bucketInsertAll (adds.map fun a => (a.height, a.key)) U.locatorIndex)
        locatorOutputs := Map.eraseAll (adds.map OutputAdd.key)
          (Map.insertAll (adds.map fun a => (a.key, a.locatorOutput)) U.locatorOutputs)
        stealthIndex := Map.eraseAll (adds.map OutputAdd.stealth)
          (Map.orInsertAll (adds.map fun a => (a.stealth, a.key)) U.stealthIndex)
        outputIndex := Map.eraseAll (adds.map OutputAdd.stealth)
          (Map.orInsertAll (adds.map fun a => (a.stealth, a.indexEntry)) U.outputIndex)
        db := U.db.map (Map.eraseAll (adds.map OutputAdd.stealth))
        totalOutputsEver := U.totalOutputsEver + UInt64.ofNat adds.length
        reorgDisconnectsTotal := saturatingSucc^[adds.length] U.reorgDisconnectsTotal } := by
  rw [disconnect_eq S _ height, foldl_removeOutput _ _ hnd (holdsAdds_connect S hnd)]
  simp only [connect_eq, foldl_addOutputExt]

/-- **Undoing a connect.**  Disconnecting the block just connected restores the set iff every
output of the block was fresh for it. -/
theorem disconnect_connect_iff (hU : NoEmptyBuckets U)
    (hnd : ((blockAdds S height txs).map OutputAdd.key).Nodup)
    (hki : ∀ k ∈ spentKeyImages txs, k ∉ U.keyImages) :
    SameView ((U.connect S height txs).disconnect S txs) U ↔
      ∀ a ∈ blockAdds S height txs, Fresh U a := by
  rw [disconnect_connect_eq S hnd]
  have hkeyImages : (U.keyImages ∪ (spentKeyImages txs).toFinset) \ (spentKeyImages txs).toFinset
      = U.keyImages := by
    rw [union_sdiff_right]
    refine sdiff_eq_self_of_disjoint (Finset.disjoint_right.mpr fun k hk => ?_)
    exact hki k (mem_toFinset.mp hk)
  -- each map is restored iff what the block put into it was new there
  have houtputs := eraseAll_insertAll_eq_iff
    (l := (blockAdds S height txs).map fun a => (a.key, a.outputRef)) (m := U.outputs)
  have hlocOut := eraseAll_insertAll_eq_iff
    (l := (blockAdds S height txs).map fun a => (a.key, a.locatorOutput)) (m := U.locatorOutputs)
  have hstealth := eraseAll_orInsertAll_eq_iff
    (l := (blockAdds S height txs).map fun a => (a.stealth, a.key)) (m := U.stealthIndex)
  have hindex := eraseAll_orInsertAll_eq_iff
    (l := (blockAdds S height txs).map fun a => (a.stealth, a.indexEntry)) (m := U.outputIndex)
  have hheight := bucketRemoveAll_bucketInsertAll_eq_iff
    (l := (blockAdds S height txs).map fun a => (a.height, a.key)) hU.heightIndex
  have hlocator := bucketRemoveAll_bucketInsertAll_eq_iff
    (l := (blockAdds S height txs).map fun a => (a.height, a.key)) hU.locatorIndex
  simp only [List.map_map, List.forall_mem_map] at houtputs hlocOut hstealth hindex hheight hlocator
  constructor
  · intro h a ha
    exact ⟨houtputs.mp h.outputs a ha, hlocOut.mp h.locatorOutputs a ha,
      hheight.mp h.heightIndex a ha, hlocator.mp h.locatorIndex a ha,
      hstealth.mp h.stealthIndex a ha, hindex.mp h.outputIndex a ha⟩
  · intro h
    exact ⟨houtputs.mpr fun a ha => (h a ha).outputs, hkeyImages,
      hheight.mpr fun a ha => (h a ha).heightIndex,
      hlocator.mpr fun a ha => (h a ha).locatorIndex,
      hlocOut.mpr fun a ha => (h a ha).locatorOutputs,
      hstealth.mpr fun a ha => (h a ha).stealthIndex,
      hindex.mpr fun a ha => (h a ha).outputIndex⟩

end UtxoSet

end

end Coincync
