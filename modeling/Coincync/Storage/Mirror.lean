/-
# What the UTXO set is for

The outputs and the spent key images of a chain are two lists; the UTXO set is five indexes of
them.  `Mirrors` says that a set indexes exactly these lists, with distinct keys, addresses and
key images; `cut` is the height below which the address index in memory has been evicted.
Connecting a block puts its outputs in front of the lists, disconnecting it drops them again, and
the lists determine everything that validation reads (`Mirrors.sameView`).  So any sequence of
connects and disconnects that ends with the same lists ends with the same set.
-/
import Coincync.Lib.Listing
import Coincync.Storage.Connect

namespace Coincync

open Lib List Map

/-! ## 1. The relation -/

/-- **The set indexes exactly these outputs and key images.** -/
structure Mirrors (U : UtxoSet) (adds : List OutputAdd) (spent : List KeyImage) (cut : Nat) :
    Prop where
  outputs : Map.Lists U.outputs adds OutputAdd.key OutputAdd.outputRef
  locatorOutputs : Map.Lists U.locatorOutputs adds OutputAdd.key OutputAdd.locatorOutput
  heightIndex : Map.ListsBuckets U.heightIndex adds OutputAdd.height OutputAdd.key
  locatorIndex : Map.ListsBuckets U.locatorIndex adds OutputAdd.height OutputAdd.key
  stealthIndex : Map.Lists U.stealthIndex adds OutputAdd.stealth OutputAdd.key
  outputIndex : Map.Lists U.outputIndex (adds.filter fun a => cut ≤ a.height) OutputAdd.stealth
    OutputAdd.indexEntry
  keyImages : ∀ k, k ∈ U.keyImages ↔ k ∈ spent
  buckets : U.NoEmptyBuckets
  keys_nodup : (adds.map OutputAdd.key).Nodup
  addresses_nodup : (adds.map OutputAdd.stealth).Nodup
  spent_nodup : spent.Nodup

namespace Mirrors

variable {U U' : UtxoSet} {adds : List OutputAdd} {spent : List KeyImage} {cut : Nat}

theorem new_nil (db : Option OutputIndexDb) : Mirrors { UtxoSet.new with db := db } [] [] 0 :=
  ⟨lists_empty _ _, lists_empty _ _, listsBuckets_empty _ _,
    listsBuckets_empty _ _, lists_empty _ _, lists_empty _ _,
    fun k => by simp [UtxoSet.new], ⟨noEmptyBucket_empty, noEmptyBucket_empty⟩,
    nodup_nil, nodup_nil, nodup_nil⟩

section

variable (h : Mirrors U adds spent cut)

include h

theorem of_view (hv : U.SameView U') : Mirrors U' adds spent cut := by
  obtain ⟨h1, h2, h3, h4, h5, h6, h7⟩ := hv
  refine ⟨h1 ▸ h.outputs, h5 ▸ h.locatorOutputs, h3 ▸ h.heightIndex, h4 ▸ h.locatorIndex,
    h6 ▸ h.stealthIndex, h7 ▸ h.outputIndex, h2 ▸ h.keyImages, ?_, h.keys_nodup,
    h.addresses_nodup, h.spent_nodup⟩
  exact ⟨h3 ▸ h.buckets.heightIndex, h4 ▸ h.buckets.locatorIndex⟩

theorem setDb (db : Option OutputIndexDb) : Mirrors { U with db := db } adds spent cut :=
  h.of_view ⟨rfl, rfl, rfl, rfl, rfl, rfl, rfl⟩

/-- **The lists determine what validation reads.** -/
theorem sameView (h' : Mirrors U' adds spent cut) : U.SameView U' :=
  ⟨h.outputs.ext h'.outputs, Finset.ext fun k => (h.keyImages k).trans (h'.keyImages k).symm,
    h.heightIndex.ext h.buckets.heightIndex h'.buckets.heightIndex h'.heightIndex,
    h.locatorIndex.ext h.buckets.locatorIndex h'.buckets.locatorIndex h'.locatorIndex,
    h.locatorOutputs.ext h'.locatorOutputs, h.stealthIndex.ext h'.stealthIndex,
    h.outputIndex.ext h'.outputIndex⟩

theorem evict (currentHeight keepDepth : Nat) :
    Mirrors (U.evictOldOutputs currentHeight keepDepth) adds spent
      (max cut (currentHeight - keepDepth)) := by
  unfold UtxoSet.evictOldOutputs
  split_ifs with hle
  · rw [Nat.sub_eq_zero_of_le hle, Nat.max_zero]
    exact h
  · refine ⟨h.outputs, h.locatorOutputs, h.heightIndex, h.locatorIndex, h.stealthIndex, ?_,
      h.keyImages, ⟨h.buckets.heightIndex, h.buckets.locatorIndex⟩, h.keys_nodup,
      h.addresses_nodup, h.spent_nodup⟩
    have hretain := h.outputIndex.retain fun e => decide (currentHeight - keepDepth ≤ e.height)
    rw [filter_filter] at hretain
    have htest : (fun a : OutputAdd => decide (max cut (currentHeight - keepDepth) ≤ a.height)) =
        fun a => decide (currentHeight - keepDepth ≤ a.indexEntry.height) &&
          decide (cut ≤ a.height) := by
      funext a
      rw [Bool.and_comm, ← Bool.decide_and]
      exact decide_eq_decide.mpr max_le_iff
    rw [htest]
    exact hretain

end

end Mirrors

/-! ## 2. Connecting and disconnecting -/

section

variable {F G : Type} [Field F] [AddCommGroup G] [Module F G] (S : Suite F G)

theorem blockAdds_height {height : Nat} {txs : List (Transaction G)} :
    ∀ a ∈ blockAdds S height txs, a.height = height := by
  intro a ha
  obtain ⟨tx, -, ha⟩ := mem_flatMap.mp ha
  obtain ⟨o, -, rfl⟩ := mem_map.mp ha
  rfl

namespace Mirrors

variable {U : UtxoSet} {adds : List OutputAdd} {spent : List KeyImage} {cut height : Nat}
  {txs : List (Transaction G)}

theorem filter_blockAdds (hcut : cut ≤ height) (adds : List OutputAdd) :
    (blockAdds S height txs ++ adds).filter (fun a => cut ≤ a.height) =
      blockAdds S height txs ++ adds.filter fun a => cut ≤ a.height := by
  rw [filter_append]
  congr 1
  refine filter_eq_self.mpr fun a ha => decide_eq_true ?_
  rw [blockAdds_height S a ha]
  exact hcut

theorem addresses_filter_nodup (h : (adds.map OutputAdd.stealth).Nodup) (p : OutputAdd → Bool) :
    ((adds.filter p).map OutputAdd.stealth).Nodup :=
  List.Nodup.sublist (List.Sublist.map _ filter_sublist) h

/-- **Connecting a block** whose keys, addresses and key images are new. -/
theorem connect (h : Mirrors U adds spent cut) (hcut : cut ≤ height)
    (hkeys : ((blockAdds S height txs ++ adds).map OutputAdd.key).Nodup)
    (haddr : ((blockAdds S height txs ++ adds).map OutputAdd.stealth).Nodup)
    (hspent : (spentKeyImages txs ++ spent).Nodup) :
    Mirrors (U.connect S height txs) (blockAdds S height txs ++ adds)
      (spentKeyImages txs ++ spent) cut := by
  rw [UtxoSet.connect_eq, UtxoSet.foldl_addOutputExt]
  have haddr' := addresses_filter_nodup haddr fun a => cut ≤ a.height
  rw [filter_blockAdds S hcut] at haddr'
  refine ⟨h.outputs.insertAll hkeys, h.locatorOutputs.insertAll hkeys,
    h.heightIndex.bucketInsertAll _, h.locatorIndex.bucketInsertAll _,
    h.stealthIndex.orInsertAll haddr, ?_, ?_,
    ⟨h.buckets.heightIndex.bucketInsertAll _, h.buckets.locatorIndex.bucketInsertAll _⟩, hkeys,
    haddr, hspent⟩
  · rw [filter_blockAdds S hcut]
    exact h.outputIndex.orInsertAll haddr'
  · intro k
    rw [Finset.mem_union, mem_toFinset, mem_append, h.keyImages, or_comm]

theorem held (h : Mirrors U (blockAdds S height txs ++ adds) spent cut) :
    ((blockAdds S height txs).map OutputAdd.key).Nodup ∧
      UtxoSet.HoldsAdds U (blockAdds S height txs) := by
  have hkeys := h.keys_nodup
  rw [map_append] at hkeys
  exact ⟨hkeys.of_append_left, fun a ha => ⟨h.outputs.lookup (mem_append_left _ ha),
    h.locatorOutputs.lookup (mem_append_left _ ha)⟩⟩

theorem db_disconnect (h : Mirrors U (blockAdds S height txs ++ adds) spent cut) :
    (U.disconnect S txs).db =
      U.db.map (Map.eraseAll ((blockAdds S height txs).map OutputAdd.stealth)) := by
  rw [UtxoSet.disconnect_eq S U height, UtxoSet.foldl_removeOutput _ _ (h.held S).1 (h.held S).2]

/-- **Disconnecting the block on top.** -/
theorem disconnect (hcut : cut ≤ height)
    (h : Mirrors U (blockAdds S height txs ++ adds) (spentKeyImages txs ++ spent) cut) :
    Mirrors (U.disconnect S txs) adds spent cut := by
  have hnd := h.keys_nodup
  have hnd' := h.addresses_nodup
  have haddr' := addresses_filter_nodup h.addresses_nodup fun a => cut ≤ a.height
  rw [filter_blockAdds S hcut] at haddr'
  have hindex := h.outputIndex
  rw [filter_blockAdds S hcut] at hindex
  rw [UtxoSet.disconnect_eq S U height, UtxoSet.foldl_removeOutput _ _ (h.held S).1 (h.held S).2]
  refine ⟨h.outputs.eraseAll hnd, h.locatorOutputs.eraseAll hnd,
    h.heightIndex.bucketRemoveAll hnd, h.locatorIndex.bucketRemoveAll hnd,
    h.stealthIndex.eraseAll hnd', hindex.eraseAll haddr', ?_,
    ⟨h.buckets.heightIndex.bucketRemoveAll _, h.buckets.locatorIndex.bucketRemoveAll _⟩, ?_, ?_, ?_⟩
  · intro k
    have hdisjoint := (nodup_append.mp h.spent_nodup).2.2
    rw [Finset.mem_sdiff, mem_toFinset, h.keyImages, mem_append]
    constructor
    · rintro ⟨hk | hk, hnot⟩
      · exact absurd hk hnot
      · exact hk
    · intro hk
      exact ⟨.inr hk, fun hk' => hdisjoint _ hk' _ hk rfl⟩
  · rw [map_append] at hnd
    exact List.Nodup.of_append_right hnd
  · rw [map_append] at hnd'
    exact List.Nodup.of_append_right hnd'
  · exact List.Nodup.of_append_right h.spent_nodup

end Mirrors

end

end Coincync
