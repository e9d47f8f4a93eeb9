/-
# What validation sees of a chain

A node can come to the UTXO set of a chain in many ways: by extensions, by reorganisations, by a
start.  The sets differ -- in what the address index in memory still has, in what the disk has, in
the two counters.  `SetOf` is what they have in common, and it is enough: two sets of one chain
validate a block alike, as long as the block uses no address of the chain again
(`SetOf.valid_iff`).
-/
import Coincync.Chain.Restart

namespace Coincync

open Lib List

variable {F G : Type} [Field F] [AddCommGroup G] [Module F G] {S : Suite F G}

/-! ## 1. Sets of one chain -/

/-- **A set of the chain**: it indexes the chain, its counters differ by the number of outputs, and
the disk lists no others. -/
structure SetOf (S : Suite F G) (U : UtxoSet) (chain : List (Block G)) : Prop where
  indexes : ∃ cut, U.Indexes S chain cut
  counts : Counts U (chainAdds S chain)
  drawn : ∀ index, U.db = some index →
    Map.Drawn index (chainAdds S chain) OutputAdd.stealth OutputAdd.indexEntry

namespace SetOf

variable {U U' : UtxoSet} {chain : List (Block G)}

section

variable (h : SetOf S U chain)

include h

theorem containsKeyImage_eq (h' : SetOf S U' chain) (k : KeyImage) :
    U.containsKeyImage k = U'.containsKeyImage k := by
  obtain ⟨_, hU⟩ := h.indexes
  obtain ⟨_, hU'⟩ := h'.indexes
  exact decide_eq_decide.mpr ((hU.keyImages k).trans (hU'.keyImages k).symm)

theorem getOutputByStealth_eq (h' : SetOf S U' chain) (k : StealthKey) :
    U.getOutputByStealth k = U'.getOutputByStealth k := by
  obtain ⟨_, hU⟩ := h.indexes
  obtain ⟨_, hU'⟩ := h'.indexes
  rw [UtxoSet.getOutputByStealth, UtxoSet.getOutputByStealth, hU.stealthIndex.ext hU'.stealthIndex,
    hU.outputs.ext hU'.outputs]

theorem getOutputByStealth_ne_none {a : OutputAdd} (ha : a ∈ chainAdds S chain) :
    U.getOutputByStealth a.stealth ≠ none := by
  obtain ⟨_, hU⟩ := h.indexes
  rw [UtxoSet.getOutputByStealth, hU.stealthIndex.lookup ha, Option.bind_some, hU.outputs.lookup ha]
  exact Option.some_ne_none _

theorem getOutputIndexEntry_eq_none {k : StealthKey}
    (hk : k ∉ (chainAdds S chain).map OutputAdd.stealth) : U.getOutputIndexEntry k = none := by
  obtain ⟨_, hU⟩ := h.indexes
  exact hU.getOutputIndexEntry_eq_none h.drawn fun a ha hak => hk (hak ▸ mem_map_of_mem ha)

theorem availableOutputs_eq (h' : SetOf S U' chain) (v1012Active : Bool) :
    availableOutputs U v1012Active = availableOutputs U' v1012Active := by
  cases v1012Active with
  | true => rw [h.counts.availableOutputs_eq, h'.counts.availableOutputs_eq]
  | false =>
    change U.outputs.keys.card = U'.outputs.keys.card
    rw [h.counts.outputs.ext h'.counts.outputs]

/-! ## 2. Validation -/

theorem checkRingMember_eq (h' : SetOf S U' chain) (build : BuildConfig)
    (currentHeight inputIdx : Nat) (member : RingMemberRef × Nat) :
    checkRingMember build U currentHeight inputIdx member =
      checkRingMember build U' currentHeight inputIdx member := by
  unfold checkRingMember
  rw [h.getOutputByStealth_eq h']
  cases hfound : U'.getOutputByStealth member.1.publicKey.bytes with
  | some o => rfl
  | none =>
    have hk : member.1.publicKey.bytes ∉ (chainAdds S chain).map OutputAdd.stealth := by
      intro hmem
      obtain ⟨a, ha, hak⟩ := mem_map.mp hmem
      exact h'.getOutputByStealth_ne_none ha (hak ▸ hfound)
    simp only [h.getOutputIndexEntry_eq_none hk, h'.getOutputIndexEntry_eq_none hk]

variable {tx : Transaction G}

variable (h' : SetOf S U' chain)
  (hfresh : ∀ o ∈ tx.outputs, o.stealthAddress.bytes ∉ (chainAdds S chain).map OutputAdd.stealth)

include h' hfresh in
theorem checkTxRingMembers_eq (build : BuildConfig) (currentHeight : Nat) (v1012Active : Bool) :
    checkTxRingMembers build tx U currentHeight v1012Active =
      checkTxRingMembers build tx U' currentHeight v1012Active := by
  have haddresses : checkTxStealthAddresses tx U = checkTxStealthAddresses tx U' := by
    refine checkAllNew_congr fun o ho => ?_
    have hnew := hfresh o.1 (fst_mem_of_mem_zipIdx ho)
    simp only [h.getOutputIndexEntry_eq_none hnew, h'.getOutputIndexEntry_eq_none hnew]
  have hmembers : ∀ i : Nat, checkRingMember build U currentHeight i =
      checkRingMember build U' currentHeight i := fun i =>
    funext fun member => h.checkRingMember_eq h' build currentHeight i member
  simp only [checkTxRingMembers, haddresses, hmembers]

variable [DecidableEq F] [DecidableEq G] {cfg : NodeConfig} {ctx : CallContext G}

include h' hfresh in
/-- **Two sets of one chain give a transaction the same verdict**, if it pays to new addresses. -/
theorem validateTransaction_eq (currentHeight : Nat) (network : NetworkType) :
    validateTransactionForNetwork S cfg ctx tx U currentHeight network =
      validateTransactionForNetwork S cfg ctx tx U' currentHeight network := by
  have hspend : checkTxNoDoubleSpend tx U = checkTxNoDoubleSpend tx U' := by
    refine checkAllNew_congr fun i _ => ?_
    rw [h.containsKeyImage_eq h']
  have hrings := h.checkTxRingMembers_eq h' hfresh cfg.build currentHeight
  have hsizes : ∀ v1012Active, checkTxRingSizeAndUniqueMembers tx U currentHeight v1012Active =
      checkTxRingSizeAndUniqueMembers tx U' currentHeight v1012Active := fun v => by
    simp only [checkTxRingSizeAndUniqueMembers, h.availableOutputs_eq h']
  simp only [validateTransactionForNetwork, hspend, hrings, hsizes]

/-- **Two sets of one chain validate a block alike**, if it uses nothing of the chain again. -/
theorem valid_iff {b : Block G} {prev : Option (Block G)} {cp : Option Nat} {network : NetworkType}
    (h' : SetOf S U' chain) (hreuse : NoReuse S (b :: chain)) :
    (validateBlockWithCheckpointForNetwork S cfg ctx b prev U cp network).valid = true ↔
      (validateBlockWithCheckpointForNetwork S cfg ctx b prev U' cp network).valid = true := by
  have hfresh : ∀ tx ∈ b.transactions, ∀ o ∈ tx.outputs,
      o.stealthAddress.bytes ∉ (chainAdds S chain).map OutputAdd.stealth := by
    intro tx htx o ho hmem
    have hnodup := hreuse.addresses
    rw [chainAdds_cons, map_append] at hnodup
    refine (nodup_append.mp hnodup).2.2 _ ?_ _ hmem rfl
    rw [blockAdds, map_flatMap]
    refine mem_flatMap.mpr ⟨tx, htx, ?_⟩
    rw [Blockchain.map_stealth_txAdds]
    exact mem_map_of_mem ho
  have hlate : lateErrors S cfg ctx b U cp network = lateErrors S cfg ctx b U' cp network := by
    simp only [lateErrors]
    congr 1
    refine flatMap_congr fun tx htx => ?_
    have hmem := fst_mem_of_mem_zipIdx (mem_of_mem_drop htx)
    unfold txErrors
    rw [h.validateTransaction_eq h' (hfresh tx.1 hmem)]
  rw [validateBlock_valid_iff, validateBlock_valid_iff]
  constructor
  · intro hb
    exact { hb with late := hlate ▸ hb.late }
  · intro hb
    exact { hb with late := hlate.symm ▸ hb.late }

end

end SetOf

end Coincync
