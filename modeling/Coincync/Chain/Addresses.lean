/-
# One address, one output

A ring member is named by its public key, and the commitment it stands for is looked up under that
key.  The lookup is only as good as the address is unique.  Three checks are there to make it so:
within a transaction, across the transactions of a block, and against the output index.  The third
is made for every transaction but the coinbase, and a miner may pay one address twice
(`SmallChain.address_paid_twice`).
-/
import Coincync.Chain.Growth
import Coincync.Consensus.Disconnect

namespace Coincync

open Lib List Option

variable {F G : Type} [Field F] [AddCommGroup G] [Module F G] {S : Suite F G}

/-! ## 1. The addresses of a block -/

theorem map_stealth_positionedOutputs (height : Nat) (b : Block G) :
    (positionedOutputs b).map (fun o => o.1.stealthAddress.bytes) =
      (blockAdds S height b.transactions).map OutputAdd.stealth := by
  unfold positionedOutputs blockAdds
  rw [map_flatMap, map_flatMap]
  conv_rhs => rw [← zipIdx_map_fst 0 b.transactions, flatMap_map]
  refine flatMap_congr fun tx _ => ?_
  rw [txAdds, List.map_map, List.map_map]
  rfl

variable {s : Grown G}

section

variable [DecidableEq F] [DecidableEq G] {cfg : NodeConfig} {network : NetworkType}

namespace BlockChecks

variable {ctx : CallContext G} {b : Block G} {prev : Option (Block G)} {U : UtxoSet}
  {cp : Option Nat}

theorem addresses_nodup (h : BlockChecks S cfg ctx b prev U cp network)
    (hrules : v1012RulesActive network b.height = true) :
    ((blockAdds S b.height b.transactions).map OutputAdd.stealth).Nodup := by
  obtain ⟨maxCb, -, hd⟩ := h.coinbase
  simp only [coinbaseAndDuplicateErrors, append_eq_nil_iff, hrules, if_true] at hd
  have hdup := hd.2
  rw [checkBlockDuplicateStealth, map_eq_nil_iff, duplicatesBy_nil_eq_nil_iff,
    map_stealth_positionedOutputs (S := S) b.height] at hdup
  exact hdup

theorem addresses_fresh (h : BlockChecks S cfg ctx b prev U cp network)
    (hfs : fastSync cfg b.height cp = false) (hrules : v1012RulesActive network b.height = true)
    {tx : Transaction G} (htx : tx ∈ b.transactions) (hcb : tx.isCoinbase = false) :
    ∀ o ∈ tx.outputs, U.getOutputIndexEntry o.stealthAddress.bytes = none := by
  have hring := (h.txChecks hfs htx hcb).ringMembers
  unfold checkTxRingMembers at hring
  rw [Except.bind_ok_iff, checkIf_ok_iff] at hring
  have hstealth := (checkAllNew_ok_iff.mp (hring.1 hrules)).2.2
  intro o ho
  obtain ⟨n, hn⟩ := mem_iff_getElem?.mp ho
  have hone := hstealth (o, n) (mk_mem_zipIdx_iff_getElem?.mpr hn)
  rwa [require_ok_iff] at hone

end BlockChecks

/-! ## 2. Fresh chains -/

/-- **The condition on a block**: it is not validated in fast-sync, the output index knows none of
the addresses its coinbase pays, and no output is locked to a height below the block's. -/
def FreshCoinbase (S : Suite F G) (cfg : NodeConfig) (s : Grown G) (a : Arrival G) : Prop :=
  fastSync cfg a.block.height a.checkpoint = false ∧
    (∀ tx ∈ a.block.transactions, tx.isCoinbase = true → ∀ o ∈ tx.outputs,
      s.utxos.getOutputIndexEntry o.stealthAddress.bytes = none) ∧
    ∀ x ∈ blockAdds S a.block.height a.block.transactions, x.indexEntry.validate = true

instance (S : Suite F G) (cfg : NodeConfig) (s : Grown G) (a : Arrival G) :
    Decidable (FreshCoinbase S cfg s a) :=
  inferInstanceAs (Decidable (_ ∧ (∀ tx ∈ a.block.transactions, _ → ∀ o ∈ tx.outputs, _) ∧
    ∀ x ∈ blockAdds S a.block.height a.block.transactions, _))

/-- **The index on disk lists the outputs of the chain**, every entry readable and every address
its own. -/
structure Distinct (S : Suite F G) (s : Grown G) : Prop where
  growing : Growing S s
  listed : ∃ index, s.utxos.db = some index ∧
    Map.Lists index (chainAdds S s.chain) OutputAdd.stealth OutputAdd.indexEntry
  readable : ∀ a ∈ chainAdds S s.chain, a.indexEntry.validate = true
  nodup : ((chainAdds S s.chain).map OutputAdd.stealth).Nodup

omit [DecidableEq F] [DecidableEq G] in
theorem Distinct.known (h : Distinct S s) {a : OutputAdd} (ha : a ∈ chainAdds S s.chain) :
    s.utxos.getOutputIndexEntry a.stealth ≠ none := by
  obtain ⟨index, hindex, hlists⟩ := h.listed
  unfold UtxoSet.getOutputIndexEntry
  split
  · exact some_ne_none _
  · rw [hindex, bind_some, OutputIndexDb.get, hlists.lookup ha, filter_some,
      if_pos (h.readable a ha)]
    exact some_ne_none _

omit [DecidableEq F] [DecidableEq G] in
theorem distinct_genesis (S : Suite F G) (network : NetworkType) :
    Distinct S (Grown.genesis S network) := by
  obtain ⟨message, hm⟩ := createGenesisBlockFor_transactions S network
  obtain ⟨a, ha, hvalidate⟩ : ∃ a, chainAdds S (Grown.genesis S network).chain = [a] ∧
      a.indexEntry.validate = true := by
    rw [Grown.genesis, chainAdds, flatMap_singleton, hm]
    exact ⟨_, rfl, rfl⟩
  have hnd : ((chainAdds S (Grown.genesis S network).chain).map OutputAdd.stealth).Nodup := by
    rw [ha]
    exact nodup_singleton _
  have hempty := Map.lists_empty OutputAdd.stealth OutputAdd.indexEntry
  refine ⟨growing_genesis S network, ⟨_, ?_, hempty.orInsertAll hnd⟩, fun x hx => ?_, hnd⟩
  · rw [Grown.genesis, UtxoSet.extend]
    simp only [UtxoSet.db_evictOldOutputs, UtxoSet.db_connect, map_some,
      Blockchain.insertOutputs_eq]
  · rw [ha, mem_singleton] at hx
    rw [hx]
    exact hvalidate

/-- **One more block whose addresses are all new.** -/
theorem Distinct.step {s' : Grown G} {a : Arrival G} (hd : Distinct S s)
    (hrules : ∀ h, v1012RulesActive network h = true) (ha : FreshCoinbase S cfg s a)
    (h : grow S cfg network s a = some s') : Distinct S s' := by
  obtain ⟨hfs, hcoinbase, hlocks⟩ := ha
  have hgrowing := hd.growing.step hfs h
  obtain ⟨hb, rfl⟩ := grow_eq_some h
  -- no address of the block is known, so none is on the chain
  have hfresh : ∀ x ∈ blockAdds S a.block.height a.block.transactions,
      s.utxos.getOutputIndexEntry x.stealth = none := by
    intro x hx
    obtain ⟨tx, htx, hx⟩ := mem_flatMap.mp hx
    obtain ⟨⟨o, i⟩, ho, rfl⟩ := List.mem_map.mp hx
    have ho' : o ∈ tx.outputs := mem_of_getElem? (mk_mem_zipIdx_iff_getElem?.mp ho)
    cases hcb : tx.isCoinbase with
    | true => exact hcoinbase tx htx hcb o ho'
    | false => exact hb.addresses_fresh hfs (hrules _) htx hcb o ho'
  have hnd : ((chainAdds S (a.block :: s.chain)).map OutputAdd.stealth).Nodup := by
    rw [chainAdds_cons, map_append]
    refine (hb.addresses_nodup (hrules _)).append hd.nodup fun k hk hk' => ?_
    obtain ⟨x, hx, rfl⟩ := List.mem_map.mp hk
    obtain ⟨y, hy, heq⟩ := List.mem_map.mp hk'
    exact hd.known hy (heq ▸ hfresh x hx)
  refine ⟨hgrowing, ?_, fun x hx => ?_, hnd⟩
  · obtain ⟨index, hindex, hlists⟩ := hd.listed
    refine ⟨_, ?_, hlists.orInsertAll hnd⟩
    change ((UtxoSet.evictOldOutputs _ _ _).db.map _) = _
    rw [UtxoSet.db_evictOldOutputs, UtxoSet.db_connect, hindex, map_some,
      Blockchain.insertOutputs_eq]
  · rcases mem_append.mp (chainAdds_cons (S := S) a.block s.chain ▸ hx) with hx | hx
    · exact hlocks x hx
    · exact hd.readable x hx

/-! ## 3. What a ring member's key finds -/

/-- The commitment that validation compares a ring member with. -/
def UtxoSet.memberCommitment (U : UtxoSet) (stealth : StealthKey) : Option (FixedBytes 32) :=
  match U.getOutputByStealth stealth with
  | some o => some o.output.commitment
  | none => (U.getOutputIndexEntry stealth).map OutputIndexEntry.commitment

omit [DecidableEq F] [DecidableEq G] in
theorem Growing.memberCommitment (h : Growing S s) (hhash : HashesTell S s.chain)
    {stealth : StealthKey} {commitment : FixedBytes 32}
    (hfound : s.utxos.memberCommitment stealth = some commitment) :
    ∃ a ∈ chainAdds S s.chain, a.stealth = stealth ∧ a.output.commitment = commitment := by
  unfold UtxoSet.memberCommitment at hfound
  split at hfound
  · rename_i o ho
    obtain ⟨a, ha, hstealth, rfl⟩ := h.sourced.getOutputByStealth hhash h.short ho
    exact ⟨a, ha, hstealth, Option.some.inj hfound⟩
  · obtain ⟨e, he, hcommit⟩ := map_eq_some_iff.mp hfound
    obtain ⟨a, ha, hstealth, rfl⟩ := h.sourced.getOutputIndexEntry he
    exact ⟨a, ha, hstealth, hcommit⟩

/-- **No address occurs twice on a chain of accepted blocks** whose coinbases pay fresh addresses
and whose outputs are not locked into the past; so the commitment found for a key is that of one
output, where transaction hashes do not collide. -/
theorem chain_addresses_nodup (hrules : ∀ h, v1012RulesActive network h = true) {s : Grown G}
    (h : Reaches (grow S cfg network) (FreshCoinbase S cfg) (Grown.genesis S network) s) :
    ((chainAdds S s.chain).map OutputAdd.stealth).Nodup ∧
    (HashesTell S s.chain → ∀ stealth commitment,
      s.utxos.memberCommitment stealth = some commitment →
      ∃! a, a ∈ chainAdds S s.chain ∧ a.stealth = stealth ∧ a.output.commitment = commitment) := by
  have hd : Distinct S s := by
    refine Reaches.invariant (I := Distinct S) (distinct_genesis S network) ?_ h
    exact fun s a s' hd ha hs => hd.step hrules ha hs
  refine ⟨hd.nodup, fun hhash stealth commitment hfound => ?_⟩
  obtain ⟨a, ha, hstealth, hcommit⟩ := hd.growing.memberCommitment hhash hfound
  refine ⟨a, ⟨ha, hstealth, hcommit⟩, ?_⟩
  rintro a' ⟨ha', hstealth', -⟩
  exact inj_on_of_nodup_map hd.nodup ha' ha (hstealth'.trans hstealth.symm)

end

/-! ## 4. On the small chain -/

namespace SmallChain

open SmallSuite

/-- **One address, two outputs.**  The coinbases of the first two blocks pay address 5; the blocks
are accepted, and the two outputs have keys and commitments of their own. -/
theorem address_paid_twice :
    ∃ s, run (grow suite cfg .regtest) (fun _ _ => true) (Grown.genesis suite .regtest)
        [arrives block1, arrives reuseBlock2] = some s ∧
      (∀ h, v1012RulesActive .regtest h = true) ∧
      s.chain = [reuseBlock2, block1, genesis] ∧
      (chainAdds suite [reuseBlock2, block1]).map OutputAdd.stealth = [compress 5, compress 5] ∧
      ((chainAdds suite [reuseBlock2, block1]).map OutputAdd.key).Nodup ∧
      ((chainAdds suite [reuseBlock2, block1]).map fun a => a.output.commitment).Nodup := by
  have hrun : ((run (grow suite cfg .regtest) (fun _ _ => true) (Grown.genesis suite .regtest)
      [arrives block1, arrives reuseBlock2]).any fun s =>
        decide (s.chain = [reuseBlock2, block1, genesis])) = true := by
    decide +kernel
  obtain ⟨s, hs, hchain⟩ := (Option.any_eq_true _ _).mp hrun
  exact ⟨s, hs, fun _ => rfl, of_decide_eq_true hchain, by decide +kernel, by decide +kernel,
    by decide +kernel⟩

/-- Two blocks that pay two addresses. -/
theorem fresh_addresses_nodup :
    ∃ s, run (grow suite cfg .regtest) (fun s a => decide (FreshCoinbase suite cfg s a))
        (Grown.genesis suite .regtest) [arrives block1, arrives freshBlock2] = some s ∧
      s.chain = [freshBlock2, block1, genesis] ∧
      ((chainAdds suite [freshBlock2, block1, genesis]).map OutputAdd.stealth).Nodup := by
  have hrun : ((run (grow suite cfg .regtest) (fun s a => decide (FreshCoinbase suite cfg s a))
      (Grown.genesis suite .regtest) [arrives block1, arrives freshBlock2]).any fun s =>
        decide (s.chain = [freshBlock2, block1, genesis])) = true := by
    decide +kernel
  obtain ⟨s, hs, hchain⟩ := (Option.any_eq_true _ _).mp hrun
  have hchain := of_decide_eq_true hchain
  have hreach := Reaches.run (P := FreshCoinbase suite cfg) (fun _ _ h => of_decide_eq_true h)
    .start hs
  refine ⟨s, hs, hchain, ?_⟩
  rw [← hchain]
  exact (chain_addresses_nodup (fun _ => rfl) hreach).1

end SmallChain

end Coincync
