/-
# What a valid block looks like to the UTXO set

The facts about a valid block that its connection rests on, each read off
`validateBlock_valid_iff`: the first transaction is the only coinbase, the output keys of the
block are pairwise distinct, and so are the key images it spends, none of which is on the chain.
-/
import Coincync.Consensus.Validation
import Coincync.Storage.Connect

namespace Coincync

open Lib List

variable {F G : Type} [Field F] [AddCommGroup G] [Module F G] (S : Suite F G)

/-! ## 1. Transactions after the first -/

variable {tx : Transaction G} {rest : List (Transaction G)} {c : Transaction G}

omit [AddCommGroup G] in
theorem mem_nonFirst {b : Block G}
    (hb : b.transactions = c :: rest) (htx : tx ∈ rest) : ∃ idx, (tx, idx) ∈ nonFirst b := by
  obtain ⟨n, hn⟩ := mem_iff_getElem?.mp htx
  refine ⟨n + 1, ?_⟩
  unfold nonFirst
  rw [hb, zipIdx_cons, drop_one, tail_cons, mk_mem_zipIdx_iff_le_and_getElem?_sub]
  exact ⟨by omega, by simpa using hn⟩

/-! ## 2. Keys of outputs -/

theorem txAdds_keys_nodup {height : Nat} (h : tx.outputs.length ≤ 256) :
    ((txAdds S height tx).map OutputAdd.key).Nodup := by
  rw [txAdds, map_map, nodup_map_iff_inj_on (nodup_zipIdx_map_snd _).of_map]
  rintro ⟨o, i⟩ hi ⟨o', j⟩ hj hij
  have hi' := mk_mem_zipIdx_iff_getElem?.mp hi
  have hj' := mk_mem_zipIdx_iff_getElem?.mp hj
  have hlti := (List.getElem?_eq_some_iff.mp hi').1
  have hltj := (List.getElem?_eq_some_iff.mp hj').1
  have heq : UInt8.ofNat i = UInt8.ofNat j := congrArg Prod.snd hij
  have hnat := congrArg UInt8.toNat heq
  simp only [UInt8.toNat_ofNat'] at hnat
  have hij' : i = j := by omega
  subst hij'
  rw [hi', Option.some.injEq] at hj'
  rw [hj']

theorem blockAdds_keys_nodup {height : Nat} {txs : List (Transaction G)}
    (hhash : (txs.map (Transaction.hash S)).Nodup) (hlen : ∀ tx ∈ txs, tx.outputs.length ≤ 256) :
    ((blockAdds S height txs).map OutputAdd.key).Nodup := by
  rw [blockAdds, map_flatMap, nodup_flatMap]
  refine ⟨fun tx htx => txAdds_keys_nodup S (hlen tx htx), ?_⟩
  refine (pairwise_map.mp hhash).imp ?_
  intro tx tx' hne k hk hk'
  obtain ⟨a, ha, rfl⟩ := mem_map.mp hk
  obtain ⟨a', ha', heq⟩ := mem_map.mp hk'
  obtain ⟨o, -, rfl⟩ := mem_map.mp ha
  obtain ⟨o', -, rfl⟩ := mem_map.mp ha'
  exact hne (congrArg Prod.fst heq).symm

/-! ## 3. Facts about a valid block -/

variable [DecidableEq F] [DecidableEq G]

namespace BlockChecks

variable {S} {cfg : NodeConfig} {ctx : CallContext G} {b : Block G} {prev : Option (Block G)}
  {U : UtxoSet} {cp : Option Nat} {network : NetworkType}
  (h : BlockChecks S cfg ctx b prev U cp network)

include h

theorem txErrors_eq_nil {c tx : Transaction G}
    (hb : b.transactions = c :: rest) (htx : tx ∈ rest) : ∃ idx,
      txErrors S cfg ctx U b.height network (fastSync cfg b.height cp) (tx, idx) = [] := by
  obtain ⟨idx, hidx⟩ := mem_nonFirst hb htx
  have hlate := h.late
  rw [lateErrors, append_eq_nil_iff, flatMap_eq_nil_iff] at hlate
  exact ⟨idx, hlate.2 _ hidx⟩

theorem coinbase_first :
    ∃ c rest, b.transactions = c :: rest ∧ c.isCoinbase = true ∧
      ∀ tx ∈ rest, tx.isCoinbase = false := by
  cases hb : b.transactions with
  | nil => exact absurd hb h.nonempty
  | cons c rest =>
    refine ⟨c, rest, rfl, ?_, fun tx htx => ?_⟩
    · have hc := h.firstCoinbase
      simpa [checkBlockFirstTxIsCoinbase, Block.coinbase, hb] using hc
    · -- a later coinbase would be reported, with and without fast-sync
      obtain ⟨idx, herr⟩ := h.txErrors_eq_nil hb htx
      cases htxc : tx.isCoinbase with
      | false => rfl
      | true => simp [txErrors, htxc] at herr

theorem validate_ok (hfs : fastSync cfg b.height cp = false)
    (hb : b.transactions = c :: rest) (htx : tx ∈ rest) :
    validateTransactionForNetwork S cfg ctx tx U b.height network = .ok () := by
  obtain ⟨idx, herr⟩ := h.txErrors_eq_nil hb htx
  unfold txErrors at herr
  split_ifs at herr with hcb hfs'
  · simp [hfs] at hfs'
  · cases hv : validateTransactionForNetwork S cfg ctx tx U b.height network with
    | ok u => rfl
    | error e => simp [hv] at herr

theorem txChecks (hfs : fastSync cfg b.height cp = false) (htx : tx ∈ b.transactions)
    (hcb : tx.isCoinbase = false) :
    TxChecks S cfg ctx tx U b.height (v1012RulesActive network b.height) := by
  obtain ⟨c, rest, hb, hc, -⟩ := h.coinbase_first
  have htx' : tx ∈ rest := by
    rw [hb, mem_cons] at htx
    rcases htx with rfl | htx
    · rw [hc] at hcb
      cases hcb
    · exact htx
  exact ((validateTransaction_ok_iff S).mp (h.validate_ok hfs hb htx')).2 hcb

theorem txHashes_nodup : (txHashes S b).Nodup := by
  obtain ⟨maxCb, -, hd⟩ := h.coinbase
  simp only [coinbaseAndDuplicateErrors, append_eq_nil_iff] at hd
  have hdup := hd.1.1.1.2
  rw [checkBlockDuplicateTxHashes, map_eq_nil_iff, duplicatesBy_nil_eq_nil_iff] at hdup
  simpa using hdup

theorem keyImages_nodup : (b.transactions.flatMap Transaction.keyImages).Nodup := by
  obtain ⟨maxCb, -, hd⟩ := h.coinbase
  simp only [coinbaseAndDuplicateErrors, append_eq_nil_iff] at hd
  have hdup := hd.1.1.2
  rw [checkBlockDuplicateKeyImages, map_eq_nil_iff, duplicatesBy_nil_eq_nil_iff] at hdup
  simpa using hdup

theorem spentKeyImages_eq :
    ∃ c rest, b.transactions = c :: rest ∧ c.isCoinbase = true ∧
      spentKeyImages b.transactions = rest.flatMap Transaction.keyImages := by
  obtain ⟨c, rest, hb, hc, hrest⟩ := h.coinbase_first
  refine ⟨c, rest, hb, hc, ?_⟩
  rw [hb, spentKeyImages, flatMap_cons, if_pos hc, nil_append]
  exact flatMap_congr fun tx htx => by simp [hrest tx htx]

theorem spentKeyImages_nodup : (spentKeyImages b.transactions).Nodup := by
  obtain ⟨c, rest, hb, -, hspent⟩ := h.spentKeyImages_eq
  have hnd := h.keyImages_nodup
  rw [hb, flatMap_cons] at hnd
  rw [hspent]
  exact hnd.of_append_right

section

variable (hfs : fastSync cfg b.height cp = false)

include hfs

theorem spentKeyImages_fresh : ∀ k ∈ spentKeyImages b.transactions, k ∉ U.keyImages := by
  obtain ⟨c, rest, hb, -, hspent⟩ := h.spentKeyImages_eq
  obtain ⟨c', rest', hb', -, hrest⟩ := h.coinbase_first
  obtain ⟨rfl, rfl⟩ := List.cons.inj (hb.symm.trans hb')
  intro k hk
  rw [hspent] at hk
  obtain ⟨tx, htx, hk⟩ := mem_flatMap.mp hk
  have hok := (validateTransaction_ok_iff S).mp (h.validate_ok hfs hb htx)
  exact (checkTxNoDoubleSpend_ok_iff.mp (hok.2 (hrest tx htx)).noDoubleSpend).2 k hk

theorem outputs_length_le : ∀ tx ∈ b.transactions, tx.outputs.length ≤ 16 := by
  obtain ⟨c, rest, hb, -, hrest⟩ := h.coinbase_first
  intro tx htx
  rw [hb, mem_cons] at htx
  rcases htx with rfl | htx
  · obtain ⟨maxCb, -, hd⟩ := h.coinbase
    simp only [coinbaseAndDuplicateErrors, append_eq_nil_iff, Block.coinbase, hb,
      head?_cons, coinbaseErrors, errorUnless_eq_nil_iff] at hd
    exact hd.1.1.1.1.2.1.1.2
  · have hok := (validateTransaction_ok_iff S).mp (h.validate_ok hfs hb htx)
    exact (checkTxInputOutputCounts_ok (hok.2 (hrest tx htx)).counts).2

theorem adds_keys_nodup (height : Nat) :
    ((blockAdds S height b.transactions).map OutputAdd.key).Nodup :=
  blockAdds_keys_nodup S h.txHashes_nodup fun tx htx =>
    (h.outputs_length_le hfs tx htx).trans (by decide)

end

theorem exists_parent (h0 : 0 < b.height) :
    ∃ p, prev = some p ∧ b.header.prevHash = p.header.hash S := by
  cases prev with
  | none =>
    have hpow := h.pow
    simp [powStage, h0] at hpow
  | some p =>
    refine ⟨p, rfl, ?_⟩
    have hheader := h.header
    simp only [validateHeader, checkHeaderVsPrev, Option.map_some, append_eq_nil_iff,
      errorUnless_eq_nil_iff] at hheader
    exact hheader.1.1.2.1.2

end BlockChecks

end Coincync
