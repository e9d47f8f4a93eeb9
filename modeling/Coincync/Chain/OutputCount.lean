/-
# Counting the outputs of the chain

The size of a ring depends on how many outputs there are to draw from.  The node does not count
them: it keeps the number of outputs EVER added and the number of outputs removed by a
reorganisation, and takes the difference.  Both depend on the path; the difference ought to depend
on the chain alone.
-/
import Coincync.Chain.Indexed

namespace Coincync

open Lib List Option

/-! ## 1. The counters of a set -/

theorem toNat_add_ofNat {n : UInt64} {k : Nat} (h : n.toNat + k < 2 ^ 64) :
    (n + UInt64.ofNat k).toNat = n.toNat + k := by
  rw [UInt64.toNat_add, UInt64.toNat_ofNat', Nat.mod_eq_of_lt (by omega : k < 2 ^ 64),
    Nat.mod_eq_of_lt h]

theorem toNat_iterate_saturatingSucc {n : UInt64} : ∀ {k : Nat}, n.toNat + k < 2 ^ 64 →
    (saturatingSucc^[k] n).toNat = n.toNat + k
  | 0, _ => rfl
  | k + 1, h => by
    have ih := toNat_iterate_saturatingSucc (n := n) (k := k) (by omega)
    rw [Function.iterate_succ_apply', saturatingSucc, if_neg]
    · have hone := toNat_add_ofNat (n := saturatingSucc^[k] n) (k := 1) (by omega)
      rw [show (1 : UInt64) = UInt64.ofNat 1 from rfl, hone, ih, add_assoc]
    · intro hmax
      rw [hmax, UInt64.toNat_ofNat'] at ih
      omega

/-- **The set holds exactly these outputs, and the counters differ by their number.** -/
structure Counts (U : UtxoSet) (adds : List OutputAdd) : Prop where
  outputs : Map.Lists U.outputs adds OutputAdd.key OutputAdd.outputRef
  locatorOutputs : Map.Lists U.locatorOutputs adds OutputAdd.key OutputAdd.locatorOutput
  keys_nodup : (adds.map OutputAdd.key).Nodup
  count : U.totalOutputsEver.toNat = U.reorgDisconnectsTotal.toNat + adds.length

namespace Counts

variable {U : UtxoSet} {adds : List OutputAdd}

theorem new_nil (db : Option OutputIndexDb) : Counts { UtxoSet.new with db := db } [] :=
  ⟨Map.lists_empty _ _, Map.lists_empty _ _, nodup_nil, rfl⟩

theorem evict (h : Counts U adds) (currentHeight keepDepth : Nat) :
    Counts (U.evictOldOutputs currentHeight keepDepth) adds := by
  unfold UtxoSet.evictOldOutputs
  split_ifs
  · exact h
  · exact ⟨h.outputs, h.locatorOutputs, h.keys_nodup, h.count⟩

theorem setDb (h : Counts U adds) (db : Option OutputIndexDb) : Counts { U with db := db } adds :=
  ⟨h.outputs, h.locatorOutputs, h.keys_nodup, h.count⟩

theorem availableOutputs_eq (h : Counts U adds) : availableOutputs U true = adds.length := by
  rw [availableOutputs, if_pos rfl, h.count, Nat.add_sub_cancel_left]

end Counts

section

variable {F G : Type} [Field F] [AddCommGroup G] [Module F G] {S : Suite F G}

theorem length_chainAdds_reverse (l : List (Block G)) :
    (chainAdds S l.reverse).length = (chainAdds S l).length :=
  (l.reverse_perm.flatMap_right _).length_eq

namespace Counts

variable {U : UtxoSet} {adds : List OutputAdd} {height : Nat} {txs : List (Transaction G)}

/-- **Connecting a block** counts its outputs. -/
theorem connect (h : Counts U adds)
    (hkeys : ((blockAdds S height txs ++ adds).map OutputAdd.key).Nodup)
    (hlt : U.totalOutputsEver.toNat + (blockAdds S height txs).length < 2 ^ 64) :
    Counts (U.connect S height txs) (blockAdds S height txs ++ adds) ∧
      (U.connect S height txs).totalOutputsEver.toNat =
        U.totalOutputsEver.toNat + (blockAdds S height txs).length := by
  have hcount := h.count
  have htotal := toNat_add_ofNat hlt
  rw [UtxoSet.connect_eq, UtxoSet.foldl_addOutputExt]
  refine ⟨⟨h.outputs.insertAll hkeys, h.locatorOutputs.insertAll hkeys, hkeys, ?_⟩, htotal⟩
  change (U.totalOutputsEver + _).toNat = U.reorgDisconnectsTotal.toNat + _
  rw [htotal, length_append]
  omega

/-- **Disconnecting the block on top** counts its outputs, and every one is found. -/
theorem disconnect (h : Counts U (blockAdds S height txs ++ adds)) :
    Counts (U.disconnect S txs) adds ∧
      (U.disconnect S txs).totalOutputsEver = U.totalOutputsEver := by
  have hkeys := h.keys_nodup
  have hkeys' := h.keys_nodup
  rw [map_append] at hkeys'
  have hheld : UtxoSet.HoldsAdds U (blockAdds S height txs) := fun a ha =>
    ⟨h.outputs.lookup (mem_append_left _ ha),
      h.locatorOutputs.lookup (mem_append_left _ ha)⟩
  have hcount := h.count
  have hlt : U.totalOutputsEver.toNat < 2 ^ 64 := U.totalOutputsEver.toNat_lt
  rw [length_append] at hcount
  rw [UtxoSet.disconnect_eq S U height, UtxoSet.foldl_removeOutput _ _ hkeys'.of_append_left hheld]
  refine ⟨⟨h.outputs.eraseAll hkeys, h.locatorOutputs.eraseAll hkeys, hkeys'.of_append_right, ?_⟩,
    rfl⟩
  change U.totalOutputsEver.toNat = (saturatingSucc^[_] U.reorgDisconnectsTotal).toNat + _
  rw [toNat_iterate_saturatingSucc (by omega)]
  omega

theorem connectAll : ∀ {l below : List (Block G)} {U : UtxoSet}, Counts U (chainAdds S below) →
    ((chainAdds S (l.reverse ++ below)).map OutputAdd.key).Nodup →
    U.totalOutputsEver.toNat + (chainAdds S l).length < 2 ^ 64 →
    Counts (U.connectAll S l) (chainAdds S (l.reverse ++ below)) ∧
      (U.connectAll S l).totalOutputsEver.toNat =
        U.totalOutputsEver.toNat + (chainAdds S l).length
  | [], _, _, h, _, _ => ⟨h, rfl⟩
  | b :: l, below, U, h, hkeys, hlt => by
    rw [reverse_cons, append_assoc] at hkeys ⊢
    rw [chainAdds_cons, length_append] at hlt ⊢
    have hb : ((chainAdds S (b :: below)).map OutputAdd.key).Nodup := by
      rw [chainAdds_append, map_append] at hkeys
      exact hkeys.of_append_right
    obtain ⟨h₁, htotal⟩ := h.connect hb (by omega)
    obtain ⟨h₂, htotal'⟩ := connectAll (l := l) h₁ hkeys (by omega)
    refine ⟨h₂, ?_⟩
    change ((U.connect S b.height b.transactions).connectAll S l).totalOutputsEver.toNat = _
    omega

theorem disconnectAll : ∀ {above below : List (Block G)} {U : UtxoSet},
    Counts U (chainAdds S (above ++ below)) →
    Counts (U.disconnectAll S above) (chainAdds S below) ∧
      (U.disconnectAll S above).totalOutputsEver = U.totalOutputsEver
  | [], _, _, h => ⟨h, rfl⟩
  | a :: above, below, U, h => by
    rw [cons_append, chainAdds_cons] at h
    obtain ⟨h₁, htotal⟩ := h.disconnect
    obtain ⟨h₂, htotal'⟩ := disconnectAll h₁
    exact ⟨h₂, htotal'.trans htotal⟩

/-- **A failed reorganisation** connects a part of the side chain and the old branch again. -/
theorem restored {above below done left : List (Block G)} {b : Block G}
    (h : Counts U (chainAdds S (above ++ below)))
    (hkeys : ((chainAdds S (b :: ((done ++ left).reverse ++ below))).map OutputAdd.key).Nodup)
    (hlt : U.totalOutputsEver.toNat + (chainAdds S (above ++ below)).length +
      (chainAdds S (b :: ((done ++ left).reverse ++ below))).length < 2 ^ 64) :
    Counts (Blockchain.restoredUtxos S U above done) (chainAdds S (above ++ below)) := by
  have hpart : chainAdds S (b :: ((done ++ left).reverse ++ below)) =
      chainAdds S (b :: left.reverse) ++ chainAdds S (done.reverse ++ below) := by
    rw [← chainAdds_append, reverse_append, append_assoc, cons_append]
  have hdone := length_chainAdds_reverse (S := S) done
  have habove := length_chainAdds_reverse (S := S) above
  have hold : above.reverse.reverse ++ below = above ++ below := by rw [reverse_reverse]
  have hnd := h.keys_nodup
  rw [hpart, length_append, chainAdds_append, chainAdds_append, length_append, length_append] at hlt
  rw [hpart, map_append] at hkeys
  obtain ⟨h₁, ht₁⟩ := h.disconnectAll
  obtain ⟨h₂, ht₂⟩ := h₁.connectAll (l := done) hkeys.of_append_right (by rw [ht₁]; omega)
  obtain ⟨h₃, ht₃⟩ := h₂.disconnectAll
  have h₄ := (h₃.connectAll (l := above.reverse) (hold.symm ▸ hnd)
    (by rw [ht₃, ht₂, ht₁]; omega)).1
  rwa [hold] at h₄

/-- **A committed reorganisation** connects the side chain and its tip. -/
theorem committed {above below fork : List (Block G)} {b : Block G}
    (h : Counts U (chainAdds S (above ++ below)))
    (hkeys : ((chainAdds S (b :: (fork.reverse ++ below))).map OutputAdd.key).Nodup)
    (hlt : U.totalOutputsEver.toNat + (chainAdds S (b :: (fork.reverse ++ below))).length < 2 ^ 64) :
    Counts (((U.disconnectAll S above).connectAll S fork).connect S b.height b.transactions)
        (chainAdds S (b :: (fork.reverse ++ below))) ∧
      (((U.disconnectAll S above).connectAll S fork).connect S b.height
        b.transactions).totalOutputsEver.toNat ≤
        U.totalOutputsEver.toNat + (chainAdds S (b :: (fork.reverse ++ below))).length := by
  have hnew : (fork ++ [b]).reverse ++ below = b :: (fork.reverse ++ below) := by simp
  have hlength : (chainAdds S (fork ++ [b])).length ≤
      (chainAdds S (b :: (fork.reverse ++ below))).length := by
    rw [← length_chainAdds_reverse (fork ++ [b]), ← hnew, chainAdds_append, length_append]
    exact Nat.le_add_right _ _
  obtain ⟨h₁, ht₁⟩ := h.disconnectAll
  obtain ⟨h₂, ht₂⟩ := h₁.connectAll (l := fork ++ [b]) (hnew.symm ▸ hkeys) (by rw [ht₁]; omega)
  rw [hnew] at h₂
  rw [UtxoSet.connectAll, foldl_append] at h₂ ht₂
  refine ⟨h₂, ht₂.le.trans ?_⟩
  rw [ht₁]
  exact Nat.add_le_add_left hlength _

end Counts

/-! ## 2. Along a run -/

namespace Blockchain

variable {cfg : NodeConfig} {st st' : Blockchain G} {d : Database G} {chain : List (Block G)}

theorem counts_of_restarts {s : ChainStateData} (hx : Counts st.utxos (chainAdds S chain))
    (h : Restarts S st d chain s st') : Counts st'.utxos (chainAdds S chain) := by
  have hcount := hx.count
  have hlt : st.utxos.totalOutputsEver.toNat < 2 ^ 64 := st.utxos.totalOutputsEver.toNat_lt
  have hlength := length_chainAdds_reverse (S := S) chain
  have hchain : chain.reverse.reverse ++ [] = chain := by simp
  rw [h.utxos]
  have hnew : Counts { UtxoSet.new with db := st.utxos.db } (chainAdds S []) := Counts.new_nil _
  have hroom : (0 : UInt64).toNat + (chainAdds S chain.reverse).length < 2 ^ 64 := by
    rw [UInt64.toNat_zero]
    omega
  have hreplay := (hnew.connectAll (hchain.symm ▸ hx.keys_nodup) hroom).1
  rw [hchain] at hreplay
  exact (hreplay.setDb _).evict _ _

variable [DecidableEq F] [DecidableEq G]

/-- **The condition on a step**: it is one that the chain survives, and an admitted block's lineage
has no output key twice, with room in the counters for its outputs and those of the chain. -/
def CountStep (S : Suite F G) (cfg : NodeConfig) (st : Blockchain G) (a : Action G) : Prop :=
  st.Allowed a ∧
    match a with
    | .add ctx b => Admitted S cfg (ctx 0) st b →
        ((chainAdds S (st.lineageOf S b)).map OutputAdd.key).Nodup ∧
        st.utxos.totalOutputsEver.toNat + (chainAdds S (st.canonicalChain S)).length +
          (chainAdds S (st.lineageOf S b)).length < 2 ^ 64
    | _ => True

/-- A test for the condition that validates nothing. -/
def countTest (S : Suite F G) (st : Blockchain G) (a : Action G) : Bool :=
  decide (st.Allowed a) &&
    match a with
    | .add _ b => decide (((chainAdds S (st.lineageOf S b)).map OutputAdd.key).Nodup ∧
        st.utxos.totalOutputsEver.toNat + (chainAdds S (st.canonicalChain S)).length +
          (chainAdds S (st.lineageOf S b)).length < 2 ^ 64)
    | _ => true

theorem countStep_of_test (st : Blockchain G) (a : Action G) (h : countTest S st a = true) :
    CountStep S cfg st a := by
  obtain ⟨hallowed, hcond⟩ := Bool.and_eq_true_iff.mp h
  refine ⟨of_decide_eq_true hallowed, ?_⟩
  cases a with
  | add ctx b => exact fun _ => of_decide_eq_true hcond
  | rollback => trivial
  | restart => trivial

/-- **One step keeps the count.** -/
theorem counts_step {a : Action G} {chain' : List (Block G)}
    (hx : Counts st.utxos (chainAdds S chain)) (hc : Canonical S st d chain)
    (ha : CountStep S cfg st a) (h : ActionStep S cfg st d chain a st' chain') :
    Counts st'.utxos (chainAdds S chain') := by
  obtain ⟨-, hcond⟩ := ha
  cases h with
  | idle => exact hx
  | restarted s hs => exact counts_of_restarts hx hs
  | rolledBack _ hchain _ hroll =>
    rw [hroll.utxos]
    rw [hchain] at hx
    exact hx.disconnectAll.1
  | @add ctx b _ _ _ hstep =>
    cases hstep with
    | refused => exact hx
    | kept => exact hx
    | extended hadm hlin hext =>
      obtain ⟨hkeys, hlt⟩ := hcond hadm
      rw [hlin] at hkeys hlt
      rw [chainAdds_cons] at hkeys
      rw [hc.canonicalChain_eq, chainAdds_cons, length_append] at hlt
      rw [(extends_of_eq_some hext).utxos]
      exact ((hx.connect hkeys (by omega)).1.evict _ _).setDb _
    | failed e hadm _ hlin hbr hre =>
      obtain ⟨hkeys, hlt⟩ := hcond hadm
      rw [hlin] at hkeys hlt
      rw [hc.canonicalChain_eq] at hlt
      rw [hbr.chain_eq] at hx hlt ⊢
      cases hre with
      | failed _ hfork _ _ =>
        rw [hfork] at hkeys hlt
        exact hx.restored hkeys hlt
    | committed orphaned hadm hlin hbr hre =>
      obtain ⟨hkeys, hlt⟩ := hcond hadm
      rw [hlin] at hkeys hlt
      rw [hc.canonicalChain_eq] at hlt
      rw [hbr.chain_eq] at hx hlt
      cases hre with
      | committed _ _ _ hconnected hcommit =>
        rw [(commits_of_eq_some hcommit).utxos, hconnected]
        exact (hx.committed hkeys (by omega)).1.setDb _

variable {network : NetworkType}

omit [DecidableEq F] [DecidableEq G] in
theorem counts_of_boot (h : boot S network = .ok st) :
    Counts st.utxos (chainAdds S [createGenesisBlockFor S network]) := by
  obtain ⟨cut, -, hU⟩ := indexed_of_boot h
  have hkeys := hU.keys_nodup
  obtain ⟨-, rfl⟩ := boot_eq_ok h
  have hnew : Counts { UtxoSet.new with db := some ∅ } (chainAdds S []) := Counts.new_nil _
  obtain ⟨a, ha⟩ := chainAdds_genesis S network
  rw [chainAdds_cons, createGenesisBlockFor_height_eq] at hkeys ha ⊢
  have hone := congrArg List.length ha
  rw [length_append] at hone
  refine (hnew.connect hkeys ?_).1.setDb _
  change 0 + _ < _
  simp only [length_singleton] at hone
  omega

theorem exists_counts {st₀ : Blockchain G} (h₀ : boot S network = .ok st₀)
    (h : Reaches (step S cfg) (CountStep S cfg) st₀ st) :
    ∃ d chain, Canonical S st d chain ∧ st.network = network ∧
      Counts st.utxos (chainAdds S chain) := by
  refine Reaches.invariant (I := fun st => ∃ d chain, Canonical S st d chain ∧
    st.network = network ∧ Counts st.utxos (chainAdds S chain)) ?_ ?_ h
  · obtain ⟨⟨d, hc⟩, -⟩ := canonical_of_boot h₀
    exact ⟨d, _, hc, by rw [(boot_eq_ok h₀).2]; rfl, counts_of_boot h₀⟩
  · rintro s a s' ⟨d, chain, hc, hnet, hx⟩ ha hs
    obtain ⟨chain', hstep⟩ := hc.actionStep ha.1 hs
    obtain ⟨d', hc'⟩ := hstep.canonical hc ha.1
    exact ⟨d', chain', hc', (hstep.blocks hc).1.trans hnet, counts_step hx hc ha hstep⟩

omit [DecidableEq F] [DecidableEq G] in
theorem canonicalChain_eq_of_tip {st₁ st₂ : Blockchain G} {d₁ d₂ : Database G}
    {chain₁ chain₂ : List (Block G)} (h₁ : Canonical S st₁ d₁ chain₁)
    (h₂ : Canonical S st₂ d₂ chain₂) (hnet : st₁.network = st₂.network)
    (htip : st₁.tip.hash = st₂.tip.hash)
    (hagree : ∀ k a b, st₁.getBlock k = some a → st₂.getBlock k = some b → a = b) :
    chain₁ = chain₂ := by
  obtain ⟨t₁, rest₁, rfl, hhash₁, -⟩ := h₁.tip
  obtain ⟨t₂, rest₂, rfl, hhash₂, -⟩ := h₂.tip
  rw [h₁.getBlock_eq, h₂.getBlock_eq] at hagree
  -- one store that has the blocks of both
  have hboth₁ : Stored (blockLinks S) (fun k => (d₁.blocks.lookup k).or (d₂.blocks.lookup k))
      (t₁ :: rest₁) :=
    h₁.stored.mono fun k b hb => by rw [hb, some_or]
  have hboth₂ : Stored (blockLinks S) (fun k => (d₁.blocks.lookup k).or (d₂.blocks.lookup k))
      (t₂ :: rest₂) := by
    refine h₂.stored.mono fun k b hb => ?_
    cases hk : d₁.blocks.lookup k with
    | none => rw [hb, none_or]
    | some a => rw [hagree k a b hk hb, some_or]
  have hhash : t₁.hash S = t₂.hash S := by rw [← hhash₁, htip, hhash₂]
  obtain rfl : t₁ = t₂ := hagree (t₁.hash S) t₁ t₂ (h₁.stored t₁ (.head _))
    (hhash ▸ h₂.stored t₂ (.head _))
  have hl₂ := h₂.lineage
  rw [← hnet] at hl₂
  rw [Lineage.unique h₁.lineage hl₂ (hboth₁.sublist fun x hx => mem_cons_of_mem _ hx)
    (hboth₂.sublist fun x hx => .tail _ hx)]

/-- **The ring-size input is the number of outputs of the canonical chain**, in every run whose
blocks' lineages have no output key twice; so two nodes on one tip ask for rings of one size, at
every height, whatever they have seen before. -/
theorem ringOutputs_eq_length {network : NetworkType} {st₀ : Blockchain G}
    (h₀ : boot S network = .ok st₀) (h : Reaches (step S cfg) (CountStep S cfg) st₀ st) :
    availableOutputs st.utxos true = (chainAdds S (st.canonicalChain S)).length ∧
    ∀ st', Reaches (step S cfg) (CountStep S cfg) st₀ st' → st'.tip.hash = st.tip.hash →
      (∀ k a b, st.getBlock k = some a → st'.getBlock k = some b → a = b) →
      ∀ height, effectiveRingSize height (availableOutputs st'.utxos true) =
        effectiveRingSize height (availableOutputs st.utxos true) := by
  obtain ⟨d, chain, hc, hnet, hx⟩ := exists_counts h₀ h
  refine ⟨by rw [hx.availableOutputs_eq, hc.canonicalChain_eq], fun st' h' htip hagree height => ?_⟩
  obtain ⟨d', chain', hc', hnet', hx'⟩ := exists_counts h₀ h'
  rw [hx.availableOutputs_eq, hx'.availableOutputs_eq,
    canonicalChain_eq_of_tip hc hc' (hnet.trans hnet'.symm) htip.symm hagree]

end Blockchain

end

/-! ## 3. On the small chain -/

namespace SmallChain

open Blockchain SmallSuite

def generousSpend : Transaction Z :=
  { spendTx [spendInput 41 ⟨41, 87, encode 3, [encode 83, encode 4]⟩,
      spendInput 18 ⟨18, 30, encode 4, [encode 3, encode 48]⟩] with
    outputs := [spendOutput 61 40, spendOutput 62 60]
    fee := ⟨25000000⟩
    rangeProof := [3] ++ lenBytes 32 ++
      (digest 32 3 ((compress 40).toList ++ (compress 60).toList)).toList }

def twin2 : Block Z :=
  child block1 (nextTarget [genesis, block1])
    [coinbaseTx (calculateBlockReward 1).atomic 5, generousSpend]

def twinned : Blockchain Z :=
  (ranOn [.restart, .add steady block1, .add steady twin2]).getD booted

def untwinned : Blockchain Z :=
  (ranOn [.restart, .add steady block1, .add steady twin2, .add steady heavy1]).getD booted

/-- **An output counted twice and removed once.** -/
theorem twin_coinbase_miscounted : Reaches (step suite cfg) (fun _ _ => True) booted untwinned ∧
    twinned.canonicalChain suite = [twin2, block1, genesis] ∧
    untwinned.canonicalChain suite = [heavy1, genesis] ∧
    (chainAdds suite [heavy1, genesis]).length = 2 ∧
    untwinned.utxos.totalOutputsEver = 6 ∧ untwinned.utxos.reorgDisconnectsTotal = 3 ∧
    availableOutputs untwinned.utxos true = 3 := by
  refine ⟨reaches_ranOn ?_, ?_⟩
  · decide +kernel
  · decide +kernel

/-- A reorganisation counted right: three outputs were added and one removed. -/
theorem reorganized_count :
    ∃ st, run (step suite cfg) (countTest suite) booted
        [.restart, .add steady block1, .add steady heavy1] = some st ∧
      st.utxos.reorgDisconnectsTotal = 1 ∧ availableOutputs st.utxos true = 2 := by
  have hrun : (run (step suite cfg) (countTest suite) booted
      [.restart, .add steady block1, .add steady heavy1]).any (fun st =>
        decide (st.utxos.reorgDisconnectsTotal = 1) &&
          decide ((chainAdds suite (st.canonicalChain suite)).length = 2)) = true := by
    decide +kernel
  obtain ⟨st, hst, hlast⟩ := (Option.any_eq_true _ _).mp hrun
  simp only [Bool.and_eq_true, decide_eq_true_eq] at hlast
  obtain ⟨hremoved, hlength⟩ := hlast
  have hreach := Reaches.run (P := CountStep suite cfg) countStep_of_test .start hst
  refine ⟨st, hst, hremoved, ?_⟩
  rw [(ringOutputs_eq_length boot_booted hreach).1, hlength]

end SmallChain

end Coincync
