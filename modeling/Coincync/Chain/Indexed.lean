/-
# The UTXO set follows the chain

The UTXO set is updated block by block, and rewound block by block.  As long as no output key and
no address occurs twice on a chain that the node ever connects, the set is at every moment the
index of the canonical chain (`Indexed`): what it holds is a FUNCTION of the chain, so it does not
matter by which connects and disconnects the node got there.  The address index in memory is
evicted from below, but never down to the finality floor, so every block that can be disconnected
is still in it.
-/
import Coincync.Chain.Runs
import Coincync.Consensus.KeyImages
import Coincync.Storage.Mirror

namespace Coincync

open Lib List

variable {F G : Type} [Field F] [AddCommGroup G] [Module F G] (S : Suite F G)

/-! ## 1. The outputs of a chain -/

/-- The outputs of a chain, newest block first. -/
def chainAdds (chain : List (Block G)) : List OutputAdd :=
  chain.flatMap fun b => blockAdds S b.height b.transactions

omit [AddCommGroup G] in
/-- The key images spent on a chain, newest block first. -/
def chainSpent (chain : List (Block G)) : List KeyImage :=
  chain.flatMap fun b => spentKeyImages b.transactions

/-- **No output key and no address occurs twice** on the chain. -/
@[mk_iff]
structure NoReuse (chain : List (Block G)) : Prop where
  keys : ((chainAdds S chain).map OutputAdd.key).Nodup
  addresses : ((chainAdds S chain).map OutputAdd.stealth).Nodup

instance (chain : List (Block G)) : Decidable (NoReuse S chain) :=
  decidable_of_iff' _ (noReuse_iff S chain)

/-- The set indexes the chain, with the address index cut off below `cut`. -/
def UtxoSet.Indexes (U : UtxoSet) (chain : List (Block G)) (cut : Nat) : Prop :=
  Mirrors U (chainAdds S chain) (chainSpent chain) cut

variable {S} {U : UtxoSet} {above below : List (Block G)} {cut : Nat}

theorem chainAdds_cons (b : Block G) (chain : List (Block G)) :
    chainAdds S (b :: chain) = blockAdds S b.height b.transactions ++ chainAdds S chain :=
  flatMap_cons

theorem chainAdds_append : chainAdds S (above ++ below) = chainAdds S above ++ chainAdds S below :=
  flatMap_append

theorem NoReuse.of_append (h : NoReuse S (above ++ below)) : NoReuse S below := by
  obtain ⟨hkeys, haddr⟩ := h
  rw [chainAdds_append, map_append] at hkeys haddr
  exact ⟨hkeys.of_append_right, haddr.of_append_right⟩

omit [AddCommGroup G] in
theorem chainSpent_nodup_of_append (h : (chainSpent (above ++ below)).Nodup) :
    (chainSpent below).Nodup := by
  rw [chainSpent, flatMap_append] at h
  exact h.of_append_right

namespace UtxoSet.Indexes

theorem noReuse (h : U.Indexes S below cut) : NoReuse S below := ⟨h.keys_nodup, h.addresses_nodup⟩

theorem disconnectAll : ∀ {above : List (Block G)} {U : UtxoSet}, (∀ x ∈ above, cut ≤ x.height) →
    U.Indexes S (above ++ below) cut → (U.disconnectAll S above).Indexes S below cut
  | [], _, _, h => h
  | a :: above, U, hcut, h => by
    change ((U.disconnect S a.transactions).disconnectAll S above).Indexes S below cut
    exact disconnectAll (fun x hx => hcut x (.tail _ hx))
      (Mirrors.disconnect S (hcut a (.head _)) h)

theorem connectAll : ∀ {l below : List (Block G)} {U : UtxoSet}, U.Indexes S below cut →
    (∀ x ∈ l, cut ≤ x.height) → NoReuse S (l.reverse ++ below) →
    (chainSpent (l.reverse ++ below)).Nodup → (U.connectAll S l).Indexes S (l.reverse ++ below) cut
  | [], _, _, h, _, _, _ => h
  | b :: l, below, U, h, hcut, hreuse, hspent => by
    rw [reverse_cons, append_assoc] at hreuse hspent ⊢
    have hb := hreuse.of_append
    refine connectAll ?_ (fun x hx => hcut x (.tail _ hx)) hreuse hspent
    exact Mirrors.connect S h (hcut b (.head _)) hb.keys hb.addresses
      (chainSpent_nodup_of_append hspent)

theorem replay (hU : U.Indexes S below cut) (db : Option OutputIndexDb) :
    (({ UtxoSet.new with db := db } : UtxoSet).connectAll S below.reverse).Indexes S below 0 := by
  have hnew : UtxoSet.Indexes S { UtxoSet.new with db := db } ([] : List (Block G)) 0 :=
    Mirrors.new_nil _
  have hchain : below.reverse.reverse ++ [] = below := by simp
  have hreplay := hnew.connectAll (l := below.reverse) (fun x _ => zero_le)
    (hchain.symm ▸ hU.noReuse) (hchain.symm ▸ hU.spent_nodup)
  rwa [hchain] at hreplay

theorem db_disconnectAll : ∀ {above : List (Block G)} {U : UtxoSet},
    (∀ x ∈ above, cut ≤ x.height) → U.Indexes S (above ++ below) cut →
    (U.disconnectAll S above).db =
      U.db.map (Map.eraseAll ((chainAdds S above).map OutputAdd.stealth))
  | [], U, _, _ => by
    change U.db = U.db.map fun index => index
    rw [Option.map_id']
  | a :: above, U, hcut, h => by
    change ((U.disconnect S a.transactions).disconnectAll S above).db = _
    rw [db_disconnectAll (fun x hx => hcut x (mem_cons_of_mem _ hx))
      (Mirrors.disconnect S (hcut a (.head _)) h), Mirrors.db_disconnect S h,
      Option.map_map]
    congr 1
    funext index
    rw [chainAdds_cons, map_append, Map.eraseAll_append]
    rfl

end UtxoSet.Indexes

theorem UtxoSet.db_connect (U : UtxoSet) (height : Nat) (txs : List (Transaction G)) :
    (U.connect S height txs).db = U.db := by
  rw [connect_eq, foldl_addOutputExt]

theorem UtxoSet.db_connectAll : ∀ (l : List (Block G)) (U : UtxoSet), (U.connectAll S l).db = U.db
  | [], _ => rfl
  | b :: l, U => by
    change ((U.connect S b.height b.transactions).connectAll S l).db = U.db
    rw [db_connectAll l, db_connect]

theorem UtxoSet.db_evictOldOutputs (U : UtxoSet) (currentHeight keepDepth : Nat) :
    (U.evictOldOutputs currentHeight keepDepth).db = U.db := by
  unfold evictOldOutputs
  split_ifs with h
  · rfl
  · rfl

theorem Blockchain.insertOutputs_eq (adds : List OutputAdd) (index : OutputIndexDb) :
    insertOutputs adds index =
      Map.orInsertAll (adds.map fun a => (a.stealth, a.indexEntry)) index := by
  rw [Map.orInsertAll, foldl_map]
  rfl

section

variable [DecidableEq F] [DecidableEq G] {cfg : NodeConfig} {b : Block G}

theorem chainSpent_cons_nodup {ctx : CallContext G} {prev : Option (Block G)} {cp : Option Nat}
    {network : NetworkType} (hset : ∀ k, k ∈ U.keyImages ↔ k ∈ chainSpent below)
    (hspent : (chainSpent below).Nodup) (hfs : fastSync cfg b.height cp = false)
    (hvalid : (validateBlockWithCheckpointForNetwork S cfg ctx b prev U cp network).valid = true) :
    (chainSpent (b :: below)).Nodup := by
  have hb := (validateBlock_valid_iff S).mp hvalid
  refine hb.spentKeyImages_nodup.append hspent fun k hk hk' => ?_
  exact hb.spentKeyImages_fresh hfs k hk ((hset k).mpr hk')

variable {st : Blockchain G} {l : List (Block G)}

theorem Blockchain.ValidInTurn.chainSpent_nodup
    (hvalid : ValidInTurn S cfg st U l) : ∀ {below : List (Block G)},
    (∀ k, k ∈ U.keyImages ↔ k ∈ chainSpent below) → (chainSpent below).Nodup →
      (chainSpent (l.reverse ++ below)).Nodup := by
  induction hvalid with
  | nil U => exact fun _ h => h
  | @cons U b rest ctx hv _ ih =>
    intro below hset hspent
    rw [reverse_cons, append_assoc]
    refine ih (fun k => ?_) (chainSpent_cons_nodup hset hspent rfl hv)
    rw [keyImages_connect, Finset.mem_union, mem_toFinset, hset, or_comm]
    exact mem_append.symm

/-- **Connecting a side chain whose blocks are valid in turn.** -/
theorem UtxoSet.Indexes.connectAll_valid (h : U.Indexes S below cut)
    (hvalid : Blockchain.ValidInTurn S cfg st U l) (hcut : ∀ x ∈ l, cut ≤ x.height)
    (hreuse : NoReuse S (l.reverse ++ below)) :
    (U.connectAll S l).Indexes S (l.reverse ++ below) cut :=
  h.connectAll hcut hreuse (hvalid.chainSpent_nodup h.keyImages h.spent_nodup)

/-- **Down to the fork point, up the side chain, down again, up the old chain**: the set is the
index of the old chain again, and the addresses of both branches are gone from the disk. -/
theorem UtxoSet.Indexes.restored {done : List (Block G)} (hU : U.Indexes S (above ++ below) cut)
    (habove : ∀ x ∈ above, cut ≤ x.height) (hdone : ∀ x ∈ done, cut ≤ x.height)
    (hreuse : NoReuse S (done.reverse ++ below))
    (hvalid : Blockchain.ValidInTurn S cfg st (U.disconnectAll S above) done) :
    (Blockchain.restoredUtxos S U above done).Indexes S (above ++ below) cut ∧
      (Blockchain.restoredUtxos S U above done).db =
        U.db.map (Map.eraseAll ((chainAdds S (above ++ done.reverse)).map OutputAdd.stealth)) := by
  have hdone' : ∀ x ∈ done.reverse, cut ≤ x.height := fun x hx => hdone x (mem_reverse.mp hx)
  have hold : above.reverse.reverse ++ below = above ++ below := by rw [reverse_reverse]
  have h₁ := hU.disconnectAll habove
  have h₂ := h₁.connectAll_valid hvalid hdone hreuse
  have h₃ := h₂.disconnectAll hdone'
  have h₄ := h₃.connectAll (l := above.reverse)
    (fun x hx => habove x (mem_reverse.mp hx)) (hold.symm ▸ hU.noReuse)
    (hold.symm ▸ hU.spent_nodup)
  rw [hold] at h₄
  refine ⟨h₄, ?_⟩
  rw [Blockchain.restoredUtxos, UtxoSet.db_connectAll, h₂.db_disconnectAll hdone',
    UtxoSet.db_connectAll, hU.db_disconnectAll habove, Option.map_map]
  congr 1
  funext index
  rw [chainAdds_append, map_append, Map.eraseAll_append]
  rfl

end

namespace Blockchain

/-! ## 2. The set of a state -/

/-- **The UTXO set of a state indexes the chain**, and nothing above the finality floor is
evicted. -/
def Indexed (S : Suite F G) (st : Blockchain G) (chain : List (Block G)) : Prop :=
  ∃ cut ≤ st.finalityFloor, st.utxos.Indexes S chain cut

variable {cfg : NodeConfig} {st st' : Blockchain G} {d : Database G} {chain fork : List (Block G)}
  {q b : Block G}

theorem Indexed.extended (hx : Indexed S st chain) (hheight : b.height = st.tip.height + 1)
    (hreuse : NoReuse S (b :: chain)) (hspent : (chainSpent (b :: chain)).Nodup)
    (h : Extends S cfg st b st') : Indexed S st' (b :: chain) := by
  obtain ⟨cut, hcut, hU⟩ := hx
  have htip : st'.tip.height = b.height := by rw [h.tip]; rfl
  simp only [finalityFloor, checkpointInterval] at hcut
  have hconnect := Mirrors.connect S hU (by omega) hreuse.keys hreuse.addresses hspent
  refine ⟨max cut (b.height - 1000), ?_, ?_⟩
  · simp only [finalityFloor, checkpointInterval, htip]
    omega
  · rw [h.utxos]
    exact (hconnect.evict b.height 1000).setDb _

theorem Canonical.cut_le (hc : Canonical S st d chain) (hchain : chain = above ++ q :: below)
    (hfloor : st.finalityFloor ≤ q.height) (hcut : cut ≤ st.finalityFloor) :
    ∀ x ∈ above, cut ≤ x.height := by
  intro x hx
  have hlt : q.height < x.height := (hchain ▸ hc.lineage).height_above above x hx
  omega

theorem Indexed.rolledBack (hx : Indexed S st chain) (hc : Canonical S st d chain)
    (hchain : chain = above ++ q :: below) (hfloor : st.finalityFloor ≤ q.height)
    (hsame : st'.finalityFloor = st.finalityFloor) (h : RollsBack S cfg st d above q st') :
    Indexed S st' (q :: below) := by
  obtain ⟨cut, hcut, hU⟩ := hx
  refine ⟨cut, hsame ▸ hcut, ?_⟩
  rw [h.utxos]
  exact (hchain ▸ hU).disconnectAll (hc.cut_le hchain hfloor hcut)

theorem Indexed.restarted (hx : Indexed S st chain) {s : ChainStateData}
    (h : Restarts S st d chain s st') : Indexed S st' chain := by
  obtain ⟨cut, hcut, hU⟩ := hx
  refine ⟨max 0 (st.tip.height - 1000), ?_, ?_⟩
  · simp only [finalityFloor, checkpointInterval, h.tip_height]
    omega
  · rw [h.utxos]
    exact ((hU.replay _).setDb _).evict st.tip.height 1000

theorem chainSpent_genesis (S : Suite F G) (network : NetworkType) :
    chainSpent [createGenesisBlockFor S network] = [] := by
  rw [chainSpent, flatMap_singleton, spentKeyImages_genesis]

theorem chainAdds_genesis (S : Suite F G) (network : NetworkType) :
    ∃ a, chainAdds S [createGenesisBlockFor S network] = [a] := by
  obtain ⟨message, hm⟩ := createGenesisBlockFor_transactions S network
  rw [chainAdds, flatMap_singleton, hm]
  exact ⟨_, rfl⟩

theorem noReuse_genesis (S : Suite F G) (network : NetworkType) :
    NoReuse S [createGenesisBlockFor S network] := by
  obtain ⟨a, ha⟩ := chainAdds_genesis S network
  constructor
  · rw [ha]
    exact nodup_singleton _
  · rw [ha]
    exact nodup_singleton _

variable {network : NetworkType}

theorem indexed_of_boot (h : boot S network = .ok st) :
    Indexed S st [createGenesisBlockFor S network] := by
  obtain ⟨-, rfl⟩ := boot_eq_ok h
  have hnew : UtxoSet.Indexes S { UtxoSet.new with db := some ∅ } ([] : List (Block G)) 0 :=
    Mirrors.new_nil _
  have hreuse := noReuse_genesis S network
  have hspent : (chainSpent [createGenesisBlockFor S network]).Nodup := by
    rw [chainSpent_genesis]
    exact nodup_nil
  have hconnect : UtxoSet.Indexes S
      (({ UtxoSet.new with db := some ∅ } : UtxoSet).connect S (createGenesisBlockFor S network).height
        (createGenesisBlockFor S network).transactions) [createGenesisBlockFor S network] 0 :=
    Mirrors.connect S hnew zero_le hreuse.keys hreuse.addresses hspent
  rw [createGenesisBlockFor_height_eq] at hconnect
  exact ⟨0, zero_le, hconnect.setDb _⟩

section

variable [DecidableEq F] [DecidableEq G]

section

variable (hx : Indexed S st chain) (hc : Canonical S st d chain)
  (hbr : Branches S st chain b above q below fork)
  (hreuse : NoReuse S (b :: (fork.reverse ++ q :: below)))
include hx hc hbr hreuse

/-- **A failed reorganisation leaves the index of the same chain**, with the same cut; on disk the
addresses of the old branch and of what was connected of the new one are gone. -/
theorem Indexed.failed {e : ReorgError}
    (h : ReorgStep S cfg st b above fork q.height st' (.invalid (.reorg e))) :
    ∃ cut ≤ st.finalityFloor, ∃ done : List (Block G), st.utxos.Indexes S chain cut ∧
      st'.utxos.Indexes S chain cut ∧ NoReuse S (done.reverse ++ q :: below) ∧
      st'.utxos.db = st.utxos.db.map
        (Map.eraseAll ((chainAdds S (above ++ done.reverse)).map OutputAdd.stealth)) := by
  obtain ⟨cut, hcut, hU⟩ := hx
  cases h with
  | @failed done left top _ hfork hturn _ =>
    have habove := hc.cut_le hbr.chain_eq hbr.floor hcut
    have hdone : ∀ x ∈ done, cut ≤ x.height := fun x hxmem => by
      have := (hbr.height_of_mem hfork x hxmem).1
      have := hbr.floor
      omega
    have hpart : NoReuse S (done.reverse ++ q :: below) := by
      rw [hfork, reverse_append, append_assoc, ← cons_append] at hreuse
      exact hreuse.of_append
    obtain ⟨hrestored, hdb⟩ := (hbr.chain_eq ▸ hU).restored habove hdone hpart hturn
    rw [← hbr.chain_eq] at hrestored
    exact ⟨cut, hcut, done, hU, hrestored, hpart, hdb⟩

theorem Indexed.committed {orphaned : List (Transaction G)}
    (h : ReorgStep S cfg st b above fork q.height st' (.acceptedReorg orphaned)) :
    Indexed S st' (b :: (fork.reverse ++ q :: below)) := by
  obtain ⟨cut, hcut, hU⟩ := hx
  cases h with
  | committed _ _ hvalid hconnected hcommit =>
    have hcom := commits_of_eq_some hcommit
    have hnew : (fork ++ [b]).reverse ++ q :: below = b :: (fork.reverse ++ q :: below) := by simp
    have hlt := hbr.lt_of_mem
    have hqb := (hlt b (mem_append_right _ (mem_singleton_self b))).1
    have h₁ := (hbr.chain_eq ▸ hU).disconnectAll (hc.cut_le hbr.chain_eq hbr.floor hcut)
    have h₂ := h₁.connectAll_valid hvalid
      (fun x hxmem => (hcut.trans hbr.floor).trans (hlt x hxmem).1.le) (hnew.symm ▸ hreuse)
    rw [hnew, UtxoSet.connectAll, foldl_append] at h₂
    refine ⟨cut, hcut.trans (finalityFloor_le (by rw [hcom.tip]; rfl) hbr.floor hqb.le), ?_⟩
    rw [hcom.utxos, hconnected]
    exact h₂.setDb _

end

/-! ## 3. Orderly runs -/

/-- **The chain, the height map and the UTXO set agree.** -/
structure Orderly (S : Suite F G) (st : Blockchain G) (d : Database G) (chain : List (Block G)) :
    Prop where
  canonical : Canonical S st d chain
  noStale : st.NoStale
  indexed : Indexed S st chain

/-- **The condition on a block**: it is not validated in fast-sync, its lineage uses no output key
and no address twice, and if its side chain wins then by at most one block above the tip. -/
def OrderlyBlock (S : Suite F G) (cfg : NodeConfig) (st : Blockchain G) (b : Block G) : Prop :=
  fastSync cfg b.height st.persistedCheckpoint = false ∧ NoReuse S (st.lineageOf S b) ∧
    ((st.storeBlock S b).takeFork S b = true → b.height ≤ st.tip.height + 1)

instance (S : Suite F G) (cfg : NodeConfig) (st : Blockchain G) (b : Block G) :
    Decidable (OrderlyBlock S cfg st b) :=
  inferInstanceAs (Decidable (_ ∧ _ ∧ _))

/-- The condition on a step: a block that is admitted meets its condition, and a rollback does
nothing or stays above the finality floor. -/
def OrderlyStep (S : Suite F G) (cfg : NodeConfig) (st : Blockchain G) : Action G → Prop
  | .add ctx b => Admitted S cfg (ctx 0) st b → OrderlyBlock S cfg st b
  | .rollback targetHeight => st.RollbackIdle targetHeight ∨ st.finalityFloor ≤ targetHeight
  | .restart => True

/-- A test for the condition that validates nothing. -/
def orderlyTest (S : Suite F G) (cfg : NodeConfig) (st : Blockchain G) : Action G → Bool
  | .add _ b => decide (OrderlyBlock S cfg st b)
  | .rollback targetHeight =>
    decide (st.RollbackIdle targetHeight ∨ st.finalityFloor ≤ targetHeight)
  | .restart => true

theorem orderlyStep_of_test (st : Blockchain G) (a : Action G)
    (h : orderlyTest S cfg st a = true) : OrderlyStep S cfg st a := by
  cases a with
  | add ctx b => exact fun _ => of_decide_eq_true h
  | rollback target =>
    have htarget : st.RollbackIdle target ∨ st.finalityFloor ≤ target := of_decide_eq_true h
    exact htarget
  | restart => trivial

theorem OrderlyStep.allowed {a : Action G} (h : OrderlyStep S cfg st a) (hs : st.NoStale) :
    st.Allowed a := by
  cases a with
  | add ctx b => exact hs
  | rollback target => exact h.imp_right fun hfloor => ⟨hs, hfloor⟩
  | restart => trivial

theorem Orderly.indexed_add {ctx : Nat → CallContext G} {res : Except ChainError (BlockStatus G)}
    {chain' : List (Block G)} (ho : Orderly S st d chain) (ha : OrderlyStep S cfg st (.add ctx b))
    (h : ChainStep S cfg ctx st chain b st' res chain') : Indexed S st' chain' := by
  obtain ⟨hc, hs, hx⟩ := ho
  cases h with
  | refused => exact hx
  | kept => exact hx
  | extended hadm hlin hext =>
    obtain ⟨hfs, hreuse, -⟩ := ha hadm
    obtain ⟨p, rest, -, hl, -, heq⟩ := hc.arrival hadm
    rw [← heq, hlin] at hl
    rw [hlin] at hreuse
    have hheight : b.height = st.tip.height + 1 := by
      have h1 := hl.length_eq
      rw [hc.length_chain] at h1
      exact h1.symm
    obtain ⟨cut, hcut, hU⟩ := hx
    have hspent := chainSpent_cons_nodup hU.keyImages hU.spent_nodup hfs hadm.valid
    have hstored : Indexed S (st.storeBlock S b) chain := ⟨cut, hcut, hU⟩
    exact hstored.extended hheight hreuse hspent (extends_of_eq_some hext)
  | failed e hadm _ hlin hbr hre =>
    have hreuse := (ha hadm).2.1
    rw [hlin] at hreuse
    have hstored : Indexed S (st.storeBlock S b) chain := hx
    obtain ⟨cut, hcut, -, -, hU, -⟩ :=
      hstored.failed (hc.store hadm) (hc.branches_store hadm hbr) hreuse hre
    cases hre
    exact ⟨cut, hcut, hU⟩
  | committed orphaned hadm hlin hbr hre =>
    have hreuse := (ha hadm).2.1
    rw [hlin] at hreuse
    have hstored : Indexed S (st.storeBlock S b) chain := hx
    exact hstored.committed (hc.store hadm) (hc.branches_store hadm hbr) hreuse hre

/-- **One step of an orderly run.** -/
theorem Orderly.step {a : Action G} (ho : Orderly S st d chain) (ha : OrderlyStep S cfg st a)
    (h : st.step S cfg a = some st') :
    ∃ d' chain', ActionStep S cfg st d chain a st' chain' ∧ Orderly S st' d' chain' := by
  obtain ⟨hc, hs, hx⟩ := id ho
  obtain ⟨chain', hstep⟩ := hc.actionStep (ha.allowed hs) h
  cases hstep with
  | @add ctx b _ res _ hstep =>
    obtain ⟨d', hc'⟩ := hstep.canonical hc hs
    have hs' := hstep.noStale hc hs fun _ _ hadm => (ha hadm).2.2
    exact ⟨d', chain', .add hstep, hc', hs', ho.indexed_add ha hstep⟩
  | idle target => exact ⟨d, chain, .idle target, ho⟩
  | rolledBack hidle hchain hfloor hroll =>
    obtain ⟨⟨d', hc'⟩, hs', hsame⟩ := hc.rolledBack hs hchain hfloor hroll
    exact ⟨d', _, .rolledBack hidle hchain hfloor hroll, hc', hs',
      hx.rolledBack hc hchain hfloor hsame hroll⟩
  | restarted s hre =>
    obtain ⟨hc', hs'⟩ := hc.restarted hre
    exact ⟨d, chain, .restarted s hre, hc', hs', hx.restarted hre⟩

omit [DecidableEq F] [DecidableEq G] in
theorem orderly_of_boot (h : boot S network = .ok st) :
    ∃ d, Orderly S st d [createGenesisBlockFor S network] := by
  obtain ⟨⟨d, hc⟩, hs⟩ := canonical_of_boot h
  exact ⟨d, hc, hs, indexed_of_boot h⟩

end

end Blockchain

end Coincync
