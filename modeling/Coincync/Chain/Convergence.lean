/-
# One tree, one tip

Whether two nodes that are given the same blocks end with the same tip is a question about ORDERS:
the blocks of a tree, given to `add_block` parents first, one way or another.  Fork choice alone
does not depend on the order, because it is a linear order on the blocks (`Coincync.Chain.Tree`).
-/
import Coincync.Chain.Feed
import Coincync.Chain.Views

namespace Coincync

open Lib List

variable {F G : Type} [Field F] [AddCommGroup G] [Module F G]

/-! ## 1. Valid trees -/

/-- The set with the blocks of a chain connected, and nothing else. -/
def UtxoSet.ofChain (S : Suite F G) (chain : List (Block G)) : UtxoSet :=
  UtxoSet.new.connectAll S chain.reverse

section

variable [DecidableEq F] [DecidableEq G] (S : Suite F G) (cfg : NodeConfig) (network : NetworkType)
  (K : CallContext G → Prop) (tree : List (Block G))

/-- **A valid tree** on the genesis block: a shallow one, in which each block is valid with its own
ancestors connected -- in all surroundings `K` -- no branch uses an output key or an address twice,
and the outputs, counted once for every branch, fit a `u64`. -/
structure ValidTree : Prop
    extends Blockchain.ShallowTree S (createGenesisBlockFor S network) tree where
  valid : ∀ b ∈ tree, ∀ ctx, K ctx →
    (validateBlockWithCheckpointForNetwork S cfg ctx b
      (branch S (createGenesisBlockFor S network) tree b).tail.head?
      (UtxoSet.ofChain S (branch S (createGenesisBlockFor S network) tree b).tail) none
      network).valid = true
  noReuse : ∀ b ∈ tree, NoReuse S (branch S (createGenesisBlockFor S network) tree b)
  outputs : 1 + (tree.map fun b =>
    (chainAdds S (branch S (createGenesisBlockFor S network) tree b)).length).sum < 2 ^ 64

instance (ctx : CallContext G) : Decidable (ValidTree S cfg network (· = ctx) tree) :=
  decidable_of_iff
    (Blockchain.ShallowTree S (createGenesisBlockFor S network) tree ∧
      (∀ b ∈ tree, (validateBlockWithCheckpointForNetwork S cfg ctx b
        (branch S (createGenesisBlockFor S network) tree b).tail.head?
        (UtxoSet.ofChain S (branch S (createGenesisBlockFor S network) tree b).tail) none
        network).valid = true) ∧
      (∀ b ∈ tree, NoReuse S (branch S (createGenesisBlockFor S network) tree b)) ∧
      1 + (tree.map fun b =>
        (chainAdds S (branch S (createGenesisBlockFor S network) tree b)).length).sum < 2 ^ 64)
    ⟨fun ⟨h₁, h₂, h₃, h₄⟩ => ⟨h₁, fun b hb _ hctx => hctx ▸ h₂ b hb, h₃, h₄⟩,
      fun ⟨h₁, h₂, h₃, h₄⟩ => ⟨h₁, fun b hb => h₂ b hb ctx rfl, h₃, h₄⟩⟩

end

section

variable {S : Suite F G} {chain : List (Block G)}

/-- **Connecting a chain gives a set of the chain.** -/
theorem setOf_ofChain (hreuse : NoReuse S chain) (hspent : (chainSpent chain).Nodup)
    (hlt : (chainAdds S chain).length < 2 ^ 64) : SetOf S (UtxoSet.ofChain S chain) chain := by
  have hchain : chain.reverse.reverse ++ [] = chain := by simp
  have hnew : UtxoSet.Indexes S UtxoSet.new ([] : List (Block G)) 0 := Mirrors.new_nil none
  have hcounts : Counts UtxoSet.new (chainAdds S []) := Counts.new_nil none
  refine ⟨⟨0, ?_⟩, ?_, ?_⟩
  · have h := hnew.connectAll (l := chain.reverse) (fun x _ => zero_le)
      (hchain.symm ▸ hreuse) (hchain.symm ▸ hspent)
    rwa [hchain] at h
  · have hroom : (0 : UInt64).toNat + (chainAdds S chain.reverse).length < 2 ^ 64 := by
      rw [length_chainAdds_reverse, UInt64.toNat_zero]
      omega
    have h := (hcounts.connectAll (hchain.symm ▸ hreuse.keys) hroom).1
    rwa [hchain] at h
  · intro index hindex
    have hnone : (UtxoSet.ofChain S chain).db = none := UtxoSet.db_connectAll _ _
    rw [hnone] at hindex
    cases hindex

end

namespace ValidTree

variable [DecidableEq F] [DecidableEq G] {S : Suite F G} {cfg : NodeConfig} {network : NetworkType}
  {K : CallContext G → Prop} {tree : List (Block G)} {ctx : CallContext G}

section

variable (ht : ValidTree S cfg network K tree)

include ht

theorem outputs_lt {b : Block G} (hb : b ∈ tree) :
    (chainAdds S (branch S (createGenesisBlockFor S network) tree b)).length < 2 ^ 64 := by
  have hle := single_le_sum (fun x _ => zero_le) _
    (mem_map_of_mem (f := fun b =>
      (chainAdds S (branch S (createGenesisBlockFor S network) tree b)).length) hb)
  have hlt := ht.outputs
  omega

/-- **Along a branch nothing is used and nothing is spent twice.** -/
theorem branch_orderly (hK : K ctx) {chain : List (Block G)}
    (hl : Lineage (blockLinks S) (createGenesisBlockFor S network) chain)
    (hmem : ∀ x ∈ chain, x ∈ createGenesisBlockFor S network :: tree) :
    NoReuse S chain ∧ (chainSpent chain).Nodup ∧ (chainAdds S chain).length < 2 ^ 64 := by
  induction hl with
  | root _ =>
    obtain ⟨a, ha⟩ := Blockchain.chainAdds_genesis S network
    refine ⟨Blockchain.noReuse_genesis S network, ?_, ?_⟩
    · rw [Blockchain.chainSpent_genesis]
      exact nodup_nil
    · rw [ha]
      exact Nat.one_lt_two_pow (by decide)
  | @cons b p rest hp hh hl ih =>
    obtain ⟨hreuse, hspent, hlt⟩ := ih fun x hx => hmem x (.tail _ hx)
    have hb : b ∈ tree := by
      rcases mem_cons.mp (hmem b (.head _)) with rfl | hb
      · have h0 := ht.root_height
        have hheight : (createGenesisBlockFor S network).height = p.height + 1 := hh
        omega
      · exact hb
    have hbranch := ht.branch_eq (.cons hp hh hl) fun x hx => hmem x (.tail _ hx)
    have hvalid := ht.valid b hb ctx hK
    rw [hbranch, tail_cons] at hvalid
    obtain ⟨_, hU⟩ := (setOf_ofChain hreuse hspent hlt).indexes
    refine ⟨hbranch ▸ ht.noReuse b hb, ?_, hbranch ▸ ht.outputs_lt hb⟩
    exact chainSpent_cons_nodup hU.keyImages hU.spent_nodup rfl hvalid

/-- **A block is valid on every set of its ancestors.** -/
theorem valid_of_setOf (hK : K ctx) {b : Block G}
    {anc : List (Block G)} {U : UtxoSet} (hb : b ∈ tree)
    (hbranch : branch S (createGenesisBlockFor S network) tree b = b :: anc) (hU : SetOf S U anc) :
    (validateBlockWithCheckpointForNetwork S cfg ctx b anc.head? U none network).valid = true := by
  have hbmem : b ∈ createGenesisBlockFor S network :: tree := .tail _ hb
  have hvalid := ht.valid b hb ctx hK
  rw [hbranch, tail_cons] at hvalid
  have hreuse := ht.noReuse b hb
  rw [hbranch] at hreuse
  have hset : SetOf S (UtxoSet.ofChain S anc) anc := by
    have hl := hbranch ▸ ht.lineage_branch hbmem
    cases hl with
    | root _ => exact absurd hb ht.root_notMem
    | @cons _ p rest _ _ hl =>
      obtain ⟨hr, hs, hlt⟩ := ht.branch_orderly hK hl fun x hx =>
        ht.mem_of_mem_branch hbmem (hbranch ▸ .tail _ hx)
      exact setOf_ofChain hr hs hlt
  exact (hset.valid_iff hU hreuse).mp hvalid

end

end ValidTree

/-! ## 2. The set along the feed -/

theorem UtxoSet.totalOutputsEver_evictOldOutputs (U : UtxoSet) (currentHeight keepDepth : Nat) :
    (U.evictOldOutputs currentHeight keepDepth).totalOutputsEver = U.totalOutputsEver := by
  unfold evictOldOutputs
  split_ifs
  · rfl
  · rfl

variable {st₀ st₁ : Blockchain G}

namespace Blockchain

variable {S : Suite F G} {cfg : NodeConfig} {network : NetworkType} {K : CallContext G → Prop}
  {tree known chain : List (Block G)} {st st' : Blockchain G} {d : Database G} {b p : Block G}

/-- **The set of the node is a set of the chain**, and the counters have room for the blocks that
are still to come. -/
structure FedSet (S : Suite F G) (network : NetworkType) (tree pending : List (Block G))
    (st : Blockchain G) (chain : List (Block G)) : Prop where
  net : st.network = network
  indexed : Indexed S st chain
  counts : Counts st.utxos (chainAdds S chain)
  disk : DiskDrawn S st chain
  room : st.utxos.totalOutputsEver.toNat + (pending.map fun x =>
    (chainAdds S (branch S (createGenesisBlockFor S network) tree x)).length).sum < 2 ^ 64

variable [DecidableEq F] [DecidableEq G] {ctx : Nat → CallContext G} {pending : List (Block G)}

section

variable (hset : FedSet S network tree (b :: pending) st chain)
  (h : Fed S (createGenesisBlockFor S network) tree cfg known st d chain)
  (ht : ValidTree S cfg network K tree) (hK : ∀ n, K (ctx n))
include hset h ht hK

/-- **The blocks of the new branch are valid in turn**: the set is a set of what lies below each. -/
theorem FedSet.validTurns (hb : b ∈ tree) :
    Fed.ValidTurns S (createGenesisBlockFor S network) tree cfg ctx st chain b := by
  intro above q below done x left hchain hside hfloor n
  have hbmem : b ∈ createGenesisBlockFor S network :: tree := .tail _ hb
  have hnew : branch S (createGenesisBlockFor S network) tree b =
      left.reverse ++ x :: (done.reverse ++ q :: below) := by
    rw [hside]
    simp
  have hxbranch := ht.branch_suffix hbmem hnew
  have hl := (hnew ▸ ht.lineage_branch hbmem).suffix left.reverse
  have hlanc := hl.tail_append
  obtain ⟨px, l, hpx⟩ : ∃ px l, done.reverse ++ q :: below = px :: l :=
    exists_cons_of_ne_nil (by simp)
  obtain ⟨hxtree, -, -⟩ := ht.parent_of_branch hbmem (hpx ▸ hnew)
  have hanc : ∀ a ∈ done.reverse ++ q :: below, a ∈ createGenesisBlockFor S network :: tree :=
    fun a ha => ht.mem_of_mem_branch hbmem (by
      rw [hnew]
      exact mem_append_right _ (.tail _ ha))
  obtain ⟨hreuse, hspent, -⟩ := ht.branch_orderly (hK 0) hlanc hanc
  obtain ⟨cut, hcut, hU⟩ := hset.indexed
  have habove := h.canonical.cut_le hchain hfloor hcut
  rw [hchain] at hU
  have hdone : ∀ a ∈ done, cut ≤ a.height := fun a ha => by
    have hgt : q.height < a.height := hlanc.height_above done.reverse a (mem_reverse.mpr ha)
    omega
  rw [hset.net]
  refine ht.valid_of_setOf (hK n) hxtree hxbranch ⟨⟨cut, ?_⟩, ?_, ?_⟩
  · exact (hU.disconnectAll habove).connectAll hdone hreuse hspent
  · have hroom := hset.room
    rw [map_cons, sum_cons, hnew, chainAdds_append, chainAdds_cons, chainAdds_append,
      length_append, length_append, length_append] at hroom
    have hlength := length_chainAdds_reverse (S := S) done
    obtain ⟨h₁, ht₁⟩ := (hchain ▸ hset.counts).disconnectAll
    exact (h₁.connectAll hreuse.keys (by rw [ht₁]; omega)).1
  · intro index hindex
    rw [UtxoSet.db_connectAll, hU.db_disconnectAll habove] at hindex
    obtain ⟨old, hold, rfl⟩ := Option.map_eq_some_iff.mp hindex
    have hdrawn := hset.disk.drawn old hold
    rw [hchain, chainAdds_append] at hdrawn
    refine hdrawn.eraseAll.mono ?_
    rw [chainAdds_append]
    exact subset_append_right _ _

/-- **One block keeps the set.** -/
theorem FedSet.step {res : Except ChainError (BlockStatus G)} {chain' : List (Block G)}
    (hn : Next S tree known b p)
    (hadm : Admitted S cfg (ctx 0) st b) (hstep : ChainStep S cfg ctx st chain b st' res chain')
    (hres : ∀ e, res ≠ .ok (.invalid (.reorg e))) : FedSet S network tree pending st' chain' := by
  obtain ⟨rest, hbranch, hlin, hl, -⟩ := h.next_branch ht.toBlockTree hn
  have hbmem : b ∈ createGenesisBlockFor S network :: tree := .tail _ hn.mem
  have hmem : ∀ x ∈ b :: p :: rest, x ∈ createGenesisBlockFor S network :: tree :=
    fun x hx => ht.mem_of_mem_branch hbmem (hbranch ▸ hx)
  obtain ⟨hreuse, hspent, -⟩ := ht.branch_orderly (hK 0) hl hmem
  have hroom := hset.room
  rw [map_cons, sum_cons, hbranch, ← hlin] at hroom
  rw [← hlin] at hreuse hspent
  have hnet := (ActionStep.add (d := d) hstep).blocks h.canonical |>.1.trans hset.net
  have hdisk : DiskDrawn S (st.storeBlock S b) chain := ⟨hset.disk.drawn, hset.disk.genesis⟩
  have hindexed : Indexed S (st.storeBlock S b) chain := hset.indexed
  cases hstep with
  | refused => exact ⟨hnet, hset.indexed, hset.counts, hset.disk, by omega⟩
  | kept =>
    refine ⟨hnet, hset.indexed, hset.counts, hdisk, ?_⟩
    change st.utxos.totalOutputsEver.toNat + _ < 2 ^ 64
    omega
  | failed e => exact absurd rfl (hres e)
  | extended _ hlin' hext =>
    rw [hlin'] at hreuse hspent hroom
    have hE := extends_of_eq_some hext
    have hheight : b.height = (st.storeBlock S b).tip.height + 1 := by
      rw [← hlin, hlin'] at hl
      have hlen := hl.length_eq
      rw [h.canonical.length_chain] at hlen
      exact hlen.symm
    have hkeys := hreuse.keys
    rw [chainAdds_cons] at hkeys hroom
    rw [length_append] at hroom
    obtain ⟨hcounts, htotal⟩ := hset.counts.connect hkeys (by omega)
    refine ⟨hnet, hindexed.extended hheight hreuse hspent hE, ?_, hdisk.extended hE, ?_⟩
    · rw [hE.utxos, chainAdds_cons]
      exact (hcounts.evict _ _).setDb _
    · rw [hE.utxos]
      change ((UtxoSet.connect S st.utxos _ _).evictOldOutputs _ _).totalOutputsEver.toNat + _ < _
      rw [UtxoSet.totalOutputsEver_evictOldOutputs, htotal]
      omega
  | committed orphaned _ hlin' hbr hre =>
    rw [hlin'] at hreuse hspent hroom
    have hstore := h.canonical.store hadm
    have hbr' := h.canonical.branches_store hadm hbr
    have hindexed' := hindexed.committed hstore hbr' hreuse hre
    have hdisk' := hdisk.committed hindexed hstore hbr' hre
    cases hre with
    | committed _ _ _ hconnected hcommit =>
      obtain ⟨hcounts, htotal⟩ :=
        (hbr.chain_eq ▸ hset.counts).committed hreuse.keys (by omega)
      have hutxos := (commits_of_eq_some hcommit).utxos
      rw [hconnected, remapped_utxos] at hutxos
      refine ⟨hnet, hindexed', ?_, hdisk', ?_⟩
      · rw [hutxos]
        exact hcounts.setDb _
      · rw [hutxos]
        exact lt_of_le_of_lt (Nat.add_le_add_right htotal _) (by omega)

end

/-! ## 3. Feeding a tree -/

theorem totalOutputsEver_of_boot (h₀ : boot S network = .ok st₀)
    (h₁ : st₀.step S cfg .restart = some st₁) : st₁.utxos.totalOutputsEver.toNat = 1 := by
  obtain ⟨⟨d, hc⟩, -⟩ := canonical_of_boot h₀
  obtain ⟨s, hre⟩ := hc.restarts (hc.restart_of_start h₁)
  obtain ⟨a, ha⟩ := chainAdds_genesis S network
  have hnew : Counts { UtxoSet.new with db := st₀.utxos.db } (chainAdds S []) := Counts.new_nil _
  have hreplay := (hnew.connectAll (l := [createGenesisBlockFor S network])
    (noReuse_genesis S network).keys (by
      rw [ha]
      change 0 + 1 < 2 ^ 64
      omega)).2
  rw [hre.utxos, replayedUtxos, UtxoSet.totalOutputsEver_evictOldOutputs]
  refine hreplay.trans ?_
  rw [ha]
  rfl

/-- **A started node holds the genesis block.** -/
theorem fed_of_boot (tree : List (Block G)) (h₀ : boot S network = .ok st₀)
    (h₁ : st₀.step S cfg .restart = some st₁) :
    ∃ d, Refined S cfg st₁ d [createGenesisBlockFor S network] ∧ st₁.network = network ∧
      Fed S (createGenesisBlockFor S network) tree cfg [createGenesisBlockFor S network] st₁ d
        [createGenesisBlockFor S network] := by
  obtain ⟨d, hr⟩ := refined_of_boot h₀ h₁
  obtain ⟨⟨d₀, hc₀⟩, -⟩ := canonical_of_boot h₀
  obtain ⟨s, hre⟩ := hc₀.restarts (hc₀.restart_of_start h₁)
  have hc := hr.orderly.canonical
  obtain rfl : d₀ = d := Option.some.inj (hre.db.symm.trans hc.db)
  have hnet : st₁.network = network := by
    rw [hre.network, (boot_eq_ok h₀).2]
    rfl
  have hblocks : d₀.blocks = (∅ : Map Hash (Block G)).insert
      ((createGenesisBlockFor S network).hash S) (createGenesisBlockFor S network) := by
    have hdb := hc₀.db
    rw [(boot_eq_ok h₀).2] at hdb
    rw [← Option.some.inj hdb]
    rfl
  obtain ⟨t, rest, hchain, hthash, htheight⟩ := hc.tip
  obtain ⟨rfl, -⟩ := List.cons.inj hchain
  have h0 := createGenesisBlockFor_height_eq S network
  refine ⟨d₀, hr, hnet, hc, hr.orderly.noStale, by rw [hnet], fun x hx => ?_, fun k x => ?_,
    hr.work, hr.totals.supply, hr.totals.burned, ?_, fun x hx hne => ?_⟩
  · rw [mem_singleton.mp hx]
    exact .head _
  · rw [hblocks, Map.lookup_insert_ite, Finmap.lookup_empty, mem_singleton]
    split_ifs with hk
    · constructor
      · intro heq
        exact ⟨(Option.some.inj heq).symm, by rw [← Option.some.inj heq, hk]⟩
      · rintro ⟨rfl, -⟩
        rfl
    · refine iff_of_false (by simp) ?_
      rintro ⟨rfl, hhash⟩
      exact hk hhash.symm
  · have hcached : ∀ a ∈ [createGenesisBlockFor S network],
        st₁.heightToHash.lookup a.height = some (a.hash S) ∧
          st₁.blocks.lookup (a.hash S) = some a := fun a ha => by
      refine hc.recent a (mem_filter.mpr ⟨ha, decide_eq_true ?_⟩)
      unfold finalityFloor
      rw [htheight, h0]
      exact zero_le
    exact ⟨_, mem_singleton_self _, fun a ha _ => (hcached a ha).2, fun a ha _ => (hcached a ha).1⟩
  · rw [mem_singleton.mp hx, hthash] at hne
    exact absurd rfl hne

/-- A call of `add_block`: its surroundings and its block. -/
abbrev Call (G : Type) := (Nat → CallContext G) × Block G

/-- Call `add_block` with one block after the other. -/
def feed (S : Suite F G) (cfg : NodeConfig) : Blockchain G → List (Call G) → Option (Blockchain G)
  | st, [] => some st
  | st, c :: calls => (st.addBlock S cfg c.1 c.2).bind fun r => feed S cfg r.1 calls

/-- Each call is made in a state that meets the condition. -/
def FeedMeets (S : Suite F G) (cfg : NodeConfig) (P : Blockchain G → Call G → Prop) :
    Blockchain G → List (Call G) → Prop
  | _, [] => True
  | st, c :: calls => P st c ∧ ∀ r ∈ st.addBlock S cfg c.1 c.2, FeedMeets S cfg P r.1 calls

instance (S : Suite F G) (cfg : NodeConfig) (P : Blockchain G → Call G → Prop)
    [∀ st c, Decidable (P st c)] :
    ∀ (calls : List (Call G)) (st : Blockchain G), Decidable (FeedMeets S cfg P st calls)
  | [], _ => .isTrue trivial
  | c :: calls, st =>
    have (r : Blockchain G × Except ChainError (BlockStatus G)) :
        Decidable (FeedMeets S cfg P r.1 calls) := instDecidableFeedMeets S cfg P calls r.1
    inferInstanceAs (Decidable (P st c ∧ ∀ r ∈ st.addBlock S cfg c.1 c.2, FeedMeets S cfg P r.1 calls))

/-- **The block is valid on arrival**: with the set of the active chain, whatever that is. -/
def ValidOnArrival (S : Suite F G) (cfg : NodeConfig) (st : Blockchain G) (c : Call G) : Prop :=
  (validateBlockWithCheckpointForNetwork S cfg (c.1 0) c.2 (st.getBlock c.2.header.prevHash)
    st.utxos st.persistedCheckpoint st.network).valid = true

instance (S : Suite F G) (cfg : NodeConfig) (st : Blockchain G) (c : Call G) :
    Decidable (ValidOnArrival S cfg st c) :=
  inferInstanceAs (Decidable (_ = true))

omit [DecidableEq F] [DecidableEq G] in
/-- Every block has its parent among those before it, or among `known`. -/
def ParentFirst (S : Suite F G) : List (Block G) → List (Block G) → Prop
  | _, [] => True
  | known, b :: rest =>
    (∃ p ∈ known, b.header.prevHash = p.hash S) ∧ ParentFirst S (b :: known) rest

omit [DecidableEq F] [DecidableEq G] in
instance (S : Suite F G) : ∀ known blocks : List (Block G), Decidable (ParentFirst S known blocks)
  | _, [] => .isTrue trivial
  | known, b :: rest =>
    have := instDecidableParentFirst S (b :: known) rest
    inferInstanceAs (Decidable
      ((∃ p ∈ known, b.header.prevHash = p.hash S) ∧ ParentFirst S (b :: known) rest))

/-- **Feeding a valid tree.**  Every call goes through, and in the end the node holds everything it
was given. -/
theorem Fed.feed (ht : ValidTree S cfg network K tree) : ∀ {calls : List (Call G)}
    {known chain : List (Block G)} {st : Blockchain G} {d : Database G},
    Fed S (createGenesisBlockFor S network) tree cfg known st d chain →
    FedSet S network tree (calls.map Prod.snd) st chain →
    (∀ c ∈ calls, c.2 ∈ tree ∧ c.2 ∉ known ∧ ∀ n, K (c.1 n)) → (calls.map Prod.snd).Nodup →
    ParentFirst S known (calls.map Prod.snd) → FeedMeets S cfg (ValidOnArrival S cfg) st calls →
    ∃ st' d' known' chain', Blockchain.feed S cfg st calls = some st' ∧
      (∀ x, x ∈ known' ↔ x ∈ known ∨ x ∈ calls.map Prod.snd) ∧
      Fed S (createGenesisBlockFor S network) tree cfg known' st' d' chain'
  | [], known, chain, st, d, h, _, _, _, _, _ =>
    ⟨st, d, known, chain, rfl, fun x => by simp, h⟩
  | c :: calls, known, chain, st, d, h, hset, hcalls, hnodup, hfirst, hmeets => by
    obtain ⟨hmem, hnew, hK⟩ := hcalls c (.head _)
    obtain ⟨⟨p, hp, hprev⟩, hfirst'⟩ := hfirst
    rw [map_cons, nodup_cons] at hnodup
    have hn : Next S tree known c.2 p := ⟨hmem, hnew, hp, hprev⟩
    have hturns := hset.validTurns h ht hK hmem
    obtain ⟨st₁, d₁, res, chain₁, hadd, hres, hadm, hstep, h₁⟩ :=
      h.step ht.toShallowTree hn hmeets.1 hturns
    have hset₁ := hset.step h ht hK hn hadm hstep hres
    obtain ⟨st', d', known', chain', hfeed, hknown, h'⟩ := Fed.feed ht h₁ hset₁
      (fun x hx => by
        obtain ⟨hxmem, hxnew, hxK⟩ := hcalls x (.tail _ hx)
        refine ⟨hxmem, fun hx' => ?_, hxK⟩
        rcases mem_cons.mp hx' with heq | hx'
        · exact hnodup.1 (heq ▸ mem_map_of_mem hx)
        · exact hxnew hx')
      hnodup.2 hfirst' (hmeets.2 (st₁, res) hadd)
    refine ⟨st', d', known', chain', ?_, fun x => ?_, h'⟩
    · rw [Blockchain.feed, hadd, Option.bind_some]
      exact hfeed
    · rw [hknown, mem_cons, map_cons, mem_cons]
      tauto

/-! ## 4. Any order -/

omit [DecidableEq F] [DecidableEq G] in
/-- **An order of the tree**: its blocks parents first, in surroundings in which the tree is
valid. -/
structure Order (S : Suite F G) (network : NetworkType) (K : CallContext G → Prop)
    (tree : List (Block G)) (calls : List (Call G)) : Prop where
  perm : (calls.map Prod.snd).Perm tree
  parentFirst : ParentFirst S [createGenesisBlockFor S network] (calls.map Prod.snd)
  surroundings : ∀ c ∈ calls, ∀ n, K (c.1 n)

theorem Order.feed {calls : List (Call G)} (h₀ : boot S network = .ok st₀)
    (h₁ : st₀.step S cfg .restart = some st₁) (ht : ValidTree S cfg network K tree)
    (ho : Order S network K tree calls) (hvalid : FeedMeets S cfg (ValidOnArrival S cfg) st₁ calls) :
    ∃ st, Blockchain.feed S cfg st₁ calls = some st ∧
      ∃ t ∈ createGenesisBlockFor S network :: tree, st.tip.hash = t.hash S ∧
        st.canonicalChain S = branch S (createGenesisBlockFor S network) tree t ∧
        ∀ x ∈ createGenesisBlockFor S network :: tree, x ≠ t →
          Prefers S (createGenesisBlockFor S network) tree t x := by
  obtain ⟨d, hr, hnet, hfed⟩ := fed_of_boot tree h₀ h₁
  have htreenodup : tree.Nodup := by
    have hnodup := ht.distinct
    rw [map_cons, nodup_cons] at hnodup
    exact hnodup.2.of_map
  have hset : FedSet S network tree (calls.map Prod.snd) st₁ [createGenesisBlockFor S network] := by
    refine ⟨hnet, hr.orderly.indexed, hr.counts, hr.disk, ?_⟩
    rw [totalOutputsEver_of_boot h₀ h₁, (ho.perm.map _).sum_eq]
    exact ht.outputs
  obtain ⟨st, d', known, chain, hfeed, hknown, h⟩ := hfed.feed ht hset
    (fun c hc => by
      have hmem : c.2 ∈ tree := ho.perm.mem_iff.mp (mem_map_of_mem hc)
      refine ⟨hmem, fun hroot => ?_, ho.surroundings c hc⟩
      rw [mem_singleton.mp hroot] at hmem
      exact ht.root_notMem hmem)
    (ho.perm.nodup_iff.mpr htreenodup) ho.parentFirst hvalid
  obtain ⟨t, htknown, htchain, hthash, -⟩ := h.exists_tip ht.toBlockTree
  refine ⟨st, hfeed, t, h.known_sub t htknown, hthash, ?_, fun x hx hne => ?_⟩
  · rw [h.canonical.canonicalChain_eq, htchain]
  · have hxknown : x ∈ known := by
      rw [hknown, ho.perm.mem_iff, mem_singleton]
      exact mem_cons.mp hx
    have hbest := h.best x hxknown fun heq =>
      hne (ht.eq_of_hash hx (h.known_sub t htknown) (heq.trans hthash))
    rw [Prefers, htchain, ← hthash]
    exact hbest

/-- **Fork choice does not depend on the order.** -/
theorem tip_of_any_order {st₀ st₁ : Blockchain G} {calls calls' : List (Call G)}
    (h₀ : boot S network = .ok st₀) (h₁ : st₀.step S cfg .restart = some st₁)
    (ht : ValidTree S cfg network K tree) (ho : Order S network K tree calls)
    (ho' : Order S network K tree calls')
    (hvalid : FeedMeets S cfg (ValidOnArrival S cfg) st₁ calls)
    (hvalid' : FeedMeets S cfg (ValidOnArrival S cfg) st₁ calls') :
    ∃ st st', feed S cfg st₁ calls = some st ∧ feed S cfg st₁ calls' = some st' ∧
      st'.tip.hash = st.tip.hash ∧ st'.canonicalChain S = st.canonicalChain S ∧
      ∃ t ∈ createGenesisBlockFor S network :: tree, st.tip.hash = t.hash S ∧
        st.canonicalChain S = branch S (createGenesisBlockFor S network) tree t ∧
        ∀ x ∈ createGenesisBlockFor S network :: tree, x ≠ t →
          Prefers S (createGenesisBlockFor S network) tree t x := by
  obtain ⟨st, hfeed, t, htmem, hhash, hchain, hbest⟩ := ho.feed h₀ h₁ ht hvalid
  obtain ⟨st', hfeed', t', htmem', hhash', hchain', hbest'⟩ := ho'.feed h₀ h₁ ht hvalid'
  have heq : t' = t := by
    by_contra hne
    exact (hbest t' htmem' hne).asymm (hbest' t htmem (Ne.symm hne))
  subst heq
  exact ⟨st, st', hfeed, hfeed', hhash'.trans hhash.symm, hchain'.trans hchain.symm, t', htmem,
    hhash, hchain, hbest⟩

end Blockchain

/-! ## On the small chain -/

namespace SmallChain

open Blockchain SmallSuite

/-- A first block that spends what `side1` spends. -/
def otherSpend1 : Block Z := spending genesis genesis.header.target 74

/-- Calls with the same surroundings. -/
def calls (blocks : List (Block Z)) : List (Call Z) := blocks.map fun b => (steady, b)

def tipAfter (st : Blockchain Z) (blocks : List (Block Z)) : Option Hash :=
  (feed suite cfg st (calls blocks)).map fun st' => st'.tip.hash

theorem order_calls {tree blocks : List (Block Z)} (hperm : blocks.Perm tree)
    (hfirst : ParentFirst suite [genesis] blocks) :
    Order suite .regtest (· = ctx) tree (calls blocks) := by
  have hsnd : (calls blocks).map Prod.snd = blocks := by
    rw [calls, map_map]
    exact map_id blocks
  refine ⟨hsnd.symm ▸ hperm, hsnd.symm ▸ hfirst, fun c hc n => ?_⟩
  obtain ⟨b, -, rfl⟩ := mem_map.mp hc
  rfl

/-- **The first spend stays.**  Two blocks on top of genesis spend one key image; each is valid with
its own ancestors connected. -/
theorem first_spend_stays :
    ValidTree suite cfg .regtest (· = ctx) [side1, otherSpend1] ∧
      Order suite .regtest (· = ctx) [side1, otherSpend1] (calls [side1, otherSpend1]) ∧
      Order suite .regtest (· = ctx) [side1, otherSpend1] (calls [otherSpend1, side1]) ∧
      tipAfter restarted [side1, otherSpend1] = some (side1.hash suite) ∧
      tipAfter restarted [otherSpend1, side1] = some (otherSpend1.hash suite) ∧
      side1.hash suite ≠ otherSpend1.hash suite := by
  have h : ValidTree suite cfg .regtest (· = ctx) [side1, otherSpend1] ∧
      (ParentFirst suite [genesis] [side1, otherSpend1] ∧
        ParentFirst suite [genesis] [otherSpend1, side1]) ∧
      tipAfter restarted [side1, otherSpend1] = some (side1.hash suite) ∧
      tipAfter restarted [otherSpend1, side1] = some (otherSpend1.hash suite) ∧
      side1.hash suite ≠ otherSpend1.hash suite := by
    decide +kernel
  exact ⟨h.1, order_calls (.refl _) h.2.1.1, order_calls (.swap _ _ _) h.2.1.2, h.2.2⟩

/-- A heavy block against a branch of two: both orders end with the second block of the branch. -/
theorem light2_of_any_order :
    ∃ st st', feed suite cfg restarted (calls [heavy1, light1, light2]) = some st ∧
      feed suite cfg restarted (calls [light1, heavy1, light2]) = some st' ∧
      st.tip.hash = light2.hash suite ∧ st'.tip.hash = light2.hash suite := by
  have h : ValidTree suite cfg .regtest (· = ctx) [heavy1, light1, light2] ∧
      (ParentFirst suite [genesis] [heavy1, light1, light2] ∧
        ParentFirst suite [genesis] [light1, heavy1, light2]) ∧
      (FeedMeets suite cfg (ValidOnArrival suite cfg) restarted (calls [heavy1, light1, light2]) ∧
        FeedMeets suite cfg (ValidOnArrival suite cfg) restarted (calls [light1, heavy1, light2])) ∧
      tipAfter restarted [heavy1, light1, light2] = some (light2.hash suite) := by
    decide +kernel
  obtain ⟨htree, hfirst, hvalid, htip⟩ := h
  obtain ⟨st, st', hst, hst', hsame, -⟩ := tip_of_any_order boot_booted booted_restart htree
    (order_calls (.refl _) hfirst.1) (order_calls (.swap _ _ _) hfirst.2) hvalid.1 hvalid.2
  rw [tipAfter, hst] at htip
  have heq : st.tip.hash = light2.hash suite := Option.some.inj htip
  exact ⟨st, st', hst, hst', heq, hsame.trans heq⟩

end SmallChain

end Coincync
