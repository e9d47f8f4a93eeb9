/-
# Starting again

A node that starts on its own database rebuilds everything it had: the tip and three totals from
one record, the cumulative work and two counters by counting again, the UTXO set by connecting the
chain to an empty set.  The running node got to the same values block by block, some of them
through reorganisations.
-/
import Coincync.Chain.DiskIndex
import Coincync.Chain.OutputCount
import Coincync.Chain.Totals
import Coincync.Chain.Work

namespace Coincync

open Lib List Option

variable {F G : Type} [Field F] [AddCommGroup G] [Module F G] {S : Suite F G}

/-! ## 1. Looking up an address -/

section Lookups

variable {U U' : UtxoSet} {chain : List (Block G)} {cut cut' : Nat}

/-- What the index on disk answers. -/
def UtxoSet.diskEntry (U : UtxoSet) (k : StealthKey) : Option OutputIndexEntry :=
  U.db.bind fun index => OutputIndexDb.get index k

variable {a : OutputAdd}

section

variable (hU : U.Indexes S chain cut)

include hU

variable (hdisk : ∀ index, U.db = some index →
  Map.Drawn index (chainAdds S chain) OutputAdd.stealth OutputAdd.indexEntry)

include hdisk in
theorem UtxoSet.Indexes.diskEntry_eq (ha : a ∈ chainAdds S chain) :
    U.diskEntry a.stealth = some a.indexEntry ∨ U.diskEntry a.stealth = none := by
  cases hentry : U.diskEntry a.stealth with
  | none => exact .inr rfl
  | some entry =>
    obtain ⟨index, hindex, hget⟩ := bind_eq_some_iff.mp hentry
    obtain ⟨a', ha', hkey, rfl⟩ :=
      hdisk index hindex _ _ (filter_eq_some_iff.mp hget).1
    rw [inj_on_of_nodup_map hU.addresses_nodup ha' ha hkey]
    exact .inl rfl

theorem UtxoSet.Indexes.mem_outputIndex_iff (ha : a ∈ chainAdds S chain) :
    a.stealth ∈ U.outputIndex ↔ cut ≤ a.height := by
  rw [Finmap.mem_iff]
  constructor
  · rintro ⟨entry, hentry⟩
    obtain ⟨a', ha', hkey, -⟩ := (hU.outputIndex _ _).mp hentry
    obtain ⟨ha', hcut⟩ := mem_filter.mp ha'
    rw [inj_on_of_nodup_map hU.addresses_nodup ha' ha hkey] at hcut
    exact of_decide_eq_true hcut
  · intro hcut
    exact ⟨_, hU.outputIndex.lookup (mem_filter.mpr ⟨ha, decide_eq_true hcut⟩)⟩

/-- **The answer for an address of the chain**: from memory above the cut, from disk below. -/
theorem UtxoSet.Indexes.getOutputIndexEntry_eq (ha : a ∈ chainAdds S chain) :
    U.getOutputIndexEntry a.stealth =
      if cut ≤ a.height then some a.indexEntry else U.diskEntry a.stealth := by
  unfold getOutputIndexEntry
  split_ifs with hcut
  · rw [hU.outputIndex.lookup (mem_filter.mpr ⟨ha, decide_eq_true hcut⟩)]
  · rw [← hU.mem_outputIndex_iff ha, ← Finmap.lookup_eq_none] at hcut
    rw [hcut]
    rfl

include hdisk in
theorem UtxoSet.Indexes.getOutputIndexEntry_eq_none
    {k : StealthKey} (hk : ∀ a ∈ chainAdds S chain, a.stealth ≠ k) :
    U.getOutputIndexEntry k = none := by
  have hmemory : U.outputIndex.lookup k = none :=
    hU.outputIndex.lookup_eq_none fun a ha => hk a (mem_of_mem_filter ha)
  unfold getOutputIndexEntry
  rw [hmemory]
  change U.diskEntry k = none
  by_contra hsome
  obtain ⟨entry, hentry⟩ := ne_none_iff_exists'.mp hsome
  obtain ⟨index, hindex, hget⟩ := bind_eq_some_iff.mp hentry
  obtain ⟨a, ha, hkey, -⟩ := hdisk index hindex _ _ (filter_eq_some_iff.mp hget).1
  exact hk a ha hkey

/-- **Two sets of one chain over one disk answer alike** iff every output is readable from disk or
in both memories or in none. -/
theorem getOutputIndexEntry_iff (hU' : U'.Indexes S chain cut')
    (hdb : U'.db = U.db) (hdisk : ∀ index, U.db = some index →
      Map.Drawn index (chainAdds S chain) OutputAdd.stealth OutputAdd.indexEntry) :
    (∀ k, U'.getOutputIndexEntry k = U.getOutputIndexEntry k) ↔
      ∀ a ∈ chainAdds S chain, U.diskEntry a.stealth = some a.indexEntry ∨
        (a.stealth ∈ U.outputIndex ↔ cut' ≤ a.height) := by
  have hentry : ∀ k, U'.diskEntry k = U.diskEntry k := fun k => by
    rw [UtxoSet.diskEntry, UtxoSet.diskEntry, hdb]
  constructor
  · intro hsame a ha
    have hone := hsame a.stealth
    rw [hU.getOutputIndexEntry_eq ha, hU'.getOutputIndexEntry_eq ha, hentry] at hone
    rw [hU.mem_outputIndex_iff ha]
    rcases hU.diskEntry_eq hdisk ha with hread | hnone
    · exact .inl hread
    · -- nothing on disk: the two memories agree
      rw [hnone] at hone
      refine .inr ?_
      split_ifs at hone with h' h h
      · exact iff_of_true h h'
      · exact iff_of_false h h'
  · intro hall k
    by_cases hk : ∃ a ∈ chainAdds S chain, a.stealth = k
    · obtain ⟨a, ha, rfl⟩ := hk
      rw [hU.getOutputIndexEntry_eq ha, hU'.getOutputIndexEntry_eq ha, hentry]
      rcases hall a ha with hread | hiff
      · rw [hread, ite_self, ite_self]
      · rw [hU.mem_outputIndex_iff ha] at hiff
        simp only [hiff]
    · have hnot : ∀ a ∈ chainAdds S chain, a.stealth ≠ k := fun a ha hak => hk ⟨a, ha, hak⟩
      rw [hU.getOutputIndexEntry_eq_none hdisk hnot,
        hU'.getOutputIndexEntry_eq_none (hdb ▸ hdisk) hnot]

end

end Lookups

namespace Blockchain

variable {cfg : NodeConfig} {st st' : Blockchain G} {d : Database G} {chain : List (Block G)}

/-! ## 2. The tip -/

/-- **Tip and statistics name the block on top of the chain.** -/
structure TipAgrees (S : Suite F G) (st : Blockchain G) (chain : List (Block G)) : Prop where
  tip : chain.head?.map (tipOf S) = some st.tip
  height : st.stats.height = st.tip.height
  tipHash : st.stats.tipHash = st.tip.hash
  difficulty : st.stats.difficulty = st.tip.difficulty

/-- **A start on a canonical chain succeeds**, and ends with the tip of the chain. -/
theorem Canonical.exists_restart (hc : Canonical S st d chain) :
    ∃ st', st.restart S = .ok (some st') ∧ TipAgrees S st' chain := by
  obtain ⟨s, hstate, hhash, hheight⟩ := hc.state
  obtain ⟨t, rest, hchain, htip, htipheight⟩ := hc.tip
  have ht : d.blocks.lookup s.tipHash = some t := by
    rw [hhash, htip]
    exact hc.stored t (hchain ▸ mem_cons_self)
  have hgenesis : d.heightIndex.lookup 0 = some (expectedGenesisHash st.network) := by
    refine (hc.index _ _).mpr ⟨createGenesisBlockFor S st.network, hc.lineage.root_mem, ?_, hc.genesis⟩
    exact createGenesisBlockFor_height_eq S st.network
  have hth : t.height = s.height := by rw [hheight, htipheight]
  have hload : st.restart S = .ok (some
      (((withDatabase st.network st.db st.utxos.db).loadState s t).rebuildUtxoSet S d s.height)) := by
    simp only [restart, loadFromDatabase, withDatabase, hc.db, hstate, hgenesis, ht, hth, ne_eq,
      not_true_eq_false, if_false]
  refine ⟨_, hload, ?_⟩
  rw [hheight, hc.rebuildUtxoSet_eq, hchain]
  refine ⟨?_, rfl, rfl, rfl⟩
  change some (tipOf S t) = some ⟨s.tipHash, s.height, _, _⟩
  rw [hhash, htip, ← hth]
  rfl

theorem Canonical.exists_getBlockByHeight (hc : Canonical S st d chain) {k : Nat}
    (hk : k ≤ st.tip.height) : ∃ b ∈ chain, b.height = k ∧ st.getBlockByHeight k = some b := by
  obtain ⟨t, rest, hchain, -, ht⟩ := hc.tip
  obtain ⟨b, hb, rfl⟩ := (hchain ▸ hc.lineage).exists_height k (hk.trans_eq ht)
  refine ⟨b, hchain ▸ hb, rfl, ?_⟩
  rw [getBlockByHeight, hc.getBlockHash_eq hk, hc.getBlock_eq]
  exact hc.getByHeight_eq (hchain ▸ hb)

theorem TipAgrees.tip_eq (h : TipAgrees S st chain) (h' : TipAgrees S st' chain) :
    st'.tip = st.tip :=
  Option.some.inj (h'.tip.symm.trans h.tip)

theorem TipAgrees.extended {b : Block G} (h : Extends S cfg st b st') :
    TipAgrees S st' (b :: chain) := by
  refine ⟨by rw [h.tip]; rfl, ?_, ?_, ?_⟩
  · rw [h.stats, h.tip]
    rfl
  · rw [h.stats, h.tip]
    rfl
  · rw [h.stats, h.tip]
    rfl

variable [DecidableEq F] [DecidableEq G]

theorem TipAgrees.committed {b : Block G} {above fork : List (Block G)} {forkPoint : Nat}
    {orphaned : List (Transaction G)}
    (h : ReorgStep S cfg st b above fork forkPoint st' (.acceptedReorg orphaned)) :
    TipAgrees S st' (b :: chain) := by
  cases h with
  | committed _ _ _ _ hcommit =>
    obtain ⟨_, _, ⟨⟩⟩ := bind_eq_some_iff.mp hcommit
    exact ⟨rfl, rfl, rfl, rfl⟩

/-- **One step without a rollback keeps the tip on top of the chain.** -/
theorem TipAgrees.step {a : Action G} {chain' : List (Block G)} (ht : TipAgrees S st chain)
    (hc : Canonical S st d chain) (hidle : ∀ target, a = .rollback target → st.RollbackIdle target)
    (hs : st.step S cfg a = some st') (h : ActionStep S cfg st d chain a st' chain') :
    TipAgrees S st' chain' := by
  cases h with
  | idle => exact ht
  | rolledBack hidle' => exact absurd (hidle _ rfl) hidle'
  | restarted s _ =>
    obtain ⟨st₁, hrestart, ht₁⟩ := hc.exists_restart
    have hstart := hc.restart_of_start hs
    rw [hrestart, Except.ok.injEq, Option.some.injEq] at hstart
    exact hstart ▸ ht₁
  | add hstep =>
    cases hstep with
    | refused => exact ht
    | kept => exact ⟨ht.tip, ht.height, ht.tipHash, ht.difficulty⟩
    | extended _ _ hext => exact .extended (extends_of_eq_some hext)
    | failed _ _ _ _ _ hre =>
      cases hre
      exact ⟨ht.tip, ht.height, ht.tipHash, ht.difficulty⟩
    | committed _ _ _ _ hre => exact .committed hre

/-! ## 3. The run and the start -/

/-- **The condition on a step**: an admitted block meets the conditions of an orderly run, the sums
over its lineage fit their types, a rollback does nothing, and at a start the burn total fits a
`u64`. -/
def RefineStep (S : Suite F G) (cfg : NodeConfig) (st : Blockchain G) : Action G → Prop
  | .add ctx b => (Admitted S cfg (ctx 0) st b → OrderlyBlock S cfg st b) ∧
      chainWork (st.lineageOf S b) < 2 ^ 128 ∧ (st.lineageOf S b).length < 2 ^ 64 ∧
      txCount (st.lineageOf S b) < 2 ^ 64 ∧
      st.utxos.totalOutputsEver.toNat + (chainAdds S (st.canonicalChain S)).length +
        (chainAdds S (st.lineageOf S b)).length < 2 ^ 64
  | .rollback targetHeight => st.RollbackIdle targetHeight
  | .restart => st.stats.totalBurned < 2 ^ 64

/-- A test for the condition that validates nothing. -/
def refineTest (S : Suite F G) (cfg : NodeConfig) (st : Blockchain G) : Action G → Bool
  | .add _ b => decide (OrderlyBlock S cfg st b ∧
      chainWork (st.lineageOf S b) < 2 ^ 128 ∧ (st.lineageOf S b).length < 2 ^ 64 ∧
      txCount (st.lineageOf S b) < 2 ^ 64 ∧
      st.utxos.totalOutputsEver.toNat + (chainAdds S (st.canonicalChain S)).length +
        (chainAdds S (st.lineageOf S b)).length < 2 ^ 64)
  | .rollback targetHeight => decide (st.RollbackIdle targetHeight)
  | .restart => decide (st.stats.totalBurned < 2 ^ 64)

theorem refineStep_of_test (st : Blockchain G) (a : Action G) (h : refineTest S cfg st a = true) :
    RefineStep S cfg st a := by
  cases a with
  | add ctx b =>
    obtain ⟨hblock, hrest⟩ := of_decide_eq_true h
    exact ⟨fun _ => hblock, hrest⟩
  | rollback target =>
    have hidle : st.RollbackIdle target := of_decide_eq_true h
    exact hidle
  | restart =>
    have hlt : st.stats.totalBurned < 2 ^ 64 := of_decide_eq_true h
    exact hlt

namespace RefineStep

variable {a : Action G}

section

variable (h : RefineStep S cfg st a)

include h

theorem orderly : OrderlyStep S cfg st a := by
  cases a with
  | add ctx b => exact h.1
  | rollback target => exact .inl h
  | restart => trivial

theorem work (hs : st.NoStale) : WorkStep S st a := by
  cases a with
  | add ctx b => exact ⟨hs, h.2.1⟩
  | rollback target => exact h
  | restart => trivial

theorem totals (hs : st.NoStale) : TotalsStep S st a := by
  cases a with
  | add ctx b => exact ⟨hs, h.2.2.1, h.2.2.2.1⟩
  | rollback target => exact h
  | restart => exact h

theorem count (hs : st.NoStale) : CountStep S cfg st a := by
  refine ⟨h.orderly.allowed hs, ?_⟩
  cases a with
  | add ctx b => exact fun hadm => ⟨(h.1 hadm).2.1.keys, h.2.2.2.2⟩
  | rollback target => trivial
  | restart => trivial

theorem idle : ∀ target, a = .rollback target → st.RollbackIdle target := by
  rintro target rfl
  exact h

end

end RefineStep

/-- **Everything that is kept beside the chain is a function of it.** -/
structure Refined (S : Suite F G) (cfg : NodeConfig) (st : Blockchain G) (d : Database G)
    (chain : List (Block G)) : Prop where
  orderly : Orderly S st d chain
  tip : TipAgrees S st chain
  work : WorkAgrees st chain
  totals : TotalsAgree S cfg.build st chain
  counts : Counts st.utxos (chainAdds S chain)
  disk : DiskDrawn S st chain

/-- **One step.** -/
theorem Refined.step {a : Action G} (h : Refined S cfg st d chain) (ha : RefineStep S cfg st a)
    (hs : st.step S cfg a = some st') : ∃ d' chain', Refined S cfg st' d' chain' := by
  obtain ⟨hc, hstale, -⟩ := id h.orderly
  obtain ⟨d', chain', hstep, ho'⟩ := h.orderly.step ha.orderly hs
  exact ⟨d', chain', ho', h.tip.step hc ha.idle hs hstep, h.work.step hc (ha.work hstale) hstep,
    h.totals.step hc (ha.totals hstale) hstep, counts_step h.counts hc (ha.count hstale) hstep,
    h.disk.step h.orderly ha.orderly hstep⟩

theorem refined_of_boot {network : NetworkType} {st₀ st₁ : Blockchain G}
    (h₀ : boot S network = .ok st₀) (h₁ : st₀.step S cfg .restart = some st₁) :
    ∃ d, Refined S cfg st₁ d [createGenesisBlockFor S network] := by
  obtain ⟨d, ho⟩ := orderly_of_boot h₀
  have hc := ho.canonical
  obtain ⟨s, hs⟩ := hc.restarts (hc.restart_of_start h₁)
  have htotals := totalsAgree_of_boot cfg.build h₀
  have hburned : st₀.stats.totalBurned < 2 ^ 64 := by
    rw [(boot_eq_ok h₀).2]
    exact Nat.two_pow_pos 64
  have hwork : chainWork [createGenesisBlockFor S network] = 1 :=
    chainWork_genesis (createGenesisBlockFor_height_eq S network)
  obtain ⟨st', hrestart, htip⟩ := hc.exists_restart
  obtain rfl : st' = st₁ := by
    have hstart := hc.restart_of_start h₁
    rw [hrestart, Except.ok.injEq, Option.some.injEq] at hstart
    exact hstart
  obtain ⟨hc₁, hs₁⟩ := hc.restarted hs
  refine ⟨d, ⟨hc₁, hs₁, ho.indexed.restarted hs⟩, htip, hc.workAgrees_of_restarts hs ?_ ?_,
    htotals.restarted hc hburned hs, counts_of_restarts (counts_of_boot h₀) hs,
    (diskDrawn_of_boot h₀).restarted hs⟩
  · rw [hwork]
    decide
  · rw [hwork, (boot_eq_ok h₀).2]
    rfl

omit [DecidableEq F] [DecidableEq G] in
theorem Refined.stats_eq {d' : Database G} (h : Refined S cfg st d chain)
    (h' : Refined S cfg st' d' chain) : st'.stats = st.stats := by
  have htip := h.tip.tip_eq h'.tip
  have hheight : st'.stats.height = st.stats.height := by
    rw [h'.tip.height, h.tip.height, htip]
  have hhash : st'.stats.tipHash = st.stats.tipHash := by
    rw [h'.tip.tipHash, h.tip.tipHash, htip]
  have hdifficulty : st'.stats.difficulty = st.stats.difficulty := by
    rw [h'.tip.difficulty, h.tip.difficulty, htip]
  have hblocks := h'.totals.blocks.trans h.totals.blocks.symm
  have htxs := h'.totals.transactions.trans h.totals.transactions.symm
  have hsupply := h'.totals.supply.trans h.totals.supply.symm
  have hburned := h'.totals.burned.trans h.totals.burned.symm
  have hwork := h'.work.memory.trans h.work.memory.symm
  cases hst : st.stats with
  | mk =>
    cases hst' : st'.stats with
    | mk =>
      rw [hst, hst'] at hheight hhash hdifficulty hblocks htxs hsupply hburned hwork
      simp only at hheight hhash hdifficulty hblocks htxs hsupply hburned hwork
      rw [hheight, hhash, hdifficulty, hblocks, htxs, hsupply, hburned, hwork]

/-- **Loading the database gives the running node.** -/
theorem restart_refines {network : NetworkType} {st₀ st₁ st : Blockchain G}
    (h₀ : boot S network = .ok st₀) (h₁ : st₀.step S cfg .restart = some st₁)
    (h : Reaches (Blockchain.step S cfg) (RefineStep S cfg) st₁ st)
    (hburned : st.stats.totalBurned < 2 ^ 64) :
    ∃ st', st.restart S = .ok (some st') ∧ st'.tip = st.tip ∧ st'.stats = st.stats ∧
      st'.utxos.outputs = st.utxos.outputs ∧ st'.utxos.keyImages = st.utxos.keyImages ∧
      st'.utxos.totalOutputsEver.toNat - st'.utxos.reorgDisconnectsTotal.toNat =
        st.utxos.totalOutputsEver.toNat - st.utxos.reorgDisconnectsTotal.toNat ∧
      ((∀ k, st'.utxos.getOutputIndexEntry k = st.utxos.getOutputIndexEntry k) ↔
        ∀ a ∈ chainAdds S (st.canonicalChain S),
          st.readable a.stealth = some a.indexEntry ∨
            (a.stealth ∈ st.utxos.outputIndex ↔ st.tip.height - 1000 ≤ a.height)) := by
  obtain ⟨d, chain, hr⟩ : ∃ d chain, Refined S cfg st d chain := by
    refine Reaches.invariant (I := fun st => ∃ d chain, Refined S cfg st d chain) ?_ ?_ h
    · obtain ⟨d, hr⟩ := refined_of_boot h₀ h₁
      exact ⟨d, _, hr⟩
    · rintro s a s' ⟨d, chain, hr⟩ ha hs
      exact hr.step ha hs
  have hc := hr.orderly.canonical
  obtain ⟨st', hrestart, htip⟩ := hc.exists_restart
  obtain ⟨s, hs⟩ := hc.restarts hrestart
  obtain ⟨hc', hs'⟩ := hc.restarted hs
  have hr' : Refined S cfg st' d chain :=
    ⟨⟨hc', hs', hr.orderly.indexed.restarted hs⟩, htip,
      hc.workAgrees_of_restarts hs hr.work.bound hr.work.disk, hr.totals.restarted hc hburned hs,
      counts_of_restarts hr.counts hs, hr.disk.restarted hs⟩
  obtain ⟨cut, -, hU⟩ := hr.orderly.indexed
  have hU' : st'.utxos.Indexes S chain (max 0 (st.tip.height - 1000)) := by
    rw [hs.utxos]
    exact ((hU.replay _).setDb _).evict st.tip.height 1000
  rw [Nat.zero_max] at hU'
  refine ⟨st', hrestart, hr.tip.tip_eq htip, hr.stats_eq hr',
    (hU'.outputs.ext hU.outputs), Finset.ext fun k => (hU'.keyImages k).trans (hU.keyImages k).symm,
    ?_, ?_⟩
  · rw [hr'.counts.count, hr.counts.count, Nat.add_sub_cancel_left, Nat.add_sub_cancel_left]
  · rw [hc.canonicalChain_eq]
    exact getOutputIndexEntry_iff hU hU' (hr.disk.db_restarted hs) hr.disk.drawn

/-- **The chain a node serves.**  In every run there is a block of its own height at every height up
to the tip, the genesis block at the bottom, the tip on top and each on the one below; and a start
succeeds and serves the same blocks. -/
theorem served_chain {network : NetworkType} {st₀ : Blockchain G} (h₀ : boot S network = .ok st₀)
    (h : Reaches (step S cfg) Allowed st₀ st) :
    st.getBlockByHeight 0 = some (createGenesisBlockFor S st.network) ∧
    (∀ k ≤ st.tip.height, ∃ b, st.getBlockByHeight k = some b ∧ b.height = k ∧
      (k = st.tip.height → b.hash S = st.tip.hash) ∧
      ∀ p, st.getBlockByHeight (k - 1) = some p → 0 < k → b.header.prevHash = p.hash S) ∧
    ∃ st', st.restart S = .ok (some st') ∧ st'.tip.hash = st.tip.hash ∧
      st'.tip.height = st.tip.height ∧
      ∀ k ≤ st.tip.height, st'.getBlockByHeight k = st.getBlockByHeight k := by
  obtain ⟨d, chain, hc⟩ := exists_canonical h₀ h
  have hl := hc.lineage
  refine ⟨?_, fun k hk => ?_, ?_⟩
  · obtain ⟨g, hg, hheight, hget⟩ := hc.exists_getBlockByHeight zero_le
    rw [hget, hl.eq_of_height g hg _ hl.root_mem]
    exact hheight.trans (createGenesisBlockFor_height_eq S st.network).symm
  · obtain ⟨b, hb, rfl, hget⟩ := hc.exists_getBlockByHeight hk
    refine ⟨b, hget, rfl, fun htop => ?_, fun p hp hpos => ?_⟩
    · obtain ⟨t, rest, hchain, hhash, ht⟩ := hc.tip
      rw [hhash, hl.eq_of_height b hb t (hchain ▸ .head _) (htop.trans ht)]
    · obtain ⟨a, ha, hheight, hgeta⟩ := hc.exists_getBlockByHeight (k := b.height - 1) (by omega)
      obtain rfl := Option.some.inj (hgeta.symm.trans hp)
      exact hl.parent_eq a ha b hb (show b.height = a.height + 1 by omega)
  · obtain ⟨st', hst', -⟩ := hc.exists_restart
    obtain ⟨s, hs⟩ := hc.restarts hst'
    refine ⟨st', hst', hs.tip_hash, hs.tip_height, fun k hk => ?_⟩
    obtain ⟨b, hb, hheight, hget⟩ := hc.exists_getBlockByHeight hk
    obtain ⟨b', hb', hheight', hget'⟩ :=
      (hc.restarted hs).1.exists_getBlockByHeight (hk.trans_eq hs.tip_height.symm)
    rw [hget, hget', hl.eq_of_height b' hb' b hb (hheight'.trans hheight.symm)]

end Blockchain

/-! ## 4. On the small chain -/

namespace SmallChain

open Blockchain SmallSuite

def unstarted : Blockchain Z := after booted (.add steady block1)

/-- **A start that changes what the node says.**  A node that was booted and took one block gains
the work of genesis; and a node that has seen the same coinbase in two blocks and disconnected both
loses an output that it never had. -/
theorem start_differs : booted.step suite cfg (.add steady block1) = some unstarted ∧
    unstarted.stats.totalDifficulty = 4096 ∧
    (unstarted.step suite cfg .restart).map (fun st => st.stats.totalDifficulty) = some 4097 ∧
    Reaches (step suite cfg) (fun _ _ => True) booted untwinned ∧
    availableOutputs untwinned.utxos true = 3 ∧
    (untwinned.step suite cfg .restart).map (fun st => availableOutputs st.utxos true) = some 2 := by
  have hrun : (booted.step suite cfg (.add steady block1)).isSome = true ∧
      unstarted.stats.totalDifficulty = 4096 ∧
      (unstarted.step suite cfg .restart).map (fun st => st.stats.totalDifficulty) = some 4097 := by
    decide +kernel
  have htwin : (ranOn [.restart, .add steady block1, .add steady twin2,
      .add steady heavy1]).isSome = true ∧
      availableOutputs untwinned.utxos true = 3 ∧
      (untwinned.step suite cfg .restart).map (fun st => availableOutputs st.utxos true) =
        some 2 := by
    decide +kernel
  exact ⟨step_after hrun.1, hrun.2.1, hrun.2.2, reaches_ranOn htwin.1, htwin.2⟩

/-- After a reorganisation, a start gives the same tip, statistics and answers. -/
theorem reorganized_restart :
    ∃ st st', run (step suite cfg) (refineTest suite cfg) restarted
        [.add steady block1, .add steady heavy1] = some st ∧
      st.tip.hash = heavy1.hash suite ∧ st.restart suite = .ok (some st') ∧
      st'.tip = st.tip ∧ st'.stats = st.stats ∧
      ∀ k, st'.utxos.getOutputIndexEntry k = st.utxos.getOutputIndexEntry k := by
  have hrun : (run (step suite cfg) (refineTest suite cfg) restarted
      [.add steady block1, .add steady heavy1]).any (fun st =>
        decide (st.tip.hash = heavy1.hash suite ∧ st.stats.totalBurned < 2 ^ 64) &&
          (chainAdds suite (st.canonicalChain suite)).all fun a =>
            decide (st.readable a.stealth = some a.indexEntry)) = true := by
    decide +kernel
  obtain ⟨st, hst, hlast⟩ := (Option.any_eq_true _ _).mp hrun
  simp only [Bool.and_eq_true, decide_eq_true_eq, List.all_eq_true] at hlast
  obtain ⟨⟨htip, hburned⟩, hread⟩ := hlast
  have hreach := Reaches.run (P := RefineStep suite cfg) refineStep_of_test .start hst
  obtain ⟨st', hrestart, htip', hstats, -, -, -, hiff⟩ :=
    restart_refines boot_booted booted_restart hreach hburned
  exact ⟨st, st', hst, htip, hrestart, htip', hstats, hiff.mpr fun a ha => .inl (hread a ha)⟩

/-- The node with the first block serves its tip. -/
theorem served_grown : ∃ b, grown.getBlockByHeight grown.tip.height = some b ∧
    b.hash suite = grown.tip.hash := by
  have hreach : Reaches (step suite cfg) Allowed booted grown :=
    .next (.add (fun _ => ctx) block1) (.next .restart .start trivial booted_restart)
      (by decide +kernel) restarted_add
  obtain ⟨b, hb, -, htop, -⟩ := (served_chain boot_booted hreach).2.1 _ le_rfl
  exact ⟨b, hb, htop rfl⟩

end SmallChain

end Coincync
