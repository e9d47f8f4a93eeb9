/-
# Rolling back and starting again keep the chain

`rollback_to_height` above the finality floor cuts the chain off at its target: everything it
disconnects is in memory (`RollsBack`).  A process start replays the chain on disk, block by
block; each block links to the one before, so nothing is truncated, and the counters count the
whole chain (`Restarts`).  Both end in a canonical state.
-/
import Coincync.Chain.Preserve

namespace Coincync

open Lib List Option Map

variable {F G : Type} [Field F] [AddCommGroup G] [Module F G] {S : Suite F G}

namespace Blockchain

variable {cfg : NodeConfig} {st st' : Blockchain G} {d : Database G}
  {chain above below : List (Block G)} {q : Block G}

/-! ## 1. Rolling back -/

omit [AddCommGroup G] in
/-- A rollback to the tip or above it, or below the persisted checkpoint, does nothing. -/
def RollbackIdle (st : Blockchain G) (target : Nat) : Prop :=
  st.tip.height ≤ target ∨ target < st.rollbackFloor

omit [AddCommGroup G] in
instance (st : Blockchain G) (target : Nat) : Decidable (st.RollbackIdle target) := by
  unfold RollbackIdle
  infer_instance

variable {res : Except ChainError (List (Transaction G))}

theorem rollback_idle {target : Nat}
    (hidle : st.RollbackIdle target) (h : st.rollbackToHeight S cfg target = some (st', res)) :
    st' = st := by
  unfold rollbackToHeight at h
  split_ifs at h with htip hfloor
  · exact (Prod.mk.inj (Option.some.inj h)).1.symm
  · exact (Prod.mk.inj (Option.some.inj h)).1.symm
  · exact (hidle.elim htip hfloor).elim

/-- **What a rollback to the block `q` writes**, field by field. -/
structure RollsBack (S : Suite F G) (cfg : NodeConfig) (st : Blockchain G) (d : Database G)
    (above : List (Block G)) (q : Block G) (st' : Blockchain G) : Prop where
  network : st'.network = st.network
  blocks : st'.blocks = st.blocks
  heightToHash : st'.heightToHash = Map.eraseAll (above.map Block.height) st.heightToHash
  tip : st'.tip = tipOf S q
  utxos : st'.utxos = st.utxos.disconnectAll S above
  db : ∃ s, s.tipHash = q.hash S ∧ s.height = q.height ∧
    st'.db = some { d.removeHeightsAbove q.height with state := some s }

variable (hc : Canonical S st d chain)

include hc in
theorem Canonical.rollsBack (hchain : chain = above ++ q :: below)
    (hfloor : st.finalityFloor ≤ q.height)
    (hidle : ¬st.RollbackIdle q.height) (h : st.rollbackToHeight S cfg q.height = some (st', res)) :
    RollsBack S cfg st d above q st' := by
  have hq : q ∈ chain := hchain ▸ mem_append_right _ (.head _)
  unfold RollbackIdle at hidle
  rw [not_or] at hidle
  rw [rollbackToHeight, if_neg hidle.1, if_neg hidle.2, hc.tip_height_eq hchain,
    Nat.add_sub_cancel_left] at h
  simp only [bind_eq_bind, bind_eq_some_iff, Option.some.injEq, Prod.exists, Prod.mk.injEq] at h
  obtain ⟨rewound, disc, hd, rfl, -⟩ := h
  obtain ⟨supply, burned, -, -, rfl, -⟩ := disconnectAbove_eq_some (hchain ▸ hc.lineage)
    (hc.cached_above hchain hfloor) hd
  obtain ⟨hmap, hblk⟩ := hc.recent q (mem_filter.mpr ⟨hq, decide_eq_true hfloor⟩)
  -- the target height is still mapped, to `q`
  have hhash : (st.remapped (Map.eraseAll (above.map Block.height) st.heightToHash)
      (st.utxos.disconnectAll S above) supply burned).getBlockHash q.height = some (q.hash S) := by
    rw [getBlockHash, remapped_heightToHash, lookup_eraseAll, if_neg, hmap, some_or]
    intro hmem
    obtain ⟨x, hx, heq⟩ := List.mem_map.mp hmem
    have hlt := (hchain ▸ hc.lineage).height_above above x hx
    simp only [blockLinks_height] at hlt
    omega
  have hget : (st.remapped (Map.eraseAll (above.map Block.height) st.heightToHash)
      (st.utxos.disconnectAll S above) supply burned).getBlock (q.hash S) = some q := by
    rw [getBlock, remapped_blocks, hblk, some_or]
  rw [resetTip, hhash]
  simp only [hget]
  refine ⟨rfl, rfl, rfl, rfl, rfl, ?_⟩
  change ∃ s, _ ∧ _ ∧ st.db.map _ = _
  rw [hc.db]
  exact ⟨_, rfl, rfl, rfl⟩

include hc in
/-- **A rollback above the finality floor cuts the chain off.** -/
theorem Canonical.rolledBack (hs : st.NoStale)
    (hchain : chain = above ++ q :: below) (hfloor : st.finalityFloor ≤ q.height)
    (h : RollsBack S cfg st d above q st') :
    (∃ d', Canonical S st' d' (q :: below)) ∧ st'.NoStale ∧ st'.finalityFloor = st.finalityFloor := by
  have hl := hchain ▸ hc.lineage
  have hsuffix := hl.suffix above
  have hmem : ∀ x ∈ q :: below, x ∈ chain := fun x hx => hchain ▸ mem_append_right _ hx
  have htip : st'.tip.height = q.height := by rw [h.tip]; rfl
  have htip_eq := hc.tip_height_eq hchain
  have hfl : st'.finalityFloor = st.finalityFloor := by
    simp only [finalityFloor, checkpointInterval, htip] at hfloor ⊢
    omega
  have habove : ∀ x ∈ above, q.height < x.height := fun x hx => hl.height_above above x hx
  have hlow : ∀ k ≤ q.height, st'.heightToHash.lookup k = st.heightToHash.lookup k := by
    intro k hk
    rw [h.heightToHash, lookup_eraseAll, if_neg]
    intro hmem
    obtain ⟨x, hx, rfl⟩ := List.mem_map.mp hmem
    have := habove x hx
    omega
  obtain ⟨s, hs₁, hs₂, hdb⟩ := h.db
  have hindex : ∀ k x, (d.removeHeightsAbove q.height).heightIndex.lookup k = some x ↔
      ∃ c ∈ q :: below, c.height = k ∧ c.hash S = x := by
    intro k x
    rw [Database.removeHeightsAbove, lookup_retain, filter_eq_some_iff, hc.index,
      decide_eq_true_iff]
    constructor
    · rintro ⟨⟨c, hcmem, rfl, rfl⟩, hle⟩
      rw [hchain] at hcmem
      rcases mem_append.mp hcmem with hx | hx
      · have := habove c hx
        omega
      · exact ⟨c, hx, rfl, rfl⟩
    · rintro ⟨c, hcmem, rfl, rfl⟩
      exact ⟨⟨c, hmem c hcmem, rfl, rfl⟩, hsuffix.height_le hcmem⟩
  refine ⟨⟨_, hdb, ?_, ?_, ?_, ?_, hc.stored.sublist hmem, ?_, hindex, ?_, ?_, ?_⟩, ?_, hfl⟩
  · rw [h.network]
    exact hc.genesis
  · rw [h.network]
    exact hc.closed
  · rw [h.blocks]
    exact hc.cache
  · rw [h.network]
    exact hsuffix
  · exact ⟨q, below, rfl, by rw [h.tip]; rfl, htip⟩
  · intro k x hk hx
    rw [htip] at hk
    rw [hlow k hk] at hx
    change (d.removeHeightsAbove q.height).heightIndex.lookup k = some x
    rw [Database.removeHeightsAbove, lookup_retain, hc.mapped k x (by omega) hx]
    exact filter_eq_some_iff.mpr ⟨rfl, decide_eq_true hk⟩
  · intro x hx
    obtain ⟨hx, hxfloor⟩ := mem_filter.mp hx
    rw [hfl] at hxfloor
    obtain ⟨hmap, hblk⟩ := hc.recent x (mem_filter.mpr ⟨hmem x hx, hxfloor⟩)
    exact ⟨(hlow _ (hsuffix.height_le hx)).trans hmap, by rw [h.blocks]; exact hblk⟩
  · exact ⟨s, rfl, by rw [hs₁, h.tip]; rfl, by rw [hs₂, htip]⟩
  · refine noStale_of_lookup fun k x hx => ?_
    rw [htip]
    by_contra hgt
    rw [h.heightToHash, lookup_eraseAll] at hx
    split_ifs at hx with hmem
    have hk : k ≤ st.tip.height := by
      by_contra hk
      rw [hs.lookup (by omega)] at hx
      cases hx
    exact hmem (mem_above_heights hl htip_eq (by omega) hk)

include hc in
theorem Canonical.exists_split {h : Nat} (hle : h ≤ st.tip.height) :
    ∃ above q below, chain = above ++ q :: below ∧ q.height = h := by
  obtain ⟨t, rest, hchain, -, ht⟩ := hc.tip
  rw [ht] at hle
  obtain ⟨q, hq, hqh⟩ := (hchain ▸ hc.lineage).exists_height h hle
  obtain ⟨above, below, hsplit⟩ := append_of_mem (hchain ▸ hq)
  exact ⟨above, q, below, hsplit, hqh⟩

/-! ## 2. The replay loop -/

/-- What one replayed block after the other leaves behind. -/
def Replay.applyAll (S : Suite F G) (cacheStart : Nat) (r : Replay G) (l : List (Block G)) :
    Replay G :=
  l.foldl (fun r b => r.apply S b.height cacheStart b) r

/-- **The replay loop over linked blocks applies every one of them.** -/
theorem replayLoop_eq {tipHeight cacheStart : Nat} : ∀ {l : List (Block G)} {a : Block G}
    {r : Replay G}, r.prevHash = a.hash S →
    (a :: l).IsChain (fun p b => b.header.prevHash = p.hash S) →
    (∀ b ∈ l, d.getByHeight b.height = some b) →
    replayLoop S d tipHeight cacheStart (l.map Block.height) r = r.applyAll S cacheStart l
  | [], _, _, _, _, _ => rfl
  | b :: l, a, r, hprev, hlinks, hget => by
    obtain ⟨hlink, hlinks⟩ := isChain_cons_cons.mp hlinks
    have hnext : b.header.prevHash = r.prevHash := hlink.trans hprev.symm
    rw [map_cons, replayLoop, hget b mem_cons_self]
    simp only [hnext, ne_eq, not_true_eq_false, and_false, if_false]
    exact replayLoop_eq rfl hlinks fun x hx => hget x (.tail _ hx)

/-- The recent part of a list of blocks, as entries of the block cache. -/
def hashPairs (S : Suite F G) (l : List (Block G)) : List (Hash × Block G) :=
  l.map fun b => (b.hash S, b)

theorem applyAll_eq (cacheStart : Nat) : ∀ (l : List (Block G)) (r : Replay G),
    (r.applyAll S cacheStart l).st =
        { r.st with
          heightToHash := Map.insertAll
            (heightPairs S (l.filter fun b => cacheStart ≤ b.height)) r.st.heightToHash
          blocks := Map.insertAll
            (hashPairs S (l.filter fun b => cacheStart ≤ b.height)) r.st.blocks
          utxos := r.st.utxos.connectAll S l } ∧
      (r.applyAll S cacheStart l).blocksApplied = r.blocksApplied + l.length ∧
      (r.applyAll S cacheStart l).txsApplied =
        r.txsApplied + (l.map fun b => b.transactions.length).sum
  | [], r => ⟨rfl, rfl, rfl⟩
  | b :: l, r => by
    obtain ⟨hst, hblocks, htxs⟩ := applyAll_eq cacheStart l (r.apply S b.height cacheStart b)
    change (Replay.applyAll S cacheStart (r.apply S b.height cacheStart b) l).st = _ ∧ _
    rw [hst]
    refine ⟨?_, ?_, ?_⟩
    · by_cases hrecent : cacheStart ≤ b.height
      · simp only [Replay.apply, hrecent, if_true, filter_cons, decide_true, heightPairs,
          hashPairs, map_cons]
        rfl
      · simp only [Replay.apply, hrecent, if_false, filter_cons, decide_false,
          Bool.false_eq_true]
        rfl
    · change (Replay.applyAll S cacheStart (r.apply S b.height cacheStart b) l).blocksApplied = _
      rw [hblocks, length_cons]
      simp only [Replay.apply]
      omega
    · change (Replay.applyAll S cacheStart (r.apply S b.height cacheStart b) l).txsApplied = _
      rw [htxs, map_cons, sum_cons]
      simp only [Replay.apply]
      omega

include hc in
/-- **The replay of a canonical chain**: nothing is truncated. -/
theorem Canonical.replay {cacheStart : Nat} (fresh : Blockchain G) (tipHeight : Nat) :
    replayLoop S d tipHeight cacheStart (List.range (st.tip.height + 1)) ⟨fresh, Hash.zero, 0, 0⟩ =
      (⟨fresh, Hash.zero, 0, 0⟩ : Replay G).applyAll S cacheStart chain.reverse := by
  have hheights : chain.reverse.map Block.height = List.range chain.length :=
    hc.lineage.map_height_reverse
  have hlinks : chain.reverse.IsChain fun p b => b.header.prevHash = p.hash S :=
    isChain_reverse.mpr hc.lineage.isChain
  have hget : ∀ b ∈ chain.reverse, d.getByHeight b.height = some b := fun b hb =>
    hc.getByHeight_eq (mem_reverse.mp hb)
  rw [← hc.length_chain, ← hheights]
  cases hrev : chain.reverse with
  | nil => rfl
  | cons a l =>
    rw [hrev] at hheights hlinks hget
    have h0 : a.height = 0 := by
      rw [hc.length_chain, range_succ_eq_map] at hheights
      exact (List.cons.inj hheights).1
    rw [map_cons, replayLoop, hget a mem_cons_self]
    simp only [h0, lt_irrefl, false_and, if_false]
    rw [replayLoop_eq rfl hlinks fun x hx => hget x (mem_cons_of_mem _ hx)]
    simp only [Replay.applyAll, foldl_cons, h0]

/-! ## 3. A process start -/

/-- The part of the chain that a start puts into memory. -/
def replayed (st : Blockchain G) (chain : List (Block G)) : List (Block G) :=
  chain.reverse.filter fun b => st.tip.height - 200 ≤ b.height

/-- The UTXO set that the replay ends with: the chain connected from the empty set, an empty
index on disk filled from memory, the old entries evicted. -/
def replayedUtxos (S : Suite F G) (index : Option OutputIndexDb) (tipHeight : Nat)
    (chain : List (Block G)) : UtxoSet :=
  let U := ({ UtxoSet.new with db := index } : UtxoSet).connectAll S chain.reverse
  ({ U with
    db := U.db.map fun index : OutputIndexDb =>
      if index.keys = ∅ ∧ 0 < tipHeight then U.outputIndex else index } :
    UtxoSet).evictOldOutputs tipHeight 1000

include hc in
theorem Canonical.rebuildUtxoSet_eq (loaded : Blockchain G) :
    loaded.rebuildUtxoSet S d st.tip.height =
      { loaded with
        heightToHash := Map.insertAll (heightPairs S (st.replayed chain)) loaded.heightToHash
        blocks := Map.insertAll (hashPairs S (st.replayed chain)) loaded.blocks
        utxos := replayedUtxos S loaded.utxos.db st.tip.height chain
        stats :=
          { loaded.stats with
            totalBlocks := asU64 chain.length
            totalTransactions := asU64 (chain.map fun b => b.transactions.length).sum } } := by
  have hsum : (chain.reverse.map fun b => b.transactions.length).sum =
      (chain.map fun b => b.transactions.length).sum := by
    rw [map_reverse, sum_reverse]
  unfold rebuildUtxoSet
  simp only []
  rw [hc.replay]
  obtain ⟨hst, hblocks, htxs⟩ := applyAll_eq (S := S) (st.tip.height - 200) chain.reverse
    ⟨{ loaded with utxos := { UtxoSet.new with db := loaded.utxos.db } }, Hash.zero, 0, 0⟩
  rw [hst, hblocks, htxs, hsum, length_reverse, zero_add, zero_add]
  rfl

/-- **What a start writes**, field by field, on a database with state record `s`. -/
structure Restarts (S : Suite F G) (st : Blockchain G) (d : Database G) (chain : List (Block G))
    (s : ChainStateData) (st' : Blockchain G) : Prop where
  record : d.state = some s
  record_height : s.height = st.tip.height
  network : st'.network = st.network
  tip_hash : st'.tip.hash = st.tip.hash
  tip_height : st'.tip.height = st.tip.height
  blocks : st'.blocks = Map.insertAll (hashPairs S (st.replayed chain)) ∅
  heightToHash : st'.heightToHash = Map.insertAll (heightPairs S (st.replayed chain)) ∅
  utxos : st'.utxos = replayedUtxos S st.utxos.db st.tip.height chain
  db : st'.db = some d
  totalSupply : st'.stats.totalSupply = s.totalSupply
  totalBurned : st'.stats.totalBurned = s.totalBurned
  totalDifficulty : ∃ loaded : Blockchain G, loaded.getBlockByHeight = d.getByHeight ∧
    st'.stats.totalDifficulty =
      (loaded.recomputeTotalDifficulty s.height).getD s.totalDifficulty
  totalBlocks : st'.stats.totalBlocks = asU64 chain.length
  totalTransactions : st'.stats.totalTransactions =
    asU64 (chain.map fun b => b.transactions.length).sum

include hc in
theorem Canonical.restarts (h : st.restart S = .ok (some st')) :
    ∃ s, Restarts S st d chain s st' := by
  obtain ⟨s, hstate, hhash, hheight⟩ := hc.state
  obtain ⟨t, rest, hchain, htip, htipheight⟩ := hc.tip
  have ht : d.blocks.lookup s.tipHash = some t := by
    rw [hhash, htip]
    exact hc.stored t (hchain ▸ mem_cons_self)
  simp only [restart, loadFromDatabase, withDatabase, hc.db, hstate, ht] at h
  split at h
  · cases h
  · split_ifs at h with h₁ h₂
    simp only [Except.ok.injEq, Option.some.injEq] at h
    subst h
    rw [hheight, hc.rebuildUtxoSet_eq]
    exact ⟨s, hstate, hheight, rfl, hhash, hheight, rfl, rfl, rfl, rfl, rfl, rfl,
      ⟨_, funext fun k => rfl, rfl⟩, rfl, rfl⟩

omit [AddCommGroup G] in
theorem mem_replayed {b : Block G} :
    b ∈ st.replayed chain ↔ b ∈ chain ∧ st.tip.height - 200 ≤ b.height := by
  rw [replayed, mem_filter, mem_reverse, decide_eq_true_iff]

include hc in
/-- **A start keeps the chain.** -/
theorem Canonical.restarted {s : ChainStateData}
    (h : Restarts S st d chain s st') : Canonical S st' d chain ∧ st'.NoStale := by
  have hfloor : st'.finalityFloor = st.finalityFloor := by
    rw [finalityFloor, finalityFloor, h.tip_height]
  have hblocks : ∀ k x, st'.blocks.lookup k = some x → x ∈ chain ∧ x.hash S = k := by
    intro k x hx
    rw [h.blocks] at hx
    rcases mem_or_of_lookup_insertAll hx with hmem | hempty
    · obtain ⟨b, hb, heq⟩ := List.mem_map.mp hmem
      cases heq
      exact ⟨(mem_replayed.mp hb).1, rfl⟩
    · cases hempty
  have hheights : ∀ k x, st'.heightToHash.lookup k = some x →
      ∃ b ∈ chain, b.height = k ∧ b.hash S = x := by
    intro k x hx
    rw [h.heightToHash] at hx
    rcases mem_or_of_lookup_insertAll hx with hmem | hempty
    · obtain ⟨b, hb, heq⟩ := List.mem_map.mp hmem
      cases heq
      exact ⟨b, (mem_replayed.mp hb).1, rfl, rfl⟩
    · cases hempty
  have hnd : ((st.replayed chain).map Block.height).Nodup := by
    refine List.Nodup.sublist (List.Sublist.map _ filter_sublist) ?_
    rw [map_reverse, nodup_reverse]
    exact hc.lineage.heights_nodup
  refine ⟨⟨h.db, ?_, ?_, ?_, ?_, hc.stored, ?_, hc.index, ?_, ?_, ?_⟩, ?_⟩
  · rw [h.network]
    exact hc.genesis
  · rw [h.network]
    exact hc.closed
  · intro k x hx
    obtain ⟨hmem, rfl⟩ := hblocks k x hx
    exact hc.stored x hmem
  · rw [h.network]
    exact hc.lineage
  · rw [h.tip_hash, h.tip_height]
    exact hc.tip
  · intro k x _ hx
    exact (hc.index k x).mpr (hheights k x hx)
  · intro x hx
    obtain ⟨hmem, hxfloor⟩ := mem_filter.mp hx
    have hxfloor' := of_decide_eq_true hxfloor
    have hrep : x ∈ st.replayed chain := by
      refine mem_replayed.mpr ⟨hmem, ?_⟩
      rw [hfloor, finalityFloor, checkpointInterval] at hxfloor'
      omega
    refine ⟨?_, ?_⟩
    · rw [h.heightToHash]
      exact lookup_heightPairs_of_mem S hnd _ hrep
    · rw [h.blocks]
      refine lookup_insertAll_of_mem (fun e he heq => ?_)
        (by simpa [hashPairs] using ⟨x, hrep, rfl⟩)
      obtain ⟨y, hy, rfl⟩ := List.mem_map.mp he
      exact eq_of_hash (hc.stored y (mem_replayed.mp hy).1) (hc.stored x hmem) heq
  · rw [h.tip_hash, h.tip_height]
    exact hc.state
  · refine noStale_of_lookup fun k x hx => ?_
    obtain ⟨b, hb, rfl, -⟩ := hheights k x hx
    rw [h.tip_height]
    exact hc.height_le_tip hb

end Blockchain

end Coincync
