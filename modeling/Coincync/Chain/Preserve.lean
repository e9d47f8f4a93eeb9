/-
# The chain is kept

Every outcome of `add_block` keeps the invariant of `Coincync.Chain.Canonical`, with the chain
that `ChainStep` says: an extension puts the block on top, a committed reorganisation replaces the
part above the fork point, and everything else -- a failed reorganisation included -- leaves the
chain as it is.  The work is in the height maps: `restoredHeights` gives the old map back up to
the old tip, and above it as far as the rollback clears.
-/
import Coincync.Chain.Canonical
import Coincync.Consensus.ValidBlock

namespace Coincync

open Lib List Option Map

variable {h : Nat} {F G : Type} [Field F] [AddCommGroup G] [Module F G] {S : Suite F G}

namespace Blockchain

/-! ## 1. Height maps -/

theorem insertAll_heightPairs_concat (l : List (Block G)) (b : Block G) (m : Map Nat Hash) :
    Map.insertAll (heightPairs S (l ++ [b])) m =
      (Map.insertAll (heightPairs S l) m).insert b.height (b.hash S) := by
  simp only [heightPairs, Map.insertAll, map_append, foldl_append, map_cons,
    map_nil, foldl_cons, foldl_nil]

section

variable {root q : Block G} {above below done : List (Block G)} {M : Map Nat Hash} {tip top : Nat}

section

variable (hl : Lineage (blockLinks S) root (above ++ q :: below))
  (htip : tip = q.height + above.length)
include hl htip

/-- **A failed reorganisation gives the height map back up to the old tip.** -/
theorem lookup_restoredHeights_of_le (hmapped : ∀ x ∈ above, M.lookup x.height = some (x.hash S))
    (hdone : ∀ x ∈ done, q.height < x.height) (hle : h ≤ tip) :
    (restoredHeights S M above done q.height top).lookup h = M.lookup h := by
  unfold restoredHeights
  by_cases hq : q.height < h
  · -- a height of the old main chain, mapped again
    obtain ⟨x, hx, rfl⟩ := List.mem_map.mp (mem_above_heights hl htip hq hle)
    have hnd : (above.reverse.map Block.height).Nodup := by
      rw [map_reverse, nodup_reverse]
      have := hl.heights_nodup
      rw [map_append] at this
      exact List.Nodup.of_append_left this
    rw [lookup_heightPairs_of_mem S hnd _ (mem_reverse.mpr hx), hmapped x hx]
  · -- a height at or below the fork point, never touched
    have habove : ∀ x ∈ above, x.height ≠ h := fun x hx => by
      have := hl.height_above above x hx
      simp only [blockLinks_height] at this
      omega
    rw [lookup_heightPairs_of_ne S _ fun x hx => habove x (mem_reverse.mp hx),
      lookup_eraseAll, if_neg, lookup_heightPairs_of_ne, lookup_eraseAll, if_neg]
    · exact fun hmem => by
        obtain ⟨x, hx, heq⟩ := List.mem_map.mp hmem
        exact habove x hx heq
    · intro x hx
      have := hdone x hx
      omega
    · rw [mem_range']
      rintro ⟨i, -, rfl⟩
      omega

theorem lookup_restoredHeights_of_lt (hlt : tip < h) (hM : M.lookup h = none)
    (hclear : h ≤ top ∨ ∀ x ∈ done, x.height ≠ h) :
    (restoredHeights S M above done q.height top).lookup h = none := by
  have habove : ∀ x ∈ above, x.height ≠ h := by
    intro x hx heq
    cases above with
    | nil => exact absurd hx not_mem_nil
    | cons a above =>
      have h1 := hl.length_eq
      have h2 := (hl.suffix (a :: above)).length_eq
      have h3 := hl.height_le (mem_append_left (q :: below) hx)
      simp only [append_eq, length_append, length_cons, blockLinks_height]
        at h1 h2 h3 htip
      omega
  unfold restoredHeights
  rw [lookup_heightPairs_of_ne S _ fun x hx => habove x (mem_reverse.mp hx), lookup_eraseAll]
  split_ifs with hmem
  · rfl
  · rcases hclear with hle | hdone
    · exact absurd (mem_range'.mpr ⟨h - q.height - 1, by omega, by omega⟩) hmem
    · rw [lookup_heightPairs_of_ne S _ hdone, lookup_eraseAll, hM, ite_self]

end

end

/-! ## 2. The branches of a reorganisation -/

variable {cfg : NodeConfig} {ctx : Nat → CallContext G} {st st' : Blockchain G} {d : Database G}
  {chain above below fork : List (Block G)} {b q : Block G}

omit [AddCommGroup G] in
theorem mem_newChain_iff {x : Block G} :
    x ∈ b :: (fork.reverse ++ q :: below) ↔ x ∈ fork ++ [b] ∨ x ∈ q :: below := by
  simp only [mem_cons, mem_append, mem_reverse, not_mem_nil, or_false]
  tauto

omit [AddCommGroup G] in
theorem finalityFloor_le (htip : st'.tip.height = b.height) (hq : st.finalityFloor ≤ q.height)
    (hlt : q.height ≤ b.height) : st.finalityFloor ≤ st'.finalityFloor := by
  simp only [finalityFloor, checkpointInterval, htip] at hq ⊢
  omega

namespace Branches

variable (hbr : Branches S st chain b above q below fork)

include hbr

theorem heights_nodup : ((fork ++ [b]).map Block.height).Nodup := by
  have h : ((b :: (fork.reverse ++ q :: below)).map Block.height).Nodup :=
    hbr.lineage.heights_nodup
  rw [← cons_append, map_append] at h
  have hnew := nodup_reverse.mpr (List.Nodup.of_append_left h)
  simpa using hnew

theorem lt_of_mem : ∀ x ∈ fork ++ [b], q.height < x.height ∧ x.height ≤ b.height := by
  intro x hx
  have hmem : x ∈ b :: fork.reverse := by
    simpa [or_comm] using hx
  have hl := hbr.lineage
  rw [← cons_append] at hl
  exact ⟨hl.height_above _ x hmem, hbr.lineage.height_le (mem_append_left _ hmem)⟩

theorem le_of_mem : ∀ x ∈ q :: below, x.height ≤ q.height := fun _ hx =>
  (hbr.lineage.tail_append.suffix fork.reverse).height_le hx

theorem height_of_mem {done left : List (Block G)} (hfork : fork = done ++ left) :
    ∀ x ∈ done, q.height < x.height ∧ x.height < b.height := by
  intro x hx
  have hmem : x ∈ fork.reverse := mem_reverse.mpr (hfork ▸ mem_append_left _ hx)
  exact ⟨hbr.lineage.tail_append.height_above fork.reverse x hmem,
    hbr.lineage.height_lt x (mem_append_left _ hmem)⟩

theorem exists_height (hlt : q.height < h) (hle : h ≤ b.height) :
    ∃ x ∈ fork ++ [b], x.height = h := by
  obtain ⟨x, hx, hxh⟩ := hbr.lineage.exists_height h hle
  rcases mem_newChain_iff.mp hx with hx | hx
  · exact ⟨x, hx, hxh⟩
  · have := hbr.le_of_mem x hx
    simp only [blockLinks_height] at hxh
    omega

theorem above_height (hc : Canonical S st d chain) : ∀ x ∈ above, q.height < x.height :=
  (hbr.chain_eq ▸ hc.lineage).height_above above

theorem lookup_of_lt (M : Map Nat Hash) (hlt : q.height < h) (hle : h ≤ b.height) :
    ∃ x ∈ fork ++ [b], x.height = h ∧
      (Map.insertAll (heightPairs S (fork ++ [b])) M).lookup h = some (x.hash S) := by
  obtain ⟨x, hx, rfl⟩ := hbr.exists_height hlt hle
  exact ⟨x, hx, rfl, lookup_heightPairs_of_mem S hbr.heights_nodup _ hx⟩

theorem lookup_of_notMem (M : Map Nat Hash) (hh : h ≤ q.height ∨ b.height < h) :
    (Map.insertAll (heightPairs S (fork ++ [b])) M).lookup h = M.lookup h := by
  refine lookup_heightPairs_of_ne S _ fun x hx => ?_
  have := hbr.lt_of_mem x hx
  omega

theorem lookup_eraseAll_above (hc : Canonical S st d chain) (M : Map Nat Hash)
    (hle : h ≤ q.height) : (Map.eraseAll (above.map Block.height) M).lookup h = M.lookup h := by
  rw [lookup_eraseAll, if_neg]
  intro hmem
  obtain ⟨x, hx, rfl⟩ := List.mem_map.mp hmem
  have := hbr.above_height hc x hx
  omega

theorem index (hc : Canonical S st d chain) (h : Nat) (x : Hash) :
    (Map.eraseAll (List.range' (b.height + 1) (st.tip.height - b.height))
        (Map.insertAll (heightPairs S (fork ++ [b])) d.heightIndex)).lookup h = some x ↔
      ∃ c ∈ b :: (fork.reverse ++ q :: below), c.height = h ∧ c.hash S = x := by
  rw [lookup_eraseAll]
  rcases lt_or_ge b.height h with hgt | hle
  · -- above the new tip: cleared, or not there before
    have hright : ¬∃ c ∈ b :: (fork.reverse ++ q :: below), c.height = h ∧ c.hash S = x := by
      rintro ⟨c, hmem, rfl, -⟩
      have : c.height ≤ b.height := hbr.lineage.height_le hmem
      omega
    have hleft : ¬(if h ∈ List.range' (b.height + 1) (st.tip.height - b.height) then none
        else (Map.insertAll (heightPairs S (fork ++ [b])) d.heightIndex).lookup h) = some x := by
      split_ifs with hmem
      · exact not_false
      · rw [hbr.lookup_of_notMem _ (.inr hgt), hc.index]
        rintro ⟨c, hcmem, rfl, -⟩
        have := hc.height_le_tip hcmem
        exact hmem (mem_range'.mpr ⟨c.height - b.height - 1, by omega, by omega⟩)
    exact iff_of_false hleft hright
  · have hkeep : h ∉ List.range' (b.height + 1) (st.tip.height - b.height) := by
      rw [mem_range']
      rintro ⟨i, -, rfl⟩
      omega
    rw [if_neg hkeep]
    rcases lt_or_ge q.height h with hlt | hge
    · obtain ⟨y, hy, rfl, hlookup⟩ := hbr.lookup_of_lt d.heightIndex hlt hle
      rw [hlookup, Option.some.injEq]
      have hymem := mem_newChain_iff.mpr (Or.inl (b := y ∈ q :: below) hy)
      constructor
      · intro hxy
        exact ⟨y, hymem, rfl, hxy⟩
      · rintro ⟨c, hcmem, hch, rfl⟩
        rw [hbr.lineage.eq_of_height c hcmem y hymem hch]
    · -- at or below the fork point the two chains are one
      rw [hbr.lookup_of_notMem _ (.inl hge), hc.index]
      constructor
      · rintro ⟨c, hcmem, rfl, rfl⟩
        rw [hbr.chain_eq] at hcmem
        rcases mem_append.mp hcmem with hmem | hmem
        · have := hbr.above_height hc c hmem
          omega
        · exact ⟨c, mem_newChain_iff.mpr (.inr hmem), rfl, rfl⟩
      · rintro ⟨c, hcmem, rfl, rfl⟩
        rcases mem_newChain_iff.mp hcmem with hmem | hmem
        · have := (hbr.lt_of_mem c hmem).1
          omega
        · refine ⟨c, ?_, rfl, rfl⟩
          rw [hbr.chain_eq]
          exact mem_append_right _ hmem

end Branches

/-! ## 3. An extension -/

section

omit [AddCommGroup G]

/-- What an eviction may do to the two maps of the block cache: drop entries, but no mapping of a
recent height and no block that is not mapped at an old one. -/
structure Evicts (tipHeight : Nat) (entries : List (Nat × Hash))
    (m r : Map Hash (Block G) × Map Nat Hash) : Prop where
  blocks_sub : ∀ k x, r.1.lookup k = some x → m.1.lookup k = some x
  heights_sub : ∀ h x, r.2.lookup h = some x → m.2.lookup h = some x
  blocks_keep : ∀ k, (∀ e ∈ entries, e.1 + 200 < tipHeight → e.2 ≠ k) →
    r.1.lookup k = m.1.lookup k
  heights_keep : ∀ h, tipHeight ≤ h + 200 → r.2.lookup h = m.2.lookup h

theorem Evicts.refl (tipHeight : Nat) (entries : List (Nat × Hash))
    (m : Map Hash (Block G) × Map Nat Hash) : Evicts tipHeight entries m m :=
  ⟨fun _ _ h => h, fun _ _ h => h, fun _ _ => rfl, fun _ _ => rfl⟩

theorem evictLoop_evicts (tipHeight : Nat) : ∀ (n : Nat) (entries : List (Nat × Hash))
    (m : Map Hash (Block G) × Map Nat Hash),
    Evicts tipHeight entries m (evictLoop tipHeight n entries m)
  | 0, entries, m => by
    rw [evictLoop]
    exact Evicts.refl tipHeight entries m
  | n + 1, [], m => by
    rw [evictLoop]
    exact Evicts.refl tipHeight [] m
  | n + 1, e :: t, m => by
    rw [evictLoop]
    split_ifs with hkeep
    · have ih := evictLoop_evicts tipHeight (n + 1) t m
      exact ⟨ih.blocks_sub, ih.heights_sub,
        fun k hk => ih.blocks_keep k fun e' he' => hk e' (.tail _ he'),
        ih.heights_keep⟩
    · -- this entry goes
      have ih := evictLoop_evicts tipHeight n t (m.1.erase e.2, m.2.erase e.1)
      rw [not_or] at hkeep
      refine ⟨fun k x hx => ?_, fun h x hx => ?_, fun k hk => ?_, fun h hh => ?_⟩
      · have := ih.blocks_sub k x hx
        rw [lookup_erase_ite] at this
        split_ifs at this
        exact this
      · have := ih.heights_sub h x hx
        rw [lookup_erase_ite] at this
        split_ifs at this
        exact this
      · rw [ih.blocks_keep k fun e' he' => hk e' (mem_cons_of_mem _ he'),
          lookup_erase_ite, if_neg]
        exact fun heq => hk e (.head _) (by omega) heq.symm
      · rw [ih.heights_keep h hh, lookup_erase_ite, if_neg]
        omega

theorem mem_heightEntries {x : Hash} (hmem : (h, x) ∈ st.heightEntries) :
    st.heightToHash.lookup h = some x := by
  obtain ⟨k, -, hk⟩ := mem_filterMap.mp hmem
  obtain ⟨y, hy, heq⟩ := map_eq_some_iff.mp hk
  cases heq
  exact hy

theorem evictBlockCache_eq (st : Blockchain G) :
    ∃ blocks heights, st.evictBlockCache = { st with blocks := blocks, heightToHash := heights } ∧
      Evicts st.tip.height st.heightEntries (st.blocks, st.heightToHash) (blocks, heights) := by
  by_cases h : st.blocks.keys.card ≤ maxBlockCache
  · rw [evictBlockCache, if_pos h]
    exact ⟨st.blocks, st.heightToHash, rfl, Evicts.refl _ _ _⟩
  · have hloop := evictLoop_evicts st.tip.height (st.blocks.keys.card - maxBlockCache)
      st.heightEntries (st.blocks, st.heightToHash)
    rw [evictBlockCache, if_neg h]
    generalize evictLoop st.tip.height (st.blocks.keys.card - maxBlockCache) st.heightEntries
      (st.blocks, st.heightToHash) = r at hloop ⊢
    exact ⟨r.1, r.2, rfl, hloop⟩

end

/-- **What an extension writes**, field by field. -/
structure Extends (S : Suite F G) (cfg : NodeConfig) (st : Blockchain G) (b : Block G)
    (st' : Blockchain G) : Prop where
  network : st'.network = st.network
  tip : st'.tip = tipOf S b
  stats : st'.stats = st.extendedStats S b
    (st.stats.totalSupply + (calculateBlockReward b.height).val)
    (st.stats.totalBurned + blockFeeBurn S cfg.build b)
  cache : Evicts b.height
    ({ st with heightToHash := st.heightToHash.insert b.height (b.hash S) } :
      Blockchain G).heightEntries
    (st.blocks, st.heightToHash.insert b.height (b.hash S)) (st'.blocks, st'.heightToHash)
  utxos : st'.utxos =
    { (st.utxos.connect S b.height b.transactions).evictOldOutputs b.height 1000 with
      db := ((st.utxos.connect S b.height b.transactions).evictOldOutputs b.height 1000).db.map
        (insertOutputs (blockAdds S b.height b.transactions)) }
  db : st'.db = st.db.map fun d =>
    { d with
      heightIndex := d.heightIndex.insert b.height (b.hash S)
      state := some
        { tipHash := b.hash S
          height := b.height
          totalDifficulty := st'.stats.totalDifficulty
          totalSupply := st'.stats.totalSupply
          totalBurned := asU64 st'.stats.totalBurned
          lastCheckpoint :=
            if 0 < b.height ∧ b.height % checkpointInterval = 0 then b.height
            else d.lastCheckpoint } }

theorem extends_of_eq_some (h : st.extendTip S cfg b = some st') : Extends S cfg st b st' := by
  obtain rfl := extendTip_eq_some h
  obtain ⟨blocks, heights, heq, hcache⟩ := evictBlockCache_eq { st with
    heightToHash := st.heightToHash.insert b.height (b.hash S)
    tip := tipOf S b
    stats := st.extendedStats S b (st.stats.totalSupply + (calculateBlockReward b.height).val)
      (st.stats.totalBurned + blockFeeBurn S cfg.build b)
    utxos := (st.utxos.connect S b.height b.transactions).evictOldOutputs b.height 1000 }
  rw [heq]
  exact ⟨rfl, rfl, rfl, hcache, rfl, rfl⟩

theorem Canonical.exists_of_insert (hc : Canonical S st d chain)
    (hheight : b.height = st.tip.height + 1) {x : Hash} (hle : h ≤ b.height)
    (hx : (st.heightToHash.insert b.height (b.hash S)).lookup h = some x) :
    ∃ c ∈ b :: chain, c.height = h ∧ c.hash S = x := by
  rw [lookup_insert_ite] at hx
  split_ifs at hx with heq
  · exact ⟨b, .head _, heq.symm, Option.some.inj hx⟩
  · obtain ⟨c, hcmem, hc⟩ := (hc.index h x).mp (hc.mapped h x (by omega) hx)
    exact ⟨c, .tail _ hcmem, hc⟩

/-- **An extension puts the block on top of the chain.** -/
theorem Canonical.extended (hc : Canonical S st d chain) (hs : st.NoStale)
    (hl : Lineage (blockLinks S) (createGenesisBlockFor S st.network) (b :: chain))
    (hb : st.blocks.lookup (b.hash S) = some b) (h : Extends S cfg st b st') :
    (∃ d', Canonical S st' d' (b :: chain)) ∧ st'.NoStale := by
  have hheight : b.height = st.tip.height + 1 := by
    have h1 := hl.length_eq
    rw [hc.length_chain] at h1
    exact h1.symm
  have htip : st'.tip.height = b.height := by rw [h.tip]; rfl
  have hstored : Stored (blockLinks S) (fun k => d.blocks.lookup k) (b :: chain) :=
    Stored.cons (hc.cache _ _ hb) hc.stored
  have hdb := h.db
  rw [hc.db, map_some] at hdb
  have hindex : ∀ k x, (d.heightIndex.insert b.height (b.hash S)).lookup k = some x ↔
      ∃ c ∈ b :: chain, c.height = k ∧ c.hash S = x := by
    intro k x
    rw [lookup_insert_ite]
    split_ifs with hk
    · rw [Option.some.injEq]
      constructor
      · intro hx
        exact ⟨b, .head _, hk.symm, hx⟩
      · rintro ⟨c, hcmem, hck, rfl⟩
        rw [hl.eq_of_height c hcmem b mem_cons_self (hck.trans hk)]
    · rw [hc.index]
      constructor
      · rintro ⟨c, hcmem, hcx⟩
        exact ⟨c, .tail _ hcmem, hcx⟩
      · rintro ⟨c, hcmem, hcx⟩
        rcases mem_cons.mp hcmem with rfl | hcmem
        · exact absurd hcx.1.symm hk
        · exact ⟨c, hcmem, hcx⟩
  refine ⟨⟨_, hdb, ?_, ?_, ?_, ?_, hstored, ?_, hindex, ?_, ?_, ?_⟩, ?_⟩
  · rw [h.network]
    exact hc.genesis
  · rw [h.network]
    exact hc.closed
  · exact fun k x hx => hc.cache k x (h.cache.blocks_sub k x hx)
  · rw [h.network]
    exact hl
  · exact ⟨b, chain, rfl, by rw [h.tip]; rfl, htip⟩
  · intro k x hk hx
    rw [htip] at hk
    exact (hindex k x).mpr (hc.exists_of_insert hheight hk (h.cache.heights_sub k x hx))
  · -- what the eviction drops is 200 blocks below the tip, and the floor is not that low
    intro x hx
    obtain ⟨hmem, hfloor⟩ := mem_filter.mp hx
    have hfloor' := of_decide_eq_true hfloor
    have hrecent : b.height ≤ x.height + 200 := by
      simp only [finalityFloor, checkpointInterval, htip] at hfloor'
      omega
    have hcached : (st.heightToHash.insert b.height (b.hash S)).lookup x.height = some (x.hash S) ∧
        st.blocks.lookup (x.hash S) = some x := by
      rcases mem_cons.mp hmem with rfl | hmem
      · exact ⟨by rw [lookup_insert_ite, if_pos rfl], hb⟩
      · have hlow : st.finalityFloor ≤ x.height := by
          simp only [finalityFloor, checkpointInterval, htip] at hfloor' ⊢
          omega
        obtain ⟨hm, hblk⟩ := hc.recent x (mem_filter.mpr ⟨hmem, decide_eq_true hlow⟩)
        have hlt : x.height < b.height := hl.height_lt x hmem
        exact ⟨by rw [lookup_insert_ite, if_neg (by omega), hm], hblk⟩
    refine ⟨(h.cache.heights_keep _ hrecent).trans hcached.1,
      (h.cache.blocks_keep _ fun e he hold heq => ?_).trans hcached.2⟩
    obtain ⟨c, hcmem, hce, hcx⟩ := hc.exists_of_insert hheight (by omega) (mem_heightEntries he)
    have : c = x := eq_of_hash (hstored c hcmem) (hstored x hmem) (hcx.trans heq)
    rw [this] at hce
    omega
  · exact ⟨_, rfl, by rw [h.tip]; rfl, htip.symm⟩
  · refine noStale_of_lookup fun k x hx => ?_
    have hx' := h.cache.heights_sub k x hx
    rw [lookup_insert_ite] at hx'
    rw [htip]
    split_ifs at hx' with hk
    · omega
    · by_contra hgt
      rw [hs.lookup (by omega)] at hx'
      cases hx'

theorem lookup_storeBlock (S : Suite F G) (st : Blockchain G) (b : Block G) :
    (st.storeBlock S b).blocks.lookup (b.hash S) = some b :=
  Finmap.lookup_insert _

/-! ## 4. What a commit writes -/

/-- **What a commit writes**, field by field. -/
structure Commits (S : Suite F G) (cfg : NodeConfig) (st before : Blockchain G)
    (disconnected : Disconnected G) (fork : List (Block G)) (b : Block G) (work : Nat)
    (st' : Blockchain G) : Prop where
  network : st'.network = st.network
  blocks : st'.blocks = st.blocks
  heightToHash : st'.heightToHash = st.heightToHash.insert b.height (b.hash S)
  tip : st'.tip = tipOf S b
  totalDifficulty : st'.stats.totalDifficulty = work
  totalSupply : st'.stats.totalSupply =
    st.stats.totalSupply + (calculateBlockReward b.height).val
  totalBurned : st'.stats.totalBurned = st.stats.totalBurned + blockFeeBurn S cfg.build b
  totalBlocks : st'.stats.totalBlocks =
    adjustCount st.stats.totalBlocks disconnected.txLists.length (fork ++ [b]).length
  totalTransactions : st'.stats.totalTransactions =
    adjustCount st.stats.totalTransactions (disconnected.txLists.map List.length).sum
      ((fork ++ [b]).map fun fb => fb.transactions.length).sum
  utxos : st'.utxos =
    { st.utxos.connect S b.height b.transactions with
      db := (st.utxos.connect S b.height b.transactions).db.map (reorgOutputIndex
        (disconnected.txLists.flatten.flatMap fun tx =>
          tx.outputs.map fun o => o.stealthAddress.bytes)
        ((fork ++ [b]).flatMap fun fb =>
          (blockAdds S fb.height fb.transactions).map fun a => (a.stealth, a.indexEntry))) }
  db : st'.db = st.db.map fun d =>
    reorgDatabase S (fork ++ [b]) (List.range' (b.height + 1) (before.tip.height - b.height))
      { tipHash := b.hash S
        height := b.height
        totalDifficulty := work
        totalSupply := st'.stats.totalSupply
        totalBurned := asU64 st'.stats.totalBurned
        lastCheckpoint := d.lastCheckpoint } d

theorem commits_of_eq_some {before : Blockchain G} {disconnected : Disconnected G} {work : Nat}
    (h : st.commitReorg S cfg before disconnected fork b work = some st') :
    Commits S cfg st before disconnected fork b work st' := by
  obtain ⟨connected, hcon, ⟨⟩⟩ := bind_eq_some_iff.mp h
  obtain rfl := connectBlock_eq_some hcon
  exact ⟨rfl, rfl, rfl, rfl, rfl, rfl, rfl, rfl, rfl, rfl, rfl⟩

/-! ## 5. A failed reorganisation -/

variable [DecidableEq F] [DecidableEq G]

variable (hc : Canonical S st d chain) (hs : st.NoStale)
  (hbr : Branches S st chain b above q below fork)

include hc hs hbr in
theorem failed_heights {e : ReorgError}
    (h : ReorgStep S cfg st b above fork q.height st' (.invalid (.reorg e))) :
    (∀ k ≤ st.tip.height, st'.heightToHash.lookup k = st.heightToHash.lookup k) ∧
      (b.height ≤ st.tip.height + 1 → st'.heightToHash = st.heightToHash) := by
  cases h with
  | @failed done left top _ hfork hturn htop =>
    have hl := hbr.chain_eq ▸ hc.lineage
    have htip := hc.tip_height_eq hbr.chain_eq
    have hdone := hbr.height_of_mem hfork
    have hmapped : ∀ x ∈ above, st.heightToHash.lookup x.height = some (x.hash S) := fun x hx =>
      (hc.cached_above hbr.chain_eq hbr.floor x hx).1
    have hlow : ∀ k ≤ st.tip.height, (restoredHeights S st.heightToHash above done q.height
        top).lookup k = st.heightToHash.lookup k := fun k hk =>
      lookup_restoredHeights_of_le hl htip hmapped (fun x hx => (hdone x hx).1) hk
    refine ⟨hlow, fun hb => ?_⟩
    refine Finmap.ext_lookup fun k => ?_
    by_cases hk : k ≤ st.tip.height
    · exact hlow k hk
    · rw [hs.lookup (by omega)]
      refine lookup_restoredHeights_of_lt hl htip (by omega) (hs.lookup (by omega)) (.inr ?_)
      intro x hx
      have := (hdone x hx).2
      omega

include hc hs hbr in
theorem Canonical.failed {e : ReorgError}
    (h : ReorgStep S cfg st b above fork q.height st' (.invalid (.reorg e))) :
    Canonical S st' d chain := by
  have hlow := (failed_heights hc hs hbr h).1
  cases h with
  | failed =>
    refine ⟨hc.db, hc.genesis, hc.closed, hc.cache, hc.lineage, hc.stored, hc.tip, hc.index, ?_,
      ?_, hc.state⟩
    · intro k x hk hx
      rw [hlow k hk] at hx
      exact hc.mapped k x hk hx
    · intro x hx
      obtain ⟨hm, hblk⟩ := hc.recent x hx
      refine ⟨?_, hblk⟩
      rw [hlow _ (hc.height_le_tip (mem_of_mem_filter hx))]
      exact hm

/-! ## 6. A committed reorganisation -/

theorem ValidInTurn.exists_parent {U : UtxoSet} {l : List (Block G)}
    (h : ValidInTurn S cfg st U l) :
    ∀ x ∈ l, 0 < x.height → ∃ p, st.blocks.lookup x.header.prevHash = some p := by
  induction h with
  | nil => simp
  | cons ctx hv _ ih =>
    intro x hx h0
    rcases mem_cons.mp hx with rfl | hx
    · obtain ⟨p, hp, -⟩ := ((validateBlock_valid_iff S).mp hv).exists_parent h0
      exact ⟨p, hp⟩
    · exact ih x hx h0

theorem Branches.cached (hbr : Branches S st chain b above q below fork)
    (hc : Canonical S st d chain) (hb : st.blocks.lookup (b.hash S) = some b) {U : UtxoSet}
    (hvalid : ValidInTurn S cfg st U (fork ++ [b])) :
    ∀ x ∈ fork ++ [b], st.blocks.lookup (x.hash S) = some x := by
  intro x hx
  rcases mem_append.mp hx with hx | hx
  · have hmem : x ∈ fork.reverse ++ q :: below :=
      mem_append_left _ (mem_reverse.mpr hx)
    obtain ⟨c, hcmem, hparent, hheight⟩ := hbr.lineage.exists_child x hmem
    have hlt := (hbr.lt_of_mem x (mem_append_left _ hx)).1
    have hcnew : c ∈ fork ++ [b] := by
      rcases mem_newChain_iff.mp hcmem with h | h
      · exact h
      · have := hbr.le_of_mem c h
        simp only [blockLinks_height] at hheight
        omega
    obtain ⟨p, hp⟩ := hvalid.exists_parent c hcnew (by simp only [blockLinks_height] at hheight; omega)
    have hparent' : c.header.prevHash = x.hash S := hparent
    rw [hparent'] at hp
    have hstored : d.blocks.lookup (x.hash S) = some x := by
      have := hbr.stored x hmem
      rwa [hc.getBlock_eq] at this
    rw [hp, ← hc.cache _ _ hp, hstored]
  · rw [mem_singleton.mp hx]
    exact hb

include hc hs hbr in
/-- **A committed reorganisation replaces the chain above the fork point.** -/
theorem Canonical.committed {orphaned : List (Transaction G)}
    (hb : st.blocks.lookup (b.hash S) = some b)
    (h : ReorgStep S cfg st b above fork q.height st' (.acceptedReorg orphaned)) :
    (∃ d', Canonical S st' d' (b :: (fork.reverse ++ q :: below))) ∧ st'.NoStale := by
  cases h with
  | @committed connected _ supply burned _ _ hvalid hconnected hcommit =>
    have hcom := commits_of_eq_some hcommit
    have hnetwork : st'.network = st.network := by rw [hcom.network, hconnected]; rfl
    have hblocks : st'.blocks = st.blocks := by rw [hcom.blocks, hconnected]; rfl
    have hheights : st'.heightToHash = Map.insertAll (heightPairs S (fork ++ [b]))
        (Map.eraseAll (above.map Block.height) st.heightToHash) := by
      rw [hcom.heightToHash, hconnected, insertAll_heightPairs_concat]
      rfl
    have htip : st'.tip.height = b.height := by rw [hcom.tip]; rfl
    have hqb := (hbr.lt_of_mem b (mem_append_right _ (mem_singleton_self b))).1
    have hdb := hcom.db
    rw [hconnected] at hdb
    change st'.db = st.db.map _ at hdb
    rw [hc.db, map_some] at hdb
    have hlow : ∀ k ≤ q.height, st'.heightToHash.lookup k = st.heightToHash.lookup k := by
      intro k hk
      rw [hheights, hbr.lookup_of_notMem _ (.inl hk), hbr.lookup_eraseAll_above hc _ hk]
    have hcached := hbr.cached hc hb hvalid
    refine ⟨⟨_, hdb, ?_, ?_, ?_, ?_, ?_, ?_, hbr.index hc, ?_, ?_, ?_⟩, ?_⟩
    · rw [hnetwork]
      exact hc.genesis
    · rw [hnetwork]
      exact hc.closed
    · rw [hblocks]
      exact hc.cache
    · rw [hnetwork]
      exact hbr.lineage
    · refine Stored.cons (hc.cache _ _ hb) ?_
      have := hbr.stored
      rwa [hc.getBlock_eq] at this
    · exact ⟨b, _, rfl, by rw [hcom.tip]; rfl, htip⟩
    · -- the height map agrees with the index
      intro k x hk hx
      rw [htip] at hk
      refine (hbr.index hc k x).mpr ?_
      rcases lt_or_ge q.height k with hlt | hle
      · obtain ⟨y, hy, hyk, hlookup⟩ := hbr.lookup_of_lt
          (Map.eraseAll (above.map Block.height) st.heightToHash) hlt hk
        rw [hheights, hlookup] at hx
        exact ⟨y, mem_newChain_iff.mpr (.inl hy), hyk, Option.some.inj hx⟩
      · rw [hlow k hle] at hx
        have hindex := hc.mapped k x (by rw [hc.tip_height_eq hbr.chain_eq]; omega) hx
        obtain ⟨c, hcmem, rfl, rfl⟩ := (hc.index k x).mp hindex
        rw [hbr.chain_eq] at hcmem
        rcases mem_append.mp hcmem with hmem | hmem
        · have := hbr.above_height hc c hmem
          omega
        · exact ⟨c, mem_newChain_iff.mpr (.inr hmem), rfl, rfl⟩
    · -- the new part is mapped and in memory; so is the old one above the floor
      intro x hx
      obtain ⟨hmem, hfloor⟩ := mem_filter.mp hx
      have hfloor' := of_decide_eq_true hfloor
      rw [hblocks]
      rcases mem_newChain_iff.mp hmem with hmem | hmem
      · refine ⟨?_, hcached x hmem⟩
        rw [hheights]
        exact lookup_heightPairs_of_mem S hbr.heights_nodup _ hmem
      · rw [hlow _ (hbr.le_of_mem x hmem)]
        refine hc.recent x (mem_filter.mpr ⟨?_, decide_eq_true ?_⟩)
        · rw [hbr.chain_eq]
          exact mem_append_right _ hmem
        · exact (finalityFloor_le htip hbr.floor hqb.le).trans hfloor'
    · exact ⟨_, rfl, by rw [hcom.tip]; rfl, htip.symm⟩
    · refine noStale_of_lookup fun k x hx => ?_
      rw [htip]
      by_contra hgt
      rw [hheights, hbr.lookup_of_notMem _ (.inr (by omega)), lookup_eraseAll] at hx
      split_ifs at hx with hmem
      have hk : k ≤ st.tip.height := by
        by_contra hk
        rw [hs.lookup (by omega)] at hx
        cases hx
      exact hmem (mem_above_heights (hbr.chain_eq ▸ hc.lineage) (hc.tip_height_eq hbr.chain_eq)
        (by omega) hk)

/-! ## 7. Every outcome -/

variable {res : Except ChainError (BlockStatus G)} {chain' : List (Block G)}

variable (hstep : ChainStep S cfg ctx st chain b st' res chain') (hc : Canonical S st d chain)
  (hs : st.NoStale)

include hstep hc hs

/-- **`add_block` keeps the chain that its outcome tells.** -/
theorem ChainStep.canonical : ∃ d', Canonical S st' d' chain' := by
  cases hstep with
  | refused => exact ⟨d, hc⟩
  | kept _ hadm => exact ⟨_, hc.store hadm⟩
  | extended hadm hlin hext =>
    obtain ⟨p, rest, -, hl, -, heq⟩ := hc.arrival hadm
    rw [← heq, hlin] at hl
    exact ((hc.store hadm).extended hs hl (lookup_storeBlock S st b) (extends_of_eq_some hext)).1
  | failed e hadm _ _ hbr hre =>
    exact ⟨_, (hc.store hadm).failed hs (hc.branches_store hadm hbr) hre⟩
  | committed orphaned hadm _ hbr hre =>
    exact ((hc.store hadm).committed hs (hc.branches_store hadm hbr) (lookup_storeBlock S st b) hre).1

theorem ChainStep.noStale
    (hheight : ∀ e, res = .ok (.invalid (.reorg e)) → Admitted S cfg (ctx 0) st b →
      (st.storeBlock S b).takeFork S b = true → b.height ≤ st.tip.height + 1) : st'.NoStale := by
  cases hstep with
  | refused => exact hs
  | kept => exact hs
  | extended hadm hlin hext =>
    obtain ⟨p, rest, -, hl, -, heq⟩ := hc.arrival hadm
    rw [← heq, hlin] at hl
    exact ((hc.store hadm).extended hs hl (lookup_storeBlock S st b) (extends_of_eq_some hext)).2
  | failed e hadm htake _ hbr hre =>
    have hsame := (failed_heights (hc.store hadm) hs (hc.branches_store hadm hbr) hre).2
      (hheight e rfl hadm htake)
    have htip : st'.tip = st.tip := by
      cases hre
      rfl
    intro k hk
    rw [hsame] at hk
    rw [htip]
    exact hs k hk
  | committed orphaned hadm _ hbr hre =>
    exact ((hc.store hadm).committed hs (hc.branches_store hadm hbr) (lookup_storeBlock S st b)
      hre).2

end Blockchain

end Coincync
