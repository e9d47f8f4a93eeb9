/-
# The canonical chain

What memory and disk say about the main chain, in one invariant.  The CANONICAL CHAIN of a state
is the lineage of its tip, newest first.  `Canonical` ties it to everything that is kept beside
it: the blocks on disk are closed under parents, memory is a part of disk, the height index on
disk lists exactly the chain, the height map in memory agrees with it up to the tip, and the part
of the chain above the finality floor -- all that a reorganisation may disconnect -- is in memory.
-/
import Coincync.Chain.Steps

namespace Coincync

open Lib List Option

variable {F G : Type} [Field F] [AddCommGroup G] [Module F G] (S : Suite F G)
  {above below : List (Block G)} {p q : Block G}

namespace Blockchain

/-! ## 1. The invariant -/

/-- The lineage of a block that the chain may or may not have, newest first. -/
def lineageOf (st : Blockchain G) (b : Block G) : List (Block G) :=
  b :: ancestors (blockLinks S) st.getBlock b.height b.header.prevHash

/-- **The canonical chain**: the lineage of the tip, newest first. -/
def canonicalChain (st : Blockchain G) : List (Block G) :=
  ancestors (blockLinks S) st.getBlock (st.tip.height + 1) st.tip.hash

omit [AddCommGroup G] in
/-- No height above the tip is mapped. -/
def NoStale (st : Blockchain G) : Prop := ∀ h ∈ st.heightToHash.keys, h ≤ st.tip.height

omit [AddCommGroup G] in
instance (st : Blockchain G) : Decidable st.NoStale := by
  unfold NoStale
  infer_instance

/-- **The chain in memory and on disk.**  `chain` is the canonical chain, newest first. -/
structure Canonical (st : Blockchain G) (d : Database G) (chain : List (Block G)) : Prop where
  db : st.db = some d
  genesis : (createGenesisBlockFor S st.network).hash S = expectedGenesisHash st.network
  closed : Closed (blockLinks S) (createGenesisBlockFor S st.network) fun k => d.blocks.lookup k
  cache : ∀ k b, st.blocks.lookup k = some b → d.blocks.lookup k = some b
  lineage : Lineage (blockLinks S) (createGenesisBlockFor S st.network) chain
  stored : Stored (blockLinks S) (fun k => d.blocks.lookup k) chain
  tip : ∃ t rest, chain = t :: rest ∧ st.tip.hash = t.hash S ∧ st.tip.height = t.height
  index : ∀ h x, d.heightIndex.lookup h = some x ↔ ∃ b ∈ chain, b.height = h ∧ b.hash S = x
  mapped : ∀ h x, h ≤ st.tip.height → st.heightToHash.lookup h = some x →
    d.heightIndex.lookup h = some x
  recent : Cached S st (chain.filter fun b => st.finalityFloor ≤ b.height)
  state : ∃ s, d.state = some s ∧ s.tipHash = st.tip.hash ∧ s.height = st.tip.height

variable {S} {st : Blockchain G}

omit [AddCommGroup G] in
theorem NoStale.lookup (h : st.NoStale) {k : Nat} (hk : st.tip.height < k) :
    st.heightToHash.lookup k = none := by
  rw [Finmap.lookup_eq_none]
  intro hmem
  have := h k (Finmap.mem_keys.mpr hmem)
  omega

omit [AddCommGroup G] in
theorem noStale_of_lookup
    (h : ∀ k x, st.heightToHash.lookup k = some x → k ≤ st.tip.height) : st.NoStale := by
  intro k hk
  obtain ⟨x, hx⟩ := Finmap.mem_iff.mp (Finmap.mem_keys.mp hk)
  exact h k x hx

theorem createGenesisBlockFor_height_eq (S : Suite F G) (network : NetworkType) :
    (createGenesisBlockFor S network).height = 0 := by
  rw [Block.height, createGenesisBlockFor_height]
  rfl

theorem lineageOf_of_closed {root b : Block G}
    (hclosed : Closed (blockLinks S) root st.getBlock) (hp : st.getBlock b.header.prevHash = some p)
    (hheight : b.height = p.height + 1) :
    ∃ rest, b.header.prevHash = p.hash S ∧ Lineage (blockLinks S) root (b :: p :: rest) ∧
      Stored (blockLinks S) st.getBlock (p :: rest) ∧ st.lineageOf S b = b :: p :: rest := by
  obtain ⟨rest, hl, hs⟩ := hclosed.exists_lineage p.height rfl hp
  have hkey : p.hash S = b.header.prevHash := hclosed.key _ p hp
  refine ⟨rest, hkey.symm, .cons hkey.symm hheight hl, hs, ?_⟩
  rw [lineageOf, ← hkey, hheight]
  exact congrArg (b :: ·) (ancestors_eq hl hs)

namespace Canonical

variable {st : Blockchain G} {d : Database G} {chain : List (Block G)} (hc : Canonical S st d chain)

include hc

theorem getBlock_eq : st.getBlock = fun k => d.blocks.lookup k := by
  funext k
  rw [getBlock, hc.db, bind_some]
  cases hk : st.blocks.lookup k with
  | none => rfl
  | some b => rw [hc.cache k b hk, some_or]

theorem getBlockHash_eq {h : Nat} (hle : h ≤ st.tip.height) :
    st.getBlockHash h = d.heightIndex.lookup h := by
  rw [getBlockHash, hc.db, bind_some]
  cases hk : st.heightToHash.lookup h with
  | none => rfl
  | some x => rw [hc.mapped h x hle hk, some_or]

variable {b : Block G}

theorem height_le_tip (hb : b ∈ chain) : b.height ≤ st.tip.height := by
  obtain ⟨t, rest, rfl, -, ht⟩ := hc.tip
  rw [ht]
  exact hc.lineage.height_le hb

theorem getBlockHash_eq' (hs : st.NoStale) (h : Nat) :
    st.getBlockHash h = d.heightIndex.lookup h := by
  by_cases hle : h ≤ st.tip.height
  · exact hc.getBlockHash_eq hle
  · rw [getBlockHash, hc.db, hs.lookup (by omega), none_or, bind_some]

theorem length_chain : chain.length = st.tip.height + 1 := by
  obtain ⟨t, rest, rfl, -, ht⟩ := hc.tip
  rw [length_cons, hc.lineage.length_eq, ht]
  rfl

omit hc in
theorem eq_of_hash {a b : Block G} (ha : d.blocks.lookup (a.hash S) = some a)
    (hb : d.blocks.lookup (b.hash S) = some b) (h : a.hash S = b.hash S) : a = b := by
  rw [h, hb] at ha
  exact (Option.some.inj ha).symm

theorem getByHeight_eq (hb : b ∈ chain) : d.getByHeight b.height = some b := by
  rw [Database.getByHeight, (hc.index b.height (b.hash S)).mpr ⟨b, hb, rfl, rfl⟩, bind_some]
  exact hc.stored b hb

/-- **The canonical chain is a function of the state.** -/
theorem canonicalChain_eq : st.canonicalChain S = chain := by
  obtain ⟨t, rest, rfl, hhash, hheight⟩ := hc.tip
  rw [canonicalChain, hc.getBlock_eq, hhash, hheight]
  exact ancestors_eq hc.lineage hc.stored

theorem cached_above (hchain : chain = above ++ q :: below) (hfloor : st.finalityFloor ≤ q.height) :
    Cached S st above := by
  intro b hb
  have hl := hc.lineage
  rw [hchain] at hl
  have hlt := hl.height_above above b hb
  simp only [blockLinks_height] at hlt
  refine hc.recent b (mem_filter.mpr ⟨?_, ?_⟩)
  · rw [hchain]
    exact mem_append_left _ hb
  · simp only [decide_eq_true_eq]
    omega

theorem tip_height_eq (hchain : chain = above ++ q :: below) :
    st.tip.height = q.height + above.length := by
  have hl := hc.lineage
  rw [hchain] at hl
  have h1 := hc.length_chain
  have h2 := (hl.suffix above).length_eq
  rw [hchain] at h1
  simp only [length_append, length_cons, blockLinks_height] at h1 h2
  omega

/-! ## 2. Storing a block -/

section

variable [DecidableEq F] [DecidableEq G] {cfg : NodeConfig} {ctx : CallContext G} {b : Block G}

theorem admitted_height (hadm : Admitted S cfg ctx st b) : 0 < b.height := by
  rw [pos_iff_ne_zero]
  intro h0
  have hcp := hadm.checkpoint
  have hunknown := hadm.unknown
  simp only [verifyCheckpoint, h0, find?_cons, decide_true, map_some, ne_eq,
    Option.some.injEq, decide_eq_false_iff_not, not_not] at hcp
  rw [hc.getBlock_eq, ← hcp, ← hc.genesis] at hunknown
  exact some_ne_none _ (hc.closed.root_mem.symm.trans hunknown)

omit [DecidableEq F] [DecidableEq G] in
theorem lineageOf_eq (hp : st.getBlock b.header.prevHash = some p)
    (hheight : b.height = p.height + 1) :
    ∃ rest, b.header.prevHash = p.hash S ∧
      Lineage (blockLinks S) (createGenesisBlockFor S st.network) (b :: p :: rest) ∧
      Stored (blockLinks S) (fun k => d.blocks.lookup k) (p :: rest) ∧
      st.lineageOf S b = b :: p :: rest := by
  have hclosed : Closed (blockLinks S) (createGenesisBlockFor S st.network) st.getBlock := by
    rw [hc.getBlock_eq]
    exact hc.closed
  obtain ⟨rest, hkey, hl, hst, heq⟩ := lineageOf_of_closed hclosed hp hheight
  rw [hc.getBlock_eq] at hst
  exact ⟨rest, hkey, hl, hst, heq⟩

section

variable (hadm : Admitted S cfg ctx st b)

include hadm

/-- **The lineage of an admitted block** goes through its parent, and is stored. -/
theorem arrival :
    ∃ p rest, b.header.prevHash = p.hash S ∧
      Lineage (blockLinks S) (createGenesisBlockFor S st.network) (b :: p :: rest) ∧
      Stored (blockLinks S) (fun k => d.blocks.lookup k) (p :: rest) ∧
      st.lineageOf S b = b :: p :: rest := by
  have h0 := hc.admitted_height hadm
  obtain h | ⟨p, hp, hheight⟩ := hadm.parent
  · omega
  · exact ⟨p, hc.lineageOf_eq hp hheight⟩

theorem lookup_of_admitted : d.blocks.lookup (b.hash S) = none := by
  have := hadm.unknown
  rwa [hc.getBlock_eq] at this

theorem lookup_insert_of_admitted (k : Hash) (x : Block G)
    (hx : d.blocks.lookup k = some x) : (d.blocks.insert (b.hash S) b).lookup k = some x := by
  rw [Map.lookup_insert_ite, if_neg]
  · exact hx
  · rintro rfl
    rw [hc.lookup_of_admitted hadm] at hx
    cases hx

theorem store : Canonical S (st.storeBlock S b) { d with blocks := d.blocks.insert (b.hash S) b } chain := by
  have hnew := hc.lookup_of_admitted hadm
  obtain ⟨p, rest, hprev, hl, hst, -⟩ := hc.arrival hadm
  have hparent : d.blocks.lookup b.header.prevHash = some p := by
    rw [hprev]
    exact hst p (.head _)
  refine ⟨?_, hc.genesis, ?_, ?_, hc.lineage, hc.stored.mono (hc.lookup_insert_of_admitted hadm),
    hc.tip, hc.index, hc.mapped, ?_, hc.state⟩
  · simp only [storeBlock, modifyDb, hc.db, map_some]
  · have hlookup : (fun k => (d.blocks.insert (b.hash S) b).lookup k) =
        fun k => if k = (blockLinks S).key b then some b else d.blocks.lookup k :=
      funext fun k => Map.lookup_insert_ite d.blocks (b.hash S) k b
    change Closed _ _ fun k => (d.blocks.insert (b.hash S) b).lookup k
    rw [hlookup]
    refine hc.closed.insert hnew hparent ?_
    cases hl with
    | cons _ hheight _ => exact hheight
  · intro k x hx
    change (st.blocks.insert (b.hash S) b).lookup k = some x at hx
    rw [Map.lookup_insert_ite] at hx
    rw [Map.lookup_insert_ite]
    split_ifs at hx ⊢ with hk
    · exact hx
    · exact hc.cache k x hx
  · intro x hx
    obtain ⟨hm, hblk⟩ := hc.recent x hx
    refine ⟨hm, ?_⟩
    change (st.blocks.insert (b.hash S) b).lookup (x.hash S) = some x
    rw [Map.lookup_insert_ite]
    split_ifs with hk
    · -- the hash of a stored block is not new
      have := hc.cache _ _ hblk
      rw [hk, hnew] at this
      cases this
    · exact hblk

end

end

/-! ## 3. The fork point -/

theorem onMainChain_iff (hs : st.NoStale) {a : Block G} (ha : d.blocks.lookup (a.hash S) = some a) :
    (decide (st.getBlockHash a.height = some (a.hash S)) || decide (a.height = 0)) = true ↔
      a ∈ chain := by
  rw [Bool.or_eq_true, decide_eq_true_iff, decide_eq_true_iff, hc.getBlockHash_eq' hs, hc.index]
  constructor
  · rintro (⟨x, hx, -, hhash⟩ | h0)
    · rwa [← eq_of_hash (hc.stored x hx) ha hhash]
    · rw [hc.closed.eq_root _ a ha h0]
      exact hc.lineage.root_mem
  · intro hmem
    exact .inl ⟨a, hmem, rfl, rfl⟩

/-- **The fork point.**  The stored lineage `p :: rest` of the parent of `b` meets the chain at a
block `q`; the code finds its height, and collects what the lineage has above it. -/
theorem fork (hs : st.NoStale) {rest : List (Block G)} (hprev : b.header.prevHash = p.hash S)
    (hl : Lineage (blockLinks S) (createGenesisBlockFor S st.network) (p :: rest))
    (hst : Stored (blockLinks S) (fun k => d.blocks.lookup k) (p :: rest)) :
    ∃ above q below fork, chain = above ++ q :: below ∧ p :: rest = fork.reverse ++ q :: below ∧
      (∀ a ∈ fork, a ∉ chain) ∧ st.findForkPoint S b = some q.height ∧
      st.collectForkChain S b q.height = fork := by
  obtain ⟨above, side, q, below, hchain, hside, hq, hfirst⟩ := hc.lineage.meet hl hc.stored hst
  have hget := hc.getBlock_eq
  have hmem : ∀ x ∈ side, x ∈ p :: rest := fun x hx => by
    rw [hside]
    exact mem_append_left _ hx
  have hqmem : q ∈ p :: rest := by
    rw [hside]
    exact mem_append_right _ (.head _)
  have hkeys : ∀ k x, d.blocks.lookup k = some x → k ∈ st.storedKeys := by
    intro k x hx
    rw [storedKeys, hc.db, Finset.mem_union]
    exact .inr (Finmap.mem_keys.mpr (Finmap.mem_iff.mpr ⟨x, hx⟩))
  have hfuel : side.length < st.storedKeys.card + 1 := by
    have hle := hst.length_le_card hkeys hl.nodup
    rw [hside, length_append] at hle
    omega
  replace hprev : b.header.prevHash = (blockLinks S).key p := hprev
  refine ⟨above, q, below, side.reverse, hchain, ?_,
    fun a ha => hfirst a (mem_reverse.mp ha), ?_, ?_⟩
  · rw [reverse_reverse]
    exact hside
  · simp only [findForkPoint, hprev]
    rw [hget, walkBack_lineage side hside.symm hl hst]
    · intro a ha
      rw [← Bool.not_eq_true]
      exact fun h => hfirst a ha ((hc.onMainChain_iff hs (hst a (hmem a ha))).mp h)
    · exact (hc.onMainChain_iff hs (hst q hqmem)).mpr hq
    · exact hfuel
    · simp
  · simp only [collectForkChain, hprev]
    rw [hget, walkBack_lineage side hside.symm hl hst]
    · intro a ha
      have := (hside ▸ hl).height_above side a ha
      simp only [blockLinks_height] at this
      simpa using this
    · simp
    · exact hfuel
    · simp

end Canonical

/-! ## 4. What a block does to the chain -/

/-- **A side chain that branches off above the finality floor**: the chain is `above` on top of
`q :: below`, the lineage of `b` is `b` and `fork` (oldest first) on top of it. -/
structure Branches (S : Suite F G) (st : Blockchain G) (chain : List (Block G)) (b : Block G)
    (above : List (Block G)) (q : Block G) (below fork : List (Block G)) : Prop where
  chain_eq : chain = above ++ q :: below
  lineage : Lineage (blockLinks S) (createGenesisBlockFor S st.network)
    (b :: (fork.reverse ++ q :: below))
  stored : Stored (blockLinks S) st.getBlock (fork.reverse ++ q :: below)
  floor : st.finalityFloor ≤ q.height

variable [DecidableEq F] [DecidableEq G] {cfg : NodeConfig}

/-- **What a call of `add_block` does to the chain**: `AddStep` with the chain before and after. -/
inductive ChainStep (S : Suite F G) (cfg : NodeConfig) (ctx : Nat → CallContext G)
    (st : Blockchain G) (chain : List (Block G)) (b : Block G) :
    Blockchain G → Except ChainError (BlockStatus G) → List (Block G) → Prop
  | refused (status : BlockStatus G) : Quiet (.ok status) →
      ChainStep S cfg ctx st chain b st (.ok status) chain
  | kept (res : Except ChainError (BlockStatus G)) : Admitted S cfg (ctx 0) st b → Quiet res →
      ChainStep S cfg ctx st chain b (st.storeBlock S b) res chain
  | extended {st' : Blockchain G} : Admitted S cfg (ctx 0) st b →
      st.lineageOf S b = b :: chain →
      (st.storeBlock S b).extendTip S cfg b = some st' →
      ChainStep S cfg ctx st chain b st' (.ok .accepted) (b :: chain)
  | failed {st' : Blockchain G} {above below fork : List (Block G)} {q : Block G}
      (e : ReorgError) : Admitted S cfg (ctx 0) st b →
      (st.storeBlock S b).takeFork S b = true →
      st.lineageOf S b = b :: (fork.reverse ++ q :: below) →
      Branches S st chain b above q below fork →
      ReorgStep S cfg (st.storeBlock S b) b above fork q.height st' (.invalid (.reorg e)) →
      (st.storeBlock S b).findForkPoint S b = some q.height →
      ChainStep S cfg ctx st chain b st' (.ok (.invalid (.reorg e))) chain
  | committed {st' : Blockchain G} {above below fork : List (Block G)} {q : Block G}
      (orphaned : List (Transaction G)) : Admitted S cfg (ctx 0) st b →
      st.lineageOf S b = b :: (fork.reverse ++ q :: below) →
      Branches S st chain b above q below fork →
      ReorgStep S cfg (st.storeBlock S b) b above fork q.height st' (.acceptedReorg orphaned) →
      ChainStep S cfg ctx st chain b st' (.ok (.acceptedReorg orphaned))
        (b :: (fork.reverse ++ q :: below))

namespace Canonical

variable {st st' : Blockchain G} {d : Database G} {chain : List (Block G)} {b : Block G}
  {ctx : Nat → CallContext G} {res : Except ChainError (BlockStatus G)}

theorem branches_store {fork : List (Block G)} (hc : Canonical S st d chain)
    (hadm : Admitted S cfg (ctx 0) st b) (h : Branches S st chain b above q below fork) :
    Branches S (st.storeBlock S b) chain b above q below fork := by
  refine ⟨h.chain_eq, h.lineage, ?_, h.floor⟩
  rw [(hc.store hadm).getBlock_eq]
  refine h.stored.mono fun k x hx => ?_
  rw [hc.getBlock_eq] at hx
  exact hc.lookup_insert_of_admitted hadm k x hx

theorem lineageOf_of_isMainChain (hc : Canonical S st d chain) (hadm : Admitted S cfg (ctx 0) st b)
    (hmain : st.isMainChain b = true) : st.lineageOf S b = b :: chain := by
  have h0 := hc.admitted_height hadm
  obtain ⟨p, rest, hprev, hl, hst, heq⟩ := hc.arrival hadm
  obtain ⟨t, below, rfl, hhash, -⟩ := hc.tip
  have htip : b.header.prevHash = st.tip.hash := by
    rcases of_decide_eq_true hmain with h | h
    · exact h
    · omega
  have hpt : p = t := eq_of_hash (d := d) (hst p (.head _))
    (hc.stored t mem_cons_self) (by rw [← hprev, htip, hhash])
  subst hpt
  rw [heq, Lineage.unique hl.tail hc.lineage (hst.sublist fun x hx => mem_cons_of_mem _ hx)
    (hc.stored.sublist fun x hx => .tail _ hx)]

/-- **`add_block` on a canonical state.** -/
theorem chainStep (hc : Canonical S st d chain) (hs : st.NoStale)
    (h : st.addBlock S cfg ctx b = some (st', res)) :
    ∃ chain', ChainStep S cfg ctx st chain b st' res chain' := by
  cases addBlock_step h with
  | refused status hq => exact ⟨chain, .refused status hq⟩
  | kept res hadm _ hq => exact ⟨chain, .kept res hadm hq⟩
  | extended hadm hmain hext =>
    exact ⟨b :: chain, .extended hadm (hc.lineageOf_of_isMainChain hadm hmain) hext⟩
  | @reorganized _ status forkPoint hadm _ htake hfork hfloor hre =>
    have hstore := hc.store hadm
    obtain ⟨p, rest, hprev, hl, hst, heq⟩ := hc.arrival hadm
    have hstored := hst.mono (hc.lookup_insert_of_admitted hadm)
    obtain ⟨above, q, below, fork, hchain, hside, -, hpoint, hcollect⟩ :=
      hstore.fork hs hprev hl.tail hstored
    obtain rfl : q.height = forkPoint := Option.some.inj (hpoint.symm.trans hfork)
    rw [hside] at hl heq
    have hbranches : Branches S st chain b above q below fork :=
      ⟨hchain, hl, by rw [hc.getBlock_eq, ← hside]; exact hst, hfloor⟩
    have hside' := hl.tail_append
    have hheights : (fork.map Block.height).Nodup := by
      have := hside'.heights_nodup
      rw [map_append, map_reverse] at this
      exact nodup_reverse.mp (List.Nodup.of_append_left this)
    have habove : ∀ x ∈ fork, q.height < x.height := fun x hx =>
      hside'.height_above fork.reverse x (mem_reverse.mpr hx)
    have hstep := reorganize_step (hchain ▸ hstore.lineage) (hstore.tip_height_eq hchain)
      (hstore.cached_above hchain hfloor) (fun k hk => hs.lookup hk) hcollect hheights habove hre
    rcases reorganize_status hre with ⟨e, rfl⟩ | ⟨orphaned, rfl⟩
    · exact ⟨chain, .failed e hadm htake heq hbranches hstep hpoint⟩
    · exact ⟨_, .committed orphaned hadm heq hbranches hstep⟩

end Canonical

end Blockchain

end Coincync
