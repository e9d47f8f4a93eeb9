/-
# A node that is given a tree

`add_block` is given the blocks of a tree, parents first.  At every moment the node holds a part of
the tree, and `Fed` says how: everything given is on disk, the chain is the branch of the tip, the
running totals are those of the chain, the last 200 heights are in memory -- and the tip is the
BEST block of what was given.
-/
import Coincync.Chain.Progress
import Coincync.Chain.Tree
import Coincync.Chain.Window

namespace Coincync

open Lib List

variable {F G : Type} [Field F] [AddCommGroup G] [Module F G]

/-! ## 1. Rules about ancestors -/

section

omit [AddCommGroup G]

/-- The median time past of a block with these ancestors, newest first. -/
def medianTimePast (anc : List (Block G)) : Option UInt64 :=
  let timestamps := (anc.take mtpWindow).map fun a => a.header.timestamp
  if timestamps.length < mtpWindow then none
  else (timestamps.mergeSort fun a b => decide (a ≤ b))[timestamps.length / 2]?

/-- **The rules about time and target**, for a block with these ancestors. -/
@[mk_iff]
structure FitsOn (anc : List (Block G)) (b : Block G) : Prop where
  time : mtpWindow ≤ b.height → ∀ mtp ∈ medianTimePast anc, mtp < b.header.timestamp
  target : wrongTarget (lineageWindow anc) b = none

instance (anc : List (Block G)) (b : Block G) : Decidable (FitsOn anc b) :=
  decidable_of_iff' _ (fitsOn_iff anc b)

theorem medianTimePast_lt {anc : List (Block G)} {time : UInt64}
    (h : ∀ a ∈ anc, a.header.timestamp < time) : ∀ mtp ∈ medianTimePast anc, mtp < time := by
  intro mtp hmtp
  unfold medianTimePast at hmtp
  dsimp only at hmtp
  split_ifs at hmtp
  · cases hmtp
  · have hmem := (mergeSort_perm _ _).mem_iff.mp (mem_of_getElem? hmtp)
    obtain ⟨a, ha, rfl⟩ := mem_map.mp hmem
    exact h a (mem_of_mem_take ha)

end

variable {x : Block G}

namespace Blockchain

variable {S : Suite F G} {st : Blockchain G}

theorem lineageTimestamps_eq {root : Block G} : ∀ {n : Nat} {p : Block G} {rest : List (Block G)},
    Lineage (blockLinks S) root (p :: rest) → Stored (blockLinks S) st.getBlock (p :: rest) →
    n ≤ (p :: rest).length →
    st.lineageTimestamps n (p.hash S) = ((p :: rest).take n).map fun a => a.header.timestamp
  | 0, _, _, _, _, _ => rfl
  | n + 1, p, [], _, hs, hle => by
    have hp : st.getBlock (p.hash S) = some p := hs p (.head _)
    obtain rfl : n = 0 := by simpa using hle
    rw [lineageTimestamps, hp]
    rfl
  | n + 1, p, q :: rest, hl, hs, hle => by
    have hp : st.getBlock (p.hash S) = some p := hs p (.head _)
    have hprev : p.header.prevHash = q.hash S := by
      cases hl with
      | cons hlink _ _ => exact hlink
    have ih := lineageTimestamps_eq hl.tail (hs.sublist fun x hx => .tail _ hx)
      (Nat.le_of_succ_le_succ hle)
    rw [lineageTimestamps, hp, take_succ_cons, map_cons]
    dsimp only
    rw [hprev, ih]

theorem mtpViolation_eq_none {root b p : Block G} {rest : List (Block G)}
    (hl : Lineage (blockLinks S) root (b :: p :: rest))
    (hs : Stored (blockLinks S) st.getBlock (p :: rest)) (hfits : FitsOn (p :: rest) b) :
    st.mtpViolation b = none := by
  have hprev : b.header.prevHash = p.hash S := by
    cases hl with
    | cons hlink _ _ => exact hlink
  have hlen : (p :: rest).length = b.height := hl.length_eq
  unfold mtpViolation
  split_ifs with hyoung
  · rfl
  · have hmedian : st.medianTimePastOfLineage b.header.prevHash = medianTimePast (p :: rest) := by
      rw [medianTimePastOfLineage, hprev, lineageTimestamps_eq hl.tail hs (by omega)]
      rfl
    rw [hmedian, Option.filter_eq_none_iff]
    intro mtp hmtp
    have hlt := hfits.time (by omega) mtp hmtp
    rw [decide_eq_true_iff, UInt64.not_le]
    exact hlt

/-! ## 2. A part of a tree -/

variable (S) (root : Block G) (tree : List (Block G))

/-- **A tree that fork choice can settle**: every block follows the rules on its own branch, the
work of a branch fits a `u128`, no branch parts from another for more than ten blocks, and none
from a less preferred one below its finality floor. -/
@[mk_iff]
structure ShallowTree [DecidableEq G] : Prop extends BlockTree S root tree where
  fits : ∀ b ∈ tree, FitsOn (branch S root tree b).tail b
  work : ∀ b ∈ tree, chainWork (branch S root tree b) < 2 ^ 128
  shallow : ∀ x ∈ tree, ∀ y ∈ tree, y ∉ branch S root tree x →
    (apart S root tree x y).length ≤ reorgUnconditionalDepth
  final : ∀ x ∈ tree, ∀ y ∈ tree, x ∉ branch S root tree y → Prefers S root tree y x →
    ∀ a ∈ apart S root tree x y, x.height - x.height % checkpointInterval < a.height

instance [DecidableEq G] : Decidable (ShallowTree S root tree) :=
  decidable_of_iff' _ (shallowTree_iff S root tree)

/-- **The node holds the blocks `known` of the tree**, and its tip is the best of them. -/
structure Fed (cfg : NodeConfig) (known : List (Block G)) (st : Blockchain G) (d : Database G)
    (chain : List (Block G)) : Prop where
  canonical : Canonical S st d chain
  noStale : st.NoStale
  genesis : createGenesisBlockFor S st.network = root
  known_sub : ∀ x ∈ known, x ∈ root :: tree
  stored : ∀ k x, d.blocks.lookup k = some x ↔ x ∈ known ∧ x.hash S = k
  work : WorkAgrees st chain
  supply : st.stats.totalSupply = emission chain
  burned : st.stats.totalBurned = burnOf S cfg.build chain
  memory : ∃ x ∈ known, (∀ a ∈ known, x.height ≤ a.height + 200 →
      st.blocks.lookup (a.hash S) = some a) ∧
    ∀ a ∈ chain, x.height ≤ a.height + 200 → st.heightToHash.lookup a.height = some (a.hash S)
  best : ∀ x ∈ known, x.hash S ≠ st.tip.hash → Outranks (chainWork chain) st.tip.hash
    (chainWork (branch S root tree x)) (x.hash S)

variable {S root tree} {cfg : NodeConfig} {known chain : List (Block G)} {d : Database G}

namespace Fed

variable (h : Fed S root tree cfg known st d chain)

include h

theorem getBlock_iff {k : Hash} : st.getBlock k = some x ↔ x ∈ known ∧ x.hash S = k := by
  rw [h.canonical.getBlock_eq]
  exact h.stored k x

theorem lineage : Lineage (blockLinks S) root chain := h.genesis ▸ h.canonical.lineage

theorem closed : Closed (blockLinks S) root fun k => d.blocks.lookup k :=
  h.genesis ▸ h.canonical.closed

theorem mem_known (hx : x ∈ chain) : x ∈ known :=
  ((h.stored _ x).mp (h.canonical.stored x hx)).1

theorem branch_known (ht : BlockTree S root tree) (hx : x ∈ known) :
    ∀ a ∈ branch S root tree x, a ∈ known := by
  obtain ⟨rest, hl, hs⟩ := h.closed.exists_lineage x.height rfl ((h.stored _ x).mpr ⟨hx, rfl⟩)
  have hmem : ∀ a ∈ x :: rest, a ∈ known := fun a ha => ((h.stored _ a).mp (hs a ha)).1
  rw [ht.branch_eq hl fun a ha => h.known_sub a (hmem a (mem_cons_of_mem _ ha))]
  exact hmem

theorem exists_tip (ht : BlockTree S root tree) :
    ∃ t ∈ known, branch S root tree t = chain ∧ st.tip.hash = t.hash S ∧
      st.tip.height = t.height := by
  obtain ⟨t, rest, hchain, hhash, hheight⟩ := h.canonical.tip
  have hmem : ∀ a ∈ t :: rest, a ∈ known := fun a ha => h.mem_known (hchain ▸ ha)
  refine ⟨t, hmem t (.head _), ?_, hhash, hheight⟩
  rw [hchain]
  exact ht.branch_eq (hchain ▸ h.lineage) fun a ha =>
    h.known_sub a (hmem a (.tail _ ha))

end Fed

/-! ## 3. The next block -/

/-- The next block: of the tree, not held yet, and its parent is. -/
structure Next (S : Suite F G) (tree known : List (Block G)) (b p : Block G) : Prop where
  mem : b ∈ tree
  new : b ∉ known
  parent : p ∈ known
  prev : b.header.prevHash = p.hash S

variable {b p q : Block G} {rest above below fork : List (Block G)}

namespace Fed

section

variable (h : Fed S root tree cfg known st d chain)

include h

variable (ht : BlockTree S root tree) (hn : Next S tree known b p)

include ht hn in
theorem next_height :
    b.height = p.height + 1 := by
  obtain ⟨p', hp', hprev, hheight⟩ := ht.rooted b hn.mem
  rw [← ht.eq_of_hash hp' (h.known_sub p hn.parent) (hprev.symm.trans hn.prev)]
  exact hheight

include ht hn in
theorem next_branch :
    ∃ rest, branch S root tree b = b :: p :: rest ∧
      st.lineageOf S b = b :: p :: rest ∧ Lineage (blockLinks S) root (b :: p :: rest) ∧
      Stored (blockLinks S) (fun k => d.blocks.lookup k) (p :: rest) := by
  have hparent : st.getBlock b.header.prevHash = some p :=
    h.getBlock_iff.mpr ⟨hn.parent, hn.prev.symm⟩
  obtain ⟨rest, -, hl, hst, heq⟩ := h.canonical.lineageOf_eq hparent (h.next_height ht hn)
  rw [h.genesis] at hl
  refine ⟨rest, ht.branch_eq hl fun a ha => ?_, heq, hl, hst⟩
  exact h.known_sub a ((h.stored _ a).mp (hst a ha)).1

theorem next_sub (hn : Next S tree known b p) : ∀ x ∈ b :: known, x ∈ root :: tree := by
  intro x hx
  rcases mem_cons.mp hx with rfl | hx
  · exact .tail _ hn.mem
  · exact h.known_sub x hx

theorem next_best (ht : BlockTree S root tree)
    (hout : Outranks (chainWork (branch S root tree b)) (b.hash S) (chainWork chain) st.tip.hash) :
    ∀ x ∈ b :: known, x.hash S ≠ b.hash S → Outranks (chainWork (branch S root tree b)) (b.hash S)
      (chainWork (branch S root tree x)) (x.hash S) := by
  intro x hx hne
  rcases mem_cons.mp hx with rfl | hx
  · exact absurd rfl hne
  · by_cases htip : x.hash S = st.tip.hash
    · obtain ⟨t, htknown, htchain, hthash, -⟩ := h.exists_tip ht
      have heq := ht.eq_of_hash (h.known_sub x hx) (h.known_sub t htknown) (htip.trans hthash)
      rw [heq, htchain, ← hthash]
      exact hout
    · exact hout.trans (h.best x hx htip)

include ht hn in
theorem lookup_store {a : Block G}
    (ha : a ∈ b :: known) (hold : a ∈ known → st.blocks.lookup (a.hash S) = some a) :
    (st.storeBlock S b).blocks.lookup (a.hash S) = some a := by
  change (st.blocks.insert (b.hash S) b).lookup (a.hash S) = some a
  rw [Map.lookup_insert_ite]
  split_ifs with heq
  · rw [ht.eq_of_hash (h.next_sub hn a ha) (mem_cons_of_mem _ hn.mem) heq]
  · rcases mem_cons.mp ha with rfl | ha
    · exact absurd rfl heq
    · exact hold ha

end

theorem sum_lt {f : Block G → Nat} (hf : ∀ x, f x < 2 ^ 64)
    (hl : Lineage (blockLinks S) root chain) : (chain.map f).sum < 2 ^ 128 := by
  have hlen : chain.length ≤ 2 ^ 64 := by
    cases chain with
    | nil => exact zero_le
    | cons t rest =>
      have hheight : rest.length = t.height := hl.length_eq
      have hbound : t.height < 2 ^ 64 := t.header.height.toNat_lt
      rw [length_cons]
      omega
  have hsum := sum_le_card_nsmul (chain.map f) (2 ^ 64 - 1) fun n hn => by
    obtain ⟨x, -, rfl⟩ := mem_map.mp hn
    have := hf x
    omega
  rw [length_map, smul_eq_mul] at hsum
  have hmul := Nat.mul_le_mul_right (2 ^ 64 - 1) hlen
  omega

theorem totals_lt (build : BuildConfig) (hl : Lineage (blockLinks S) root chain) :
    emission chain < 2 ^ 128 ∧ burnOf S build chain < 2 ^ 128 := by
  refine ⟨sum_lt (fun x => UInt64.toNat_lt _) hl, sum_lt (fun x => ?_) hl⟩
  unfold blockFeeBurn
  dsimp only
  split_ifs
  · decide
  · exact UInt64.toNat_lt _

variable [DecidableEq G] (h : Fed S root tree cfg known st d chain)
  (ht : ShallowTree S root tree) (hn : Next S tree known b p)

include h ht hn

variable (hchain : chain = above ++ q :: below)
  (hside : branch S root tree b = b :: (fork.reverse ++ q :: below))
  (hfork : ∀ a ∈ fork, a ∉ chain)

include hchain hside hfork in
/-- **Where the new branch leaves the chain.**  With nothing of the chain above that place the
parent is the tip, for otherwise the parent would be preferred to it. -/
theorem parts :
    fork.length < reorgUnconditionalDepth ∧ (above = [] → fork = []) ∧
      (Outranks (chainWork (branch S root tree b)) (b.hash S) (chainWork chain) st.tip.hash →
        above ≠ [] → st.finalityFloor ≤ q.height) := by
  obtain ⟨t, htknown, htchain, hthash, htheight⟩ := h.exists_tip ht.toBlockTree
  have hbmem : b ∈ root :: tree := .tail _ hn.mem
  obtain ⟨rest, hbranch, -, -, -⟩ := h.next_branch ht.toBlockTree hn
  have hside' : p :: rest = fork.reverse ++ q :: below :=
    (List.cons.inj (hbranch.symm.trans hside)).2
  by_cases habove : above = []
  · -- the tip is on the branch of the parent, so it is the parent
    subst habove
    have hpq : p = q := by
      have htq : t = q := by
        have heq := htchain.trans hchain
        exact (List.cons.inj heq).1
      have hpbranch : branch S root tree p = p :: rest :=
        ht.branch_suffix hbmem (hbranch.trans (singleton_append).symm)
      have hqmem : q ∈ branch S root tree p := by
        rw [hpbranch, hside']
        exact mem_append_right _ (.head _)
      by_contra hne
      have hprefers := ht.prefers_of_mem (h.known_sub p hn.parent) hqmem (Ne.symm hne)
      have hbest := h.best p hn.parent fun heq => hne ?_
      · rw [Prefers, ← htq, htchain, ← hthash] at hprefers
        exact hbest.asymm hprefers
      · rw [← htq]
        exact ht.eq_of_hash (h.known_sub p hn.parent) (h.known_sub t htknown) (heq.trans hthash)
    have hfork' : fork = [] := by
      cases hrev : fork.reverse with
      | nil => exact reverse_eq_nil_iff.mp hrev
      | cons a l =>
        -- the parent would be the first block of the side chain
        rw [hrev] at hside'
        have hmem : p ∈ fork := by
          rw [(List.cons.inj hside').1]
          exact mem_reverse.mp (hrev ▸ mem_cons_self)
        refine absurd ?_ (hfork p hmem)
        rw [hchain, hpq]
        exact .head _
    subst hfork'
    exact ⟨Nat.zero_lt_succ 9, fun _ => rfl, fun _ hne => absurd rfl hne⟩
  · -- the tip is on its own side
    have hfirst : ∀ a ∈ b :: fork.reverse, a ∉ branch S root tree t := by
      intro a ha
      rw [htchain]
      rcases mem_cons.mp ha with rfl | ha
      · exact fun hmem => hn.new (h.mem_known hmem)
      · exact hfork a (mem_reverse.mp ha)
    have hbside : branch S root tree b = (b :: fork.reverse) ++ q :: below := hside
    have htside : branch S root tree t = above ++ q :: below := htchain.trans hchain
    have habove' : ∀ a ∈ above, a ∉ branch S root tree b := by
      rw [hbside]
      exact (hchain ▸ h.lineage).notMem_of_meet (htside ▸ hfirst)
    have htnot : t ∉ branch S root tree b := by
      refine habove' t ?_
      cases above with
      | nil => exact absurd rfl habove
      | cons a above =>
        have := (List.cons.inj htside).1
        rw [this]
        exact .head _
    have httree : t ∈ tree := by
      rcases mem_cons.mp (h.known_sub t htknown) with rfl | hmem
      · exact absurd (ht.lineage_branch hbmem).root_mem htnot
      · exact hmem
    refine ⟨?_, fun hnil => absurd hnil habove, fun hout _ => ?_⟩
    · have hlen := ht.shallow b hn.mem t httree htnot
      rw [BlockTree.apart_eq hbside htside hfirst, length_cons, length_reverse] at hlen
      exact hlen
    · have hprefers : Prefers S root tree b t := by
        rw [Prefers, htchain, ← hthash]
        exact hout
      have hfinal := ht.final t httree b hn.mem htnot hprefers
      rw [BlockTree.apart_eq htside hbside habove'] at hfinal
      have hpos : 0 < above.length := length_pos_iff.mpr habove
      have hmem := mem_above_heights (hchain ▸ h.lineage) (h.canonical.tip_height_eq hchain)
        (Nat.lt_succ_self q.height) (by rw [h.canonical.tip_height_eq hchain]; omega)
      obtain ⟨a, ha, haheight⟩ := mem_map.mp hmem
      have hlt := hfinal a ha
      rw [← htheight] at hlt
      unfold finalityFloor
      omega

include hchain hside hfork in
theorem above_ne_nil (hmain : st.isMainChain b = false) : above ≠ [] := by
  intro hnil
  obtain ⟨t, l, hteq, hthash, -⟩ := h.canonical.tip
  obtain ⟨rest, hbranch, -, -, -⟩ := h.next_branch ht.toBlockTree hn
  have hrest : p :: rest = fork.reverse ++ q :: below :=
    (List.cons.inj (hbranch.symm.trans hside)).2
  rw [(h.parts ht hn hchain hside hfork).2.1 hnil] at hrest
  rw [hnil] at hchain
  have hpq : p = q := (List.cons.inj hrest).1
  have htq : t = q := (List.cons.inj (hteq.symm.trans hchain)).1
  have htrue : st.isMainChain b = true :=
    decide_eq_true (.inl (by rw [hn.prev, hpq, hthash, htq]))
  rw [hmain] at htrue
  cases htrue

theorem height_le_next (hx : x ∈ known) : x.height ≤ b.height + 10 := by
  rcases mem_cons.mp (h.known_sub x hx) with rfl | hmem
  · rw [ht.root_height]
    exact zero_le
  · have hlen := ht.shallow x hmem b hn.mem fun hb => hn.new (h.branch_known ht.toBlockTree hx b hb)
    have hle := ht.height_le_of_apart (.tail _ hmem) (.tail _ hn.mem)
    have hten : reorgUnconditionalDepth = 10 := rfl
    omega

/-- **The memory reaches back far enough for the new block**, and for the ten blocks before it. -/
theorem remembers (hbranch : branch S root tree b = b :: p :: rest)
    (hl : Lineage (blockLinks S) root (b :: p :: rest))
    (hst : Stored (blockLinks S) (fun k => d.blocks.lookup k) (p :: rest)) :
    Remembers S st 160 (p :: rest) := by
  obtain ⟨x, hx, hblocks, hmapped⟩ := h.memory
  have htop := h.height_le_next ht hn hx
  have hnear : ∀ a ∈ (p :: rest).take 160, x.height ≤ a.height + 200 := by
    intro a ha
    have hlt : p.height < a.height + 160 := hl.tail.height_take a ha
    have hheight := h.next_height ht.toBlockTree hn
    omega
  have hmain := h.canonical.canonicalChain_eq
  refine ⟨?_, fun a ha => hblocks a ?_ (hnear a ha), fun a ha hmem => hmapped a ?_ (hnear a ha)⟩
  · obtain ⟨above, side, q, below, hchain, hside, -, hfirst⟩ :=
      h.lineage.meet hl.tail h.canonical.stored hst
    have hrev : side.reverse.reverse = side := side.reverse_reverse
    have hparts := h.parts ht hn hchain (by rw [hbranch, hside, hrev])
      fun a ha => hfirst a (mem_reverse.mp ha)
    have hlen := hparts.1
    rw [length_reverse] at hlen
    have hten : reorgUnconditionalDepth = 10 := rfl
    refine ⟨q, ?_, ?_⟩
    · rw [hside]
      exact mem_take_append_cons (by omega) q (mem_append_right _ (mem_singleton_self q))
    · rw [hmain, hchain]
      exact mem_append_right _ (.head _)
  · exact ((h.stored _ a).mp (hst a (mem_of_mem_take ha))).1
  · rw [← hmain]
    exact hmem

variable [DecidableEq F] {ctx : CallContext G}

/-- **A block that is valid on arrival is admitted.** -/
theorem admitted
    (hvalid : (validateBlockWithCheckpointForNetwork S cfg ctx b (st.getBlock b.header.prevHash)
      st.utxos st.persistedCheckpoint st.network).valid = true) : Admitted S cfg ctx st b := by
  obtain ⟨rest, hbranch, hlin, hl, hst⟩ := h.next_branch ht.toBlockTree hn
  have hheight := h.next_height ht.toBlockTree hn
  have hparent : st.getBlock b.header.prevHash = some p :=
    h.getBlock_iff.mpr ⟨hn.parent, hn.prev.symm⟩
  have hfits := ht.fits b hn.mem
  rw [hbranch, tail_cons] at hfits
  refine ⟨?_, .inr ⟨p, hparent, hheight⟩, ?_, hvalid, ?_, ?_⟩
  · by_contra hsome
    obtain ⟨x, hx⟩ := Option.ne_none_iff_exists'.mp hsome
    obtain ⟨hknown, hhash⟩ := h.getBlock_iff.mp hx
    have heq := ht.eq_of_hash (h.known_sub x hknown) (.tail _ hn.mem) hhash
    exact hn.new (heq ▸ hknown)
  · -- the only hard-coded checkpoint is the genesis block
    rw [verifyCheckpoint_eq_none (by omega)]
    exact Option.some_ne_none false |>.symm
  · have hst' : Stored (blockLinks S) st.getBlock (p :: rest) := by
      rw [h.canonical.getBlock_eq]
      exact hst
    exact mtpViolation_eq_none hl hst' hfits
  · have hr := h.remembers ht hn hbranch hl hst
    have hwindow := h.canonical.arrivalWindow_eq h.noStale hparent hheight (n := 160) (by decide)
      (by rw [hlin]; exact hr)
    rw [hlin, tail_cons] at hwindow
    rw [targetViolation, if_neg (by omega)]
    unfold arrivalWindow at hwindow
    rw [hwindow]
    exact hfits.target

/-! ## 4. The block on top, and the block beside -/

variable {st' : Blockchain G} {ctx : Nat → CallContext G} {chain' : List (Block G)}
  {res : Except ChainError (BlockStatus G)}
  (hadm : Admitted S cfg (ctx 0) st b)

include hadm

theorem outcome (hstep : ChainStep S cfg ctx st chain b st' res chain')
    (hres : ∀ e, res ≠ .ok (.invalid (.reorg e)))
    (hb : b ∈ chain' ∨ st'.getBlock (b.hash S) = some b) :
    ∃ d', Canonical S st' d' chain' ∧ st'.NoStale ∧ createGenesisBlockFor S st'.network = root ∧
      (∀ k x, d'.blocks.lookup k = some x ↔ x ∈ b :: known ∧ x.hash S = k) ∧
      WorkAgrees st' chain' := by
  obtain ⟨rest, hbranch, hlin, -, -⟩ := h.next_branch ht.toBlockTree hn
  have haction : ActionStep S cfg st d chain (.add ctx b) st' chain' := .add hstep
  obtain ⟨d', hc'⟩ := hstep.canonical h.canonical h.noStale
  obtain ⟨hnetwork, d₁, hd₁, hblocks⟩ := haction.blocks h.canonical
  obtain rfl : d₁ = d' := Option.some.inj (hd₁.symm.trans hc'.db)
  rw [hc'.getBlock_eq] at hb
  replace hb : d₁.blocks.lookup (b.hash S) = some b := hb.elim (hc'.stored b) id
  have hunknown := h.canonical.lookup_of_admitted hadm
  have hinsert : d₁.blocks = d.blocks.insert (b.hash S) b := by
    rcases hblocks with hsame | ⟨ctx', b', heq, -, hinsert⟩
    · rw [hsame, hunknown] at hb
      cases hb
    · obtain ⟨-, rfl⟩ := Action.add.inj heq
      exact hinsert
  refine ⟨d₁, hc', hstep.noStale h.canonical h.noStale fun e he => absurd he (hres e),
    by rw [hnetwork]; exact h.genesis, fun k x => ?_, ?_⟩
  · rw [hinsert, Map.lookup_insert_ite]
    split_ifs with hk
    · constructor
      · intro heq
        rw [← Option.some.inj heq]
        exact ⟨.head _, hk.symm⟩
      · rintro ⟨hx, hhash⟩
        rcases mem_cons.mp hx with rfl | hx
        · rfl
        · have hold := (h.stored k x).mpr ⟨hx, hhash⟩
          rw [hk, hunknown] at hold
          cases hold
    · rw [h.stored]
      constructor
      · rintro ⟨hx, hhash⟩
        exact ⟨.tail _ hx, hhash⟩
      · rintro ⟨hx, hhash⟩
        rcases mem_cons.mp hx with rfl | hx
        · exact absurd hhash.symm hk
        · exact ⟨hx, hhash⟩
  · refine h.work.step h.canonical (a := .add ctx b) ⟨h.noStale, ?_⟩ haction
    rw [hlin, ← hbranch]
    exact ht.work b hn.mem

/-- **The block on top of the tip.** -/
theorem extended (hmain : st.isMainChain b = true) :
    ∃ st' d', st.addBlock S cfg ctx b = some (st', .ok .accepted) ∧
      ChainStep S cfg ctx st chain b st' (.ok .accepted) (b :: chain) ∧
      Fed S root tree cfg (b :: known) st' d' (b :: chain) := by
  have hlin := h.canonical.lineageOf_of_isMainChain hadm hmain
  obtain ⟨rest, hbranch, hlin', hl, -⟩ := h.next_branch ht.toBlockTree hn
  rw [hlin] at hlin'
  rw [← hlin'] at hbranch hl
  obtain ⟨hsupply, hburned⟩ := totals_lt cfg.build hl
  rw [emission_cons, ← h.supply, add_comm] at hsupply
  rw [burnOf_cons, ← h.burned, add_comm] at hburned
  obtain ⟨st', hadd⟩ := hadm.addBlock_extends hmain hsupply hburned
  obtain ⟨chain', hstep⟩ := h.canonical.chainStep h.noStale hadd
  obtain ⟨rfl, hext⟩ : chain' = b :: chain ∧
      (st.storeBlock S b).extendTip S cfg b = some st' := by
    cases hstep with
    | refused _ hq => exact hq.elim
    | kept _ _ hq => exact hq.elim
    | extended _ _ hext => exact ⟨rfl, hext⟩
  have hE := extends_of_eq_some hext
  obtain ⟨d', hc', hs', hgenesis, hstored, hwork⟩ :=
    h.outcome ht hn hadm hstep (by rintro e ⟨⟩) (.inl (.head _))
  have htip : st'.tip.hash = b.hash S := by
    rw [hE.tip]
    rfl
  have hheight : b.height = st.tip.height + 1 := by
    have hlen := hl.length_eq
    rw [h.canonical.length_chain] at hlen
    exact hlen.symm
  refine ⟨st', d', hadd, hstep, hc', hs', hgenesis, h.next_sub hn, hstored, hwork, ?_, ?_, ?_, ?_⟩
  · rw [hE.stats, emission_cons, ← h.supply]
    exact add_comm _ _
  · rw [hE.stats, burnOf_cons, ← h.burned]
    exact add_comm _ _
  · -- the eviction keeps the last 200 heights, below the highest block so far
    obtain ⟨x, hx, hblocks, hmapped⟩ := h.memory
    obtain ⟨y, hy, hby, hxy⟩ : ∃ y ∈ b :: known, b.height ≤ y.height ∧ x.height ≤ y.height := by
      rcases le_total x.height b.height with hle | hle
      · exact ⟨b, .head _, le_refl _, hle⟩
      · exact ⟨x, .tail _ hx, hle, le_refl _⟩
    refine ⟨y, hy, fun a ha hnear => ?_, fun a ha hnear => ?_⟩
    · refine (hE.cache.blocks_keep _ fun e he hold heq => ?_).trans
        (h.lookup_store ht.toBlockTree hn ha fun hak => hblocks a hak (by omega))
      obtain ⟨c, hcmem, hce, hcx⟩ := (h.canonical.store hadm).exists_of_insert hheight (by omega)
        (mem_heightEntries he)
      have hcsub : c ∈ b :: known := by
        rcases mem_cons.mp hcmem with rfl | hcmem
        · exact .head _
        · exact .tail _ (h.mem_known hcmem)
      rw [ht.eq_of_hash (h.next_sub hn c hcsub) (h.next_sub hn a ha) (hcx.trans heq)] at hce
      omega
    · refine (hE.cache.heights_keep _ (by omega)).trans ?_
      change (st.heightToHash.insert b.height (b.hash S)).lookup a.height = some (a.hash S)
      rcases mem_cons.mp ha with rfl | ha
      · rw [Map.lookup_insert_ite, if_pos rfl]
      · have hlt : a.height < b.height := hl.height_lt a ha
        rw [Map.lookup_insert_ite, if_neg (by omega)]
        exact hmapped a ha (by omega)
  · rw [htip, ← hbranch]
    refine h.next_best ht.toBlockTree (.inl ?_)
    rw [hbranch, chainWork_cons_of_pos (h.canonical.admitted_height hadm)]
    have := work_pos b
    omega

theorem takeFork_iff :
    (st.storeBlock S b).takeFork S b = true ↔
      Outranks (chainWork (branch S root tree b)) (b.hash S) (chainWork chain) st.tip.hash := by
  obtain ⟨rest, hbranch, hlin, -, -⟩ := h.next_branch ht.toBlockTree hn
  have hwork := ht.work b hn.mem
  rw [hbranch, ← hlin] at hwork ⊢
  exact h.work.takeFork_iff h.canonical hadm hwork

/-- **The block beside the tip that does not win.** -/
theorem kept (hmain : st.isMainChain b = false) (htake : (st.storeBlock S b).takeFork S b = false) :
    ∃ st' d', st.addBlock S cfg ctx b = some (st', .ok .acceptedFork) ∧
      ChainStep S cfg ctx st chain b st' (.ok .acceptedFork) chain ∧
      Fed S root tree cfg (b :: known) st' d' chain := by
  have hstep : ChainStep S cfg ctx st chain b (st.storeBlock S b) (.ok .acceptedFork) chain :=
    .kept _ hadm trivial
  have hget : (st.storeBlock S b).getBlock (b.hash S) = some b := by
    rw [(h.canonical.store hadm).getBlock_eq]
    exact Finmap.lookup_insert _
  obtain ⟨d', hc', hs', hgenesis, hstored, hwork⟩ :=
    h.outcome ht hn hadm hstep (by rintro e ⟨⟩) (.inr hget)
  refine ⟨_, d', hadm.addBlock_keeps hmain htake, hstep, hc', hs', hgenesis, h.next_sub hn,
    hstored, hwork, h.supply, h.burned, ?_, ?_⟩
  · obtain ⟨x, hx, hblocks, hmapped⟩ := h.memory
    refine ⟨x, .tail _ hx, fun a ha hnear => ?_, hmapped⟩
    exact h.lookup_store ht.toBlockTree hn ha fun hak => hblocks a hak hnear
  · intro x hx hne
    rcases mem_cons.mp hx with rfl | hx
    · have hnot : ¬Outranks (chainWork (branch S root tree x)) (x.hash S) (chainWork chain)
          st.tip.hash := by
        rw [← h.takeFork_iff ht hn hadm, htake]
        decide
      exact outranks_of_not (Ne.symm hne) hnot
    · exact h.best x hx hne

/-! ## 5. The block that wins -/

include hchain hside hfork in
/-- **The blocks of the new branch, in turn**: each is of the tree, its branch is what lies below
it, its parent is in memory, and its target is the one of its branch. -/
theorem turn {done left : List (Block G)} (hsplit : fork ++ [b] = done ++ x :: left) :
    x ∈ tree ∧ branch S root tree x = x :: (done.reverse ++ q :: below) ∧
      (st.storeBlock S b).blocks.lookup x.header.prevHash = (done.reverse ++ q :: below).head? ∧
      wrongTarget ((((st.storeBlock S b).rewound S cfg above).forked S cfg done).mixedWindow
        q.height (done.map fun a => a.difficultyBlock a.height) x.height) x = none := by
  have hbmem : b ∈ root :: tree := .tail _ hn.mem
  have hnew : branch S root tree b = left.reverse ++ x :: (done.reverse ++ q :: below) := by
    have hrev : b :: fork.reverse = left.reverse ++ x :: done.reverse := by
      simpa using congrArg List.reverse hsplit
    rw [hside, ← cons_append, hrev, append_assoc, cons_append]
  have hxbranch := ht.branch_suffix hbmem hnew
  have hlx : Lineage (blockLinks S) root (x :: (done.reverse ++ q :: below)) :=
    (hnew ▸ ht.lineage_branch hbmem).suffix left.reverse
  obtain ⟨px, l, hpx⟩ : ∃ px l, done.reverse ++ q :: below = px :: l :=
    exists_cons_of_ne_nil (by simp)
  obtain ⟨hxtree, -, hprev⟩ := ht.parent_of_branch hbmem (hpx ▸ hnew)
  obtain ⟨rest, hbranch, -, hl, hst⟩ := h.next_branch ht.toBlockTree hn
  have hr := (h.remembers ht hn hbranch hl hst).store h.canonical hadm
  have hrest : p :: rest = fork.reverse ++ q :: below :=
    (List.cons.inj (hbranch.symm.trans hside)).2
  have hdepth := (h.parts ht hn hchain hside hfork).1
  have hten : reorgUnconditionalDepth = 10 := rfl
  have hlen : fork.length = done.length + left.length := by
    have := congrArg List.length hsplit
    simp only [length_append, length_cons, length_nil] at this
    omega
  -- what lies below `x` is the end of what lies below `b`
  have hsuffix : p :: rest = (left.reverse ++ [x]).tail ++ (done.reverse ++ q :: below) := by
    have heq := congrArg List.tail (hbranch.symm.trans hnew)
    rw [tail_cons] at heq
    rw [heq]
    cases left.reverse with
    | nil => rfl
    | cons a l => simp
  have hnear : ∀ a ∈ (done.reverse ++ q :: below).take 145, a ∈ (p :: rest).take 160 := by
    intro a ha
    rw [hsuffix, take_append]
    refine mem_append_right _ (take_subset_take_left _ ?_ ha)
    simp only [length_tail, length_append, length_reverse, length_singleton]
    omega
  refine ⟨hxtree, hxbranch, ?_, ?_⟩
  · rw [hprev, hpx, head?_cons]
    refine hr.cached px (hnear px ?_)
    rw [hpx, take_succ_cons]
    exact .head _
  · have hfits := ht.fits x hxtree
    rw [hxbranch, tail_cons] at hfits
    have hlx' := hlx.tail_append
    have hxheight : x.height = (done.reverse ++ q :: below).length := hlx.length_eq.symm
    rw [hxheight, mixedWindow_eq hlx']
    · exact hfits.target
    · intro a ha hbelow
      have htake := hnear a (take_subset_take_left _ (by decide) ha)
      have hmain : a ∈ (st.storeBlock S b).canonicalChain S := by
        rw [(h.canonical.store hadm).canonicalChain_eq, hchain]
        exact mem_append_right _ hbelow
      have hcached := hr.cachedBlockAt htake hmain
      have hle : a.height ≤ q.height := (hlx'.suffix done.reverse).height_le hbelow
      unfold cachedBlockAt at hcached ⊢
      change ((Map.insertAll (heightPairs S done) (Map.eraseAll (above.map Block.height)
        st.heightToHash)).lookup a.height).bind _ = some a
      rw [lookup_reorgHeights (hchain ▸ h.lineage) hlx' _ hle]
      exact hcached

omit h ht hn hadm in
/-- The blocks of the new branch are valid one after the other, each on the set with the old branch
disconnected and the earlier ones connected. -/
def ValidTurns (S : Suite F G) (root : Block G) (tree : List (Block G)) (cfg : NodeConfig)
    (ctx : Nat → CallContext G) (st : Blockchain G) (chain : List (Block G)) (b : Block G) : Prop :=
  ∀ above q below done x left, chain = above ++ q :: below →
    branch S root tree b = (done ++ x :: left).reverse ++ q :: below →
    st.finalityFloor ≤ q.height → ∀ n,
    (validateBlockWithCheckpointForNetwork S cfg (ctx n) x (done.reverse ++ q :: below).head?
      ((st.utxos.disconnectAll S above).connectAll S done) none st.network).valid = true

section

variable (hmain : st.isMainChain b = false) (htake : (st.storeBlock S b).takeFork S b = true)
include hmain htake

/-- **The block beside the tip that wins**: the reorganisation commits. -/
theorem reorganizes
    (hout : Outranks (chainWork (branch S root tree b)) (b.hash S) (chainWork chain) st.tip.hash)
    (hturns : ValidTurns S root tree cfg ctx st chain b) :
    ∃ st' orphaned, st.addBlock S cfg ctx b = some (st', .ok (.acceptedReorg orphaned)) := by
  obtain ⟨rest, hbranch, hlin, hl, hst⟩ := h.next_branch ht.toBlockTree hn
  have hstore := h.canonical.store hadm
  have hstored := hst.mono (h.canonical.lookup_insert_of_admitted hadm)
  obtain ⟨above, q, below, fork, hchain, hrest, hfork, hpoint, hcollect⟩ :=
    hstore.fork h.noStale hn.prev (h.genesis.symm ▸ hl.tail) hstored
  have hside : branch S root tree b = b :: (fork.reverse ++ q :: below) := by
    rw [hbranch, hrest]
  have habove := h.above_ne_nil ht hn hchain hside hfork hmain
  obtain ⟨hdepth, -, hfloor⟩ := h.parts ht hn hchain hside hfork
  replace hfloor := hfloor hout habove
  -- the side chain is short and has no less work
  have hlb := hside ▸ ht.lineage_branch (.tail _ hn.mem)
  have hheight : b.height - q.height = fork.length + 1 := by
    have h1 : (fork.reverse ++ q :: below).length = b.height := hlb.length_eq
    have h2 : below.length = q.height := (hlb.tail_append.suffix fork.reverse).length_eq
    rw [length_append, length_reverse, length_cons] at h1
    omega
  have hwork : (st.storeBlock S b).calculateForkCumulativeWork b =
      chainWork (branch S root tree b) := by
    rw [hbranch]
    refine forkWork_eq hl ?_ (hbranch ▸ ht.work b hn.mem)
    rw [hstore.getBlock_eq]
    exact hstored
  have hmore : st.stats.totalDifficulty ≤ chainWork (branch S root tree b) := by
    rw [h.work.memory]
    rcases hout with hmore | ⟨hequal, -⟩
    · exact hmore.le
    · exact hequal.ge
  have haccept : evaluateReorgAcceptability (b.height - q.height)
      ((st.storeBlock S b).calculateForkCumulativeWork b) st.stats.totalDifficulty st.tip.height
      st.maxReorgDepth = .ok () := by
    rw [hwork]
    exact evaluateReorgAcceptability_of_le (by omega) hmore
  -- supply and burn are those of the two branches
  have hsums := totals_lt cfg.build (ht.lineage_branch (.tail _ hn.mem))
  rw [hside, emission_cons, emission_append, emission_reverse, burnOf_cons, burnOf_append,
    burnOf_reverse] at hsums
  have hsupply : (st.storeBlock S b).stats.totalSupply = emission above + emission (q :: below) := by
    rw [← emission_append, ← hchain]
    exact h.supply
  have hburned : (st.storeBlock S b).stats.totalBurned =
      burnOf S cfg.build above + burnOf S cfg.build (q :: below) := by
    rw [← burnOf_append, ← hchain]
    exact h.burned
  have hone : emission [b] = (calculateBlockReward b.height).val ∧
      burnOf S cfg.build [b] = blockFeeBurn S cfg.build b := ⟨emission_cons b [], burnOf_cons S _ b []⟩
  obtain ⟨st', orphaned, hre⟩ : ∃ st' orphaned, (st.storeBlock S b).reorganize S cfg ctx b q.height =
      some (st', .acceptedReorg orphaned) := by
    refine reorganize_commits (hchain ▸ h.lineage) (h.canonical.tip_height_eq hchain)
      (hstore.cached_above hchain hfloor) hcollect (by omega) (by omega)
      (by rw [emission_append]; omega) (by rw [burnOf_append]; omega)
      (fun done x left hsplit n => ?_)
      (fun done x left hsplit => (h.turn ht hn hchain hside hfork hadm hsplit).2.2.2)
    rw [(h.turn ht hn hchain hside hfork hadm hsplit).2.2.1]
    refine hturns above q below done x left hchain ?_ hfloor n
    rw [hside, ← hsplit, reverse_append]
    rfl
  exact ⟨st', orphaned, hadm.addBlock_reorganizes hmain htake hpoint haccept hfloor hre⟩

theorem committed (hturns : ValidTurns S root tree cfg ctx st chain b) :
    ∃ st' d' orphaned, st.addBlock S cfg ctx b = some (st', .ok (.acceptedReorg orphaned)) ∧
      ChainStep S cfg ctx st chain b st' (.ok (.acceptedReorg orphaned)) (branch S root tree b) ∧
      Fed S root tree cfg (b :: known) st' d' (branch S root tree b) := by
  obtain ⟨rest, hbranch, hlin, hl, hst⟩ := h.next_branch ht.toBlockTree hn
  have hout := (h.takeFork_iff ht hn hadm).mp htake
  obtain ⟨st', orphaned, hadd⟩ := h.reorganizes ht hn hadm hmain htake hout hturns
  obtain ⟨chain', hstep⟩ := h.canonical.chainStep h.noStale hadd
  cases hstep with
  | refused _ hq => exact hq.elim
  | kept _ _ hq => exact hq.elim
  | @committed _ above below fork q _ _ heq hbr hre =>
    have hstep : ChainStep S cfg ctx st chain b st' (.ok (.acceptedReorg orphaned))
        (b :: (fork.reverse ++ q :: below)) := .committed orphaned hadm heq hbr hre
    have hside : branch S root tree b = b :: (fork.reverse ++ q :: below) := by
      rw [hbranch, ← hlin, heq]
    rw [hside]
    obtain ⟨d', hc', hs', hgenesis, hstored, hwork⟩ :=
      h.outcome ht hn hadm hstep (by rintro e ⟨⟩) (.inl (.head _))
    cases hre with
    | @committed connected _ supply burned hsupply hburned _ hconnected hcommit =>
      have hcom := commits_of_eq_some hcommit
      have hchain := hbr.chain_eq
      refine ⟨st', d', _, hadd, hstep, hc', hs', hgenesis, h.next_sub hn, hstored, hwork, ?_, ?_, ?_,
        ?_⟩
      · have hold : supply + emission above = emission above + emission (q :: below) := by
          rw [hsupply, ← emission_append, ← hchain]
          exact h.supply
        rw [hcom.totalSupply, hconnected, remapped_totalSupply, emission_cons, emission_append,
          emission_reverse]
        omega
      · have hold : burned + burnOf S cfg.build above =
            burnOf S cfg.build above + burnOf S cfg.build (q :: below) := by
          rw [hburned, ← burnOf_append, ← hchain]
          exact h.burned
        rw [hcom.totalBurned, hconnected, remapped_totalBurned, burnOf_cons, burnOf_append,
          burnOf_reverse]
        omega
      · obtain ⟨x, hx, hblocks, hmapped⟩ := h.memory
        refine ⟨x, .tail _ hx, fun a ha hnear => ?_, fun a ha hnear => ?_⟩
        · rw [hcom.blocks, hconnected, remapped_blocks]
          exact h.lookup_store ht.toBlockTree hn ha fun hak => hblocks a hak hnear
        · rw [hcom.heightToHash, hconnected, remapped_heightToHash, ← insertAll_heightPairs_concat]
          rcases mem_newChain_iff.mp ha with hmem | hmem
          · exact lookup_heightPairs_of_mem S hbr.heights_nodup _ hmem
          · have hle := hbr.le_of_mem a hmem
            rw [hbr.lookup_of_notMem _ (.inl hle),
              (h.canonical.branches_store hadm hbr).lookup_eraseAll_above
                (h.canonical.store hadm) _ hle]
            exact hmapped a (hchain ▸ mem_append_right _ hmem) hnear
      · have htip : st'.tip.hash = b.hash S := by
          rw [hcom.tip]
          rfl
        rw [htip, ← hside]
        exact h.next_best ht.toBlockTree hout

end

/-! ## 6. The step -/

omit hadm in
/-- **One block of the tree.**  A block that is valid on arrival is taken, on top or beside, and
afterwards the tip is the best again. -/
theorem step (hvalid : (validateBlockWithCheckpointForNetwork S cfg (ctx 0) b
      (st.getBlock b.header.prevHash) st.utxos st.persistedCheckpoint st.network).valid = true)
    (hturns : ValidTurns S root tree cfg ctx st chain b) :
    ∃ st' d' res chain', st.addBlock S cfg ctx b = some (st', res) ∧
      (∀ e, res ≠ .ok (.invalid (.reorg e))) ∧ Admitted S cfg (ctx 0) st b ∧
      ChainStep S cfg ctx st chain b st' res chain' ∧
      Fed S root tree cfg (b :: known) st' d' chain' := by
  have hadm := h.admitted ht hn hvalid
  by_cases hmain : st.isMainChain b = true
  · obtain ⟨st', d', hadd, hstep, hfed⟩ := h.extended ht hn hadm hmain
    exact ⟨st', d', _, _, hadd, by rintro e ⟨⟩, hadm, hstep, hfed⟩
  · rw [Bool.not_eq_true] at hmain
    by_cases htake : (st.storeBlock S b).takeFork S b = true
    · obtain ⟨st', d', orphaned, hadd, hstep, hfed⟩ := h.committed ht hn hadm hmain htake hturns
      exact ⟨st', d', _, _, hadd, by rintro e ⟨⟩, hadm, hstep, hfed⟩
    · rw [Bool.not_eq_true] at htake
      obtain ⟨st', d', hadd, hstep, hfed⟩ := h.kept ht hn hadm hmain htake
      exact ⟨st', d', _, _, hadd, by rintro e ⟨⟩, hadm, hstep, hfed⟩

end Fed

end Blockchain

end Coincync
