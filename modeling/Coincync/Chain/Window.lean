/-
# The difficulty window

The target of a block is checked against a window of at most 144 ancestors.  Five pieces of code
gather it: `next_target` and the check of an extension go through the height map, the check of an
arriving side-chain block traces its way back to the main chain, and a reorganisation builds it
twice more, for the blocks in between and for the new tip.  All five read the block cache ONLY.
-/
import Coincync.Chain.Runs

namespace Coincync

open Lib List Option

variable {n : Nat} {F G : Type} [Field F] [AddCommGroup G] [Module F G] {S : Suite F G}

/-! ## 1. The window of a lineage -/

section

omit [AddCommGroup G]

/-- **The window of a block with these ancestors**, newest first: the nearest 144, oldest first. -/
def lineageWindow (anc : List (Block G)) : List DifficultyBlock :=
  (anc.take difficultyLongWindow).reverse.map fun a => a.difficultyBlock a.height

theorem length_lineageWindow (anc : List (Block G)) :
    (lineageWindow anc).length = min difficultyLongWindow anc.length := by
  simp [lineageWindow]

/-- `next_target`: with genesis alone its own target is kept. -/
def Blockchain.nextTarget (st : Blockchain G) : Hash :=
  let height := st.tip.height + 1
  let window := st.getDifficultyBlocks height
  if 2 ≤ window.length then calculateDifficulty window height
  else (window.head?.map DifficultyBlock.target).getD maxTarget

/-- The window that the target of an arriving block is checked against. -/
def Blockchain.arrivalWindow (st : Blockchain G) (b : Block G) : List DifficultyBlock :=
  if st.isMainChain b then st.getDifficultyBlocks b.height else st.forkWindow b

end

variable {below anc : List (Block G)} {q root : Block G}

theorem map_height_window (hl : Lineage (blockLinks S) root anc) :
    (anc.take difficultyLongWindow).reverse.map Block.height = windowHeights anc.length := by
  have hheights : anc.reverse.map Block.height = List.range anc.length := hl.map_height_reverse
  rw [reverse_take, map_drop, hheights, range_eq_range', drop_range',
    windowHeights, zero_add, mul_one]

theorem filterMap_windowHeights (hl : Lineage (blockLinks S) root anc)
    {f : Nat → Option DifficultyBlock}
    (hf : ∀ a ∈ anc.take difficultyLongWindow, f a.height = some (a.difficultyBlock a.height)) :
    (windowHeights anc.length).filterMap f = lineageWindow anc := by
  rw [← map_height_window hl, filterMap_map, lineageWindow, ← filterMap_eq_map]
  refine filterMap_congr fun a ha => ?_
  exact hf a (mem_reverse.mp ha)

namespace Blockchain

variable {st : Blockchain G} {d : Database G} {chain : List (Block G)}

/-! ## 2. What the memory must hold -/

/-- **The memory reaches back far enough** for a block with these ancestors, newest first: the
nearest `n` of them are in the block cache, those on the main chain also under their height, and
the main chain is among them. -/
@[mk_iff]
structure Remembers (S : Suite F G) (st : Blockchain G) (n : Nat) (anc : List (Block G)) : Prop where
  meets : ∃ a ∈ anc.take n, a ∈ st.canonicalChain S
  cached : ∀ a ∈ anc.take n, st.blocks.lookup (a.hash S) = some a
  mapped : ∀ a ∈ anc.take n, a ∈ st.canonicalChain S →
    st.heightToHash.lookup a.height = some (a.hash S)

instance [DecidableEq G] (S : Suite F G) (st : Blockchain G) (n : Nat) (anc : List (Block G)) :
    Decidable (Remembers S st n anc) :=
  decidable_of_iff' _ (remembers_iff S st n anc)

theorem Remembers.cachedBlockAt (h : Remembers S st n anc) {a : Block G} (ha : a ∈ anc.take n)
    (hmain : a ∈ st.canonicalChain S) : st.cachedBlockAt a.height = some a := by
  rw [Blockchain.cachedBlockAt, h.mapped a ha hmain, bind_some, h.cached a ha]

theorem Remembers.side {side : List (Block G)} (h : Remembers S st n (side ++ q :: below))
    (hside : ∀ a ∈ side, a ∉ st.canonicalChain S) : side.length < n := by
  obtain ⟨a, ha, hmain⟩ := h.meets
  by_contra hle
  rw [take_append_of_le_length (by omega)] at ha
  exact hside a (mem_of_mem_take ha) hmain

omit [AddCommGroup G] in
theorem mem_take_append_cons {side : List (Block G)} (hlt : side.length < n) :
    ∀ a ∈ side ++ [q], a ∈ (side ++ q :: below).take n := by
  intro a ha
  have hsplit : side ++ q :: below = (side ++ [q]) ++ below := by simp
  rw [hsplit, take_append]
  refine mem_append_left _ ?_
  rwa [take_of_length_le (by simp; omega)]

/-! ## 3. Gathering the window -/

/-- **The mixed window**: the side chain above `q`, the main chain from there on. -/
theorem mixedWindow_eq {fork : List (Block G)}
    (hl : Lineage (blockLinks S) root (fork.reverse ++ q :: below))
    (hcached : ∀ a ∈ (fork.reverse ++ q :: below).take difficultyLongWindow, a ∈ q :: below →
      st.cachedBlockAt a.height = some a) :
    st.mixedWindow q.height (fork.map fun a => a.difficultyBlock a.height)
        (fork.reverse ++ q :: below).length =
      lineageWindow (fork.reverse ++ q :: below) := by
  refine filterMap_windowHeights hl fun a ha => ?_
  have hq : (q :: below).length = q.height + 1 := by
    rw [length_cons, (hl.suffix fork.reverse).length_eq]
    rfl
  rcases mem_append.mp (mem_of_mem_take ha) with hmem | hmem
  · -- a block of the side chain, found at its place in the list
    have hgt : q.height < a.height := hl.height_above fork.reverse a hmem
    rw [if_neg (by omega)]
    obtain ⟨i, hi, rfl⟩ := mem_iff_getElem.mp (mem_reverse.mp hmem)
    have hheights : (fork.reverse ++ q :: below).reverse.map Block.height =
        List.range (fork.reverse ++ q :: below).length := hl.map_height_reverse
    have hat : fork[i].height = q.height + 1 + i := by
      have hget : ((fork.reverse ++ q :: below).reverse.map Block.height)[q.height + 1 + i]? =
          some fork[i].height := by
        rw [reverse_append, reverse_reverse, getElem?_map,
          getElem?_append_right (by rw [length_reverse, hq]; omega), length_reverse,
          hq, Nat.add_sub_cancel_left, getElem?_eq_getElem hi, map_some]
      rw [hheights, getElem?_range
        (by rw [length_append, hq, length_reverse]; omega)] at hget
      exact (Option.some.inj hget).symm
    rw [hat, show q.height + 1 + i - q.height - 1 = i by omega, getElem?_map,
      getElem?_eq_getElem hi, map_some, hat]
  · -- a block of the main chain, found in the cache
    have hle : a.height ≤ q.height := (hl.suffix fork.reverse).height_le hmem
    rw [if_pos hle, hcached a ha hmem, map_some]

variable (hc : Canonical S st d chain)

include hc in
theorem Canonical.getDifficultyBlocks_eq
    (hn : difficultyLongWindow ≤ n) (hr : Remembers S st n chain) :
    st.getDifficultyBlocks (st.tip.height + 1) = lineageWindow chain := by
  rw [← hc.length_chain]
  refine filterMap_windowHeights hc.lineage fun a ha => ?_
  have hmain : a ∈ st.canonicalChain S := by
    rw [hc.canonicalChain_eq]
    exact mem_of_mem_take ha
  rw [hr.cachedBlockAt (take_subset_take_left _ hn ha) hmain, map_some]

theorem traceFork_eq (hq : st.blocks.lookup (q.hash S) = some q)
    (hqmap : st.heightToHash.lookup q.height = some (q.hash S)) :
    ∀ {side : List (Block G)} {p : Block G} {rest : List (Block G)} {fuel : Nat},
      side ++ q :: below = p :: rest → Lineage (blockLinks S) root (p :: rest) →
      (∀ a ∈ side, st.blocks.lookup (a.hash S) = some a ∧
        st.heightToHash.lookup a.height ≠ some (a.hash S)) →
      side.length < fuel →
      st.traceFork fuel (p.hash S) = (q.height, side.map fun a => a.difficultyBlock a.height)
  | [], p, rest, fuel + 1, heq, _, _, _ => by
    obtain ⟨rfl, -⟩ := List.cons.inj heq
    rw [traceFork, hq]
    simp only [hqmap, if_true, map_nil]
  | a :: side, p, rest, fuel + 1, heq, hl, hside, hfuel => by
    obtain ⟨rfl, hrest⟩ := List.cons.inj heq
    obtain ⟨hblk, hmap⟩ := hside a (.head _)
    obtain ⟨p', rest', heq'⟩ : ∃ p' rest', side ++ q :: below = p' :: rest' :=
      exists_cons_of_ne_nil (by simp)
    have hl' : Lineage (blockLinks S) root (a :: p' :: rest') := by
      rw [← heq', show side ++ q :: below = rest from hrest]
      exact hl
    have hlinks : a.header.prevHash = p'.hash S ∧ a.height ≠ 0 := by
      cases hl' with
      | cons hp hh _ => exact ⟨hp, by have : a.height = p'.height + 1 := hh; omega⟩
    rw [traceFork, hblk]
    simp only [hmap, if_false, hlinks.2, hlinks.1]
    rw [traceFork_eq hq hqmap heq' hl'.tail (fun x hx => hside x (mem_cons_of_mem _ hx))
      (by simpa using hfuel)]
    rfl

include hc in
theorem Canonical.not_mapped (hs : st.NoStale) {a : Block G}
    (hblk : st.blocks.lookup (a.hash S) = some a) (hside : a ∉ chain) :
    st.heightToHash.lookup a.height ≠ some (a.hash S) := by
  intro hmap
  have hle : a.height ≤ st.tip.height := by
    by_contra hgt
    rw [hs.lookup (by omega)] at hmap
    cases hmap
  obtain ⟨c, hcmem, -, hhash⟩ := (hc.index _ _).mp (hc.mapped _ _ hle hmap)
  have : c = a := eq_of_hash (hc.stored c hcmem) (hc.cache _ _ hblk) hhash
  exact hside (this ▸ hcmem)

include hc in
/-- **The window of an arriving side-chain block.** -/
theorem Canonical.forkWindow_eq (hs : st.NoStale) {b p : Block G} {rest : List (Block G)}
    (hl : Lineage (blockLinks S) (createGenesisBlockFor S st.network) (b :: p :: rest))
    (hst : Stored (blockLinks S) (fun k => d.blocks.lookup k) (p :: rest))
    (hn : difficultyLongWindow ≤ n) (hr : Remembers S st n (p :: rest)) :
    st.forkWindow b = lineageWindow (p :: rest) := by
  obtain ⟨above, side, q, below, hchain, hanc, hqmem, hfirst⟩ :=
    hc.lineage.meet hl.tail hc.stored hst
  obtain ⟨fork, rfl⟩ : ∃ fork : List (Block G), side = fork.reverse :=
    ⟨side.reverse, side.reverse_reverse.symm⟩
  have hheight : b.height = (p :: rest).length := hl.length_eq.symm
  have hprev : b.header.prevHash = p.hash S := by
    cases hl with
    | cons hp _ _ => exact hp
  rw [hanc] at hr
  have hmain := hc.canonicalChain_eq
  have hlt : fork.reverse.length < n := hr.side (hmain ▸ hfirst)
  have htake : ∀ a ∈ fork.reverse ++ [q], a ∈ (fork.reverse ++ q :: below).take n :=
    mem_take_append_cons hlt
  have hqtake := htake q (by simp)
  have hsidemem : Stored (blockLinks S) (fun k => st.blocks.lookup k) fork.reverse :=
    fun a ha => hr.cached a (htake a (mem_append_left _ ha))
  have hkeys : ∀ k x, st.blocks.lookup k = some x → k ∈ st.blocks.keys := fun k x hx =>
    Finmap.mem_keys.mpr (Finmap.mem_iff.mpr ⟨x, hx⟩)
  have hnd : fork.reverse.Nodup := by
    have := hl.tail.nodup
    rw [hanc] at this
    exact this.of_append_left
  have htrace : st.traceFork (st.blocks.keys.card + 1) (p.hash S) =
      (q.height, fork.reverse.map fun a => a.difficultyBlock a.height) :=
    traceFork_eq (hr.cached q hqtake) (hr.mapped q hqtake (hmain.symm ▸ hqmem)) hanc.symm hl.tail
      (fun a ha => ⟨hsidemem a ha, hc.not_mapped hs (hsidemem a ha) (hfirst a ha)⟩)
      (Nat.lt_succ_of_le (hsidemem.length_le_card hkeys hnd))
  rw [forkWindow, hprev, htrace, hheight, hanc, ← map_reverse, reverse_reverse]
  refine mixedWindow_eq (hanc ▸ hl.tail) fun a ha hbelow => ?_
  refine hr.cachedBlockAt (take_subset_take_left _ hn ha) ?_
  rw [hmain, hchain]
  exact mem_append_right _ hbelow

/-! ## 4. Windows during a reorganisation -/

variable {above done : List (Block G)}

theorem lookup_reorgHeights {root' : Block G}
    (hl : Lineage (blockLinks S) root (above ++ q :: below))
    (hl' : Lineage (blockLinks S) root' (done.reverse ++ q :: below)) (M : Map Nat Hash) {h : Nat}
    (hle : h ≤ q.height) :
    (Map.insertAll (heightPairs S done) (Map.eraseAll (above.map Block.height) M)).lookup h =
      M.lookup h := by
  rw [lookup_heightPairs_of_ne, Map.lookup_eraseAll, if_neg]
  · intro hmem
    obtain ⟨x, hx, heq⟩ := List.mem_map.mp hmem
    have hgt : q.height < x.height := hl.height_above above x hx
    omega
  · intro x hx
    have hgt : q.height < x.height := hl'.height_above done.reverse x (mem_reverse.mpr hx)
    omega

variable [DecidableEq F] [DecidableEq G] {cfg : NodeConfig} {ctx : Nat → CallContext G}

/-- The state in which a reorganisation checks the block on top of `done`: the main chain is
rewound to the fork point, and `done` is connected. -/
def atForkBlock (S : Suite F G) (cfg : NodeConfig) (ctx : Nat → CallContext G) (st : Blockchain G)
    (forkPoint : Nat) (done : List (Block G)) : Option (Blockchain G) := do
  let (rewound, _) ← disconnectAbove S cfg forkPoint (st.tip.height - forkPoint) st
  match connectFork S cfg ctx forkPoint [] done rewound with
  | some (connected, none) => some connected
  | _ => none

include hc in
/-- **The window of a block in a reorganisation**, in between or at the tip. -/
theorem Canonical.reorgWindow_eq {mid : Blockchain G} (hchain : chain = above ++ q :: below)
    (hfloor : st.finalityFloor ≤ q.height)
    (hl : Lineage (blockLinks S) (createGenesisBlockFor S st.network) (done.reverse ++ q :: below))
    (hn : difficultyLongWindow ≤ n) (hr : Remembers S st n (done.reverse ++ q :: below))
    (hmid : st.atForkBlock S cfg ctx q.height done = some mid) :
    mid.mixedWindow q.height (done.map fun a => a.difficultyBlock a.height)
        (done.reverse ++ q :: below).length =
      lineageWindow (done.reverse ++ q :: below) := by
  simp only [atForkBlock, bind_eq_bind, bind_eq_some_iff, Prod.exists,
    hc.tip_height_eq hchain, Nat.add_sub_cancel_left] at hmid
  obtain ⟨rewound, disc, hdisc, hmid⟩ := hmid
  obtain ⟨supply, burned, -, -, rfl, -⟩ :=
    disconnectAbove_eq_some (hchain ▸ hc.lineage) (hc.cached_above hchain hfloor) hdisc
  split at hmid
  · rename_i connected hcon
    cases hmid
    obtain ⟨done', left, hdone, hleft, -, rfl⟩ := connectFork_eq_some hcon
    rw [hleft rfl, append_nil] at hdone
    subst hdone
    refine mixedWindow_eq hl fun a ha hbelow => ?_
    have hle : a.height ≤ q.height := (hl.suffix done.reverse).height_le hbelow
    have hmain : a ∈ st.canonicalChain S := by
      rw [hc.canonicalChain_eq, hchain]
      exact mem_append_right _ hbelow
    have hcached := hr.cachedBlockAt (take_subset_take_left _ hn ha) hmain
    simp only [cachedBlockAt, remapped_remapped, remapped_heightToHash, remapped_blocks] at hcached ⊢
    rw [lookup_reorgHeights (hchain ▸ hc.lineage) hl _ hle]
    exact hcached
  · cases hmid

include hc in
theorem Remembers.store {t : Block G}
    (hadm : Admitted S cfg (ctx 0) st t) (hr : Remembers S st n anc) :
    Remembers S (st.storeBlock S t) n anc := by
  have hsame : (st.storeBlock S t).canonicalChain S = st.canonicalChain S := by
    rw [(hc.store hadm).canonicalChain_eq, hc.canonicalChain_eq]
  refine ⟨?_, fun a ha => ?_, fun a ha hmain => hr.mapped a ha (hsame ▸ hmain)⟩
  · rw [hsame]
    exact hr.meets
  · change (st.blocks.insert (t.hash S) t).lookup (a.hash S) = some a
    rw [Map.lookup_insert_ite, if_neg]
    · exact hr.cached a ha
    · intro heq
      have hold := hc.cache _ _ (hr.cached a ha)
      rw [heq, hc.lookup_of_admitted hadm] at hold
      cases hold

/-! ## 5. One window for all -/

omit [DecidableEq F] [DecidableEq G] in
include hc in
/-- **The window of an arriving block** whose parent is known is that of its lineage. -/
theorem Canonical.arrivalWindow_eq (hs : st.NoStale) {b p : Block G}
    (hp : st.getBlock b.header.prevHash = some p) (hheight : b.height = p.height + 1)
    (hn : difficultyLongWindow ≤ n) (hr : Remembers S st n (st.lineageOf S b).tail) :
    st.arrivalWindow b = lineageWindow (st.lineageOf S b).tail := by
  obtain ⟨rest, hprev, hl, hst, hlin⟩ := hc.lineageOf_eq hp hheight
  rw [hlin] at hr ⊢
  rw [tail_cons] at hr ⊢
  unfold arrivalWindow
  split_ifs with hmain
  · -- the parent is the tip, so the ancestors are the chain
    obtain ⟨t, below, rfl, hhash, htip⟩ := hc.tip
    have htiphash : b.header.prevHash = st.tip.hash := by
      rcases of_decide_eq_true hmain with h | h
      · exact h
      · omega
    obtain rfl : p = t := eq_of_hash (d := d) (hst p (.head _))
      (hc.stored t mem_cons_self) (by rw [← hprev, htiphash, hhash])
    obtain rfl := Lineage.unique hl.tail hc.lineage
      (hst.sublist fun x hx => .tail _ hx)
      (hc.stored.sublist fun x hx => .tail _ hx)
    rw [hheight, ← htip]
    exact hc.getDifficultyBlocks_eq hn hr
  · exact hc.forkWindow_eq hs hl hst hn hr

/-- **Every window is that of the lineage**, in every state of a run and for every block whose
parent is known and whose nearest ancestors -- 144 of them, and all down to the main chain -- are
in memory, as long as no height above the tip is mapped. -/
theorem windows_eq_lineageWindow {network : NetworkType} {st₀ : Blockchain G}
    (h₀ : boot S network = .ok st₀) (h : Reaches (step S cfg) Allowed st₀ st) (hs : st.NoStale)
    {b p : Block G} (hp : st.getBlock b.header.prevHash = some p)
    (hheight : b.height = p.height + 1) {n : Nat} (hn : difficultyLongWindow ≤ n)
    (hr : Remembers S st n (st.lineageOf S b).tail) :
    st.arrivalWindow b = lineageWindow (st.lineageOf S b).tail ∧
    (2 ≤ b.height → 2 ≤ (st.arrivalWindow b).length) ∧
    ((st.lineageOf S b).tail = st.canonicalChain S →
      st.getDifficultyBlocks (st.tip.height + 1) = lineageWindow (st.lineageOf S b).tail ∧
      (2 ≤ b.height →
        st.nextTarget = calculateDifficulty (lineageWindow (st.lineageOf S b).tail) b.height)) ∧
    ∀ (ctx : Nat → CallContext G) (t q : Block G) (above below done : List (Block G))
      (mid : Blockchain G), Admitted S cfg (ctx 0) st t →
      st.canonicalChain S = above ++ q :: below →
      (st.lineageOf S b).tail = done.reverse ++ q :: below → st.finalityFloor ≤ q.height →
      (st.storeBlock S t).atForkBlock S cfg ctx q.height done = some mid →
      mid.mixedWindow q.height (done.map fun a => a.difficultyBlock a.height) b.height =
        lineageWindow (st.lineageOf S b).tail := by
  obtain ⟨d, chain, hc⟩ := exists_canonical h₀ h
  have harrival := hc.arrivalWindow_eq hs hp hheight hn hr
  obtain ⟨rest, -, hl, hst, hlin⟩ := hc.lineageOf_eq hp hheight
  rw [hlin, tail_cons] at hr harrival ⊢
  have hlen : b.height = (p :: rest).length := hl.length_eq.symm
  have htwo : 2 ≤ b.height → 2 ≤ (lineageWindow (p :: rest)).length := by
    intro h2
    rw [length_lineageWindow, ← hlen]
    exact le_min (by decide) h2
  rw [hc.canonicalChain_eq]
  refine ⟨harrival, fun h2 => harrival ▸ htwo h2, ?_, ?_⟩
  · rintro rfl
    have hnext := hc.getDifficultyBlocks_eq hn hr
    refine ⟨hnext, fun h2 => ?_⟩
    simp only [nextTarget, hnext, htwo h2, if_true]
    rw [hlen, hc.length_chain]
  · intro ctx t q above below done mid hadm hchain hanc hfloor hmid
    rw [hlen]
    rw [hanc] at hl hr ⊢
    exact (hc.store hadm).reorgWindow_eq hchain hfloor hl.tail_append hn (hr.store hc hadm) hmid

end Blockchain

/-! ## 6. On the small chain -/

namespace SmallChain

open Blockchain SmallSuite

def stray2 : Block Z := emptyChild light1 genesis.header.target 8

def watchful : Blockchain Z :=
  (ranOn [.add steady heavy1, .add steady light1]).getD booted

def forgetful : Blockchain Z :=
  (ranOn [.add steady heavy1, .add steady light1, .restart]).getD booted

/-- Whether a block is stored. -/
def stores (st : Blockchain Z) (b : Block Z) : Bool :=
  (st.step suite cfg (.add steady b)).any fun st' => (st'.getBlock (b.hash suite)).isSome

/-- **A start changes the window.**  The parent of the block is on disk in both nodes. -/
theorem window_forgotten : Reaches (step suite cfg) (fun _ _ => True) booted watchful ∧
    Reaches (step suite cfg) (fun _ _ => True) booted forgetful ∧
    watchful.getBlock (light1.hash suite) = some light1 ∧
    forgetful.getBlock (light1.hash suite) = some light1 ∧
    watchful.arrivalWindow stray2 = lineageWindow [light1, genesis] ∧
    forgetful.arrivalWindow stray2 = lineageWindow [genesis] ∧
    stores watchful stray2 = false ∧ stores forgetful stray2 = true := by
  refine ⟨reaches_ranOn ?_, reaches_ranOn ?_, ?_⟩
  · decide +kernel
  · decide +kernel
  · decide +kernel

/-- A node with a side-chain block in memory: the next block of that chain has its window. -/
theorem light2_window :
    ∃ st, run (step suite cfg) (fun st a => decide (st.Allowed a)) booted
        [.add steady heavy1, .add steady light1] = some st ∧
      st.arrivalWindow light2 = lineageWindow [light1, genesis] := by
  have hrun : (run (step suite cfg) (fun st a => decide (st.Allowed a)) booted
      [.add steady heavy1, .add steady light1]).any (fun st =>
        decide st.NoStale && decide (st.getBlock light2.header.prevHash = some light1) &&
          decide (Remembers suite st difficultyLongWindow (st.lineageOf suite light2).tail) &&
          decide ((st.lineageOf suite light2).tail = [light1, genesis])) = true := by
    decide +kernel
  obtain ⟨st, hst, hlast⟩ := (Option.any_eq_true _ _).mp hrun
  simp only [Bool.and_eq_true, decide_eq_true_eq] at hlast
  obtain ⟨⟨⟨hs, hp⟩, hr⟩, hanc⟩ := hlast
  have hreach := Reaches.run (P := Allowed) (fun _ _ h => of_decide_eq_true h) .start hst
  refine ⟨st, hst, ?_⟩
  rw [← hanc]
  exact (windows_eq_lineageWindow boot_booted hreach hs hp (by decide +kernel) le_rfl hr).1

end SmallChain

end Coincync
