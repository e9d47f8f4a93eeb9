/-
# Blocks that come on time

A node on which every block comes exactly two minutes after its parent and has nothing but its
coinbase.  Its suite hashes a header to its height and its nonce, so the blocks of a tree are told
apart at a glance; RandomX is constant, so every nonce is found.  The target never changes
(`calculateDifficulty_steady`) and every block is valid with every UTXO set
(`minedBlockWith_valid`), so such a node can be followed for as many blocks as one likes without
computing one of them.
-/
import Coincync.Chain.Convergence
import Coincync.Chain.Finality
import Coincync.Consensus.Asert
import Coincync.Consensus.Mining
import Coincync.Crypto.WideSuite

namespace Coincync.SteadyChain

open Lib Blockchain WideSuite List

/-! ## 1. The suite -/

/-- What stands where a header has its height and its nonce. -/
def headerDigest (data : Bytes) : FixedBytes 32 :=
  ⟨((data.drop 23).take 8 ++ (data.drop 136).take 8 ++ List.replicate 32 0).take 32, by simp; omega⟩

/-- The header bytes of the genesis block. -/
def genesisPreimage : Bytes :=
  (createGenesisBlockFor (WideSuite.suite headerDigest) .regtest).header.preimage

/-- The digest, with the hard-coded genesis hash. -/
def blake3 (data : Bytes) : FixedBytes 32 :=
  if data = genesisPreimage then (expectedGenesisHash .regtest).bytes else headerDigest data

/-- The suite of the steady chain. -/
def suite : Suite W (W × W) := WideSuite.suite blake3

/-- A testnet build without fast-sync, bound to the genesis block. -/
def cfg : NodeConfig := ⟨⟨true, false⟩, (expectedGenesisHash .regtest).bytes⟩

/-- A call with a clock in 2027 and RandomX up. -/
def ctx : CallContext (W × W) := ⟨some 1800000000, true, fun _ _ => false, fun _ => false⟩

def always : Nat → CallContext (W × W) := fun _ => ctx

def genesis : Block (W × W) := createGenesisBlockFor suite .regtest

theorem genesis_preimage : genesis.header.preimage = genesisPreimage := by
  decide +kernel

theorem hash_eq (b : Block (W × W)) : b.hash suite = ⟨blake3 b.header.preimage⟩ := by
  rw [Block.hash, BlockHeader.hash, Suite.hashConcat, flatten_singleton]
  rfl

theorem genesis_hash : genesis.hash suite = expectedGenesisHash .regtest := by
  rw [hash_eq, blake3, if_pos genesis_preimage]

variable {b : Block (W × W)}

/-- **Above genesis the hash is the height and the nonce.** -/
theorem asSlice_hash (h0 : 0 < b.height) : (b.hash suite).asSlice =
    u64LeBytes b.header.height ++ (u64LeBytes b.header.nonce ++ List.replicate 16 0) := by
  have hne : b.header.preimage ≠ genesisPreimage := by
    intro heq
    have hheader := BlockHeader.preimage_injective (heq.trans genesis_preimage.symm)
    have hzero : b.height = genesis.height := congrArg (fun h => h.height.toNat) hheader
    have hgenesis : genesis.height = 0 := by decide
    omega
  obtain ⟨rest, hheight⟩ : ∃ rest, b.header.preimage = (headerHashDomainTag ++
      b.header.networkMagic.toList ++ [b.header.version]) ++
        (u64LeBytes b.header.height ++ rest) := by
    apply Exists.intro
    simp only [BlockHeader.preimage, append_assoc]
    rfl
  obtain ⟨rest', hnonce⟩ : ∃ rest', b.header.preimage = (headerHashDomainTag ++
      b.header.networkMagic.toList ++ [b.header.version] ++ u64LeBytes b.header.height ++
      u64LeBytes b.header.timestamp ++ b.header.prevHash.asSlice ++ b.header.txRoot.asSlice ++
      b.header.anchor.asSlice ++ [b.header.algorithm]) ++ (u64LeBytes b.header.nonce ++ rest') := by
    apply Exists.intro
    simp only [BlockHeader.preimage, append_assoc]
    rfl
  have htag : headerHashDomainTag.length = 18 := by decide
  have hfirst : (b.header.preimage.drop 23).take 8 = u64LeBytes b.header.height := by
    rw [hheight, drop_left' (by simp [htag]), take_left' (length_u64LeBytes _)]
  have hsecond : (b.header.preimage.drop 136).take 8 = u64LeBytes b.header.nonce := by
    rw [hnonce, drop_left' (by simp [htag]), take_left' (length_u64LeBytes _)]
  rw [hash_eq, blake3, if_neg hne]
  change ((b.header.preimage.drop 23).take 8 ++ (b.header.preimage.drop 136).take 8 ++
    List.replicate 32 0).take 32 = _
  rw [hfirst, hsecond, take_append, take_of_length_le (by simp)]
  simp

theorem key_of_hash {x y : Block (W × W)} (hx : 0 < x.height) (hy : 0 < y.height)
    (h : x.hash suite = y.hash suite) :
    x.header.height = y.header.height ∧ x.header.nonce = y.header.nonce := by
  have heq := congrArg Hash.asSlice h
  rw [asSlice_hash hx, asSlice_hash hy] at heq
  obtain ⟨h₁, h₂⟩ := append_inj heq (by simp)
  exact ⟨u64LeBytes_inj h₁, u64LeBytes_inj (append_inj h₂ (by simp)).1⟩

theorem hash_ne_genesis (h0 : 0 < b.height) :
    b.hash suite ≠ genesis.hash suite := by
  intro h
  have heq := congrArg (fun h : Hash => h.asSlice.getLast?) h
  rw [genesis_hash, asSlice_hash h0] at heq
  simp only [getLast?_append, getLast?_replicate] at heq
  rw [if_neg (by decide), Option.some_or, Option.some_or] at heq
  exact absurd heq (by decide)

/-! ## 2. Blocks -/

/-- The target of every block, as a number. -/
def startTarget : Nat := targetToU128 genesis.header.target

/-- The target of every block above genesis. -/
def target : Hash := u128ToTarget startTarget

theorem startTarget_bounds : 1 ≤ startTarget ∧ startTarget ≤ u128Max / minDifficulty := by
  decide +kernel

theorem targetToU128_target : targetToU128 target = startTarget := by
  obtain ⟨hpos, hle⟩ := startTarget_bounds
  rw [target, targetToU128_u128ToTarget (hle.trans (Nat.div_le_self _ _)), max_eq_left hpos]

/-- The block on top of `parent`, at a header version, with an `extra` field. -/
def minedWith (version : UInt8) (extra : Bytes) (parent : Block (W × W)) (nonce : UInt64) :
    Block (W × W) :=
  minedBlockWith suite version extra .regtest parent target nonce ⟨FixedBytes.replicate 32 1⟩

/-- **A block on time**, with the target of genesis. -/
structure Paced (b : Block (W × W)) : Prop where
  timestamp : b.header.timestamp.toNat = 1776818628 + 120 * b.height
  target : targetToU128 b.header.target = startTarget
  low : b.height ≤ 100000

theorem paced_genesis : Paced genesis := ⟨by decide, rfl, by decide⟩

/-- **A block was mined on top of another.** -/
def MinedOn (p b : Block (W × W)) (nonce : UInt64) : Prop :=
  ∃ version extra, p.header.version ≤ version ∧
    blockVersionAtHeight (p.header.height + 1).toNat ≤ version ∧ extra.length ≤ 1000 ∧
    b = minedWith version extra p nonce

variable {p b : Block (W × W)} {nonce : UInt64}

section

variable (h : MinedOn p b nonce)
include h

theorem MinedOn.prevHash : b.header.prevHash = p.hash suite := by
  obtain ⟨version, extra, -, -, -, rfl⟩ := h
  rfl

theorem MinedOn.nonce_eq : b.header.nonce = nonce := by
  obtain ⟨version, extra, -, -, -, rfl⟩ := h
  rfl

theorem MinedOn.height (hp : Paced p) : b.height = p.height + 1 := by
  obtain ⟨version, extra, -, -, -, rfl⟩ := h
  have hlow := hp.low
  change (p.header.height + 1).toNat = p.header.height.toNat + 1
  rw [UInt64.toNat_add]
  have hone : (1 : UInt64).toNat = 1 := rfl
  have hheight : p.height = p.header.height.toNat := rfl
  omega

theorem MinedOn.paced (hp : Paced p) (hlow : p.height < 100000) :
    Paced b := by
  have hheight := h.height hp
  obtain ⟨version, extra, -, -, -, rfl⟩ := h
  refine ⟨?_, targetToU128_target, by omega⟩
  have htime := hp.timestamp
  change (p.header.timestamp + 120).toNat = _
  rw [UInt64.toNat_add, hheight]
  have h120 : (120 : UInt64).toNat = 120 := rfl
  omega

end

theorem commit_ne_zero {v : UInt64} (hv : 0 < v.toNat) : suite.commit v 0 ≠ 0 := by
  intro h
  have hvalue : (suite.commit v 0).2 = ((v.toNat : ℕ) : W) :=
    (opens_iff blake3).mp ⟨0, rfl⟩
  rw [h] at hvalue
  have hdvd := (ZMod.natCast_eq_zero_iff v.toNat order).mp hvalue.symm
  have hle := Nat.le_of_dvd hv hdvd
  have hlt := v.toNat_lt
  unfold order at hle
  omega

/-- **A mined block is valid on its parent**, with every set. -/
theorem MinedOn.valid (h : MinedOn p b nonce) (hp : Paced p) (hlow : p.height < 100000)
    (U : UtxoSet) (cp : Option Nat) :
    (validateBlockWithCheckpointForNetwork suite cfg ctx b (some p) U cp .regtest).valid = true := by
  have hheight := h.height hp
  have htime := (h.paced hp hlow).timestamp
  have hpast := hp.timestamp
  obtain ⟨version, extra, hratchet, henough, hshort, rfl⟩ := h
  change (p.header.height + 1).toNat = p.height + 1 at hheight
  change (p.header.timestamp + 120).toNat = 1776818628 + 120 * (p.header.height + 1).toNat at htime
  refine minedBlockWith_valid ⟨hratchet, henough, hshort, ?_, ⟨1800000000, rfl, ?_⟩, rfl, ?_, ?_,
    fun _ _ => ?_, ?_⟩ U cp
  · rw [UInt64.lt_iff_toNat_lt]
    omega
  · rw [UInt64.le_iff_toNat_le]
    have hclock : ((1800000000 : UInt64) + maxTimestampDrift).toNat = 1800000600 := by decide
    omega
  · rw [targetToU128_target, hp.target]
  · rw [targetToU128_target]
    exact startTarget_bounds.1
  · change (⟨FixedBytes.replicate 32 0⟩ : Hash).meetsDifficulty SteadyChain.target = true
    decide +kernel
  · have htail := (calculateBlockReward_bounds (p.header.height + 1).toNat).1
    have hpos : 0 < tailEmission := by decide
    exact commit_ne_zero (lt_of_lt_of_le hpos htail)

/-! ## 3. Trees -/

/-- The work of every block. -/
def unit : Nat := u128Max / startTarget

theorem Paced.work_eq (h : Paced b) : b.work = unit := by
  have hpos := startTarget_bounds.1
  change calculateDifficultyFromTarget b.header.target = unit
  rw [calculateDifficultyFromTarget, h.target, if_neg (by omega)]
  rfl

/-- **A tree of mined blocks**, told apart by height and nonce. -/
structure Orchard (tree : List (Block (W × W))) : Prop where
  paced : ∀ b ∈ tree, Paced b
  mined : ∀ b ∈ tree, ∃ p ∈ genesis :: tree, ∃ nonce, MinedOn p b nonce
  keys : (tree.map fun b => (b.header.height, b.header.nonce)).Nodup

namespace Orchard

variable {tree : List (Block (W × W))} (ho : Orchard tree)

include ho

theorem paced_of_mem : ∀ b ∈ genesis :: tree, Paced b := by
  intro b hb
  rcases mem_cons.mp hb with rfl | hb
  · exact paced_genesis
  · exact ho.paced b hb

theorem height_pos : ∀ b ∈ tree, 0 < b.height := by
  intro b hb
  obtain ⟨p, hp, nonce, hmined⟩ := ho.mined b hb
  rw [hmined.height (ho.paced_of_mem p hp)]
  exact Nat.succ_pos _

theorem blockTree : BlockTree suite genesis tree := by
  refine ⟨by decide, ?_, fun b hb => ?_⟩
  · rw [map_cons, nodup_cons]
    refine ⟨fun hmem => ?_, ?_⟩
    · obtain ⟨b, hb, heq⟩ := mem_map.mp hmem
      exact hash_ne_genesis (ho.height_pos b hb) heq
    · refine pairwise_map.mpr ((pairwise_map.mp ho.keys).imp_of_mem ?_)
      intro x y hx hy hne heq
      obtain ⟨hheight, hnonce⟩ := key_of_hash (ho.height_pos x hx) (ho.height_pos y hy) heq
      exact hne (by rw [hheight, hnonce])
  · obtain ⟨p, hp, nonce, hmined⟩ := ho.mined b hb
    exact ⟨p, hp, hmined.prevHash, hmined.height (ho.paced_of_mem p hp)⟩

/-- **The work of a branch is its height.** -/
theorem chainWork_branch (hb : b ∈ genesis :: tree) :
    chainWork (branch suite genesis tree b) = 1 + b.height * unit := by
  obtain ⟨rest, heq, hl, hmem⟩ := ho.blockTree.branch_spec hb
  rw [heq]
  clear heq
  induction rest generalizing b with
  | nil =>
    cases hl with
    | root h0 =>
      have hzero : genesis.height = 0 := h0
      rw [chainWork_genesis hzero, hzero, Nat.zero_mul]
  | cons p rest ih =>
    cases hl with
    | cons hprev hheight hl =>
      have hsucc : b.height = p.height + 1 := hheight
      have hrest := ih (hmem p (by simp)) hl fun x hx => hmem x (mem_cons_of_mem _ hx)
      rw [chainWork_cons_of_pos (by omega), (ho.paced_of_mem b hb).work_eq, hrest, hsucc,
        Nat.succ_mul]
      omega

theorem onTime {root : Block (W × W)} {rest : List (Block (W × W))}
    (hl : Lineage (blockLinks suite) root (p :: rest)) (hmem : ∀ x ∈ p :: rest, x ∈ genesis :: tree) :
    OnTime (lineageWindow (p :: rest)) (p.difficultyBlock p.height) := by
  have hpace : ∀ a ∈ p :: rest, a.header.timestamp.toNat + (p.height - a.height) * targetBlockTime =
      p.header.timestamp.toNat := by
    intro a ha
    have hle : a.height ≤ p.height := hl.height_le ha
    have ha := (ho.paced_of_mem a (hmem a ha)).timestamp
    have hp := (ho.paced_of_mem p (hmem p (.head _))).timestamp
    have h120 : targetBlockTime = 120 := rfl
    rw [h120]
    omega
  refine ⟨?_, fun a ha => ?_, fun a ha => ?_⟩
  · rw [lineageWindow, getLast?_map, getLast?_reverse]
    rfl
  · obtain ⟨x, hx, rfl⟩ := mem_map.mp ha
    exact hpace x (mem_of_mem_take (mem_reverse.mp hx))
  · -- the heights of the window are consecutive
    have hheights : (lineageWindow (p :: rest)).map DifficultyBlock.height =
        windowHeights (p :: rest).length := by
      rw [← map_height_window hl, lineageWindow, map_map]
      rfl
    have hlen : rest.length = p.height := hl.length_eq
    have hwindow := length_lineageWindow (p :: rest)
    have hget := congrArg (fun l => l[(lineageWindow (p :: rest)).length - 12]?) hheights
    simp only [getElem?_map, ha, Option.map_some, windowHeights] at hget
    have hvalue := (List.getElem?_eq_some_iff.mp hget.symm)
    obtain ⟨_, hvalue⟩ := hvalue
    rw [getElem_range'] at hvalue
    rw [length_cons] at hvalue hwindow
    change p.height ≤ a.height + 11
    have h144 : difficultyLongWindow = 144 := rfl
    omega

/-- **Every block follows the rules of its branch.** -/
theorem fitsOn : ∀ b ∈ tree, FitsOn (branch suite genesis tree b).tail b := by
  intro b hb
  obtain ⟨rest, heq, hl, hmem⟩ := ho.blockTree.branch_spec (.tail _ hb)
  rw [heq, tail_cons]
  refine ⟨fun _ => medianTimePast_lt fun a ha => ?_, ?_⟩
  · have hlt : a.height < b.height := hl.height_lt a ha
    have ha := (ho.paced_of_mem a (hmem a (.tail _ ha))).timestamp
    have hb := (ho.paced b hb).timestamp
    rw [UInt64.lt_iff_toNat_lt]
    omega
  · unfold wrongTarget
    split_ifs with hshort
    · rfl
    · cases rest with
      | nil => exact absurd (Nat.zero_lt_succ 1) hshort
      | cons p rest =>
        have hp := (ho.paced_of_mem p (hmem p (by simp))).target
        have hsteady := calculateDifficulty_steady
          (ho.onTime hl.tail fun x hx => hmem x (mem_cons_of_mem _ hx)) (by omega)
          (by rw [Block.difficultyBlock, hp]; exact startTarget_bounds.1)
          (by rw [Block.difficultyBlock, hp]; exact startTarget_bounds.2) b.height
        obtain ⟨q, -, nonce, version, extra, -, -, -, rfl⟩ := ho.mined b hb
        rw [hsteady, Block.difficultyBlock, hp]
        exact if_pos rfl

variable {x y : Block (W × W)}

theorem valid (hx : x ∈ tree) (hp : p ∈ genesis :: tree) (hprev : x.header.prevHash = p.hash suite)
    (U : UtxoSet) (cp : Option Nat) :
    (validateBlockWithCheckpointForNetwork suite cfg ctx x (some p) U cp .regtest).valid = true := by
  have hlow := (ho.paced x hx).low
  obtain ⟨p', hp', nonce, hmined⟩ := ho.mined x hx
  obtain rfl := ho.blockTree.eq_of_hash hp' hp (hmined.prevHash.symm.trans hprev)
  have hpaced := ho.paced_of_mem p' hp'
  rw [hmined.height hpaced] at hlow
  exact hmined.valid hpaced (by omega) U cp

theorem validTurns (hb : b ∈ tree) {st : Blockchain (W × W)} (hnet : st.network = .regtest)
    (chain : List (Block (W × W))) : Fed.ValidTurns suite genesis tree cfg always st chain b := by
  intro above q below done x left hchain hside hfloor n
  have hnew : branch suite genesis tree b = left.reverse ++ x :: (done.reverse ++ q :: below) := by
    rw [hside]
    simp
  obtain ⟨px, l, hpx⟩ : ∃ px l, done.reverse ++ q :: below = px :: l :=
    exists_cons_of_ne_nil (by simp)
  obtain ⟨hx, hp, hprev⟩ :=
    ho.blockTree.parent_of_branch (mem_cons_of_mem _ hb) (hpx ▸ hnew)
  rw [hpx, head?_cons, hnet]
  exact ho.valid hx hp hprev _ none

theorem work_lt : ∀ b ∈ tree, chainWork (branch suite genesis tree b) < 2 ^ 128 := by
  intro b hb
  have hlow := Nat.mul_le_mul_right unit (ho.paced b hb).low
  have hfit : 1 + 100000 * unit < 2 ^ 128 := by decide +kernel
  rw [ho.chainWork_branch (mem_cons_of_mem _ hb)]
  omega

theorem prefers_of_height (hx : x ∈ genesis :: tree) (hy : y ∈ genesis :: tree)
    (h : x.height < y.height) : Prefers suite genesis tree y x := by
  have hunit : 0 < unit := by decide +kernel
  have hlt := Nat.mul_lt_mul_of_pos_right h hunit
  refine .inl ?_
  rw [ho.chainWork_branch hx, ho.chainWork_branch hy]
  omega

theorem prefers_of_nonce (hx : x ∈ tree) (hy : y ∈ tree) (hheight : x.height = y.height)
    (hxnonce : x.header.nonce = 1) (hynonce : y.header.nonce = 0) :
    Prefers suite genesis tree y x := by
  refine .inr ⟨?_, ?_⟩
  · rw [ho.chainWork_branch (mem_cons_of_mem _ hx),
      ho.chainWork_branch (mem_cons_of_mem _ hy), hheight]
  · have hsame : x.header.height = y.header.height := UInt64.toNat_inj.mp hheight
    rw [Hash.lt, asSlice_hash (ho.height_pos x hx), asSlice_hash (ho.height_pos y hy), hsame,
      hxnonce, hynonce, decide_eq_true_iff]
    refine append_left_lt ?_
    decide +kernel

end Orchard

/-! ## 4. Feeding a node -/

/-- The node after `init_genesis`. -/
def booted : Blockchain (W × W) :=
  (withDatabase .regtest (some Database.empty) (some ∅)).applyGenesis suite

theorem boot_booted : boot suite .regtest = .ok booted := by
  rw [boot, initGenesis]
  exact if_neg (not_not.mpr genesis_hash)

/-- **The booted node starts**, with the genesis block and no checkpoint. -/
theorem exists_started (tree : List (Block (W × W))) :
    ∃ st d, Blockchain.step suite cfg booted .restart = some st ∧
      Fed suite genesis tree cfg [genesis] st d [genesis] ∧ st.network = .regtest ∧
      st.rollbackFloor = 0 := by
  obtain ⟨⟨d₀, hc₀⟩, -⟩ := canonical_of_boot boot_booted
  obtain ⟨st, hrestart, -⟩ := hc₀.exists_restart
  have hstep : Blockchain.step suite cfg booted .restart = some st := by
    change booted.start suite = some st
    rw [start, hrestart]
  obtain ⟨d, -, hnet, hfed⟩ := fed_of_boot tree boot_booted hstep
  obtain ⟨s, hre⟩ := hc₀.restarts (hc₀.restart_of_start hstep)
  refine ⟨st, d, hstep, hfed, hnet, ?_⟩
  rw [rollbackFloor_eq hre.db, ← rollbackFloor_eq hc₀.db]
  rfl

section

variable {tree known chain : List (Block (W × W))} {st : Blockchain (W × W)} {d : Database (W × W)}

theorem Orchard.valid_next (ho : Orchard tree) (h : Fed suite genesis tree cfg known st d chain)
    (hnet : st.network = .regtest) (hn : Next suite tree known b p) :
    (validateBlockWithCheckpointForNetwork suite cfg (always 0) b
      (st.getBlock b.header.prevHash) st.utxos st.persistedCheckpoint st.network).valid = true := by
  rw [h.getBlock_iff.mpr ⟨hn.parent, hn.prev.symm⟩, hnet]
  exact ho.valid hn.mem (h.known_sub p hn.parent) hn.prev _ _

end

/-! ## 5. A main chain and a spur -/

/-- The blocks `g i`, ..., `g 0`. -/
def downFrom (g : Nat → Block (W × W)) : Nat → List (Block (W × W))
  | 0 => [g 0]
  | i + 1 => g (i + 1) :: downFrom g i

/-- The spur up to its `j`-th block, on top of the main chain up to height `f`. -/
def spurChain (main spur : Nat → Block (W × W)) (f : Nat) : Nat → List (Block (W × W))
  | 0 => downFrom main f
  | j + 1 => spur (j + 1) :: spurChain main spur f j

/-- The main chain up to height `n` and a spur of `k` blocks, without the genesis block. -/
def prongTree (n k : Nat) (main spur : Nat → Block (W × W)) : List (Block (W × W)) :=
  (List.range' 1 n).map main ++ (List.range' 1 k).map spur

/-- **A main chain and a spur** that leaves it at height `f`; nonce 0 here, nonce 1 there. -/
structure Prongs (n f k : Nat) (main spur : Nat → Block (W × W)) : Prop where
  root : main 0 = genesis
  base : spur 0 = main f
  leaves : f ≤ n
  main_low : n ≤ 100000
  spur_low : f + k ≤ 100000
  main_mined : ∀ i < n, MinedOn (main i) (main (i + 1)) 0
  spur_mined : ∀ j < k, MinedOn (spur j) (spur (j + 1)) 1

section

variable {g main spur : Nat → Block (W × W)} {n f k i j : Nat} {x y : Block (W × W)}

theorem mem_downFrom : x ∈ downFrom g i ↔ ∃ j ≤ i, x = g j := by
  induction i with
  | zero =>
    rw [downFrom, mem_singleton]
    constructor
    · rintro rfl
      exact ⟨0, le_rfl, rfl⟩
    · rintro ⟨j, hj, rfl⟩
      rw [Nat.le_zero.mp hj]
  | succ i ih =>
    rw [downFrom, mem_cons, ih]
    constructor
    · rintro (rfl | ⟨j, hj, rfl⟩)
      · exact ⟨i + 1, le_rfl, rfl⟩
      · exact ⟨j, by omega, rfl⟩
    · rintro ⟨j, hj, rfl⟩
      rcases lt_or_ge i j with hlt | hle
      · exact .inl (by rw [show j = i + 1 by omega])
      · exact .inr ⟨j, hle, rfl⟩

theorem exists_downFrom (g : Nat → Block (W × W)) (i : Nat) : ∃ rest, downFrom g i = g i :: rest := by
  cases i with
  | zero => exact ⟨[], rfl⟩
  | succ i => exact ⟨downFrom g i, rfl⟩

theorem mem_spurChain :
    x ∈ spurChain main spur f j ↔ x ∈ downFrom main f ∨ ∃ i, 0 < i ∧ i ≤ j ∧ x = spur i := by
  induction j with
  | zero =>
    refine ⟨.inl, ?_⟩
    rintro (hx | ⟨i, hpos, hle, -⟩)
    · exact hx
    · omega
  | succ j ih =>
    rw [spurChain, mem_cons, ih]
    constructor
    · rintro (rfl | hx | ⟨i, hpos, hle, rfl⟩)
      · exact .inr ⟨j + 1, Nat.succ_pos j, le_rfl, rfl⟩
      · exact .inl hx
      · exact .inr ⟨i, hpos, by omega, rfl⟩
    · rintro (hx | ⟨i, hpos, hle, rfl⟩)
      · exact .inr (.inl hx)
      · rcases lt_or_ge j i with hlt | hge
        · exact .inl (by rw [show i = j + 1 by omega])
        · exact .inr (.inr ⟨i, hpos, hge, rfl⟩)

theorem exists_spurChain_append : ∃ l, spurChain main spur f j = l ++ downFrom main f ∧
    l.length = j ∧ ∀ x ∈ l, ∃ i, 0 < i ∧ i ≤ j ∧ x = spur i := by
  induction j with
  | zero => exact ⟨[], rfl, rfl, by simp⟩
  | succ j ih =>
    obtain ⟨l, hl, hlength, hmem⟩ := ih
    refine ⟨spur (j + 1) :: l, by rw [spurChain, hl]; rfl, by rw [length_cons, hlength], ?_⟩
    intro x hx
    rcases mem_cons.mp hx with rfl | hx
    · exact ⟨j + 1, Nat.succ_pos j, le_rfl, rfl⟩
    · obtain ⟨i, hpos, hi, rfl⟩ := hmem x hx
      exact ⟨i, hpos, by omega, rfl⟩

theorem exists_downFrom_append (hi : f ≤ i) : ∃ l, downFrom g i = l ++ downFrom g f ∧
    l.length = i - f := by
  induction i with
  | zero =>
    obtain rfl : f = 0 := by omega
    exact ⟨[], rfl, rfl⟩
  | succ i ih =>
    rcases lt_or_ge i f with hlt | hge
    · obtain rfl : f = i + 1 := by omega
      exact ⟨[], rfl, by simp⟩
    · obtain ⟨l, hl, hlength⟩ := ih hge
      exact ⟨g (i + 1) :: l, by rw [downFrom, hl]; rfl, by rw [length_cons, hlength]; omega⟩

namespace Prongs

variable (h : Prongs n f k main spur)

include h

theorem main_spec (hi : i ≤ n) : Paced (main i) ∧ (main i).height = i := by
  induction i with
  | zero =>
    rw [h.root]
    exact ⟨paced_genesis, by decide⟩
  | succ i ih =>
    obtain ⟨hpaced, hheight⟩ := ih (by omega)
    have hlow := h.main_low
    have hmined := h.main_mined i hi
    exact ⟨hmined.paced hpaced (by omega), by rw [hmined.height hpaced, hheight]⟩

theorem spur_spec (hj : j ≤ k) : Paced (spur j) ∧ (spur j).height = f + j := by
  induction j with
  | zero =>
    rw [h.base]
    exact h.main_spec h.leaves
  | succ j ih =>
    obtain ⟨hpaced, hheight⟩ := ih (by omega)
    have hlow := h.spur_low
    have hmined := h.spur_mined j hj
    refine ⟨hmined.paced hpaced (by omega), ?_⟩
    rw [hmined.height hpaced, hheight]
    omega

theorem nonce_main (hpos : 0 < i) (hi : i ≤ n) : (main i).header.nonce = 0 := by
  obtain ⟨i, rfl⟩ : ∃ i', i = i' + 1 := ⟨i - 1, by omega⟩
  exact (h.main_mined i hi).nonce_eq

theorem nonce_spur (hpos : 0 < j) (hj : j ≤ k) : (spur j).header.nonce = 1 := by
  obtain ⟨j, rfl⟩ : ∃ j', j = j' + 1 := ⟨j - 1, by omega⟩
  exact (h.spur_mined j hj).nonce_eq

theorem main_ne_spur (hi : i ≤ n) (hpos : 0 < j) (hj : j ≤ k) : main i ≠ spur j := by
  intro heq
  rcases Nat.eq_zero_or_pos i with rfl | hipos
  · have hheights := congrArg Block.height heq
    rw [(h.main_spec hi).2, (h.spur_spec hj).2] at hheights
    omega
  · have hnonces := congrArg (fun b : Block (W × W) => b.header.nonce) heq
    simp only [h.nonce_main hipos hi, h.nonce_spur hpos hj] at hnonces
    exact absurd hnonces (by decide)

theorem height_le_of_shared (hi : i ≤ n) (hj : j ≤ k)
    (hx : x ∈ downFrom main i) (hx' : x ∈ spurChain main spur f j) : x.height ≤ f := by
  have hleaves := h.leaves
  rcases mem_spurChain.mp hx' with hlow | ⟨j', hpos, hj', rfl⟩
  · obtain ⟨i', hi', rfl⟩ := mem_downFrom.mp hlow
    rw [(h.main_spec (by omega)).2]
    exact hi'
  · obtain ⟨i', hi', heq⟩ := mem_downFrom.mp hx
    exact absurd heq.symm (h.main_ne_spur (by omega) hpos (by omega))

theorem mem_tree_iff : x ∈ genesis :: prongTree n k main spur ↔
    (∃ i ≤ n, x = main i) ∨ ∃ j, 0 < j ∧ j ≤ k ∧ x = spur j := by
  simp only [prongTree, mem_cons, mem_append, mem_map, mem_range'_1]
  constructor
  · rintro (rfl | ⟨i, hi, rfl⟩ | ⟨j, hj, rfl⟩)
    · exact .inl ⟨0, zero_le, h.root.symm⟩
    · exact .inl ⟨i, by omega, rfl⟩
    · exact .inr ⟨j, hj.1, by omega, rfl⟩
  · rintro (⟨i, hi, rfl⟩ | ⟨j, hpos, hj, rfl⟩)
    · rcases Nat.eq_zero_or_pos i with rfl | hpos
      · exact .inl h.root
      · exact .inr (.inl ⟨i, ⟨hpos, by omega⟩, rfl⟩)
    · exact .inr (.inr ⟨j, ⟨hpos, by omega⟩, rfl⟩)

theorem main_mem (hi : i ≤ n) :
    main i ∈ genesis :: prongTree n k main spur := h.mem_tree_iff.mpr (.inl ⟨i, hi, rfl⟩)

theorem spur_mem (hj : j ≤ k) : spur j ∈ genesis :: prongTree n k main spur := by
  rcases Nat.eq_zero_or_pos j with rfl | hpos
  · rw [h.base]
    exact h.main_mem h.leaves
  · exact h.mem_tree_iff.mpr (.inr ⟨j, hpos, hj, rfl⟩)

theorem keys :
    ((prongTree n k main spur).map fun b => (b.header.height, b.header.nonce)).Nodup := by
  rw [prongTree, map_append, map_map, map_map, nodup_append']
  refine ⟨List.Nodup.map_on (fun i hi i' hi' heq => ?_) (nodup_range' 1),
    List.Nodup.map_on (fun j hj j' hj' heq => ?_) (nodup_range' 1), ?_⟩
  · have hheights : (main i).height = (main i').height := congrArg (fun key => key.1.toNat) heq
    rw [mem_range'_1] at hi hi'
    rwa [(h.main_spec (by omega)).2, (h.main_spec (by omega)).2] at hheights
  · have hheights : (spur j).height = (spur j').height := congrArg (fun key => key.1.toNat) heq
    rw [mem_range'_1] at hj hj'
    rw [(h.spur_spec (by omega)).2, (h.spur_spec (by omega)).2] at hheights
    omega
  · -- the nonces tell the spur from the main chain
    intro key hmain hspur
    obtain ⟨i, hi, rfl⟩ := mem_map.mp hmain
    obtain ⟨j, hj, heq⟩ := mem_map.mp hspur
    rw [mem_range'_1] at hi hj
    have hnonces : (spur j).header.nonce = (main i).header.nonce := congrArg Prod.snd heq
    rw [h.nonce_main hi.1 (by omega), h.nonce_spur hj.1 (by omega)] at hnonces
    exact absurd hnonces (by decide)

/-- **The two prongs are a tree of mined blocks.** -/
theorem orchard : Orchard (prongTree n k main spur) := by
  refine ⟨fun b hb => ?_, fun b hb => ?_, h.keys⟩
  · rcases h.mem_tree_iff.mp (mem_cons_of_mem _ hb) with ⟨i, hi, rfl⟩ | ⟨j, -, hj, rfl⟩
    · exact (h.main_spec hi).1
    · exact (h.spur_spec hj).1
  · rcases mem_append.mp hb with hb | hb
    · obtain ⟨i, hi, rfl⟩ := mem_map.mp hb
      rw [mem_range'_1] at hi
      obtain ⟨i, rfl⟩ : ∃ i', i = i' + 1 := ⟨i - 1, by omega⟩
      exact ⟨main i, h.main_mem (by omega), 0, h.main_mined i (by omega)⟩
    · obtain ⟨j, hj, rfl⟩ := mem_map.mp hb
      rw [mem_range'_1] at hj
      obtain ⟨j, rfl⟩ : ∃ j', j = j' + 1 := ⟨j - 1, by omega⟩
      exact ⟨spur j, h.spur_mem (by omega), 1, h.spur_mined j (by omega)⟩

theorem lineage_main (hi : i ≤ n) : Lineage (blockLinks suite) genesis (downFrom main i) := by
  induction i with
  | zero =>
    rw [downFrom, h.root]
    exact .root (by decide)
  | succ i ih =>
    have hl := ih (by omega)
    obtain ⟨rest, hrest⟩ := exists_downFrom main i
    rw [downFrom, hrest]
    rw [hrest] at hl
    exact .cons (h.main_mined i hi).prevHash
      ((h.main_mined i hi).height (h.main_spec (by omega)).1) hl

theorem lineage_spur (hj : j ≤ k) :
    ∃ rest, spurChain main spur f j = spur j :: rest ∧
      Lineage (blockLinks suite) genesis (spur j :: rest) := by
  induction j with
  | zero =>
    obtain ⟨rest, hrest⟩ := exists_downFrom main f
    have hl := h.lineage_main h.leaves
    rw [hrest] at hl
    refine ⟨rest, ?_, ?_⟩
    · rw [spurChain, hrest, h.base]
    · rw [h.base]
      exact hl
  | succ j ih =>
    obtain ⟨rest, hrest, hl⟩ := ih (by omega)
    refine ⟨spur j :: rest, by rw [spurChain, hrest], ?_⟩
    exact .cons (h.spur_mined j hj).prevHash
      ((h.spur_mined j hj).height (h.spur_spec (by omega)).1) hl

theorem branch_main (hi : i ≤ n) :
    branch suite genesis (prongTree n k main spur) (main i) = downFrom main i := by
  obtain ⟨rest, hrest⟩ := exists_downFrom main i
  have hl := h.lineage_main hi
  rw [hrest] at hl ⊢
  refine h.orchard.blockTree.branch_eq hl fun x hx => ?_
  obtain ⟨i', hi', rfl⟩ := mem_downFrom.mp (hrest ▸ mem_cons_of_mem _ hx)
  exact h.main_mem (by omega)

theorem branch_spur (hj : j ≤ k) :
    branch suite genesis (prongTree n k main spur) (spur j) = spurChain main spur f j := by
  have hleaves := h.leaves
  obtain ⟨rest, hrest, hl⟩ := h.lineage_spur hj
  rw [hrest]
  refine h.orchard.blockTree.branch_eq hl fun x hx => ?_
  rcases mem_spurChain.mp (hrest ▸ mem_cons_of_mem _ hx) with hx | ⟨i, -, hi, rfl⟩
  · obtain ⟨i, hi, rfl⟩ := mem_downFrom.mp hx
    exact h.main_mem (by omega)
  · exact h.spur_mem (by omega)

theorem eq_main_of_height_le (hx : x ∈ genesis :: prongTree n k main spur) (hlow : x.height ≤ f) :
    ∃ i ≤ f, x = main i := by
  rcases h.mem_tree_iff.mp hx with ⟨i, hi, rfl⟩ | ⟨j, hpos, hj, rfl⟩
  · rw [(h.main_spec hi).2] at hlow
    exact ⟨i, hlow, rfl⟩
  · rw [(h.spur_spec hj).2] at hlow
    omega

theorem branch_of_height_lt (hn : n ≤ f + 10) (hk : k ≤ 10)
    (hx : x ∈ genesis :: prongTree n k main spur) (hhigh : f < x.height) :
    ∃ l, branch suite genesis (prongTree n k main spur) x = l ++ downFrom main f ∧
      l.length ≤ 10 := by
  rcases h.mem_tree_iff.mp hx with ⟨i, hi, rfl⟩ | ⟨j, hpos, hj, rfl⟩
  · rw [(h.main_spec hi).2] at hhigh
    rw [h.branch_main hi]
    obtain ⟨l, hl, hlength⟩ := exists_downFrom_append (g := main) hhigh.le
    exact ⟨l, hl, by omega⟩
  · rw [h.branch_spur hj]
    obtain ⟨l, hl, hlength, -⟩ := exists_spurChain_append
    exact ⟨l, hl, by omega⟩

/-- **Fork choice settles the two prongs**, if both are short and the spur leaves the main chain at
or above the last multiple of 144. -/
theorem shallow (hn : n ≤ f + 10) (hk : k ≤ 10) (hfloor : n - n % checkpointInterval ≤ f) :
    ShallowTree suite genesis (prongTree n k main spur) := by
  have hleaves := h.leaves
  have ho := h.orchard
  have ht := ho.blockTree
  refine ⟨ht, ho.fitsOn, ho.work_lt, fun x hx y hy hnot => ?_, fun x hx y hy hnot hpref a ha => ?_⟩
  · have hxmem := mem_cons_of_mem genesis hx
    have hymem := mem_cons_of_mem genesis hy
    rcases lt_or_ge f x.height with hxhigh | hxlow
    · obtain ⟨l, hl, hlength⟩ := h.branch_of_height_lt hn hk hxmem hxhigh
      rcases lt_or_ge f y.height with hyhigh | hylow
      · obtain ⟨m, hm, -⟩ := h.branch_of_height_lt hn hk hymem hyhigh
        have hsub := BlockTree.apart_sublist hl fun a ha => by
          rw [hm]
          exact mem_append_right _ ha
        exact hsub.length_le.trans hlength
      · obtain ⟨j, hj, rfl⟩ := h.eq_main_of_height_le hymem hylow
        rw [hl] at hnot
        exact absurd (mem_append_right _ (mem_downFrom.mpr ⟨j, hj, rfl⟩)) hnot
    · obtain ⟨i, hi, rfl⟩ := h.eq_main_of_height_le hxmem hxlow
      have hon : main i ∈ branch suite genesis (prongTree n k main spur) y := by
        rcases lt_or_ge f y.height with hyhigh | hylow
        · obtain ⟨m, hm, -⟩ := h.branch_of_height_lt hn hk hymem hyhigh
          rw [hm]
          exact mem_append_right _ (mem_downFrom.mpr ⟨i, hi, rfl⟩)
        · obtain ⟨j, hj, rfl⟩ := h.eq_main_of_height_le hymem hylow
          rw [h.branch_main (by omega), mem_downFrom] at hnot ⊢
          rcases le_total i j with hle | hle
          · exact ⟨i, hle, rfl⟩
          · exact absurd ⟨j, hle, rfl⟩ hnot
      rw [ht.apart_eq_nil hymem hon]
      exact zero_le
  · -- what is apart is above `f`, and what is beaten is not above the main chain
    have hxmem := mem_cons_of_mem genesis hx
    have hymem := mem_cons_of_mem genesis hy
    have hle : x.height ≤ y.height := by
      by_contra hlt
      exact hpref.asymm (ho.prefers_of_height hymem hxmem (by omega))
    obtain ⟨habranch, hanot⟩ := mem_filter.mp ha
    rw [decide_eq_true_iff] at hanot
    have hyhigh : f < y.height := by
      by_contra hlow
      obtain ⟨j, hj, rfl⟩ := h.eq_main_of_height_le hymem (by omega)
      obtain ⟨i, hi, rfl⟩ := h.eq_main_of_height_le hxmem (by omega)
      rw [(h.main_spec (by omega)).2, (h.main_spec (by omega)).2] at hle
      rw [h.branch_main (by omega), mem_downFrom] at hnot
      exact hnot ⟨i, hle, rfl⟩
    have hahigh : f < a.height := by
      by_contra hlow
      obtain ⟨i, hi, rfl⟩ := h.eq_main_of_height_le (ht.mem_of_mem_branch hxmem habranch) (by omega)
      obtain ⟨m, hm, -⟩ := h.branch_of_height_lt hn hk hymem hyhigh
      rw [hm] at hanot
      exact hanot (mem_append_right _ (mem_downFrom.mpr ⟨i, hi, rfl⟩))
    have hxlow : x.height ≤ n := by
      by_contra hhigh
      rcases h.mem_tree_iff.mp hxmem with ⟨i, hi, rfl⟩ | ⟨j, hpos, hj, rfl⟩
      · rw [(h.main_spec hi).2] at hhigh
        omega
      · rcases h.mem_tree_iff.mp hymem with ⟨i, hi, rfl⟩ | ⟨j', hpos', hj', rfl⟩
        · rw [(h.main_spec hi).2] at hle
          omega
        · rw [(h.spur_spec hj).2, (h.spur_spec hj').2] at hle
          rw [h.branch_spur hj'] at hnot
          exact hnot (mem_spurChain.mpr (.inr ⟨j, hpos, by omega, rfl⟩))
    simp only [checkpointInterval] at hfloor ⊢
    omega

/-! ## 6. A node that is given the two prongs -/

/-- **A node that holds a part of the two prongs**, and the chain it has made of it. -/
def Holds (n k : Nat) (main spur : Nat → Block (W × W)) (known chain : List (Block (W × W)))
    (st : Blockchain (W × W)) : Prop :=
  (∃ d, Fed suite genesis (prongTree n k main spur) cfg known st d chain) ∧ st.network = .regtest

omit h in
theorem Holds.tip_hash {known : List (Block (W × W))} {st : Blockchain (W × W)}
    (hst : Holds n k main spur known (downFrom main i) st) : st.tip.hash = (main i).hash suite := by
  obtain ⟨⟨d, hfed⟩, -⟩ := hst
  obtain ⟨t, rest, hchain, hhash, -⟩ := hfed.canonical.tip
  obtain ⟨rest', hrest'⟩ := exists_downFrom main i
  obtain ⟨rfl, -⟩ := List.cons.inj (hchain.symm.trans hrest')
  exact hhash

theorem next_main (hi : i < n) :
    Next suite (prongTree n k main spur) (downFrom main i) (main (i + 1)) (main i) where
  mem := by
    refine mem_append_left _ (mem_map.mpr ⟨i + 1, ?_, rfl⟩)
    rw [mem_range'_1]
    omega
  new hmem := by
    obtain ⟨j, hj, heq⟩ := mem_downFrom.mp hmem
    have hheights := congrArg Block.height heq
    rw [(h.main_spec hi).2, (h.main_spec (by omega)).2] at hheights
    omega
  parent := mem_downFrom.mpr ⟨i, le_rfl, rfl⟩
  prev := (h.main_mined i hi).prevHash

theorem next_spur (hj : j < k) :
    Next suite (prongTree n k main spur) (spurChain main spur n j) (spur (j + 1)) (spur j) where
  mem := by
    refine mem_append_right _ (mem_map.mpr ⟨j + 1, ?_, rfl⟩)
    rw [mem_range'_1]
    omega
  new hmem := by
    rcases mem_spurChain.mp hmem with hmem | ⟨i, -, hi, heq⟩
    · obtain ⟨i, hi, heq⟩ := mem_downFrom.mp hmem
      exact h.main_ne_spur hi (Nat.succ_pos j) hj heq.symm
    · have hheights := congrArg Block.height heq
      rw [(h.spur_spec hj).2, (h.spur_spec (by omega)).2] at hheights
      omega
  parent := by
    refine mem_spurChain.mpr ?_
    rcases Nat.eq_zero_or_pos j with rfl | hpos
    · exact .inl (mem_downFrom.mpr ⟨f, h.leaves, h.base⟩)
    · exact .inr ⟨j, hpos, le_rfl, rfl⟩
  prev := (h.spur_mined j hj).prevHash

theorem prefers_main (hj : j < k) (hle : f + (j + 1) ≤ n) :
    Prefers suite genesis (prongTree n k main spur) (main n) (spur (j + 1)) := by
  have hheight := (h.spur_spec (j := j + 1) hj).2
  have hnheight := (h.main_spec (i := n) le_rfl).2
  rcases lt_or_ge (f + (j + 1)) n with hlt | hge
  · exact h.orchard.prefers_of_height (h.spur_mem hj) (h.main_mem le_rfl) (by omega)
  · obtain ⟨n, rfl⟩ : ∃ n', n = n' + 1 := ⟨n - 1, by omega⟩
    exact h.orchard.prefers_of_nonce (h.next_spur hj).mem (h.next_main (Nat.lt_succ_self n)).mem
      (by omega) (h.nonce_spur (Nat.succ_pos j) hj) (h.nonce_main (Nat.succ_pos n) le_rfl)

variable {st : Blockchain (W × W)} (ht : ShallowTree suite genesis (prongTree n k main spur))

include ht

/-- **A block of the main chain extends the tip.** -/
theorem extend (hi : i < n) (hst : Holds n k main spur (downFrom main i) (downFrom main i) st) :
    st.isMainChain (main (i + 1)) = true ∧ ∃ st',
      st.addBlock suite cfg always (main (i + 1)) = some (st', .ok .accepted) ∧
      Holds n k main spur (downFrom main (i + 1)) (downFrom main (i + 1)) st' ∧
      ((i + 1) % checkpointInterval ≠ 0 → st'.rollbackFloor = st.rollbackFloor) := by
  have htip := hst.tip_hash
  obtain ⟨⟨d, hfed⟩, hnet⟩ := hst
  have hn := h.next_main hi
  have hmain : st.isMainChain (main (i + 1)) = true := decide_eq_true (.inl (by rw [hn.prev, htip]))
  obtain ⟨st', d', hadd, hstep, hfed'⟩ :=
    hfed.extended ht hn (hfed.admitted ht hn (h.orchard.valid_next hfed hnet hn)) hmain
  have hnet' := ((ActionStep.add (d := d) hstep).blocks hfed.canonical).1
  refine ⟨hmain, st', hadd, ⟨⟨d', hfed'⟩, hnet'.trans hnet⟩, fun hmod => ?_⟩
  rw [hstep.rollbackFloor_eq hfed.canonical, (h.main_spec hi).2, if_neg fun hq => hmod hq.2]

section

variable (hj : j < k) (hf : f < n)
  (hst : Holds n k main spur (spurChain main spur n j) (downFrom main n) st)
include hj hf hst

/-- **A block of the spur is beside the tip**, and fork choice is between it and the tip. -/
theorem beside :
    Admitted suite cfg (always 0) st (spur (j + 1)) ∧ st.isMainChain (spur (j + 1)) = false ∧
      ((st.storeBlock suite (spur (j + 1))).takeFork suite (spur (j + 1)) = true ↔
        Prefers suite genesis (prongTree n k main spur) (spur (j + 1)) (main n)) := by
  have htip := hst.tip_hash
  obtain ⟨⟨d, hfed⟩, hnet⟩ := hst
  have hn := h.next_spur hj
  have hadm := hfed.admitted ht hn (h.orchard.valid_next hfed hnet hn)
  refine ⟨hadm, decide_eq_false ?_, ?_⟩
  · rintro (hprev | hzero)
    · rw [hn.prev, htip] at hprev
      have heq := h.orchard.blockTree.eq_of_hash (h.spur_mem hj.le) (h.main_mem le_rfl) hprev
      rcases Nat.eq_zero_or_pos j with rfl | hpos
      · have hheights := congrArg Block.height heq
        rw [(h.spur_spec hj.le).2, (h.main_spec le_rfl).2] at hheights
        omega
      · exact h.main_ne_spur le_rfl hpos hj.le heq.symm
    · rw [(h.spur_spec hj).2] at hzero
      omega
  · rw [hfed.takeFork_iff ht hn hadm, Prefers, htip, h.branch_main le_rfl]

/-- **A spur that is no longer than the main chain is kept.** -/
theorem keep (hle : f + (j + 1) ≤ n) :
    (st.storeBlock suite (spur (j + 1))).takeFork suite (spur (j + 1)) = false ∧ ∃ st',
      st.addBlock suite cfg always (spur (j + 1)) = some (st', .ok .acceptedFork) ∧
      Holds n k main spur (spurChain main spur n (j + 1)) (downFrom main n) st' ∧
      st'.rollbackFloor = st.rollbackFloor := by
  obtain ⟨hadm, hmain, htake⟩ := h.beside ht hj hf hst
  obtain ⟨⟨d, hfed⟩, hnet⟩ := hst
  have hloses : (st.storeBlock suite (spur (j + 1))).takeFork suite (spur (j + 1)) = false := by
    rw [← Bool.not_eq_true, htake]
    exact (h.prefers_main hj hle).asymm
  obtain ⟨st', d', hadd, hstep, hfed'⟩ := hfed.kept ht (h.next_spur hj) hadm hmain hloses
  have hnet' := ((ActionStep.add (d := d) hstep).blocks hfed.canonical).1
  refine ⟨hloses, st', hadd, ⟨⟨d', hfed'⟩, hnet'.trans hnet⟩, ?_⟩
  rw [hstep.rollbackFloor_eq hfed.canonical, if_neg (by rintro ⟨⟨⟩, -⟩)]

/-- **A longer spur wins.** -/
theorem overtake (hlt : n < f + (j + 1)) :
    ∃ st' orphaned,
      st.addBlock suite cfg always (spur (j + 1)) = some (st', .ok (.acceptedReorg orphaned)) ∧
      Holds n k main spur (spurChain main spur n (j + 1)) (spurChain main spur f (j + 1)) st' ∧
      st'.rollbackFloor = st.rollbackFloor := by
  obtain ⟨hadm, hmain, htake⟩ := h.beside ht hj hf hst
  obtain ⟨⟨d, hfed⟩, hnet⟩ := hst
  have hn := h.next_spur hj
  have hwins := htake.mpr <| h.orchard.prefers_of_height (h.main_mem le_rfl) (h.spur_mem hj) <| by
    rw [(h.main_spec le_rfl).2, (h.spur_spec hj).2]
    exact hlt
  obtain ⟨st', d', orphaned, hadd, hstep, hfed'⟩ := hfed.committed ht hn hadm hmain hwins
    (h.orchard.validTurns hn.mem hnet _)
  have hnet' := ((ActionStep.add (d := d) hstep).blocks hfed.canonical).1
  rw [h.branch_spur hj] at hfed'
  refine ⟨st', orphaned, hadd, ⟨⟨d', hfed'⟩, hnet'.trans hnet⟩, ?_⟩
  rw [hstep.rollbackFloor_eq hfed.canonical, if_neg (by rintro ⟨⟨⟩, -⟩)]

end

end Prongs

end

end Coincync.SteadyChain
