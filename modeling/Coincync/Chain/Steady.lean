/-
# A chain that comes on time

What is final stays, in every run that meets the condition of `Coincync.Chain.Finality`
(`final_of_reaches`).  The runs here are of plain blocks, each on time and with nothing but its
coinbase, for 144 blocks.
-/
import Coincync.Chain.Pace

namespace Coincync

open Lib

namespace Blockchain

variable {F G : Type} [Field F] [AddCommGroup G] [Module F G] [DecidableEq F] [DecidableEq G]
  {S : Suite F G} {cfg : NodeConfig} {st st' : Blockchain G}

/-! ## 1. Whole runs -/

/-- **What is final stays.**  In every run from `init_genesis` whose steps meet the condition, from
every state of it on: the floor does not move down, the hash at every height up to the floor stays
what it is, a rollback below the floor is refused, and an accepted reorganisation leaves the chain
at or above it. -/
theorem final_of_reaches {network : NetworkType} {st₀ : Blockchain G}
    (h₀ : boot S network = .ok st₀) (h : Reaches (step S cfg) (FloorStep S cfg) st₀ st)
    (h' : Reaches (step S cfg) (FloorStep S cfg) st st') :
    st.finalityFloor ≤ st'.finalityFloor ∧
      (∀ k ≤ st.finalityFloor, st'.getBlockHash k = st.getBlockHash k) ∧
      (∀ target < st'.finalityFloor, st'.rollbackToHeight S cfg target =
        some (st', .error (.rollbackPastCheckpoint st'.finalityFloor))) ∧
      ∀ ctx b st'' orphaned, st'.addBlock S cfg ctx b = some (st'', .ok (.acceptedReorg orphaned)) →
        ∃ forkPoint, (st'.storeBlock S b).findForkPoint S b = some forkPoint ∧
          st'.finalityFloor ≤ forkPoint := by
  have hs : Settled S st := by
    obtain ⟨⟨d, hc⟩, -⟩ := canonical_of_boot h₀
    refine Reaches.invariant ⟨d, _, hc, ?_⟩ (fun s a s' hs ha hstep => (hs.step ha hstep).1) h
    rw [(boot_eq_ok h₀).2]
    rfl
  have hrun : Settled S st' ∧ st.finalityFloor ≤ st'.finalityFloor ∧
      ∀ k ≤ st.finalityFloor, st'.getBlockHash k = st.getBlockHash k := by
    refine Reaches.invariant (I := fun s => Settled S s ∧ st.finalityFloor ≤ s.finalityFloor ∧
      ∀ k ≤ st.finalityFloor, s.getBlockHash k = st.getBlockHash k) ⟨hs, le_rfl, fun _ _ => rfl⟩ ?_ h'
    rintro s a s' ⟨hs, hle, hhash⟩ ha hstep
    obtain ⟨hs', hle', hhash'⟩ := hs.step ha hstep
    exact ⟨hs', hle.trans hle', fun k hk => (hhash' k (hk.trans hle)).trans (hhash k hk)⟩
  obtain ⟨⟨d, chain, -, hfloor⟩, hle, hhash⟩ := hrun
  refine ⟨hle, hhash, fun target hlt => ?_, fun ctx b st'' orphaned hadd => ?_⟩
  · have htip : target < st'.tip.height := lt_of_lt_of_le hlt (Nat.sub_le _ _)
    rw [rollbackToHeight, if_neg (by omega), hfloor, if_pos hlt]
  · exact (forkPoint_of_acceptedReorg hadd).2.2.2

end Blockchain

namespace SteadyChain

open Lib Blockchain WideSuite

/-! ## 2. Plain blocks -/

/-- The block on top of `parent`. -/
def mined (parent : Block (W × W)) (nonce : UInt64) : Block (W × W) :=
  minedBlock suite .regtest parent target nonce ⟨FixedBytes.replicate 32 1⟩

/-- **A block of the steady chain**: on time, with the target of genesis. -/
structure Steady (b : Block (W × W)) : Prop where
  timestamp : b.header.timestamp.toNat = 1776818628 + 120 * b.height
  version : b.header.version = 1
  target : targetToU128 b.header.target = startTarget
  low : b.height ≤ 1000

variable {p : Block (W × W)} {nonce : UInt64}

theorem Steady.paced (h : Steady p) : Paced p := ⟨h.timestamp, h.target, h.low.trans (by decide)⟩

/-- **A plain block is a mined block.** -/
theorem Steady.minedOn (h : Steady p) (nonce : UInt64) : MinedOn p (mined p nonce) nonce := by
  have hlow := h.low
  have hheight : p.height = p.header.height.toNat := rfl
  have hone : (1 : UInt64).toNat = 1 := rfl
  have hv2 : v2TxActivationHeight = 50000 := rfl
  refine ⟨1, [], h.version.le, ?_, zero_le, rfl⟩
  rw [blockVersionAtHeight, if_neg]
  rw [UInt64.toNat_add]
  omega

theorem Steady.height_mined (h : Steady p) (nonce : UInt64) :
    (mined p nonce).height = p.height + 1 := (h.minedOn nonce).height h.paced

theorem Steady.mined (h : Steady p) (hlow : p.height < 1000) (nonce : UInt64) :
    Steady (mined p nonce) := by
  have hheight := h.height_mined nonce
  have hpaced := (h.minedOn nonce).paced h.paced (by omega)
  exact ⟨hpaced.timestamp, rfl, hpaced.target, by omega⟩

/-! ## 3. The main chain and the spur -/

/-- The blocks of the main chain, all with nonce 0. -/
def main : Nat → Block (W × W)
  | 0 => genesis
  | n + 1 => mined (main n) 0

theorem main_spec : ∀ {n : Nat}, n ≤ 1000 → Steady (main n) ∧ (main n).height = n
  | 0, _ => ⟨⟨by decide, by decide, rfl, by decide⟩, by decide⟩
  | n + 1, hn => by
    obtain ⟨hs, hh⟩ := @main_spec n (by omega)
    refine ⟨hs.mined (by omega) 0, ?_⟩
    rw [main, hs.height_mined, hh]

def spur1 : Block (W × W) := mined (main 142) 1

def spur2 : Block (W × W) := mined spur1 1

def spurAt : Nat → Block (W × W)
  | 0 => main 142
  | j + 1 => mined (spurAt j) 1

theorem prongs_main : Prongs 144 144 0 main fun _ => main 144 where
  root := rfl
  base := rfl
  leaves := le_rfl
  main_low := by decide
  spur_low := by decide
  main_mined i hi := (main_spec (by omega)).1.minedOn 0
  spur_mined _ hj := absurd hj (Nat.not_lt_zero _)

theorem prongs_spur : Prongs 143 142 2 main spurAt where
  root := rfl
  base := rfl
  leaves := by decide
  main_low := by decide
  spur_low := by decide
  main_mined i hi := (main_spec (by omega)).1.minedOn 0
  spur_mined j hj := by
    obtain ⟨hs, hh⟩ := @main_spec 142 (by decide)
    obtain rfl | rfl : j = 0 ∨ j = 1 := by omega
    · exact hs.minedOn 1
    · exact (hs.mined (by omega) 1).minedOn 1

/-! ## 4. Two runs -/

/-- **The main chain comes in order.**  Up to height 143 there is no checkpoint. -/
theorem exists_main {n f k : Nat} {spur : Nat → Block (W × W)} (h : Prongs n f k main spur)
    (ht : ShallowTree suite genesis (prongTree n k main spur))
    {P : Blockchain (W × W) → Action (W × W) → Prop} (hrestart : P booted .restart)
    (hP : ∀ {st : Blockchain (W × W)} {b : Block (W × W)}, st.NoStale → st.isMainChain b = true →
      P st (.add always b)) {i : Nat} (hi : i ≤ n) :
    ∃ st, Reaches (Blockchain.step suite cfg) P booted st ∧
      Prongs.Holds n k main spur (downFrom main i) (downFrom main i) st ∧
      (i < checkpointInterval → st.rollbackFloor = 0) := by
  induction i with
  | zero =>
    obtain ⟨st, d, hstart, hfed, hnet, hfloor⟩ := exists_started (prongTree n k main spur)
    exact ⟨st, .next .restart .start hrestart hstart, ⟨⟨d, hfed⟩, hnet⟩, fun _ => hfloor⟩
  | succ i ih =>
    obtain ⟨st, hreach, hst, hfloor⟩ := ih (by omega)
    obtain ⟨hmain, st', hadd, hst', hkeep⟩ := h.extend ht hi hst
    obtain ⟨⟨d, hfed⟩, -⟩ := hst
    have hstep : Blockchain.step suite cfg st (.add always (main (i + 1))) = some st' := by
      change (st.addBlock suite cfg always _).map Prod.fst = some st'
      rw [hadd]
      rfl
    refine ⟨st', .next _ hreach (hP hfed.noStale hmain) hstep, hst', fun hlow => ?_⟩
    rw [hkeep (by rw [Nat.mod_eq_of_lt hlow]; exact Nat.succ_ne_zero i), hfloor (by omega)]

/-- **Height 144 by an extension.**  The 144 blocks of the main chain come in order; every step
meets the condition, and a rollback to height 100 is refused. -/
theorem extension_is_final : ∃ st,
    Reaches (Blockchain.step suite cfg) (FloorStep suite cfg) booted st ∧ st.tip.height = 144 ∧
      st.rollbackToHeight suite cfg 100 = some (st, .error (.rollbackPastCheckpoint 144)) := by
  have ht := prongs_main.shallow (by decide) (by decide) (by decide)
  obtain ⟨st, hreach, ⟨⟨d, hfed⟩, -⟩, -⟩ := exists_main prongs_main ht (P := FloorStep suite cfg)
    trivial (fun hs hmain => ⟨hs, fun _ hside _ => absurd (hmain.symm.trans hside) (by decide)⟩)
    (le_refl 144)
  have htip : st.tip.height = 144 := by
    obtain ⟨t, rest, hchain, -, hheight⟩ := hfed.canonical.tip
    obtain ⟨rfl, -⟩ := List.cons.inj hchain
    rw [hheight, (main_spec (by decide)).2]
  have hfloor : st.finalityFloor = 144 := by rw [finalityFloor, htip]; rfl
  have hfinal := (final_of_reaches boot_booted hreach .start).2.2.1 100 (by rw [hfloor]; decide)
  rw [hfloor] at hfinal
  exact ⟨st, hreach, htip, hfinal⟩

/-- **The spur wins**: the tip is at height 144, and there is still no checkpoint. -/
theorem exists_overtaken : ∃ st,
    Reaches (Blockchain.step suite cfg) (fun _ _ => True) booted st ∧
      Prongs.Holds 143 2 main spurAt (spurChain main spurAt 143 2) (spurChain main spurAt 142 2) st ∧
      st.rollbackFloor = 0 := by
  have h := prongs_spur
  have ht := h.shallow (by decide) (by decide) (by decide)
  obtain ⟨st₁, hreach₁, hst₁, hfloor₁⟩ := exists_main h ht (P := fun _ _ => True) trivial
    (fun _ _ => trivial) (le_refl 143)
  obtain ⟨-, st₂, hadd₂, hst₂, hfloor₂⟩ := h.keep ht (j := 0) (by decide) (by decide) hst₁ (by decide)
  obtain ⟨st₃, orphaned, hadd₃, hst₃, hfloor₃⟩ := h.overtake ht (j := 1) (by decide) (by decide)
    hst₂ (by decide)
  have hstep : ∀ {st st' : Blockchain (W × W)} {b : Block (W × W)} {res},
      st.addBlock suite cfg always b = some (st', res) →
      Blockchain.step suite cfg st (.add always b) = some st' := by
    intro st st' b res hadd
    change (st.addBlock suite cfg always b).map Prod.fst = some st'
    rw [hadd]
    rfl
  refine ⟨st₃, .next _ (.next _ hreach₁ trivial (hstep hadd₂)) trivial (hstep hadd₃), hst₃, ?_⟩
  rw [hfloor₃, hfloor₂, hfloor₁ (by decide)]

theorem spur_rollback {known : List (Block (W × W))} {st : Blockchain (W × W)}
    (hst : Prongs.Holds 143 2 main spurAt known (spurChain main spurAt 142 2) st)
    (hfloor : st.rollbackFloor = 0) :
    ∃ st' txs, st.rollbackToHeight suite cfg 100 = some (st', .ok txs) ∧ st'.tip.height = 100 ∧
      ∀ k, 100 < k → st'.getBlockHash k = none := by
  obtain ⟨⟨d, h⟩, -⟩ := hst
  obtain ⟨above, below, hsplit⟩ :=
    List.append_of_mem (mem_downFrom.mpr ⟨100, by decide, rfl⟩ : main 100 ∈ downFrom main 142)
  have h100 : (main 100).height = 100 := (main_spec (by decide)).2
  rw [spurChain, spurChain, spurChain, hsplit] at h
  change Fed _ _ _ _ _ _ _ ((spur2 :: spur1 :: above) ++ main 100 :: below) at h
  have hcached : Cached suite st (spur2 :: spur1 :: above) := by
    obtain ⟨x, hx, hblocks, hindex⟩ := h.memory
    have hlow : x.height ≤ 200 := by
      rcases prongs_spur.mem_tree_iff.mp (h.known_sub x hx) with ⟨i, hi, rfl⟩ | ⟨j, -, hj, rfl⟩
      · rw [(main_spec (by omega)).2]
        omega
      · rw [(prongs_spur.spur_spec hj).2]
        omega
    intro a ha
    have hmem := List.mem_append_left (main 100 :: below) ha
    exact ⟨hindex a hmem (by omega), hblocks a (h.mem_known hmem) (by omega)⟩
  have hsupply : emission (spur2 :: spur1 :: above) ≤ st.stats.totalSupply := by
    rw [h.supply, emission_append]
    exact Nat.le_add_right _ _
  have hburned : burnOf suite cfg.build (spur2 :: spur1 :: above) ≤ st.stats.totalBurned := by
    rw [h.burned, burnOf_append]
    exact Nat.le_add_right _ _
  have hroll := h.canonical.rollback_of_cached h.noStale (List.cons_ne_nil _ _) hcached
    (by rw [hfloor]; exact zero_le) hsupply hburned
  rwa [h100] at hroll

/-- **Height 144 by a reorganisation.**  The main chain has 143 blocks when the spur reaches height
144 and wins. -/
theorem reorganized_floor_undone : ∃ st st' txs,
    Reaches (Blockchain.step suite cfg) (fun _ _ => True) booted st ∧ st.tip.height = 144 ∧
      st.finalityFloor = 144 ∧ st.getBlockHash 144 = some (spur2.hash suite) ∧
      st.rollbackToHeight suite cfg 100 = some (st', .ok txs) ∧ st'.tip.height = 100 ∧
      st'.getBlockHash 144 = none := by
  obtain ⟨st, hreach, hst, hfloor⟩ := exists_overtaken
  obtain ⟨st', txs, hroll, htip', hnone⟩ := spur_rollback hst hfloor
  obtain ⟨⟨d, h⟩, -⟩ := hst
  have hheight : spur2.height = 144 := (prongs_spur.spur_spec (j := 2) le_rfl).2
  obtain ⟨t, rest, hchain, hhash, htip⟩ := h.canonical.tip
  obtain ⟨rfl, -⟩ := List.cons.inj hchain
  have htip : st.tip.height = 144 := htip.trans hheight
  refine ⟨st, st', txs, hreach, htip, ?_, ?_, hroll, htip', hnone _ (by decide)⟩
  · rw [finalityFloor, htip]
    rfl
  · rw [h.canonical.getBlockHash_eq htip.ge]
    exact (h.canonical.index _ _).mpr ⟨spur2, .head _, hheight, rfl⟩

end SteadyChain

end Coincync
