/-
# Targets along a chain

The target of every block is held to the window of its lineage, and the adjustment keeps the floor
and the clamp from block to block (`Coincync.Consensus.Asert`).  Two blocks escape: the one at
height 1, whose window has only the genesis block in it, so that nothing but the loose ratio of
`validate_difficulty_target` is left (`SmallChain.easy_first_block`); and a side-chain block whose
ancestors are not in memory.  Where the first block keeps the target of the genesis block, as
`next_target` says, and every later block finds its window in memory, every block the node ever
stores respects both bounds (`stored_targets_clamped`).
-/
import Coincync.Chain.Window
import Coincync.Consensus.Asert

namespace Coincync

open Lib

variable {F G : Type} [Field F] [AddCommGroup G] [Module F G] {S : Suite F G}

/-! ## 1. The bounds on a block -/

section

omit [AddCommGroup G]

/-- **The target of a block on top of `p`** respects the floor, and the clamp of its parent's;
`anc` are the ancestors, newest first. -/
structure Clamped (anc : List (Block G)) (p b : Block G) : Prop where
  pos : 1 ≤ targetToU128 b.header.target
  floor : targetToU128 b.header.target ≤ u128Max / minDifficulty
  lower : targetToU128 p.header.target / 2 ≤ targetToU128 b.header.target
  upper : targetToU128 b.header.target ≤
    upwardClamp (lineageWindow anc) b.height * targetToU128 p.header.target

theorem clamped_of_window {p b : Block G} {rest : List (Block G)}
    (hlen : 2 ≤ (lineageWindow (p :: rest)).length)
    (htarget : b.header.target = calculateDifficulty (lineageWindow (p :: rest)) b.height)
    (hpos : 1 ≤ targetToU128 p.header.target)
    (hfloor : targetToU128 p.header.target ≤ u128Max / minDifficulty) :
    Clamped (p :: rest) p b := by
  have hp : targetToU128Pos (p.difficultyBlock p.height).target = targetToU128 p.header.target :=
    max_eq_left hpos
  obtain ⟨h1, h2, h3, h4⟩ := calculateDifficulty_bounds b.height hlen
    (by simp [lineageWindow, difficultyLongWindow]) (hp.symm ▸ hfloor)
  rw [hp] at h3 h4
  rw [← htarget] at h1 h2 h3 h4
  exact ⟨h1, h2, h3, h4⟩

end

theorem genesis_target_bounds (S : Suite F G) (network : NetworkType) :
    1 ≤ targetToU128 (createGenesisBlockFor S network).header.target ∧
      targetToU128 (createGenesisBlockFor S network).header.target ≤ u128Max / minDifficulty := by
  have hmain : 1 ≤ targetToU128 (Hash.fromDifficulty 10000) ∧
      targetToU128 (Hash.fromDifficulty 10000) ≤ u128Max / minDifficulty := by decide +kernel
  have htest : 1 ≤ targetToU128 (Hash.fromDifficulty 4800) ∧
      targetToU128 (Hash.fromDifficulty 4800) ≤ u128Max / minDifficulty := by decide +kernel
  cases network with
  | mainnet => exact hmain
  | testnet => exact htest
  | regtest => exact htest

namespace Blockchain

variable {st st' : Blockchain G} {d : Database G} {chain : List (Block G)}

/-- Every stored block above genesis is clamped. -/
def TargetsClamped (S : Suite F G) (network : NetworkType) (d : Database G) : Prop :=
  ∀ k b, d.blocks.lookup k = some b → 0 < b.height →
    ∃ p rest, Lineage (blockLinks S) (createGenesisBlockFor S network) (b :: p :: rest) ∧
      Stored (blockLinks S) (fun k => d.blocks.lookup k) (p :: rest) ∧ Clamped (p :: rest) p b

variable [DecidableEq F] [DecidableEq G] {cfg : NodeConfig}

/-! ## 2. Along a run -/

/-- **The condition on a step**: it is one that the chain survives, an admitted first block has the
target of the genesis block, and the window of an admitted later block is in memory. -/
def TargetStep (S : Suite F G) (cfg : NodeConfig) (st : Blockchain G) (a : Action G) : Prop :=
  st.Allowed a ∧
    match a with
    | .add ctx b => Admitted S cfg (ctx 0) st b →
        (b.height = 1 →
          b.header.target = (createGenesisBlockFor S st.network).header.target) ∧
        (2 ≤ b.height → Remembers S st difficultyLongWindow (st.lineageOf S b).tail)
    | _ => True

/-- A test for the condition that validates nothing. -/
def targetTest (S : Suite F G) (st : Blockchain G) (a : Action G) : Bool :=
  decide (st.Allowed a) &&
    match a with
    | .add _ b =>
      decide ((b.height = 1 →
          b.header.target = (createGenesisBlockFor S st.network).header.target) ∧
        (2 ≤ b.height → Remembers S st difficultyLongWindow (st.lineageOf S b).tail))
    | _ => true

omit [DecidableEq F] in
theorem targetStep_of_test [DecidableEq F] (st : Blockchain G) (a : Action G)
    (h : targetTest S st a = true) : TargetStep S cfg st a := by
  obtain ⟨hallowed, hcond⟩ := Bool.and_eq_true_iff.mp h
  refine ⟨of_decide_eq_true hallowed, ?_⟩
  cases a with
  | add ctx b => exact fun _ => of_decide_eq_true hcond
  | rollback => trivial
  | restart => trivial

section

variable (ht : TargetsClamped S st.network d) (hc : Canonical S st d chain)
include ht hc

/-- **An admitted block is clamped.** -/
theorem TargetsClamped.admitted {ctx : Nat → CallContext G} {b : Block G}
    (ha : TargetStep S cfg st (.add ctx b)) (hadm : Admitted S cfg (ctx 0) st b) :
    ∃ p rest, Lineage (blockLinks S) (createGenesisBlockFor S st.network) (b :: p :: rest) ∧
      Stored (blockLinks S) (fun k => d.blocks.lookup k) (p :: rest) ∧ Clamped (p :: rest) p b := by
  obtain ⟨hs, hcond⟩ := ha
  obtain ⟨hfirst, hlater⟩ := hcond hadm
  have h0 := hc.admitted_height hadm
  obtain ⟨p, rest, -, hl, hst, hlin⟩ := hc.arrival hadm
  refine ⟨p, rest, hl, hst, ?_⟩
  have hp : d.blocks.lookup (p.hash S) = some p := hst p (.head _)
  have hheight : b.height = p.height + 1 := by
    cases hl with
    | cons _ hh _ => exact hh
  have hgenesis := genesis_target_bounds S st.network
  by_cases h1 : b.height = 1
  · -- the first block repeats the target of genesis
    have hroot : p = createGenesisBlockFor S st.network :=
      hc.closed.eq_root _ p hp (by change p.height = 0; omega)
    have htarget : targetToU128 b.header.target = targetToU128 p.header.target := by
      rw [hfirst h1, hroot]
    rw [← hroot] at hgenesis
    have hup : 2 ≤ upwardClamp (lineageWindow (p :: rest)) b.height := by
      unfold upwardClamp
      split_ifs <;> decide
    refine ⟨htarget ▸ hgenesis.1, htarget ▸ hgenesis.2, ?_, ?_⟩
    · rw [htarget]
      exact Nat.div_le_self _ _
    · rw [htarget]
      exact Nat.le_mul_of_pos_left _ (by omega)
  · -- a later block has the target of its window
    have h2 : 2 ≤ b.height := by omega
    obtain hpar | ⟨p', hp', hheight'⟩ := hadm.parent
    · omega
    have hwindow := hc.arrivalWindow_eq hs hp' hheight' le_rfl (hlater h2)
    rw [hlin, List.tail_cons] at hwindow
    have hlen : 2 ≤ (lineageWindow (p :: rest)).length := by
      rw [length_lineageWindow, show (p :: rest).length = b.height from hl.length_eq]
      exact le_min (by decide) h2
    have htarget : b.header.target = calculateDifficulty (lineageWindow (p :: rest)) b.height := by
      have hnone := hadm.target
      have heq : st.targetViolation b = wrongTarget (st.arrivalWindow b) b :=
        if_neg (by omega)
      rw [heq, hwindow, wrongTarget, if_neg (by omega)] at hnone
      by_contra hne
      simp only [hne, if_false] at hnone
      cases hnone
    by_cases hp0 : p.height = 0
    · have hroot : p = createGenesisBlockFor S st.network := hc.closed.eq_root _ p hp hp0
      rw [← hroot] at hgenesis
      exact clamped_of_window hlen htarget hgenesis.1 hgenesis.2
    · obtain ⟨_, _, -, -, hclamped⟩ := ht _ p hp (pos_of_ne_zero hp0)
      exact clamped_of_window hlen htarget hclamped.pos hclamped.floor

/-- **One step stores no block out of bounds.** -/
theorem TargetsClamped.step {a : Action G} {chain' : List (Block G)} {d' : Database G}
    (ha : TargetStep S cfg st a) (h : ActionStep S cfg st d chain a st' chain')
    (hd' : st'.db = some d') : TargetsClamped S st.network d' := by
  obtain ⟨-, d₁, hd₁, hblocks⟩ := h.blocks hc
  obtain rfl : d₁ = d' := Option.some.inj (hd₁.symm.trans hd')
  rcases hblocks with hsame | ⟨ctx, b, rfl, hadm, hinsert⟩
  · intro k x hx h0
    rw [hsame] at hx ⊢
    exact ht k x hx h0
  · have hold := hc.lookup_insert_of_admitted hadm
    intro k x hx h0
    rw [hinsert] at hx ⊢
    rw [Map.lookup_insert_ite] at hx
    split_ifs at hx with hk
    · cases hx
      obtain ⟨p, rest, hl, hst, hclamped⟩ := ht.admitted hc ha hadm
      exact ⟨p, rest, hl, hst.mono hold, hclamped⟩
    · obtain ⟨p, rest, hl, hst, hclamped⟩ := ht k x hx h0
      exact ⟨p, rest, hl, hst.mono hold, hclamped⟩

end

omit [DecidableEq F] [DecidableEq G] in
theorem targetsClamped_of_boot {network : NetworkType} (h : boot S network = .ok st)
    (hd : st.db = some d) : TargetsClamped S network d := by
  obtain ⟨-, rfl⟩ := boot_eq_ok h
  cases hd
  intro k b hb h0
  simp only [Database.empty, Map.lookup_insert_ite, Finmap.lookup_empty] at hb
  split_ifs at hb
  rw [← Option.some.inj hb, createGenesisBlockFor_height_eq] at h0
  exact absurd h0 (lt_irrefl 0)

/-- **Every block stored respects the floor and the clamp of its parent**, in every run in which
the first blocks have the target of the genesis block and the later ones find their window in
memory. -/
theorem stored_targets_clamped {network : NetworkType} {st₀ : Blockchain G}
    (h₀ : boot S network = .ok st₀) (h : Reaches (step S cfg) (TargetStep S cfg) st₀ st)
    {k : Hash} {b : Block G} (hb : st.getBlock k = some b) (hpos : 0 < b.height) :
    ∃ p rest, st.getBlock b.header.prevHash = some p ∧ st.lineageOf S b = b :: p :: rest ∧
      Clamped (p :: rest) p b := by
  have hinv : ∃ d chain, Canonical S st d chain ∧ st.network = network ∧
      TargetsClamped S network d := by
    refine Reaches.invariant (I := fun st => ∃ d chain, Canonical S st d chain ∧
      st.network = network ∧ TargetsClamped S network d) ?_ ?_ h
    · obtain ⟨⟨d, hc⟩, -⟩ := canonical_of_boot h₀
      exact ⟨d, _, hc, by rw [(boot_eq_ok h₀).2]; rfl, targetsClamped_of_boot h₀ hc.db⟩
    · rintro s a s' ⟨d, chain, hc, rfl, ht⟩ ha hs
      obtain ⟨chain', hstep⟩ := hc.actionStep ha.1 hs
      obtain ⟨d', hc'⟩ := hstep.canonical hc ha.1
      exact ⟨d', chain', hc', (hstep.blocks hc).1, ht.step hc ha hstep hc'.db⟩
  obtain ⟨d, chain, hc, rfl, ht⟩ := hinv
  have hlookup : d.blocks.lookup k = some b := by
    rwa [hc.getBlock_eq] at hb
  obtain ⟨p, rest, hl, hst, hclamped⟩ := ht k b hlookup hpos
  obtain ⟨hprev, hheight⟩ : b.header.prevHash = p.hash S ∧ b.height = p.height + 1 := by
    cases hl with
    | cons hp hh _ => exact ⟨hp, hh⟩
  have hp : st.getBlock b.header.prevHash = some p := by
    rw [hc.getBlock_eq, hprev]
    exact hst p (.head _)
  obtain ⟨rest', -, hl', hst', hlin⟩ := hc.lineageOf_eq hp hheight
  obtain rfl := Lineage.unique hl.tail hl'.tail
    (hst.sublist fun x hx => .tail _ hx)
    (hst'.sublist fun x hx => .tail _ hx)
  exact ⟨p, rest, hp, hlin, hclamped⟩

end Blockchain

/-! ## 3. On the small chain -/

namespace SmallChain

open Blockchain SmallSuite

/-- A first block of difficulty 200. -/
def easy1 : Block Z := emptyChild genesis (u128ToTarget (u128Max / 200)) 5

/-- **The first block may be far too easy.**  Its target is above the floor of the adjustment and
more than eight times the target of the genesis block, and it becomes the tip. -/
theorem easy_first_block : boot suite .regtest = .ok booted ∧
    (booted.step suite cfg (.add steady easy1)).map (fun st => st.tip.hash) =
      some (easy1.hash suite) ∧ u128Max / minDifficulty < targetToU128 easy1.header.target ∧
    8 * targetToU128 genesis.header.target < targetToU128 easy1.header.target :=
  ⟨boot_booted, by decide +kernel, by decide +kernel, by decide +kernel⟩

def steady2 : Block Z := emptyChild block1 (nextTarget [genesis, block1]) 6

/-- The second block of a small chain is clamped. -/
theorem second_block_clamped :
    ∃ st, run (step suite cfg) (targetTest suite) booted
        [.add steady block1, .add steady steady2] = some st ∧
      Clamped [block1, genesis] block1 steady2 := by
  have hrun : (run (step suite cfg) (targetTest suite) booted
      [.add steady block1, .add steady steady2]).any (fun st =>
        decide (st.getBlock st.tip.hash = some steady2) &&
          decide (st.lineageOf suite steady2 = [steady2, block1, genesis])) = true := by
    decide +kernel
  obtain ⟨st, hst, hlast⟩ := (Option.any_eq_true _ _).mp hrun
  simp only [Bool.and_eq_true, decide_eq_true_eq] at hlast
  obtain ⟨hget, hlin⟩ := hlast
  have hreach := Reaches.run (P := TargetStep suite cfg) targetStep_of_test .start hst
  obtain ⟨p, rest, -, hanc, hclamped⟩ :=
    stored_targets_clamped boot_booted hreach hget (by decide +kernel)
  rw [hlin] at hanc
  obtain ⟨rfl, rfl⟩ := List.cons.inj (List.cons.inj hanc).2
  exact ⟨st, hst, hclamped⟩

end SmallChain

end Coincync
