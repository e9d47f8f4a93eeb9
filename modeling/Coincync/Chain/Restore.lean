/-
# A reorganisation that fails

A reorganisation is begun in memory and given up if a side-chain block or the new tip does not
pass.  In an orderly run the rollback gives back what was there: tip, statistics, the height map
at every height, and everything validation reads of the UTXO set (`failed_reorg_restores`).
-/
import Coincync.Chain.Indexed

namespace Coincync

open Lib

variable {F G : Type} [Field F] [AddCommGroup G] [Module F G] {S : Suite F G}
  [DecidableEq F] [DecidableEq G]

namespace Blockchain

variable {cfg : NodeConfig} {st st' : Blockchain G} {d : Database G} {chain : List (Block G)}
  {b : Block G} {ctx : Nat → CallContext G}

/-- **A failed reorganisation restores the state**, in every state that an orderly run reaches and
for every block that meets the condition itself. -/
theorem failed_reorg_restores {network : NetworkType} {st₀ : Blockchain G} {e : ReorgError}
    (h₀ : boot S network = .ok st₀) (h : Reaches (step S cfg) (OrderlyStep S cfg) st₀ st)
    (ha : OrderlyStep S cfg st (.add ctx b))
    (hadd : st.addBlock S cfg ctx b = some (st', .ok (.invalid (.reorg e)))) :
    st'.tip = st.tip ∧ st'.stats = st.stats ∧ st'.heightToHash = st.heightToHash ∧
      st'.utxos.SameView st.utxos := by
  have horderly : ∃ d chain, Orderly S st d chain := by
    refine Reaches.invariant (I := fun st => ∃ d chain, Orderly S st d chain) ?_ ?_ h
    · obtain ⟨d, ho⟩ := orderly_of_boot h₀
      exact ⟨d, _, ho⟩
    · rintro s a s' ⟨d, chain, ho⟩ ha hs
      obtain ⟨d', chain', -, ho'⟩ := ho.step ha hs
      exact ⟨d', chain', ho'⟩
  obtain ⟨d, chain, ho⟩ := horderly
  obtain ⟨hc, hs, hx⟩ := ho
  obtain ⟨chain', hstep⟩ := hc.chainStep hs hadd
  cases hstep with
  | refused _ hq => exact hq.elim
  | kept _ _ hq => exact hq.elim
  | failed e hadm htake hlin hbr hre =>
    obtain ⟨-, hreuse, hheight⟩ := ha hadm
    rw [hlin] at hreuse
    have hc' := hc.store hadm
    have hbr' := hc.branches_store hadm hbr
    have hstored : Indexed S (st.storeBlock S b) chain := hx
    obtain ⟨cut, -, -, hbefore, hafter, -⟩ := hstored.failed hc' hbr' hreuse hre
    have hheights := (failed_heights hc' hs hbr' hre).2 (hheight htake)
    refine ⟨?_, ?_, hheights, hafter.sameView hbefore⟩
    · cases hre
      rfl
    · cases hre
      rfl

end Blockchain

/-! ## On the small chain -/

namespace SmallChain

open Blockchain SmallSuite

def answers (st : Blockchain Z) (ctx : Nat → CallContext Z) (b : Block Z) :
    Option (Blockchain Z × Bool) :=
  (st.addBlock suite cfg ctx b).map fun r =>
    (r.1, match r.2 with
      | .ok (.invalid (.reorg _)) => true
      | _ => false)

def downAtThird : Nat → CallContext Z := fun n =>
  if n = 2 then { ctx with randomxUp := false } else ctx

/-- A block with the transfer of `honestSpend`. -/
def spending (parent : Block Z) (target : Hash) (address : Z) : Block Z :=
  child parent target
    [coinbaseTx (UInt64.ofNat ((calculateBlockReward (parent.height + 1)).val + 2000000)) address,
      honestSpend]

def side1 : Block Z := spending genesis genesis.header.target 71

def side2 : Block Z := emptyChild side1 (nextTarget [genesis, side1]) 72

def side3 : Block Z := spending side2 (nextTarget [genesis, side1, side2]) 73

def heavy2 : Block Z := emptyChild heavy1 (nextTarget [genesis, heavy1]) 20

def rival2 : Block Z := emptyChild heavy1 (nextTarget [genesis, heavy1]) 6

def rival3 : Block Z := emptyChild rival2 (nextTarget [genesis, heavy1, rival2]) 60

def sided : Blockchain Z :=
  (ranOn [.restart, .add steady heavy1, .add steady side1, .add steady side2]).getD booted

/-- The node with both blocks that pay one address. -/
def reused : Blockchain Z :=
  (ranOn [.restart, .add steady heavy1, .add steady heavy2, .add steady rival2]).getD booted

/-- **Two traces of a reorganisation that failed.** -/
theorem failed_reorg_leaves_traces : Reaches (step suite cfg) (fun _ _ => True) booted sided ∧
    sided.tip.height = 1 ∧ sided.heightToHash.lookup 2 = none ∧
    (answers sided steady side3).map (fun r =>
        (r.2, r.1.tip.height, r.1.heightToHash.lookup 2)) =
      some (true, 1, some (side2.hash suite)) ∧
    Reaches (step suite cfg) (fun _ _ => True) booted reused ∧
    (answers reused downAtThird rival3).map (fun r =>
        (r.2, decide (r.1.utxos.stealthIndex = reused.utxos.stealthIndex))) =
      some (true, false) := by
  have hsided : (ranOn [.restart, .add steady heavy1, .add steady side1,
      .add steady side2]).isSome = true ∧
      sided.tip.height = 1 ∧ sided.heightToHash.lookup 2 = none ∧
      (answers sided steady side3).map (fun r =>
          (r.2, r.1.tip.height, r.1.heightToHash.lookup 2)) =
        some (true, 1, some (side2.hash suite)) := by
    decide +kernel
  have hreused : (ranOn [.restart, .add steady heavy1, .add steady heavy2,
      .add steady rival2]).isSome = true ∧
      (answers reused downAtThird rival3).map (fun r =>
          (r.2, decide (r.1.utxos.stealthIndex = reused.utxos.stealthIndex))) =
        some (true, false) := by
    decide +kernel
  exact ⟨reaches_ranOn hsided.1, hsided.2.1, hsided.2.2.1, hsided.2.2.2, reaches_ranOn hreused.1,
    hreused.2⟩

theorem exists_reorg_of_answers {st st' : Blockchain Z} {ctx : Nat → CallContext Z} {b : Block Z}
    (h : answers st ctx b = some (st', true)) :
    ∃ e, st.addBlock suite cfg ctx b = some (st', .ok (.invalid (.reorg e))) := by
  obtain ⟨⟨st₁, res⟩, hadd, heq⟩ := Option.map_eq_some_iff.mp h
  obtain ⟨rfl, hres⟩ := Prod.mk.inj heq
  dsimp only at hres
  split at hres
  · rename_i e
    exact ⟨e, hadd⟩
  · cases hres

/-- An orderly run with a side chain that wins at its second block, and RandomX down when that
block is validated for the second time: the reorganisation fails and leaves nothing behind. -/
theorem light_reorg_restores :
    ∃ st st', run (step suite cfg) (orderlyTest suite cfg) booted
        [.restart, .add steady heavy1, .add steady light1] = some st ∧
      answers st downAtThird light2 = some (st', true) ∧
      st'.heightToHash = st.heightToHash ∧ st'.utxos.SameView st.utxos := by
  have hrun : (run (step suite cfg) (orderlyTest suite cfg) booted
      [.restart, .add steady heavy1, .add steady light1]).any (fun st =>
        decide (OrderlyBlock suite cfg st light2) &&
          (answers st downAtThird light2).any Prod.snd) = true := by
    decide +kernel
  obtain ⟨st, hst, hlast⟩ := (Option.any_eq_true _ _).mp hrun
  obtain ⟨horderly, hanswers⟩ := Bool.and_eq_true_iff.mp hlast
  obtain ⟨⟨st', failed⟩, hst', rfl⟩ := (Option.any_eq_true _ _).mp hanswers
  obtain ⟨e, hadd⟩ := exists_reorg_of_answers hst'
  have hreach := Reaches.run orderlyStep_of_test .start hst
  have hrestores := failed_reorg_restores boot_booted hreach
    (fun _ => of_decide_eq_true horderly) hadd
  exact ⟨st, st', hst, hst', hrestores.2.2⟩

end SmallChain

end Coincync
