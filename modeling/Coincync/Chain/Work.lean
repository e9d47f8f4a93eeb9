/-
# Cumulative work

`stats.total_difficulty` is kept by four pieces of code: an extension adds to it, a
reorganisation replaces it by `calculate_fork_cumulative_work`, a load recomputes it, a rollback
leaves it alone, and `init_genesis` never sets it.  The work of a chain is 1 for genesis and the
difficulty of every other block (`chainWork`); both walks of the code compute it
(`forkWork_eq`, `recompute_eq`).  In memory a booted node has 0 instead of 1, and the difference
stays until the first start or reorganisation; a rollback makes another one.  From the first start
on, and without a rollback that does something, the three values agree with the chain
(`totalDifficulty_eq_chainWork`).
-/
import Coincync.Chain.Runs

namespace Coincync

open Lib List Option

variable {F G : Type} [Field F] [AddCommGroup G] [Module F G]

/-! ## 1. The work of a chain -/

variable {b : Block G}

section

omit [AddCommGroup G]

/-- The difficulty of a block. -/
def Block.work (b : Block G) : Nat := calculateDifficultyFromTarget b.header.target

/-- **The work of a chain**: 1 for genesis and the difficulty of every block above it. -/
def chainWork (chain : List (Block G)) : Nat :=
  1 + ((chain.filter fun b => 0 < b.height).map Block.work).sum

theorem chainWork_cons_of_pos {chain : List (Block G)} (h : 0 < b.height) :
    chainWork (b :: chain) = b.work + chainWork chain := by
  simp only [chainWork, filter_cons, h, decide_true, if_true, map_cons, sum_cons]
  omega

theorem chainWork_genesis (h : b.height = 0) : chainWork [b] = 1 := by
  simp [chainWork, h]

theorem chainWork_reverse (chain : List (Block G)) : chainWork chain.reverse = chainWork chain := by
  simp only [chainWork, filter_reverse, map_reverse, sum_reverse]

end

namespace Blockchain

variable {S : Suite F G} {st st' : Blockchain G} {d : Database G} {chain : List (Block G)}

theorem saturatingAddU128_of_lt {a b : Nat} (h : a + b < 2 ^ 128) :
    saturatingAddU128 a b = a + b := by
  simp only [saturatingAddU128, u128Max]
  omega

/-- **The walk of `calculate_fork_cumulative_work`** down a stored lineage. -/
theorem forkWorkLoop_eq {root : Block G} : ∀ {p : Block G} {rest : List (Block G)} {fuel total : Nat},
    Lineage (blockLinks S) root (p :: rest) → Stored (blockLinks S) st.getBlock (p :: rest) →
    rest.length < fuel → total + chainWork (p :: rest) < 2 ^ 128 →
    st.forkWorkLoop fuel (p.hash S) total = total + chainWork (p :: rest)
  | _, _, fuel + 1, total, .root h0, hs, _, hlt => by
    have h0' : root.height = 0 := h0
    rw [chainWork_genesis h0'] at hlt ⊢
    rw [forkWorkLoop, show st.getBlock (root.hash S) = some root from hs root mem_cons_self]
    simp only [h0', if_true]
    exact saturatingAddU128_of_lt hlt
  | p, _, fuel + 1, total, .cons (p := p') hp hh hl, hs, hfuel, hlt => by
    have hpos : 0 < p.height := by
      have : p.height = p'.height + 1 := hh
      omega
    have hparent : p.header.prevHash = p'.hash S := hp
    rw [chainWork_cons_of_pos hpos] at hlt ⊢
    have hadd : saturatingAddU128 total p.work = total + p.work :=
      saturatingAddU128_of_lt (by omega)
    rw [forkWorkLoop, show st.getBlock (p.hash S) = some p from hs p mem_cons_self]
    simp only [pos_iff_ne_zero.mp hpos, if_false, hparent]
    rw [show calculateDifficultyFromTarget p.header.target = p.work from rfl, hadd,
      forkWorkLoop_eq hl (hs.sublist fun x hx => mem_cons_of_mem _ hx) (by simpa using hfuel)
        (by omega)]
    omega

/-- **`calculate_fork_cumulative_work` computes the work of the lineage.** -/
theorem forkWork_eq {root p : Block G} {rest : List (Block G)}
    (hl : Lineage (blockLinks S) root (b :: p :: rest))
    (hs : Stored (blockLinks S) st.getBlock (p :: rest))
    (hlt : chainWork (b :: p :: rest) < 2 ^ 128) :
    st.calculateForkCumulativeWork b = chainWork (b :: p :: rest) := by
  have hlen : (p :: rest).length = b.height := hl.length_eq
  have hpos : 0 < b.height := by
    rw [← hlen]
    exact Nat.succ_pos _
  have hbound : b.height < 2 ^ 64 := b.header.height.toNat_lt
  have hfuel : rest.length < saturatingAddU64 b.height 100 := by
    rw [length_cons] at hlen
    simp only [saturatingAddU64]
    omega
  have hprev : b.header.prevHash = p.hash S := by
    cases hl with
    | cons hp _ _ => exact hp
  rw [chainWork_cons_of_pos hpos] at hlt ⊢
  rw [calculateForkCumulativeWork, hprev]
  exact forkWorkLoop_eq hl.tail hs hfuel hlt

omit [AddCommGroup G] in
theorem sumDifficulty_eq : ∀ {l : List (Block G)} {total : Nat},
    (∀ b ∈ l, st.getBlockByHeight b.height = some b) → total + (l.map Block.work).sum < 2 ^ 128 →
    st.sumDifficulty (l.map Block.height) total = some (total + (l.map Block.work).sum)
  | [], total, _, _ => rfl
  | b :: l, total, hget, hlt => by
    rw [map_cons, sum_cons] at hlt
    rw [map_cons, sumDifficulty, hget b mem_cons_self]
    simp only [bind_eq_bind, bind_some]
    rw [show calculateDifficultyFromTarget b.header.target = b.work from rfl,
      saturatingAddU128_of_lt (by omega),
      sumDifficulty_eq (fun x hx => hget x (.tail _ hx)) (by omega), map_cons,
      sum_cons, add_assoc]

/-- **`recompute_total_difficulty` computes the work of the chain on disk.** -/
theorem Canonical.recompute_eq (hc : Canonical S st d chain) {loaded : Blockchain G}
    (hload : loaded.getBlockByHeight = d.getByHeight) (hlt : chainWork chain < 2 ^ 128) :
    loaded.recomputeTotalDifficulty st.tip.height = some (chainWork chain) := by
  have hheights : chain.reverse.map Block.height = List.range chain.length :=
    hc.lineage.map_height_reverse
  rw [← chainWork_reverse] at hlt ⊢
  have hget : ∀ b ∈ chain.reverse, loaded.getBlockByHeight b.height = some b := fun b hb => by
    rw [hload]
    exact hc.getByHeight_eq (mem_reverse.mp hb)
  rw [hc.length_chain, range_eq_range', range'_succ] at hheights
  cases hrev : chain.reverse with
  | nil =>
    rw [hrev] at hheights
    cases hheights
  | cons g l =>
    rw [hrev] at hheights hget hlt
    obtain ⟨h0, hheights⟩ := List.cons.inj hheights
    have hpos : l.filter (fun b => 0 < b.height) = l := by
      refine filter_eq_self.mpr fun b hb => decide_eq_true ?_
      have hmem : b.height ∈ List.range' (0 + 1) st.tip.height := hheights ▸ List.mem_map_of_mem hb
      have := left_le_of_mem_range' hmem
      omega
    have hwork : chainWork (g :: l) = 1 + (l.map Block.work).sum := by
      rw [chainWork, filter_cons_of_neg (by simp [h0]), hpos]
    rw [hwork] at hlt ⊢
    rw [recomputeTotalDifficulty, ← hheights]
    exact sumDifficulty_eq (fun b hb => hget b (.tail _ hb)) hlt

/-! ## 2. The accumulator along a run -/

omit [AddCommGroup G] in
/-- **Memory and disk have the work of the chain.** -/
structure WorkAgrees (st : Blockchain G) (chain : List (Block G)) : Prop where
  bound : chainWork chain < 2 ^ 128
  memory : st.stats.totalDifficulty = chainWork chain
  disk : st.savedState.map ChainStateData.totalDifficulty = some (chainWork chain)

/-- The condition on a step: no stale height is mapped when a block is added, the work of its
lineage fits a `u128`, and a rollback does nothing. -/
def WorkStep (S : Suite F G) (st : Blockchain G) : Action G → Prop
  | .add _ b => st.NoStale ∧ chainWork (st.lineageOf S b) < 2 ^ 128
  | .rollback targetHeight => st.RollbackIdle targetHeight
  | .restart => True

instance (S : Suite F G) (st : Blockchain G) : ∀ a : Action G, Decidable (WorkStep S st a)
  | .add _ _ => inferInstanceAs (Decidable (_ ∧ _))
  | .rollback _ => inferInstanceAs (Decidable (RollbackIdle _ _))
  | .restart => inferInstanceAs (Decidable True)

theorem WorkStep.allowed {a : Action G} (h : WorkStep S st a) : st.Allowed a := by
  cases a with
  | add ctx b => exact h.1
  | rollback target => exact .inl h
  | restart => trivial

theorem Canonical.workAgrees_of_restarts (hc : Canonical S st d chain) {s : ChainStateData}
    (h : Restarts S st d chain s st') (hlt : chainWork chain < 2 ^ 128)
    (hdisk : st.savedState.map ChainStateData.totalDifficulty = some (chainWork chain)) :
    WorkAgrees st' chain := by
  refine ⟨hlt, ?_, ?_⟩
  · obtain ⟨loaded, hload, hwork⟩ := h.totalDifficulty
    rw [hwork, h.record_height, hc.recompute_eq hload hlt, getD_some]
  · rw [savedState, h.db, ← hc.db]
    exact hdisk

theorem WorkAgrees.extended {cfg : NodeConfig} (hw : WorkAgrees st chain)
    (hdb : ∃ d, st.db = some d) (hpos : 0 < b.height) (hlt : chainWork (b :: chain) < 2 ^ 128)
    (h : Extends S cfg st b st') : WorkAgrees st' (b :: chain) := by
  obtain ⟨d, hd⟩ := hdb
  have hmemory : st'.stats.totalDifficulty = chainWork (b :: chain) := by
    rw [chainWork_cons_of_pos hpos] at hlt ⊢
    rw [h.stats]
    change (st.stats.totalDifficulty + b.work) % 2 ^ 128 = _
    rw [hw.memory, add_comm]
    exact Nat.mod_eq_of_lt hlt
  refine ⟨hlt, hmemory, ?_⟩
  rw [savedState, h.db, hd]
  simp only [map_some, bind_some, hmemory]

variable [DecidableEq F] [DecidableEq G] {cfg : NodeConfig}

theorem WorkAgrees.committed {q : Block G} {above below fork : List (Block G)}
    {orphaned : List (Transaction G)} (hc : Canonical S st d chain)
    (hbr : Branches S st chain b above q below fork)
    (hlt : chainWork (b :: (fork.reverse ++ q :: below)) < 2 ^ 128)
    (h : ReorgStep S cfg st b above fork q.height st' (.acceptedReorg orphaned)) :
    WorkAgrees st' (b :: (fork.reverse ++ q :: below)) := by
  cases h with
  | committed _ _ _ hconnected hcommit =>
    have hcom := commits_of_eq_some hcommit
    obtain ⟨p, rest, hside⟩ : ∃ p rest, fork.reverse ++ q :: below = p :: rest :=
      exists_cons_of_ne_nil (by simp)
    have hl := hbr.lineage
    have hst := hbr.stored
    rw [hside] at hl hst hlt ⊢
    have hwork := forkWork_eq hl hst hlt
    rw [hwork] at hcom
    refine ⟨hlt, hcom.totalDifficulty, ?_⟩
    rw [savedState, hcom.db, hconnected]
    change ((st.db.map _).bind _).map _ = _
    rw [hc.db]
    rfl

/-- **One step keeps the accumulator right.** -/
theorem WorkAgrees.step {a : Action G} {chain' : List (Block G)} (hw : WorkAgrees st chain)
    (hc : Canonical S st d chain) (ha : WorkStep S st a)
    (h : ActionStep S cfg st d chain a st' chain') : WorkAgrees st' chain' := by
  cases h with
  | idle => exact hw
  | rolledBack hidle => exact absurd ha hidle
  | restarted s hs => exact hc.workAgrees_of_restarts hs hw.bound hw.disk
  | @add ctx b _ _ _ hstep =>
    obtain ⟨-, hlt⟩ := ha
    have hstored : WorkAgrees (st.storeBlock S b) chain :=
      ⟨hw.bound, hw.memory, by rw [savedState_storeBlock]; exact hw.disk⟩
    cases hstep with
    | refused => exact hw
    | kept => exact hstored
    | extended hadm hlin hext =>
      rw [hlin] at hlt
      exact hstored.extended ⟨_, (hc.store hadm).db⟩ (hc.admitted_height hadm) hlt
        (extends_of_eq_some hext)
    | failed e hadm _ _ hbr hre =>
      cases hre
      exact ⟨hstored.bound, hstored.memory, hstored.disk⟩
    | committed orphaned hadm hlin hbr hre =>
      rw [hlin] at hlt
      exact WorkAgrees.committed (hc.store hadm) (hc.branches_store hadm hbr) hlt hre

theorem exists_workAgrees {network : NetworkType} {st₀ st₁ : Blockchain G}
    (h₀ : boot S network = .ok st₀) (h₁ : st₀.step S cfg .restart = some st₁)
    (h : Reaches (step S cfg) (WorkStep S) st₁ st) :
    ∃ d chain, Canonical S st d chain ∧ WorkAgrees st chain := by
  refine Reaches.invariant (I := fun st => ∃ d chain, Canonical S st d chain ∧ WorkAgrees st chain)
    ?_ ?_ h
  · obtain ⟨⟨d, hc⟩, -⟩ := canonical_of_boot h₀
    obtain ⟨s, hs⟩ := hc.restarts (hc.restart_of_start h₁)
    have hwork : chainWork [createGenesisBlockFor S network] = 1 :=
      chainWork_genesis (createGenesisBlockFor_height_eq S network)
    refine ⟨d, _, (hc.restarted hs).1, hc.workAgrees_of_restarts hs ?_ ?_⟩
    · rw [hwork]
      decide
    · rw [hwork, (boot_eq_ok h₀).2]
      rfl
  · rintro s a s' ⟨d, chain, hc, hw⟩ ha hs
    obtain ⟨chain', hstep⟩ := hc.actionStep ha.allowed hs
    obtain ⟨d', hc'⟩ := hstep.canonical hc ha.allowed
    exact ⟨d', chain', hc', hw.step hc ha hstep⟩

/-- **The cumulative work is a function of the chain**, from the first start after `init_genesis`
on, in every run without a rollback that does something and without stale heights. -/
theorem totalDifficulty_eq_chainWork {network : NetworkType} {st₀ st₁ st : Blockchain G}
    (h₀ : boot S network = .ok st₀) (h₁ : st₀.step S cfg .restart = some st₁)
    (h : Reaches (step S cfg) (WorkStep S) st₁ st) :
    st.stats.totalDifficulty = chainWork (st.canonicalChain S) ∧
    st.savedState.map ChainStateData.totalDifficulty = some (chainWork (st.canonicalChain S)) ∧
    ∀ t, st.getBlock st.tip.hash = some t → 0 < t.height →
      st.calculateForkCumulativeWork t = chainWork (st.canonicalChain S) := by
  obtain ⟨d, chain, hc, hw⟩ := exists_workAgrees h₀ h₁ h
  rw [hc.canonicalChain_eq]
  refine ⟨hw.memory, hw.disk, fun t ht hpos => ?_⟩
  obtain ⟨t', rest, hchain, hhash, -⟩ := hc.tip
  subst hchain
  rw [hc.getBlock_eq, hhash] at ht
  obtain rfl : t' = t := Option.some.inj ((hc.stored t' (.head _)).symm.trans ht)
  have hstored := hc.stored
  cases rest with
  | nil =>
    have : t'.height = 0 := hc.lineage.length_eq.symm
    omega
  | cons p rest =>
    refine forkWork_eq hc.lineage ?_ hw.bound
    rw [hc.getBlock_eq]
    exact hstored.sublist fun x hx => .tail _ hx

end Blockchain

/-! ## 3. On the small chain -/

namespace SmallChain

open Blockchain

/-- **Three values for one chain.**  A booted node has 0 in memory and 1 on disk; and after the
first block a rollback to genesis keeps the work of both blocks, in memory and on disk. -/
theorem totalDifficulty_differs : boot suite .regtest = .ok booted ∧
    booted.stats.totalDifficulty = 0 ∧
    booted.savedState.map ChainStateData.totalDifficulty = some 1 ∧
    chainWork (booted.canonicalChain suite) = 1 ∧
    (grown.step suite cfg (.rollback 0)).map (fun st =>
        (st.stats.totalDifficulty, st.savedState.map ChainStateData.totalDifficulty,
          chainWork (st.canonicalChain suite))) =
      some (4097, some 4097, 1) :=
  ⟨boot_booted, by decide +kernel, by decide +kernel, by decide +kernel, by decide +kernel⟩

/-- A block, and a side chain of two that wins: the accumulator has the work of the new chain. -/
theorem grown_totalDifficulty : ∃ st, Reaches (step suite cfg) (WorkStep suite) restarted st ∧
    (st.tip.height = 2 ∧ st.getBlockHash 1 = some (light1.hash suite)) ∧
      st.stats.totalDifficulty = chainWork (st.canonicalChain suite) := by
  have hrun : (Lib.run (step suite cfg) (fun st a => decide (WorkStep suite st a)) restarted
      [.add steady heavy1, .add steady light1, .add steady light2]).any (fun st =>
        decide (st.tip.height = 2 ∧ st.getBlockHash 1 = some (light1.hash suite))) = true := by
    decide +kernel
  obtain ⟨st, hreach, hend⟩ := Reaches.exists_of_run (fun _ _ => of_decide_eq_true) hrun
  exact ⟨st, hreach, of_decide_eq_true hend,
    (totalDifficulty_eq_chainWork boot_booted booted_restart hreach).1⟩

end SmallChain

end Coincync
