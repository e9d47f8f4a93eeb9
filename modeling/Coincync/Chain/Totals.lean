/-
# Supply, burn, blocks and transactions

The four running totals of `ChainStats`.  Extension, reorganisation and load keep each of them a
function of the canonical chain: what a reorganisation disconnects is subtracted again, what it
connects is added, and a failed one restores the statistics it began with.  A rollback subtracts
supply and burn but neither blocks nor transactions, and a load that truncates the chain corrects
neither supply nor burn (`SmallChain.totals_differ`); `total_burned` is cut to 64 bits on its way
through the database.
-/
import Coincync.Chain.Runs

namespace Coincync

open Lib List Option

variable {F G : Type} [Field F] [AddCommGroup G] [Module F G]

/-! ## 1. The totals of a chain -/

section

omit [AddCommGroup G]

/-- The transactions of a chain. -/
def txCount (chain : List (Block G)) : Nat := (chain.map fun b => b.transactions.length).sum

@[simp] theorem txCount_cons (b : Block G) (chain : List (Block G)) :
    txCount (b :: chain) = b.transactions.length + txCount chain := by
  simp [txCount]

@[simp] theorem txCount_append (l l' : List (Block G)) :
    txCount (l ++ l') = txCount l + txCount l' := by
  simp [txCount]

@[simp] theorem txCount_reverse (l : List (Block G)) : txCount l.reverse = txCount l := by
  simp [txCount, sum_reverse]

end

theorem blockFeeBurn_genesis (S : Suite F G) (build : BuildConfig) (network : NetworkType) :
    blockFeeBurn S build (createGenesisBlockFor S network) = 0 := by
  obtain ⟨message, h⟩ := createGenesisBlockFor_transactions S network
  unfold blockFeeBurn
  rw [h]
  exact if_pos (.inr rfl)

theorem asU64_of_lt {n : Nat} (h : n < 2 ^ 64) : asU64 n = n := Nat.mod_eq_of_lt h

namespace Blockchain

variable {S : Suite F G} {cfg : NodeConfig} {st st' : Blockchain G} {d : Database G}
  {chain : List (Block G)}

theorem adjustCount_eq {total disconnected reconnected : Nat} (kept : Nat)
    (htotal : total = disconnected + kept) (hlt : reconnected + kept < 2 ^ 64) :
    adjustCount total disconnected reconnected = reconnected + kept := by
  simp only [adjustCount, saturatingAddU64, htotal, Nat.le_add_right, if_true]
  omega

theorem Canonical.emission_eq (hc : Canonical S st d chain) :
    emission chain =
      ((List.range (st.tip.height + 1)).map fun h => (calculateBlockReward h).val).sum := by
  have hheights : chain.reverse.map Block.height = List.range chain.length :=
    hc.lineage.map_height_reverse
  rw [← emission_reverse, emission, ← hc.length_chain, ← hheights, List.map_map]
  rfl

/-! ## 2. The totals along a run -/

/-- **The totals are those of the chain**, and the record on disk has supply and burn. -/
structure TotalsAgree (S : Suite F G) (build : BuildConfig) (st : Blockchain G)
    (chain : List (Block G)) : Prop where
  supply : st.stats.totalSupply = emission chain
  burned : st.stats.totalBurned = burnOf S build chain
  blocks : st.stats.totalBlocks = chain.length
  transactions : st.stats.totalTransactions = txCount chain
  blocks_lt : chain.length < 2 ^ 64
  transactions_lt : txCount chain < 2 ^ 64
  savedSupply : st.savedState.map ChainStateData.totalSupply = some (emission chain)
  savedBurned : st.savedState.map ChainStateData.totalBurned = some (asU64 (burnOf S build chain))

/-- The condition on a step: no stale height is mapped when a block is added, the counts of its
lineage fit a `u64`, a rollback does nothing, and at a start the burn total fits a `u64`. -/
def TotalsStep (S : Suite F G) (st : Blockchain G) : Action G → Prop
  | .add _ b => st.NoStale ∧ (st.lineageOf S b).length < 2 ^ 64 ∧ txCount (st.lineageOf S b) < 2 ^ 64
  | .rollback targetHeight => st.RollbackIdle targetHeight
  | .restart => st.stats.totalBurned < 2 ^ 64

theorem TotalsStep.allowed {a : Action G} (h : TotalsStep S st a) : st.Allowed a := by
  cases a with
  | add ctx b => exact h.1
  | rollback target => exact .inl h
  | restart => trivial

variable (ht : TotalsAgree S cfg.build st chain) (hc : Canonical S st d chain)

include ht hc in
theorem TotalsAgree.restarted {s : ChainStateData} (hlt : st.stats.totalBurned < 2 ^ 64)
    (h : Restarts S st d chain s st') : TotalsAgree S cfg.build st' chain := by
  have hsaved : st.savedState = some s := by
    rw [savedState, hc.db]
    exact h.record
  have hsaved' : st'.savedState = st.savedState := by
    rw [savedState, savedState, h.db, hc.db]
  have hsupply := ht.savedSupply
  have hburned := ht.savedBurned
  rw [hsaved, map_some, Option.some.injEq] at hsupply hburned
  rw [ht.burned] at hlt
  refine ⟨?_, ?_, ?_, ?_, ht.blocks_lt, ht.transactions_lt, ?_, ?_⟩
  · rw [h.totalSupply, hsupply]
  · rw [h.totalBurned, hburned, asU64_of_lt hlt]
  · rw [h.totalBlocks, asU64_of_lt ht.blocks_lt]
  · rw [h.totalTransactions]
    exact asU64_of_lt ht.transactions_lt
  · rw [hsaved']
    exact ht.savedSupply
  · rw [hsaved']
    exact ht.savedBurned

theorem TotalsAgree.extended {b : Block G} (ht : TotalsAgree S cfg.build st chain)
    (hdb : ∃ d, st.db = some d) (hblocks : (b :: chain).length < 2 ^ 64)
    (htxs : txCount (b :: chain) < 2 ^ 64) (h : Extends S cfg st b st') :
    TotalsAgree S cfg.build st' (b :: chain) := by
  obtain ⟨d, hd⟩ := hdb
  have hsupply : st'.stats.totalSupply = emission (b :: chain) := by
    rw [h.stats, emission_cons, ← ht.supply]
    exact add_comm _ _
  have hburned : st'.stats.totalBurned = burnOf S cfg.build (b :: chain) := by
    rw [h.stats, burnOf_cons, ← ht.burned]
    exact add_comm _ _
  refine ⟨hsupply, hburned, ?_, ?_, hblocks, htxs, ?_, ?_⟩
  · rw [h.stats]
    change asU64 (st.stats.totalBlocks + 1) = _
    rw [ht.blocks]
    exact asU64_of_lt hblocks
  · rw [txCount_cons] at htxs ⊢
    rw [h.stats]
    change asU64 (st.stats.totalTransactions + asU64 b.transactions.length) = _
    rw [asU64_of_lt (by omega : b.transactions.length < 2 ^ 64), ht.transactions, add_comm]
    exact asU64_of_lt htxs
  · rw [savedState, h.db, hd]
    simp only [map_some, bind_some, hsupply]
  · rw [savedState, h.db, hd]
    simp only [map_some, bind_some, hburned]

variable [DecidableEq F] [DecidableEq G]

include ht hc in
theorem TotalsAgree.committed {b q : Block G} {above below fork : List (Block G)}
    {orphaned : List (Transaction G)} (hbr : Branches S st chain b above q below fork)
    (hblocks : (b :: (fork.reverse ++ q :: below)).length < 2 ^ 64)
    (htxs : txCount (b :: (fork.reverse ++ q :: below)) < 2 ^ 64)
    (h : ReorgStep S cfg st b above fork q.height st' (.acceptedReorg orphaned)) :
    TotalsAgree S cfg.build st' (b :: (fork.reverse ++ q :: below)) := by
  cases h with
  | @committed connected _ supply burned hsupply hburned _ hconnected hcommit =>
    have hcom := commits_of_eq_some hcommit
    rw [ht.supply, hbr.chain_eq, emission_append] at hsupply
    rw [ht.burned, hbr.chain_eq, burnOf_append] at hburned
    have hsupply' : st'.stats.totalSupply = emission (b :: (fork.reverse ++ q :: below)) := by
      rw [hcom.totalSupply, hconnected, remapped_totalSupply, emission_cons, emission_append,
        emission_reverse]
      omega
    have hburned' : st'.stats.totalBurned =
        burnOf S cfg.build (b :: (fork.reverse ++ q :: below)) := by
      rw [hcom.totalBurned, hconnected, remapped_totalBurned, burnOf_cons, burnOf_append,
        burnOf_reverse]
      omega
    refine ⟨hsupply', hburned', ?_, ?_, hblocks, htxs, ?_, ?_⟩
    · rw [hcom.totalBlocks, hconnected]
      change adjustCount st.stats.totalBlocks _ _ = _
      rw [adjustCount_eq (q :: below).length]
      · simp only [length_append, length_cons, length_reverse, length_nil]
        omega
      · rw [ht.blocks, hbr.chain_eq, length_append, length_map]
      · simp only [length_append, length_cons, length_reverse,
          length_nil] at hblocks ⊢
        omega
    · rw [hcom.totalTransactions, hconnected]
      change adjustCount st.stats.totalTransactions _ (txCount (fork ++ [b])) = _
      rw [adjustCount_eq (txCount (q :: below))]
      · simp only [txCount_append, txCount_cons, txCount_reverse]
        simp only [txCount, map_nil, sum_nil]
        omega
      · rw [ht.transactions, hbr.chain_eq, txCount_append, List.map_map]
        rfl
      · simp only [txCount_append, txCount_cons, txCount_reverse] at htxs ⊢
        simp only [txCount, map_nil, sum_nil] at htxs ⊢
        omega
    · rw [savedState, hcom.db, hconnected]
      change ((st.db.map _).bind _).map _ = _
      rw [hc.db, ← hsupply']
      rfl
    · rw [savedState, hcom.db, hconnected]
      change ((st.db.map _).bind _).map _ = _
      rw [hc.db, ← hburned']
      rfl

include ht hc in
/-- **One step keeps the totals.** -/
theorem TotalsAgree.step {a : Action G} {chain' : List (Block G)} (ha : TotalsStep S st a)
    (h : ActionStep S cfg st d chain a st' chain') : TotalsAgree S cfg.build st' chain' := by
  cases h with
  | idle => exact ht
  | rolledBack hidle => exact absurd ha hidle
  | restarted s hs => exact ht.restarted hc ha hs
  | @add ctx b _ _ _ hstep =>
    obtain ⟨-, hblocks, htxs⟩ := ha
    have hstored : TotalsAgree S cfg.build (st.storeBlock S b) chain :=
      ⟨ht.supply, ht.burned, ht.blocks, ht.transactions, ht.blocks_lt, ht.transactions_lt,
        by rw [savedState_storeBlock]; exact ht.savedSupply,
        by rw [savedState_storeBlock]; exact ht.savedBurned⟩
    cases hstep with
    | refused => exact ht
    | kept => exact hstored
    | extended hadm hlin hext =>
      rw [hlin] at hblocks htxs
      exact hstored.extended ⟨_, (hc.store hadm).db⟩ hblocks htxs (extends_of_eq_some hext)
    | failed e hadm _ _ hbr hre =>
      cases hre
      exact ⟨hstored.supply, hstored.burned, hstored.blocks, hstored.transactions,
        hstored.blocks_lt, hstored.transactions_lt, hstored.savedSupply, hstored.savedBurned⟩
    | committed orphaned hadm hlin hbr hre =>
      rw [hlin] at hblocks htxs
      exact hstored.committed (hc.store hadm) (hc.branches_store hadm hbr) hblocks htxs hre

omit [DecidableEq F] [DecidableEq G] in
theorem totalsAgree_of_boot {network : NetworkType} (build : BuildConfig)
    (h : boot S network = .ok st) : TotalsAgree S build st [createGenesisBlockFor S network] := by
  obtain ⟨-, rfl⟩ := boot_eq_ok h
  have h0 := createGenesisBlockFor_height_eq S network
  have hburn : burnOf S build [createGenesisBlockFor S network] = 0 := by
    simp [burnOf, blockFeeBurn_genesis]
  have hsupply : emission [createGenesisBlockFor S network] = (calculateBlockReward 0).val := by
    simp [emission, h0]
  have htxs : txCount [createGenesisBlockFor S network] =
      (createGenesisBlockFor S network).transactions.length := by
    simp [txCount]
  refine ⟨hsupply.symm, hburn.symm, rfl, htxs.symm, by norm_num, ?_, ?_, ?_⟩
  · obtain ⟨message, hmessage⟩ := createGenesisBlockFor_transactions S network
    rw [htxs, hmessage]
    norm_num
  · rw [hsupply]
    rfl
  · rw [hburn]
    rfl

/-! ## 3. Starts from a damaged database -/

omit [AddCommGroup G] [DecidableEq F] [DecidableEq G] in
/-- An action of the node, or a start after the database has lost the data of some blocks. -/
inductive LossyAction (G : Type)
  | node (a : Action G)
  | startWithout (lost : List Hash)

omit [AddCommGroup G] [DecidableEq G] in
/-- The data of some blocks is lost; what is in memory goes with the process. -/
def lose (st : Blockchain G) (lost : List Hash) : Blockchain G :=
  { st.modifyDb fun d => { d with blocks := Map.eraseAll lost d.blocks } with
    blocks := Map.eraseAll lost st.blocks }

omit [AddCommGroup G] [DecidableEq G] in
theorem savedState_lose (lost : List Hash) : (st.lose lost).savedState = st.savedState := by
  simp only [savedState, lose, modifyDb]
  cases st.db <;> rfl

def lossyStep (S : Suite F G) (cfg : NodeConfig) (st : Blockchain G) :
    LossyAction G → Option (Blockchain G)
  | .node a => st.step S cfg a
  | .startWithout lost => (st.lose lost).start S

omit [DecidableEq F] [DecidableEq G] in
/-- The condition on a step.  A start truncates nothing: no block of the chain is lost, nor one
that a stored block builds on. -/
def LossyStep (S : Suite F G) (st : Blockchain G) : LossyAction G → Prop
  | .node a => TotalsStep S st a
  | .startWithout lost => st.stats.totalBurned < 2 ^ 64 ∧ ∀ x ∈ lost,
      (∀ b ∈ st.canonicalChain S, b.hash S ≠ x) ∧
      ∀ d k b, st.db = some d → d.blocks.lookup k = some b → b.header.prevHash ≠ x

omit [DecidableEq F] [DecidableEq G] in
include hc in
theorem Canonical.lose {lost : List Hash} (hchain : ∀ b ∈ chain, b.hash S ∉ lost)
    (hparent : ∀ k b, d.blocks.lookup k = some b → b.header.prevHash ∉ lost) :
    Canonical S (st.lose lost) { d with blocks := Map.eraseAll lost d.blocks } chain := by
  have hsub : ∀ {k b}, (Map.eraseAll lost d.blocks).lookup k = some b →
      d.blocks.lookup k = some b := by
    intro k b hb
    rw [Map.lookup_eraseAll] at hb
    split_ifs at hb
    exact hb
  have hkept : ∀ {k : Hash} (m : Map Hash (Block G)), k ∉ lost →
      (Map.eraseAll lost m).lookup k = m.lookup k := by
    intro k m hk
    rw [Map.lookup_eraseAll, if_neg hk]
  refine ⟨?_, hc.genesis, ⟨?_, ?_, ?_, ?_, ?_⟩, ?_, hc.lineage, ?_, hc.tip, hc.index, hc.mapped,
    ?_, hc.state⟩
  · change st.db.map _ = _
    rw [hc.db]
    rfl
  · exact fun k b hb => hc.closed.key k b (hsub hb)
  · obtain ⟨above, q, below, rfl, h0⟩ := hc.exists_split (Nat.zero_le _)
    have hq : q ∈ above ++ q :: below := mem_append_right _ mem_cons_self
    have hroot := (hkept d.blocks (hchain q hq)).trans (hc.stored q hq)
    rwa [hc.closed.eq_root _ q (hc.stored q hq) h0] at hroot
  · exact hc.closed.root_height
  · exact fun k b hb => hc.closed.eq_root k b (hsub hb)
  · intro k b hb h0
    obtain ⟨p, hp, hheight⟩ := hc.closed.parent k b (hsub hb) h0
    exact ⟨p, (hkept _ (hparent k b (hsub hb))).trans hp, hheight⟩
  · intro k b hb
    change (Map.eraseAll lost st.blocks).lookup k = some b at hb
    rw [Map.lookup_eraseAll] at hb
    split_ifs at hb with hk
    exact (hkept _ hk).trans (hc.cache k b hb)
  · exact fun b hb => (hkept _ (hchain b hb)).trans (hc.stored b hb)
  · intro b hb
    obtain ⟨hmap, hblk⟩ := hc.recent b hb
    exact ⟨hmap, (hkept _ (hchain b (mem_filter.mp hb).1)).trans hblk⟩

/-- **Each total is a function of the chain**, in every run without a rollback that does something,
without stale heights and without a start that truncates, as long as the counts and, at a start,
the burn total fit a `u64`. -/
theorem totals_eq {network : NetworkType} {st₀ st : Blockchain G}
    (h₀ : boot S network = .ok st₀) (h : Reaches (lossyStep S cfg) (LossyStep S) st₀ st) :
    st.stats.totalSupply =
        ((List.range (st.tip.height + 1)).map fun h => (calculateBlockReward h).val).sum ∧
      st.stats.totalBurned = burnOf S cfg.build (st.canonicalChain S) ∧
      st.stats.totalBlocks = (st.canonicalChain S).length ∧
      st.stats.totalTransactions = txCount (st.canonicalChain S) := by
  obtain ⟨d, chain, hc, ht⟩ : ∃ d chain, Canonical S st d chain ∧
      TotalsAgree S cfg.build st chain := by
    refine Reaches.invariant (I := fun st => ∃ d chain, Canonical S st d chain ∧
      TotalsAgree S cfg.build st chain) ?_ ?_ h
    · obtain ⟨⟨d, hc⟩, -⟩ := canonical_of_boot h₀
      exact ⟨d, _, hc, totalsAgree_of_boot cfg.build h₀⟩
    · -- a start from a damaged database is a start of the node that has lost the data
      have hnode : ∀ {s s' d chain a}, Canonical S s d chain → TotalsAgree S cfg.build s chain →
          TotalsStep S s a → s.step S cfg a = some s' → ∃ d chain, Canonical S s' d chain ∧
            TotalsAgree S cfg.build s' chain := by
        intro s s' d chain a hc ht ha hs
        obtain ⟨chain', hstep⟩ := hc.actionStep ha.allowed hs
        obtain ⟨d', hc'⟩ := hstep.canonical hc ha.allowed
        exact ⟨d', chain', hc', ht.step hc ha hstep⟩
      rintro s (a | lost) s' ⟨d, chain, hc, ht⟩ ha hs
      · exact hnode hc ht ha hs
      · obtain ⟨hburned, hlost⟩ := ha
        rw [hc.canonicalChain_eq] at hlost
        have hc' := hc.lose (fun b hb hx => (hlost _ hx).1 b hb rfl)
          fun k b hb hx => (hlost _ hx).2 d k b hc.db hb rfl
        exact hnode (a := .restart) hc' ⟨ht.supply, ht.burned, ht.blocks, ht.transactions,
          ht.blocks_lt, ht.transactions_lt, by rw [savedState_lose]; exact ht.savedSupply,
          by rw [savedState_lose]; exact ht.savedBurned⟩ hburned hs
  rw [hc.canonicalChain_eq]
  exact ⟨ht.supply.trans hc.emission_eq, ht.burned, ht.blocks, ht.transactions⟩

end Blockchain

/-! ## 4. On the small chain -/

namespace SmallChain

open Blockchain

def block2 : Block SmallSuite.Z :=
  emptyChild block1 (calculateDifficulty (grown.getDifficultyBlocks 2) 2) 6

/-- The node with two blocks. -/
def grown2 : Blockchain SmallSuite.Z := after grown (.add (fun _ => ctx) block2)

/-- **The totals of a chain that is no longer there.** -/
theorem totals_differ :
    (grown.step suite cfg (.rollback 0)).map (fun st =>
        (st.stats.totalBlocks, st.stats.totalTransactions, (st.canonicalChain suite).length,
          txCount (st.canonicalChain suite))) = some (2, 2, 1, 1) ∧
    (lossyStep suite cfg grown2 (.startWithout [block1.hash suite])).map (fun st =>
        (st.tip.hash == genesis.hash suite,
          st.stats.totalSupply == emission [block2, block1, genesis],
          st.stats.totalSupply == emission (st.canonicalChain suite))) =
      some (true, true, false) :=
  ⟨by decide +kernel, by decide +kernel⟩

/-- A start and a block: supply, blocks and transactions are those of the two blocks. -/
theorem grown_totals :
    grown.tip.height = 1 ∧
      grown.stats.totalSupply =
        ((List.range (grown.tip.height + 1)).map fun h => (calculateBlockReward h).val).sum := by
  have hstart : lossyStep suite cfg booted (.node .restart) = some restarted := booted_restart
  have hadd : lossyStep suite cfg restarted (.node (.add (fun _ => ctx) block1)) = some grown :=
    restarted_add
  refine ⟨by decide +kernel,
    (totals_eq boot_booted (.next _ (.next _ .start ?_ hstart) ?_ hadd)).1⟩
  · show booted.stats.totalBurned < 2 ^ 64
    decide +kernel
  · exact ⟨by decide +kernel, by decide +kernel, by decide +kernel⟩

end SmallChain

end Coincync
