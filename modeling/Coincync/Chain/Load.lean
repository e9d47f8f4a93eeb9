/-
# Rolling back and loading

`rollback_to_height`, `recompute_total_difficulty`, `rebuild_utxo_set` and
`load_from_database_with_outcome` of `src/chain.rs`.  Loading reads the chain state record, heals
the cumulative work from the blocks on disk, and replays every block into a new UTXO set; where a
block does not link to the one before, the chain is truncated there.  The tip check that loading
ends with compares the tip with the record it was just set from, and passes.
-/
import Coincync.Chain.Reorg

namespace Coincync

open Lib

variable {F G : Type} [Field F] [AddCommGroup G] [Module F G] (S : Suite F G)

namespace Blockchain

variable (st : Blockchain G)

/-! ## 1. Rolling back -/

section

omit [AddCommGroup G]

/-- Move the tip to a height below, as far as the block there can be found. -/
def resetTip (targetHeight : Nat) : Blockchain G :=
  match st.getBlockHash targetHeight with
  | some hash =>
    { st with
      tip :=
        match st.getBlock hash with
        | some b =>
          ⟨hash, targetHeight, calculateDifficultyFromTarget b.header.target, b.header.timestamp⟩
        | none => { st.tip with hash := hash, height := targetHeight }
      stats := { st.stats with height := targetHeight, tipHash := hash } }
  | none =>
    match st.genesisHash with
    | some genesis =>
      if targetHeight = 0 then
        { st with
          tip := { st.tip with hash := genesis, height := 0 }
          stats := { st.stats with height := 0, tipHash := genesis } }
      else st
    | none => st

/-- Persist a rollback: the heights above, and the chain state. -/
def persistRollback (targetHeight : Nat) : Blockchain G :=
  st.modifyDb fun d =>
    { d.removeHeightsAbove targetHeight with
      state := some
        { tipHash := st.stats.tipHash
          height := st.stats.height
          totalDifficulty := st.stats.totalDifficulty
          totalSupply := st.stats.totalSupply
          totalBurned := asU64 st.stats.totalBurned
          lastCheckpoint := d.lastCheckpoint } }

/-- The persisted checkpoint below which a rollback is refused. -/
def rollbackFloor : Nat := (st.db.map Database.lastCheckpoint).getD 0

end

/-- `rollback_to_height`: the state and the transactions of the disconnected blocks. -/
def rollbackToHeight (cfg : NodeConfig) (targetHeight : Nat) :
    Option (Blockchain G × Except ChainError (List (Transaction G))) :=
  if st.tip.height ≤ targetHeight then some (st, .ok [])
  else if targetHeight < st.rollbackFloor then
    some (st, .error (.rollbackPastCheckpoint st.rollbackFloor))
  else do
    let (rewound, disconnected) ←
      disconnectAbove S cfg targetHeight (st.tip.height - targetHeight) st
    some ((rewound.resetTip targetHeight).persistRollback targetHeight,
      .ok (disconnected.txLists.flatten.filter fun tx => !tx.isCoinbase))

/-! ## 2. Loading -/

omit [AddCommGroup G] in
/-- `recompute_total_difficulty` over the given heights, from a running total. -/
def sumDifficulty : List Nat → Nat → Option Nat
  | [], total => some total
  | h :: rest, total => do
    let b ← st.getBlockByHeight h
    sumDifficulty rest (saturatingAddU128 total (calculateDifficultyFromTarget b.header.target))

omit [AddCommGroup G] in
/-- `recompute_total_difficulty`: 1 for genesis, and every other block's difficulty. -/
def recomputeTotalDifficulty (height : Nat) : Option Nat :=
  st.sumDifficulty (List.range' 1 height) 1

/-- What the replay loop carries. -/
structure Replay (G : Type) where
  st : Blockchain G
  prevHash : Hash
  blocksApplied : Nat
  txsApplied : Nat

omit [AddCommGroup G] in
/-- The truncation at `height`: tip and statistics move to the last good block, the heights from
there to the old tip leave the index, and the state is saved. -/
def Replay.truncate (r : Replay G) (height tipHeight : Nat) : Replay G :=
  let st :=
    { r.st with
      tip := { r.st.tip with hash := r.prevHash, height := height - 1 }
      stats := { r.st.stats with height := height - 1, tipHash := r.prevHash } }
  { r with
    st := st.modifyDb fun d =>
      { d with
        heightIndex := Map.eraseAll (List.range' height (tipHeight + 1 - height)) d.heightIndex
        state := some
          { tipHash := r.prevHash
            height := height - 1
            totalDifficulty := st.stats.totalDifficulty
            totalSupply := st.stats.totalSupply
            totalBurned := asU64 st.stats.totalBurned
            lastCheckpoint := d.lastCheckpoint } } }

/-- Replay one block: its batch, the counters, and its place in the cache if it is recent. -/
def Replay.apply (r : Replay G) (height cacheStart : Nat) (b : Block G) : Replay G :=
  let hash := b.hash S
  let st := { r.st with utxos := r.st.utxos.connect S height b.transactions }
  { st :=
      if cacheStart ≤ height then
        { st with
          heightToHash := st.heightToHash.insert height hash
          blocks := st.blocks.insert hash b }
      else st
    prevHash := hash
    blocksApplied := r.blocksApplied + 1
    txsApplied := r.txsApplied + b.transactions.length }

/-- The replay loop over the given heights of the database. -/
def replayLoop (d : Database G) (tipHeight cacheStart : Nat) : List Nat → Replay G → Replay G
  | [], r => r
  | h :: rest, r =>
    match d.getByHeight h with
    | none => replayLoop d tipHeight cacheStart rest r
    | some b =>
      if 0 < h ∧ b.header.prevHash ≠ r.prevHash then r.truncate h tipHeight
      else replayLoop d tipHeight cacheStart rest (r.apply S h cacheStart b)

omit [AddCommGroup G] in
/-- Fill an empty on-disk output index from memory. -/
def migrateOutputIndex (tipHeight : Nat) : Blockchain G :=
  st.modifyOutputIndex fun index =>
    if index.keys = ∅ ∧ 0 < tipHeight then st.utxos.outputIndex else index

def rebuildUtxoSet (d : Database G) (tipHeight : Nat) : Blockchain G :=
  let fresh := { st with utxos := { UtxoSet.new with db := st.utxos.db } }
  let r := replayLoop S d tipHeight (tipHeight - 200) (List.range (tipHeight + 1))
    ⟨fresh, Hash.zero, 0, 0⟩
  let st :=
    { r.st with
      stats :=
        { r.st.stats with
          totalBlocks := asU64 r.blocksApplied
          totalTransactions := asU64 r.txsApplied } }
  let st := st.migrateOutputIndex tipHeight
  { st with utxos := st.utxos.evictOldOutputs tipHeight 1000 }

omit [AddCommGroup G] in
/-- Tip and statistics from the chain state record, with the cumulative work healed. -/
def loadState (state : ChainStateData) (tipBlock : Block G) : Blockchain G :=
  let difficulty := calculateDifficultyFromTarget tipBlock.header.target
  let loaded :=
    { st with
      tip := ⟨state.tipHash, state.height, difficulty, tipBlock.header.timestamp⟩
      stats :=
        { st.stats with
          height := state.height
          totalSupply := state.totalSupply
          totalBurned := state.totalBurned
          tipHash := state.tipHash
          totalDifficulty := state.totalDifficulty
          difficulty := difficulty } }
  { loaded with
    stats :=
      { loaded.stats with
        totalDifficulty :=
          (loaded.recomputeTotalDifficulty state.height).getD state.totalDifficulty } }

/-- `load_from_database_with_outcome`; `none` is the outcome `Fresh`. -/
def loadFromDatabase : Except ChainError (Option (Blockchain G)) :=
  match st.db with
  | none => .ok none
  | some d =>
    match d.state with
    | none => if d.hasAnyChainData = true then .error .noChainState else .ok none
    | some state =>
      match d.heightIndex.lookup 0 with
      | none => .error .noGenesisEntry
      | some actual =>
        let expected := expectedGenesisHash st.network
        if actual ≠ expected then .error (.wrongGenesis actual expected)
        else
          match d.blocks.lookup state.tipHash with
          | none => .error (.missingTip state.tipHash state.height)
          | some tipBlock =>
            if tipBlock.height ≠ state.height then
              .error (.tipHeight state.height tipBlock.height)
            else .ok (some ((st.loadState state tipBlock).rebuildUtxoSet S d state.height))

/-- **A process start** on the database of `st`: everything in memory is lost. -/
def restart : Except ChainError (Option (Blockchain G)) :=
  (withDatabase st.network st.db st.utxos.db).loadFromDatabase S

end Blockchain

end Coincync
