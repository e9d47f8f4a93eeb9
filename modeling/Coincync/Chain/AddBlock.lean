/-
# Adding a block: admission and extension

The first half of `add_block` of `src/chain.rs`: what is checked before anything is written
(`refusal`), storing the block, and the plain extension of the tip (`extendTip`) with everything it
updates: tip, statistics, UTXO set, block cache and database.
-/
import Coincync.Chain.State

namespace Coincync

open Lib

/-! ## 1. Results -/

/-- Why a reorganisation that was begun is given up. -/
inductive ReorgError
  | forkBlock (errors : List BlockError)
  | forkTarget (height : Nat) (expected got : Hash)
  | tipBlock (errors : List BlockError)
  | tipTarget (height : Nat) (expected got : Hash)
  deriving DecidableEq

/-- The reasons of `BlockStatus::Invalid`. -/
inductive InvalidReason
  | height (expected got : Nat)
  | hardcodedCheckpoint (height : Nat)
  | validation (errors : List BlockError)
  | medianTimePast (timestamp mtp : UInt64)
  | target (expected got : Hash)
  | finality (forkPoint finalityFloor : Nat)
  | reorg (e : ReorgError)
  deriving DecidableEq

inductive BlockStatus (G : Type)
  | accepted
  | acceptedFork
  | acceptedReorg (orphanedTxs : List (Transaction G))
  | alreadyKnown
  | orphan
  | invalid (reason : InvalidReason)
  deriving DecidableEq

/-- `TESTNET_CHECKPOINT_LIST`: empty. -/
def testnetCheckpointList : List (Nat × Hash) := []

/-- `verify_checkpoint` of `testnet.rs` and `mainnet.rs`: the genesis hash at height 0, and the
listed hashes. -/
def verifyCheckpoint (network : NetworkType) (height : Nat) (hash : Hash) : Option Bool :=
  let list := (0, expectedGenesisHash network) ::
    match network with
    | .mainnet => []
    | .testnet | .regtest => testnetCheckpointList
  (list.find? fun cp => cp.1 = height).map fun cp => decide (cp.2 = hash)

theorem verifyCheckpoint_eq_none {network : NetworkType} {height : Nat} {hash : Hash}
    (h : height ≠ 0) : verifyCheckpoint network height hash = none := by
  cases network <;> simp [verifyCheckpoint, testnetCheckpointList, Ne.symm h]

variable {F G : Type} [Field F] [AddCommGroup G] [Module F G] (S : Suite F G)

/-! ## 2. Windows -/

section

omit [AddCommGroup G]

/-- A block as `calculate_difficulty` sees it. -/
def Block.difficultyBlock (b : Block G) (height : Nat) : DifficultyBlock :=
  ⟨height, b.header.timestamp.toNat, b.header.target⟩

/-- The heights of the window below a height. -/
def windowHeights (height : Nat) : List Nat :=
  List.range' (height - difficultyLongWindow) (height - (height - difficultyLongWindow))

/-- The exact-target check against a window of at least two blocks: the expected target, where
the block has another. -/
def wrongTarget (window : List DifficultyBlock) (b : Block G) : Option Hash :=
  if window.length < 2 then none
  else
    let expected := calculateDifficulty window b.height
    if b.header.target = expected then none else some expected

namespace Blockchain

variable (st : Blockchain G)

def getDifficultyBlocks (upToHeight : Nat) : List DifficultyBlock :=
  (windowHeights upToHeight).filterMap fun h =>
    (st.cachedBlockAt h).map fun b => b.difficultyBlock h

/-- The window of a block above `forkPoint`: the main chain up to there, then `fork`. -/
def mixedWindow (forkPoint : Nat) (fork : List DifficultyBlock) (height : Nat) :
    List DifficultyBlock :=
  (windowHeights height).filterMap fun h =>
    if h ≤ forkPoint then (st.cachedBlockAt h).map fun b => b.difficultyBlock h
    else fork[h - forkPoint - 1]?

/-- The loop that traces a side chain back to the main chain, in memory only: the fork point, and
the side-chain blocks newest first. -/
def traceFork : Nat → Hash → Nat × List DifficultyBlock
  | 0, _ => (0, [])
  | fuel + 1, cursor =>
    match st.blocks.lookup cursor with
    | none => (0, [])
    | some blk =>
      if st.heightToHash.lookup blk.height = some cursor then (blk.height, [])
      else if blk.height = 0 then (0, [blk.difficultyBlock blk.height])
      else
        let r := traceFork fuel blk.header.prevHash
        (r.1, blk.difficultyBlock blk.height :: r.2)

/-- The window of an arriving side-chain block. -/
def forkWindow (b : Block G) : List DifficultyBlock :=
  let r := st.traceFork (st.blocks.keys.card + 1) b.header.prevHash
  st.mixedWindow r.1 r.2.reverse b.height

/-- The timestamps of at most `n` ancestors. -/
def lineageTimestamps : Nat → Hash → List UInt64
  | 0, _ => []
  | n + 1, cursor =>
    match st.getBlock cursor with
    | some ancestor => ancestor.header.timestamp :: lineageTimestamps n ancestor.header.prevHash
    | none => []

def medianTimePastOfLineage (prevHash : Hash) : Option UInt64 :=
  let timestamps := st.lineageTimestamps mtpWindow prevHash
  if timestamps.length < mtpWindow then none
  else (timestamps.mergeSort fun a b => decide (a ≤ b))[timestamps.length / 2]?

/-! ## 3. Admission -/

/-- The `checkpoint_height` of the validation on arrival: the persisted `last_checkpoint`, unless
it is 0. -/
def persistedCheckpoint : Option Nat :=
  st.db.bind fun d => d.state.bind fun s =>
    if 0 < s.lastCheckpoint then some s.lastCheckpoint else none

def isMainChain (b : Block G) : Bool := decide (b.header.prevHash = st.tip.hash ∨ b.height = 0)

/-- The height a block with this parent must have. -/
def expectedHeight (b : Block G) (parent : Option (Block G)) : Nat :=
  if b.height = 0 then 0 else (parent.map fun p => p.height + 1).getD 0

/-- The median-time-past rule, from height 11 on. -/
def mtpViolation (b : Block G) : Option UInt64 :=
  if b.height < mtpWindow then none
  else
    (st.medianTimePastOfLineage b.header.prevHash).filter fun mtp => decide (b.header.timestamp ≤ mtp)

/-- The target rule, from height 1 on. -/
def targetViolation (b : Block G) : Option Hash :=
  if b.height = 0 then none
  else
    wrongTarget (if st.isMainChain b then st.getDifficultyBlocks b.height else st.forkWindow b) b

end Blockchain

end

namespace Blockchain

variable [DecidableEq F] [DecidableEq G] (st : Blockchain G)

/-- What `add_block` checks before it writes anything: the status it returns with, or `none` if
the block is stored. -/
def refusal (cfg : NodeConfig) (ctx : CallContext G) (b : Block G) : Option (BlockStatus G) :=
  let hash := b.hash S
  if (st.getBlock hash).isSome then some .alreadyKnown
  else
    let parent := st.getBlock b.header.prevHash
    if parent.isNone ∧ 0 < b.height then some .orphan
    else if b.height ≠ expectedHeight b parent then
      some (.invalid (.height (expectedHeight b parent) b.height))
    else if verifyCheckpoint st.network b.height hash = some false then
      some (.invalid (.hardcodedCheckpoint b.height))
    else
      let validation := validateBlockWithCheckpointForNetwork S cfg ctx b parent st.utxos
        st.persistedCheckpoint st.network
      if validation.valid = false then some (.invalid (.validation validation.errors))
      else
        match st.mtpViolation b, st.targetViolation b with
        | some mtp, _ => some (.invalid (.medianTimePast b.header.timestamp mtp))
        | none, some expected => some (.invalid (.target expected b.header.target))
        | none, none => none

end Blockchain

/-! ## 4. Extending the tip -/

namespace Blockchain

section

omit [AddCommGroup G]

def maxBlockCache : Nat := 500

/-- The loop of `evict_block_cache` over the mapped heights in ascending order: `n` blocks are
still to go; genesis and the last 200 heights stay. -/
def evictLoop (tipHeight : Nat) :
    Nat → List (Nat × Hash) → Map Hash (Block G) × Map Nat Hash → Map Hash (Block G) × Map Nat Hash
  | 0, _, m => m
  | _ + 1, [], m => m
  | n + 1, e :: t, m =>
    if e.1 = 0 ∨ tipHeight ≤ e.1 + 200 then evictLoop tipHeight (n + 1) t m
    else evictLoop tipHeight n t (m.1.erase e.2, m.2.erase e.1)

variable (st : Blockchain G)

/-- The height map as a list, by height. -/
def heightEntries : List (Nat × Hash) :=
  (st.heightToHash.keys.sort (· ≤ ·)).filterMap fun h =>
    (st.heightToHash.lookup h).map fun hash => (h, hash)

def evictBlockCache : Blockchain G :=
  if st.blocks.keys.card ≤ maxBlockCache then st
  else
    let m := evictLoop st.tip.height (st.blocks.keys.card - maxBlockCache) st.heightEntries
      (st.blocks, st.heightToHash)
    { st with blocks := m.1, heightToHash := m.2 }

end

variable (st : Blockchain G)

/-- Store the block's data, in memory and on disk. -/
def storeBlock (b : Block G) : Blockchain G :=
  { st with blocks := st.blocks.insert (b.hash S) b }.modifyDb fun d =>
    { d with blocks := d.blocks.insert (b.hash S) b }

/-- The tip that a block becomes. -/
def tipOf (b : Block G) : ChainTip :=
  ⟨b.hash S, b.height, calculateDifficultyFromTarget b.header.target, b.header.timestamp⟩

/-- Persist an extension: the output index, the height index, and the chain state with its
checkpoint height moved forward at every multiple of `CHECKPOINT_INTERVAL`. -/
def persistExtension (b : Block G) : Blockchain G :=
  (st.persistOutputIndex S b.transactions b.height).modifyDb fun d =>
    { d with
      heightIndex := d.heightIndex.insert b.height (b.hash S)
      state := some
        { tipHash := b.hash S
          height := b.height
          totalDifficulty := st.stats.totalDifficulty
          totalSupply := st.stats.totalSupply
          totalBurned := asU64 st.stats.totalBurned
          lastCheckpoint :=
            if 0 < b.height ∧ b.height % checkpointInterval = 0 then b.height
            else d.lastCheckpoint } }

/-- The statistics after an extension by `b`, with these supply and burn totals. -/
def extendedStats (b : Block G) (supply burned : Nat) : ChainStats :=
  let difficulty := calculateDifficultyFromTarget b.header.target
  { height := b.height
    totalBlocks := asU64 (st.stats.totalBlocks + 1)
    totalTransactions := asU64 (st.stats.totalTransactions + asU64 b.transactions.length)
    totalSupply := supply
    totalBurned := burned
    difficulty := difficulty
    tipHash := b.hash S
    totalDifficulty := (st.stats.totalDifficulty + difficulty) % 2 ^ 128 }

/-- The main-chain branch of `add_block`. -/
def extendTip (cfg : NodeConfig) (b : Block G) : Option (Blockchain G) := do
  let supply ← checkedAddU128 st.stats.totalSupply (calculateBlockReward b.height).val
  let burned ← checkedAddU128 st.stats.totalBurned (blockFeeBurn S cfg.build b)
  let extended :=
    { st with
      heightToHash := st.heightToHash.insert b.height (b.hash S)
      tip := tipOf S b
      stats := st.extendedStats S b supply burned
      utxos := (st.utxos.connect S b.height b.transactions).evictOldOutputs b.height 1000 }
  some (extended.evictBlockCache.persistExtension S b)

end Blockchain

end Coincync
