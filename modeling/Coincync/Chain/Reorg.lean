/-
# Fork choice and reorganisation

The second half of `add_block` of `src/chain.rs`: a stored side-chain block is weighed against the
main chain, and if it wins the chain is rewound to the fork point and the side chain connected,
block by block, each validated against the rewound state.  Everything up to the final commit
happens in memory -- except that disconnecting an output also deletes its entry from the on-disk
output index (`UtxoSet.removeOutput`).  A failure takes one of two rollback paths, which differ:
path A (a side-chain block or the new tip fails validation) undoes the side-chain blocks that are
mapped and clears the heights up to the OLD tip; path B (the new tip has the wrong target) undoes
all of them and clears the heights up to the higher of the two tips.
-/
import Coincync.Chain.AddBlock

namespace Coincync

open Lib

variable {F G : Type} [Field F] [AddCommGroup G] [Module F G] (S : Suite F G)

/-! ## 1. Weighing a fork -/

/-- `u128::saturating_add`. -/
def saturatingAddU128 (a b : Nat) : Nat := min (a + b) u128Max

/-- `u64::saturating_add`. -/
def saturatingAddU64 (a b : Nat) : Nat := min (a + b) (2 ^ 64 - 1)

def reorgUnconditionalDepth : Nat := 10

def messExponentDivisor : Nat := 20

def bootstrapMessHeight : Nat := 1000

/-- The refusals of `evaluate_reorg_acceptability`. -/
inductive ReorgRefusal
  | beyondMaximum (depth maxDepth : Nat)
  | lessWork (depth forkWork honestWork : Nat)
  | lessWorkBootstrap (depth forkWork honestWork : Nat)
  | mess (depth exponent forkWork requiredWork : Nat)
  deriving DecidableEq

def evaluateReorgAcceptability (depth forkWork honestWork currentHeight maxDepth : Nat) :
    Except ReorgRefusal Unit :=
  if maxDepth < depth then .error (.beyondMaximum depth maxDepth)
  else if depth ≤ reorgUnconditionalDepth then
    if honestWork ≤ forkWork then .ok () else .error (.lessWork depth forkWork honestWork)
  else if currentHeight < bootstrapMessHeight then
    if honestWork ≤ forkWork then .ok () else .error (.lessWorkBootstrap depth forkWork honestWork)
  else
    let exponent := min ((depth - reorgUnconditionalDepth) / messExponentDivisor) 40
    let requiredWork := safeMulU128 honestWork (2 ^ exponent)
    if requiredWork < forkWork then .ok ()
    else .error (.mess depth exponent forkWork requiredWork)

namespace Blockchain

variable (st : Blockchain G)

section

omit [AddCommGroup G]

/-- The loop of `calculate_fork_cumulative_work`: genesis counts 1, every other block its
difficulty. -/
def forkWorkLoop : Nat → Hash → Nat → Nat
  | 0, _, total => total
  | steps + 1, current, total =>
    match st.getBlock current with
    | none => total
    | some parent =>
      if parent.height = 0 then saturatingAddU128 total 1
      else
        forkWorkLoop steps parent.header.prevHash
          (saturatingAddU128 total (calculateDifficultyFromTarget parent.header.target))

def calculateForkCumulativeWork (b : Block G) : Nat :=
  st.forkWorkLoop (saturatingAddU64 b.height 100) b.header.prevHash
    (calculateDifficultyFromTarget b.header.target)

/-- `finality_floor`: the last checkpoint height at or below the tip. -/
def finalityFloor : Nat := st.tip.height - st.tip.height % checkpointInterval

end

/-- `find_fork_point`: the first block on the way back that the height index has at its height. -/
def findForkPoint (b : Block G) : Option Nat :=
  let onMainChain (hash : Hash) (parent : Block G) : Bool :=
    decide (st.getBlockHash parent.height = some hash) || decide (parent.height = 0)
  match (walkBack (blockLinks S) st.getBlock onMainChain (st.storedKeys.card + 1) []
      b.header.prevHash).2 with
  | .stopped parent => some parent.height
  | .missing _ | .cycle _ => none

/-- `collect_fork_chain`: the blocks above the fork point, oldest first, without the tip. -/
def collectForkChain (forkTip : Block G) (forkPoint : Nat) : List (Block G) :=
  (walkBack (blockLinks S) st.getBlock (fun _ b => decide (b.height ≤ forkPoint))
    (st.storedKeys.card + 1) [] forkTip.header.prevHash).1.reverse

/-- `take_fork`: more work, or equal work and the smaller hash. -/
def takeFork (b : Block G) : Bool :=
  let forkCumulative := st.calculateForkCumulativeWork b
  if st.stats.totalDifficulty < forkCumulative then true
  else if forkCumulative = st.stats.totalDifficulty then (b.hash S).lt st.tip.hash
  else false

/-! ## 2. Disconnecting and connecting blocks -/

/-- Disconnect the main-chain block at a height, as both disconnect loops do it: undo its batch,
subtract its emission and its burn, drop its mapping. -/
def disconnectAt (cfg : NodeConfig) (h : Nat) : Option (Blockchain G) :=
  let unmapped := { st with heightToHash := st.heightToHash.erase h }
  match st.cachedBlockAt h with
  | none => some unmapped
  | some b => do
    let supply ← checkedSubU128 st.stats.totalSupply (calculateBlockReward h).val
    let burned ← checkedSubU128 st.stats.totalBurned (blockFeeBurn S cfg.build b)
    some
      { unmapped with
        utxos := st.utxos.disconnect S b.transactions
        stats := { st.stats with totalSupply := supply, totalBurned := burned } }

/-- What the disconnect loop of a reorganisation collects, highest block first. -/
structure Disconnected (G : Type) where
  txLists : List (List (Transaction G))
  heights : List (Nat × Hash)

/-- One more block in front of what was collected below it. -/
def Disconnected.push (below : Disconnected G) (st : Blockchain G) (h : Nat) : Disconnected G where
  txLists := ((st.cachedBlockAt h).map Block.transactions).toList ++ below.txLists
  heights := ((st.heightToHash.lookup h).map fun hash => (h, hash)).toList ++ below.heights

/-- The disconnect loop: `n` heights above `target`, from the top down. -/
def disconnectAbove (cfg : NodeConfig) (target : Nat) :
    Nat → Blockchain G → Option (Blockchain G × Disconnected G)
  | 0, st => some (st, ⟨[], []⟩)
  | n + 1, st => do
    let st₁ ← st.disconnectAt S cfg (target + n + 1)
    let (st₂, below) ← disconnectAbove cfg target n st₁
    some (st₂, below.push st (target + n + 1))

/-- Connect a block of the side chain: map it, apply its batch, add its emission and burn. -/
def connectBlock (cfg : NodeConfig) (b : Block G) : Option (Blockchain G) := do
  let supply ← checkedAddU128 st.stats.totalSupply (calculateBlockReward b.height).val
  let burned ← checkedAddU128 st.stats.totalBurned (blockFeeBurn S cfg.build b)
  some
    { st with
      heightToHash := st.heightToHash.insert b.height (b.hash S)
      utxos := st.utxos.connect S b.height b.transactions
      stats := { st.stats with totalSupply := supply, totalBurned := burned } }

/-- Undo `connectBlock` up to the mapping, which the rollback paths clear afterwards. -/
def undoBlock (cfg : NodeConfig) (b : Block G) : Option (Blockchain G) := do
  let supply ← checkedSubU128 st.stats.totalSupply (calculateBlockReward b.height).val
  let burned ← checkedSubU128 st.stats.totalBurned (blockFeeBurn S cfg.build b)
  some
    { st with
      utxos := st.utxos.disconnect S b.transactions
      stats := { st.stats with totalSupply := supply, totalBurned := burned } }

variable [DecidableEq F] [DecidableEq G]

/-- The checks of one side-chain block before it is connected: validation against the current
state with its parent in memory, and its target against the window of the side chain so far. -/
def forkBlockError (cfg : NodeConfig) (ctx : CallContext G) (forkPoint : Nat)
    (connected : List (Block G)) (b : Block G) : Option ReorgError :=
  let validation := validateBlockWithCheckpointForNetwork S cfg ctx b
    (st.blocks.lookup b.header.prevHash) st.utxos none st.network
  if validation.valid = false then some (.forkBlock validation.errors)
  else if b.height = 0 then none
  else
    let fork := connected.map fun fb => fb.difficultyBlock fb.height
    (wrongTarget (st.mixedWindow forkPoint fork b.height) b).map fun expected =>
      .forkTarget b.height expected b.header.target

/-- The connect loop.  `ctx n` is the surroundings of the `n`-th validation of the call, 0 being
the one on arrival. -/
def connectFork (cfg : NodeConfig) (ctx : Nat → CallContext G) (forkPoint : Nat) :
    List (Block G) → List (Block G) → Blockchain G → Option (Blockchain G × Option ReorgError)
  | _, [], st => some (st, none)
  | connected, b :: rest, st =>
    match st.forkBlockError S cfg (ctx (connected.length + 1)) forkPoint connected b with
    | some e => some (st, some e)
    | none => do
      let st₁ ← st.connectBlock S cfg b
      connectFork cfg ctx forkPoint (connected ++ [b]) rest st₁

/-- The validation of the new tip against the reorganised state. -/
def tipBlockError (cfg : NodeConfig) (ctx : CallContext G) (b : Block G) : Option ReorgError :=
  let validation := validateBlockWithCheckpointForNetwork S cfg ctx b
    (st.blocks.lookup b.header.prevHash) st.utxos none st.network
  if validation.valid = false then some (.tipBlock validation.errors) else none

omit [AddCommGroup G] [DecidableEq G] in
/-- The target check of the new tip. -/
def tipTargetError (forkPoint : Nat) (forkBlocks : List (Block G)) (b : Block G) :
    Option ReorgError :=
  if b.height = 0 then none
  else
    let fork := forkBlocks.map fun fb => fb.difficultyBlock fb.height
    (wrongTarget (st.mixedWindow forkPoint fork b.height) b).map fun expected =>
      .tipTarget b.height expected b.header.target

/-! ## 3. Rolling back a failed reorganisation -/

section

omit [DecidableEq F] [DecidableEq G]

/-- Path A, over the side chain newest first: undo the blocks that are mapped at their height. -/
def undoMapped (cfg : NodeConfig) : List (Block G) → Blockchain G → Option (Blockchain G)
  | [], st => some st
  | b :: rest, st =>
    if st.heightToHash.lookup b.height = some (b.hash S) then do
      let st₁ ← st.undoBlock S cfg b
      undoMapped cfg rest st₁
    else undoMapped cfg rest st

/-- Path B, over the side chain newest first: undo every block. -/
def undoAll (cfg : NodeConfig) : List (Block G) → Blockchain G → Option (Blockchain G)
  | [], st => some st
  | b :: rest, st => do
    let st₁ ← st.undoBlock S cfg b
    undoAll cfg rest st₁

omit [AddCommGroup G] in
/-- Drop the mappings of the heights above `forkPoint` up to `top`. -/
def clearHeights (forkPoint top : Nat) : Blockchain G :=
  { st with
    heightToHash := Map.eraseAll (List.range' (forkPoint + 1) (top - forkPoint)) st.heightToHash }

/-- Map the disconnected heights again and connect their blocks, lowest first. -/
def reconnect : List (Nat × Hash) → Blockchain G → Blockchain G
  | [], st => st
  | (h, hash) :: rest, st =>
    let mapped := { st with heightToHash := st.heightToHash.insert h hash }
    match st.blocks.lookup hash with
    | some b => reconnect rest { mapped with utxos := st.utxos.connect S h b.transactions }
    | none => reconnect rest mapped

/-- The end of both paths: clear the heights up to `top`, reconnect the main chain, restore tip
and statistics from before. -/
def restoreMainChain (before : Blockchain G) (disconnected : Disconnected G) (forkPoint top : Nat) :
    Blockchain G :=
  let st := reconnect S disconnected.heights.reverse (st.clearHeights forkPoint top)
  { st with tip := before.tip, stats := before.stats }

/-! ## 4. Committing a reorganisation -/

omit [AddCommGroup G] in
/-- `checked_sub` then `saturating_add`, starting over where the counter was too small. -/
def adjustCount (total disconnected reconnected : Nat) : Nat :=
  if disconnected ≤ total then saturatingAddU64 (total - disconnected) reconnected else reconnected

/-- The output index part of `apply_reorg_atomic`: remove, then insert what was absent BEFORE the
removal. -/
def reorgOutputIndex (removals : List StealthKey)
    (additions : List (StealthKey × OutputIndexEntry)) (db : OutputIndexDb) : OutputIndexDb :=
  Map.insertAll (additions.filter fun e => (db.lookup e.1).isNone) (Map.eraseAll removals db)

/-- The database part of `apply_reorg_atomic`: the side chain's heights, the stale heights above
the new tip, the chain state. -/
def reorgDatabase (newChain : List (Block G)) (staleHeights : List Nat)
    (state : ChainStateData) (d : Database G) : Database G :=
  { d with
    heightIndex := Map.eraseAll staleHeights
      (Map.insertAll (newChain.map fun b => (b.height, b.hash S)) d.heightIndex)
    state := some state }

/-- The success branch: connect the new tip, move tip and statistics, commit to disk. -/
def commitReorg (cfg : NodeConfig) (before : Blockchain G) (disconnected : Disconnected G)
    (forkBlocks : List (Block G)) (b : Block G) (forkCumulative : Nat) : Option (Blockchain G) := do
  let connected ← st.connectBlock S cfg b
  let newChain := forkBlocks ++ [b]
  let stats := connected.stats
  let stats :=
    { stats with
      height := b.height
      difficulty := calculateDifficultyFromTarget b.header.target
      tipHash := b.hash S
      totalDifficulty := forkCumulative
      totalBlocks := adjustCount stats.totalBlocks disconnected.txLists.length newChain.length
      totalTransactions := adjustCount stats.totalTransactions
        (disconnected.txLists.map List.length).sum
        (newChain.map fun fb => fb.transactions.length).sum }
  let removals := disconnected.txLists.flatten.flatMap fun tx =>
    tx.outputs.map fun o => o.stealthAddress.bytes
  let additions := newChain.flatMap fun fb =>
    (blockAdds S fb.height fb.transactions).map fun a => (a.stealth, a.indexEntry)
  let staleHeights := List.range' (b.height + 1) (before.tip.height - b.height)
  some
    (({ connected with tip := tipOf S b, stats := stats }.modifyOutputIndex
      (reorgOutputIndex removals additions)).modifyDb fun d =>
        reorgDatabase S newChain staleHeights
          { tipHash := b.hash S
            height := b.height
            totalDifficulty := forkCumulative
            totalSupply := stats.totalSupply
            totalBurned := asU64 stats.totalBurned
            lastCheckpoint := d.lastCheckpoint } d)

end

/-! ## 5. The fork branch and the whole of `add_block` -/

/-- The reorganisation proper, from the disconnect loop on. -/
def reorganize (cfg : NodeConfig) (ctx : Nat → CallContext G) (b : Block G) (forkPoint : Nat) :
    Option (Blockchain G × BlockStatus G) := do
  let (rewound, disconnected) ←
    disconnectAbove S cfg forkPoint (st.tip.height - forkPoint) st
  let forkBlocks := rewound.collectForkChain S b forkPoint
  let (connected, forkError) ← connectFork S cfg ctx forkPoint [] forkBlocks rewound
  match forkError.or (connected.tipBlockError S cfg (ctx (forkBlocks.length + 1)) b) with
  | some e =>
    let undone ← undoMapped S cfg forkBlocks.reverse connected
    some (undone.restoreMainChain S st disconnected forkPoint st.tip.height, .invalid (.reorg e))
  | none =>
    match connected.tipTargetError forkPoint forkBlocks b with
    | some e =>
      let undone ← undoAll S cfg forkBlocks.reverse connected
      some (undone.restoreMainChain S st disconnected forkPoint (max st.tip.height b.height),
        .invalid (.reorg e))
    | none =>
      let committed ← connected.commitReorg S cfg st disconnected forkBlocks b
        (st.calculateForkCumulativeWork b)
      some (committed,
        .acceptedReorg (disconnected.txLists.flatten.filter fun tx => !tx.isCoinbase))

/-- The fork branch of `add_block`, for a block that is already stored. -/
def evaluateFork (cfg : NodeConfig) (ctx : Nat → CallContext G) (b : Block G) :
    Option (Blockchain G × Except ChainError (BlockStatus G)) :=
  if st.takeFork S b = true then
    match st.findForkPoint S b with
    | none => some (st, .error .corruption)
    | some forkPoint =>
      let depth := b.height - forkPoint
      match evaluateReorgAcceptability depth (st.calculateForkCumulativeWork b)
          st.stats.totalDifficulty st.tip.height st.maxReorgDepth with
      | .error _ => some (st, .error (.reorgTooDeep depth st.maxReorgDepth))
      | .ok () =>
        if 0 < st.finalityFloor ∧ forkPoint < st.finalityFloor then
          some (st, .ok (.invalid (.finality forkPoint st.finalityFloor)))
        else (st.reorganize S cfg ctx b forkPoint).map fun r => (r.1, .ok r.2)
  else some (st, .ok .acceptedFork)

/-- **`add_block`.**  `ctx n` is the surroundings (clock, RandomX, verification caches) of the
`n`-th validation the call makes. -/
def addBlock (cfg : NodeConfig) (ctx : Nat → CallContext G) (b : Block G) :
    Option (Blockchain G × Except ChainError (BlockStatus G)) :=
  match st.refusal S cfg (ctx 0) b with
  | some status => some (st, .ok status)
  | none =>
    let stored := st.storeBlock S b
    if st.isMainChain b = true then
      (stored.extendTip S cfg b).map fun extended => (extended, .ok .accepted)
    else stored.evaluateFork S cfg ctx b

end Blockchain

end Coincync
