/-
# The blockchain: state, lookups and genesis

`Blockchain` of `src/chain.rs` with the part of `src/db` it writes to: block data by hash, the
height index and the chain state record.  The on-disk output index is shared with the UTXO set
and lives there (`UtxoSet.db`).  Memory is a CACHE of the database: a block or a height that is
not in memory is looked up on disk.
-/
import Coincync.Consensus.Validation
import Coincync.Storage.Connect
import Coincync.Lib.Lineage

namespace Coincync

open Lib

/-! ## 1. Data -/

structure ChainTip where
  hash : Hash
  height : Nat
  difficulty : Nat
  timestamp : UInt64
  deriving DecidableEq

/-- `ChainStats`.  The first three are `u64`, the totals `u128`. -/
structure ChainStats where
  height : Nat
  totalBlocks : Nat
  totalTransactions : Nat
  totalSupply : Nat
  totalBurned : Nat
  difficulty : Nat
  tipHash : Hash
  totalDifficulty : Nat
  deriving DecidableEq

def ChainStats.default : ChainStats := ⟨0, 0, 0, 0, 0, 0, Hash.zero, 0⟩

/-- `ChainStateData`, the record on disk.  `total_burned` is a `u64` here. -/
structure ChainStateData where
  tipHash : Hash
  height : Nat
  totalDifficulty : Nat
  totalSupply : Nat
  totalBurned : Nat
  lastCheckpoint : Nat
  deriving DecidableEq

/-- The trees of `Database` that the chain writes. -/
structure Database (G : Type) where
  blocks : Map Hash (Block G)
  heightIndex : Map Nat Hash
  state : Option ChainStateData

/-- `Blockchain`: the fields of `BlockchainInner`, the database and the network. -/
structure Blockchain (G : Type) where
  network : NetworkType
  blocks : Map Hash (Block G)
  heightToHash : Map Nat Hash
  tip : ChainTip
  stats : ChainStats
  genesisHash : Option Hash
  utxos : UtxoSet
  db : Option (Database G)

def asU64 (n : Nat) : Nat := n % 2 ^ 64

/-- `u128::checked_add`. -/
def checkedAddU128 (a b : Nat) : Option Nat := if a + b < 2 ^ 128 then some (a + b) else none

/-- `u128::checked_sub`. -/
def checkedSubU128 (a b : Nat) : Option Nat := if b ≤ a then some (a - b) else none

variable {F G : Type} [Field F] [AddCommGroup G] [Module F G] (S : Suite F G)

/-- Blocks are filed under their hash and name their parent's. -/
def blockLinks : Links Hash (Block G) := ⟨Block.hash S, fun b => b.header.prevHash, Block.height⟩

def blockFeeBurn (build : BuildConfig) (b : Block G) : Nat :=
  let totalFees :=
    Amount.sum ((b.transactions.filter fun tx => !tx.isCoinbase).map Transaction.fee)
  if b.height < feeDistributionHeight build ∨ totalFees.val = 0 then 0
  else
    (distributeFee totalFees
      (decide (congestionThreshold ≤ congestionPct (b.size S)))).burned.val

/-- The errors of the chain's own operations. -/
inductive ChainError
  | genesisMismatch (computed expected : Hash)
  | corruption
  | reorgTooDeep (depth max : Nat)
  | rollbackPastCheckpoint (lastCheckpoint : Nat)
  | noChainState
  | noGenesisEntry
  | wrongGenesis (actual expected : Hash)
  | tipHeight (state tip : Nat)
  | missingTip (hash : Hash) (height : Nat)
  deriving DecidableEq

/-! ## 2. The database -/

namespace Database

variable (d : Database G)

omit [AddCommGroup G]

def empty : Database G := ⟨∅, ∅, none⟩

def getByHeight (h : Nat) : Option (Block G) :=
  (d.heightIndex.lookup h).bind fun hash => d.blocks.lookup hash

/-- `state.get_state()?.last_checkpoint`, 0 where there is no state. -/
def lastCheckpoint : Nat := (d.state.map ChainStateData.lastCheckpoint).getD 0

def hasAnyChainData : Bool := decide (d.blocks.keys ≠ ∅) || decide (d.heightIndex.keys ≠ ∅)

def removeHeightsAbove (maxValidHeight : Nat) : Database G :=
  { d with heightIndex := Map.retain (fun h _ => decide (h ≤ maxValidHeight)) d.heightIndex }

end Database

/-! ## 3. The chain -/

namespace Blockchain

section

omit [AddCommGroup G]

/-- `with_database`: an empty memory over what the database holds. -/
def withDatabase (network : NetworkType) (db : Option (Database G))
    (outputIndex : Option OutputIndexDb) : Blockchain G where
  network := network
  blocks := ∅
  heightToHash := ∅
  tip := ⟨Hash.zero, 0, 1, 0⟩
  stats := ChainStats.default
  genesisHash := none
  utxos := { UtxoSet.new with db := outputIndex }
  db := db

variable (st : Blockchain G)

/-- `get_block`: memory, then disk. -/
def getBlock (hash : Hash) : Option (Block G) :=
  (st.blocks.lookup hash).or (st.db.bind fun d => d.blocks.lookup hash)

/-- `get_block_hash`: memory, then disk. -/
def getBlockHash (height : Nat) : Option Hash :=
  (st.heightToHash.lookup height).or (st.db.bind fun d => d.heightIndex.lookup height)

def getBlockByHeight (height : Nat) : Option (Block G) :=
  (st.getBlockHash height).bind st.getBlock

/-- The block of the main chain at a height, as far as memory has it. -/
def cachedBlockAt (height : Nat) : Option (Block G) :=
  (st.heightToHash.lookup height).bind fun hash => st.blocks.lookup hash

/-- How many blocks the chain can find: a bound on any walk that meets no block twice. -/
def storedKeys : Finset Hash :=
  st.blocks.keys ∪ (st.db.map fun d => d.blocks.keys).getD ∅

def maxReorgDepth : Nat :=
  match st.network with
  | .testnet | .regtest => 1000
  | .mainnet => 100

/-- Change the database, if there is one. -/
def modifyDb (f : Database G → Database G) : Blockchain G := { st with db := st.db.map f }

/-- Change the on-disk output index, if there is one. -/
def modifyOutputIndex (f : OutputIndexDb → OutputIndexDb) : Blockchain G :=
  { st with utxos := { st.utxos with db := st.utxos.db.map f } }

end

variable (st : Blockchain G)

/-- `db.output_index.insert` for every output, oldest first. -/
def insertOutputs (adds : List OutputAdd) (db : OutputIndexDb) : OutputIndexDb :=
  adds.foldl (fun db a => db.insert a.stealth a.indexEntry) db

def persistOutputIndex (txs : List (Transaction G)) (height : Nat) : Blockchain G :=
  st.modifyOutputIndex (insertOutputs (blockAdds S height txs))

/-- The state after `init_genesis` when the genesis hash is the expected one. -/
def applyGenesis : Blockchain G :=
  let genesis := createGenesisBlockFor S st.network
  let hash := genesis.hash S
  let reward := (calculateBlockReward 0).val
  let st :=
    { st with
      blocks := st.blocks.insert hash genesis
      heightToHash := st.heightToHash.insert 0 hash
      genesisHash := some hash
      tip := ⟨hash, 0, 1, genesis.header.timestamp⟩
      stats :=
        -- `total_difficulty` and `difficulty` keep their old values
        { st.stats with
          height := 0
          totalBlocks := 1
          totalTransactions := genesis.transactions.length
          tipHash := hash
          totalSupply := reward
          totalBurned := 0 }
      utxos := st.utxos.connect S 0 genesis.transactions }
  (st.persistOutputIndex S genesis.transactions 0).modifyDb fun d =>
    { blocks := d.blocks.insert hash genesis
      heightIndex := d.heightIndex.insert 0 hash
      state := some ⟨hash, 0, 1, reward, 0, 0⟩ }

def initGenesis : Except ChainError (Blockchain G) :=
  let hash := (createGenesisBlockFor S st.network).hash S
  let expected := expectedGenesisHash st.network
  if hash ≠ expected then .error (.genesisMismatch hash expected) else .ok (st.applyGenesis S)

end Blockchain

end Coincync
