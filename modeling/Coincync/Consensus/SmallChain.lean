/-
# A small chain to run the model with

Blocks over the small suite: the regtest genesis block, and a miner that puts any transactions on
top of any parent.  The suite's BLAKE3 is a polynomial digest everywhere but at the header of the
genesis block, where it takes the value the source hard-codes; its RandomX is constant, so every
target is met once the anchor is right.
-/
import Coincync.Consensus.Validation
import Coincync.Storage.Connect

namespace Coincync.SmallChain

open Lib Coincync.SmallSuite

/-- The header bytes of the genesis block; nothing else hashes them. -/
def genesisPreimage : Bytes :=
  (createGenesisBlockFor (SmallSuite.suite (digest 32 7)) .regtest).header.preimage

/-- The digest, with the hard-coded genesis hash. -/
def blake3 (data : Bytes) : FixedBytes 32 :=
  if data = genesisPreimage then (expectedGenesisHash .regtest).bytes else digest 32 7 data

/-- The suite of the small chain. -/
def suite : Suite Z Z :=
  { SmallSuite.suite blake3 with randomx := fun _ _ => FixedBytes.replicate 32 0 }

/-- A testnet build without fast-sync, bound to the genesis block. -/
def cfg : NodeConfig := ⟨⟨true, false⟩, (expectedGenesisHash .regtest).bytes⟩

/-- A call with a clock in 2027, RandomX up and an empty verification cache. -/
def ctx : CallContext Z := ⟨some 1800000000, true, fun _ _ => false, fun _ => false⟩

def genesis : Block Z := createGenesisBlockFor suite .regtest

/-- A coinbase with one output: the amount in clear, committed to with no blinding. -/
def coinbaseTx (amount : UInt64) (address : Z) : Transaction Z where
  version := 1
  txType := .coinbase
  inputs := []
  outputs :=
    [{ stealthAddress := ⟨compress address⟩
       txPublicKey := ⟨compress address⟩
       commitment := compress (suite.commit amount 0)
       encryptedAmount := u64LeBytes amount
       viewTag := 0
       lockHeight := none
       encryptedMemo := [] }]
  fee := Amount.zero
  rangeProof := []
  extra := []

/-- A block on top of `parent`, two minutes later, with its proof of work. -/
def child (parent : Block Z) (target : Hash) (txs : List (Transaction Z)) : Block Z where
  header :=
    { networkMagic := NetworkType.regtest.magicBytes
      version := 1
      height := parent.header.height + 1
      timestamp := parent.header.timestamp + 120
      prevHash := parent.hash suite
      txRoot := suite.merkleRoot (txs.map (Transaction.hash suite))
      anchor := computeFullAnchor suite (parent.hash suite) (parent.header.height + 1)
        (parent.header.timestamp + 120)
      algorithm := 0
      nonce := 0
      target := target
      minerPubkey := ⟨FixedBytes.replicate 32 0⟩
      supplyCommitment := FixedBytes.replicate 32 0
      checkpointVote := none
      sparkSetRoot := FixedBytes.replicate 32 0
      mwKernelRoot := FixedBytes.replicate 32 0 }
  transactions := txs

/-- A block on top of `parent` with nothing but its coinbase. -/
def emptyChild (parent : Block Z) (target : Hash) (address : Z) : Block Z :=
  child parent target [coinbaseTx (calculateBlockReward (parent.height + 1)).atomic address]

/-- The block at height 1 that pays address 5. -/
def block1 : Block Z := emptyChild genesis genesis.header.target 5

/-- The UTXO set of the genesis block. -/
def genesisUtxos : UtxoSet := UtxoSet.new.connect suite 0 genesis.transactions

theorem genesis_hash : genesis.hash suite = expectedGenesisHash .regtest := by
  decide +kernel

theorem block1_valid :
    (validateBlockWithCheckpointForNetwork suite cfg ctx block1 (some genesis) genesisUtxos none
      .regtest).valid = true := by
  decide +kernel

end Coincync.SmallChain
