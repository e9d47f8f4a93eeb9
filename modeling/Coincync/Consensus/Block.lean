/-
# Blocks and block headers

`src/consensus/header.rs` and `block.rs`.  The header hash covers every field of the header,
behind a domain tag; `BlockHeader.preimage_injective` says that the preimage determines the
header, so two headers with one hash are equal or a BLAKE3 collision.  The genesis blocks are those
of `src/testnet.rs` and `src/mainnet.rs`.
-/
import Coincync.Transaction.Types
import Coincync.Constants

namespace Coincync

open Lib Suite List

structure BlockHeader where
  networkMagic : FixedBytes 4
  version : UInt8
  height : UInt64
  timestamp : UInt64
  prevHash : Hash
  txRoot : Hash
  anchor : Hash
  algorithm : UInt8
  nonce : UInt64
  target : Hash
  minerPubkey : PublicKey
  supplyCommitment : FixedBytes 32
  checkpointVote : Option (UInt64 × Hash)
  sparkSetRoot : FixedBytes 32
  mwKernelRoot : FixedBytes 32
  deriving DecidableEq

structure Block (G : Type) where
  header : BlockHeader
  transactions : List (Transaction G)
  deriving DecidableEq

instance instLawfulBEqBlock {G : Type} [DecidableEq G] : LawfulBEq (Block G) := inferInstance

variable {F G : Type} [Field F] [AddCommGroup G] [Module F G] (S : Suite F G)

/-! ## 1. The header hash -/

def headerHashDomainTag : Bytes := ascii "coincync/header/v1"

/-- A checkpoint vote: a height and a hash. -/
def voteBytes (v : UInt64 × Hash) : Bytes := u64LeBytes v.1 ++ v.2.asSlice

namespace BlockHeader

/-- The preimage of the header hash. -/
def preimage (h : BlockHeader) : Bytes :=
  headerHashDomainTag ++ (h.networkMagic.toList ++ ([h.version] ++ (u64LeBytes h.height ++
    (u64LeBytes h.timestamp ++ (h.prevHash.asSlice ++ (h.txRoot.asSlice ++ (h.anchor.asSlice ++
    ([h.algorithm] ++ (u64LeBytes h.nonce ++ (h.target.asSlice ++ (h.minerPubkey.asSlice ++
    (h.supplyCommitment.toList ++ (optionBytes voteBytes h.checkpointVote ++
    (h.sparkSetRoot.toList ++ h.mwKernelRoot.toList))))))))))))))

def hash (h : BlockHeader) : Hash := S.hashConcat [h.preimage]

end BlockHeader

theorem voteBytes_injective : Function.Injective voteBytes := by
  rintro ⟨a, b⟩ ⟨a', b'⟩ h
  obtain ⟨h1, h2⟩ := append_inj h (by simp)
  exact Prod.ext (u64LeBytes_inj h1) (Hash.asSlice_inj h2)

/-- **The preimage determines the header.**  Every field but the vote has a fixed width, and the
vote is told apart by its presence byte. -/
theorem BlockHeader.preimage_injective : Function.Injective BlockHeader.preimage := by
  rintro ⟨m, v, h, t, p, r, a, g, n, w, k, s, c, x, y⟩
    ⟨m', v', h', t', p', r', a', g', n', w', k', s', c', x', y'⟩ heq
  simp only [BlockHeader.preimage] at heq
  obtain ⟨-, heq⟩ := append_inj heq rfl
  obtain ⟨hm, heq⟩ := append_inj heq (by simp)
  obtain ⟨hv, heq⟩ := append_inj heq rfl
  obtain ⟨hh, heq⟩ := append_inj heq (by simp)
  obtain ⟨ht, heq⟩ := append_inj heq (by simp)
  obtain ⟨hp, heq⟩ := append_inj heq (by simp)
  obtain ⟨hr, heq⟩ := append_inj heq (by simp)
  obtain ⟨ha, heq⟩ := append_inj heq (by simp)
  obtain ⟨hg, heq⟩ := append_inj heq rfl
  obtain ⟨hn, heq⟩ := append_inj heq (by simp)
  obtain ⟨hw, heq⟩ := append_inj heq (by simp)
  obtain ⟨hk, heq⟩ := append_inj heq (by simp)
  obtain ⟨hs, heq⟩ := append_inj heq (by simp)
  obtain ⟨hc, heq⟩ := optionBytes_append_inj (w := 40) (fun v => by simp [voteBytes])
    voteBytes_injective heq
  obtain ⟨hx, hy⟩ := append_inj heq (by simp)
  rw [List.Vector.eq _ _ hm, head_eq_of_cons_eq hv, u64LeBytes_inj hh, u64LeBytes_inj ht,
    Hash.asSlice_inj hp, Hash.asSlice_inj hr, Hash.asSlice_inj ha, head_eq_of_cons_eq hg,
    u64LeBytes_inj hn, Hash.asSlice_inj hw, PublicKey.asSlice_inj hk, List.Vector.eq _ _ hs, hc,
    List.Vector.eq _ _ hx, List.Vector.eq _ _ hy]

/-! ## 2. Blocks -/

namespace Block

variable (b : Block G)

def hash : Hash := b.header.hash S

/-- `Block::height`, as a number. -/
def height : Nat := b.header.height.toNat

/-- `Block::coinbase`: the first transaction. -/
def coinbase : Option (Transaction G) := b.transactions.head?

/-- `Block::total_fees`: the fees of all transactions but the first, saturating. -/
def totalFees : Amount := Amount.sum ((b.transactions.drop 1).map Transaction.fee)

def size : Nat := 200 + (b.transactions.map (Transaction.size S)).sum

end Block

/-! ## 3. Genesis -/

/-- `create_genesis_coinbase`: one output to the all-zero key, which no one can spend. -/
def createGenesisCoinbase (message : Bytes) : Transaction G where
  version := 1
  txType := .coinbase
  inputs := []
  outputs :=
    [{ stealthAddress := ⟨FixedBytes.replicate 32 0⟩
       txPublicKey := ⟨FixedBytes.replicate 32 0⟩
       commitment := FixedBytes.replicate 32 0
       encryptedAmount := List.replicate 8 0
       viewTag := 0
       lockHeight := none
       encryptedMemo := [] }]
  fee := Amount.zero
  rangeProof := []
  extra := message

/-- A genesis block: the common shape of `testnet_genesis` and `mainnet_genesis`. -/
def genesisWith (magic : FixedBytes 4) (timestamp : UInt64) (message : Bytes)
    (initialDifficulty : Nat) : Block G where
  header :=
    { networkMagic := magic
      version := 1
      height := 0
      timestamp := timestamp
      prevHash := Hash.zero
      txRoot := S.merkleRoot [(createGenesisCoinbase (G := G) message).hash S]
      anchor := Hash.zero
      algorithm := 0
      nonce := 0
      target := Hash.fromDifficulty initialDifficulty
      minerPubkey := ⟨FixedBytes.replicate 32 0⟩
      supplyCommitment := FixedBytes.replicate 32 0
      checkpointVote := none
      sparkSetRoot := FixedBytes.replicate 32 0
      mwKernelRoot := FixedBytes.replicate 32 0 }
  transactions := [createGenesisCoinbase message]

def testnetGenesis : Block G :=
  genesisWith S NetworkType.testnet.magicBytes 1776818628
    (ascii "CoinCync Public Testnet - April 2026 - Trust the Math") 4800

def mainnetGenesis : Block G :=
  genesisWith S NetworkType.mainnet.magicBytes 1790812800
    (ascii "CoinCync Mainnet Genesis - Privacy You Can Audit - October 2026") 10000

def createGenesisBlockFor : NetworkType → Block G
  | .testnet | .regtest => testnetGenesis S
  | .mainnet => mainnetGenesis S

/-- `TESTNET_GENESIS_HASH` and `MAINNET_GENESIS_HASH`, by network (`expected_genesis_hash`). -/
def expectedGenesisHash : NetworkType → Hash
  | .testnet | .regtest =>
    ⟨⟨[0x41, 0xf9, 0x70, 0xdf, 0x61, 0x52, 0x42, 0x5a, 0x29, 0x38, 0x72, 0x54, 0x23, 0x23, 0x5c,
      0x2c, 0x40, 0xec, 0x52, 0x55, 0x6e, 0xcc, 0x0f, 0xd1, 0x42, 0x2d, 0x58, 0x86, 0x52, 0xcc,
      0x56, 0xb4], rfl⟩⟩
  | .mainnet =>
    ⟨⟨[0x9d, 0xbb, 0x99, 0xab, 0x3e, 0x63, 0xac, 0x14, 0x0f, 0x4a, 0xdf, 0xb8, 0xfb, 0x76, 0xef,
      0xbd, 0x66, 0x5f, 0xb7, 0xf2, 0x3d, 0x75, 0xda, 0x9f, 0xa7, 0xda, 0x82, 0xe4, 0xd5, 0xc0,
      0x33, 0x68], rfl⟩⟩

theorem createGenesisBlockFor_transactions (network : NetworkType) :
    ∃ message, (createGenesisBlockFor S network).transactions = [createGenesisCoinbase message] := by
  cases network <;> exact ⟨_, rfl⟩

theorem createGenesisBlockFor_height (network : NetworkType) :
    (createGenesisBlockFor S network).header.height = 0 := by
  cases network <;> rfl

end Coincync
