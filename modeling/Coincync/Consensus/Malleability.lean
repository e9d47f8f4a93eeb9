/-
# What a proof of work pins down

The block hash covers fifteen header fields.  Eight of them enter the proof of work or its check
(`SamePowInputs`); the network magic is pinned by validation.  The remaining six -- version, miner
key, supply commitment, checkpoint vote and the two phase-2 roots -- are constrained loosely or not
at all, so one solution serves every choice of them, and each choice is a block of its own
(`hash_eq_iff_of_samePowInputs`).
-/
import Coincync.Consensus.SmallChain

namespace Coincync

open Lib

variable {F G : Type} [Field F] [AddCommGroup G] [Module F G] (S : Suite F G)

/-- Two blocks with the same transactions and the same inputs to `verify_pow`. -/
structure SamePowInputs (b b' : Block G) : Prop where
  transactions : b.transactions = b'.transactions
  prevHash : b.header.prevHash = b'.header.prevHash
  height : b.header.height = b'.header.height
  timestamp : b.header.timestamp = b'.header.timestamp
  nonce : b.header.nonce = b'.header.nonce
  txRoot : b.header.txRoot = b'.header.txRoot
  target : b.header.target = b'.header.target
  anchor : b.header.anchor = b'.header.anchor
  algorithm : b.header.algorithm = b'.header.algorithm

/-- The header fields that no proof-of-work input and no validation rule fixes; the magic is one
of them at height 0 only, where zero is allowed as well. -/
structure SameFreeFields (h h' : BlockHeader) : Prop where
  version : h.version = h'.version
  minerPubkey : h.minerPubkey = h'.minerPubkey
  supplyCommitment : h.supplyCommitment = h'.supplyCommitment
  checkpointVote : h.checkpointVote = h'.checkpointVote
  sparkSetRoot : h.sparkSetRoot = h'.sparkSetRoot
  mwKernelRoot : h.mwKernelRoot = h'.mwKernelRoot
  networkMagic : h.height = 0 → h.networkMagic = h'.networkMagic

omit [AddCommGroup G] in
theorem networkMagic_of_checks {b : Block G} {network : NetworkType}
    (h : checkBlockNetworkMagic b network = []) (hh : b.header.height ≠ 0) :
    b.header.networkMagic = network.magicBytes := by
  unfold checkBlockNetworkMagic at h
  have hne : ¬(b.header.networkMagic = FixedBytes.replicate 4 0 ∧ b.height = 0) := by
    rintro ⟨-, h0⟩
    exact hh (UInt64.toNat_inj.mp h0)
  rw [if_neg hne, errorUnless_eq_nil_iff] at h
  exact h

omit [AddCommGroup G] in
theorem header_eq_of_same {b b' : Block G} {network : NetworkType} (hpow : SamePowInputs b b')
    (hfree : SameFreeFields b.header b'.header) (hm : checkBlockNetworkMagic b network = [])
    (hm' : checkBlockNetworkMagic b' network = []) : b.header = b'.header := by
  have hmagic : b.header.networkMagic = b'.header.networkMagic := by
    by_cases h0 : b.header.height = 0
    · exact hfree.networkMagic h0
    · rw [networkMagic_of_checks hm h0, networkMagic_of_checks hm' (hpow.height ▸ h0)]
  obtain ⟨-, h1, h2, h3, h4, h5, h6, h7, h8⟩ := hpow
  obtain ⟨g1, g2, g3, g4, g5, g6, -⟩ := hfree
  revert hmagic h1 h2 h3 h4 h5 h6 h7 h8 g1 g2 g3 g4 g5 g6
  cases b.header
  cases b'.header
  rintro rfl rfl rfl rfl rfl rfl rfl rfl rfl rfl rfl rfl rfl rfl rfl
  rfl

variable [DecidableEq F] [DecidableEq G]

/-- **One solution, one block hash -- exactly when the free fields agree.** -/
theorem hash_eq_iff_of_samePowInputs {cfg : NodeConfig} {ctx ctx' : CallContext G}
    {b b' prev : Block G} {U : UtxoSet} {cp cp' : Option Nat} {network : NetworkType}
    (hv : (validateBlockWithCheckpointForNetwork S cfg ctx b (some prev) U cp
      network).valid = true)
    (hv' : (validateBlockWithCheckpointForNetwork S cfg ctx' b' (some prev) U cp'
      network).valid = true) (hpow : SamePowInputs b b')
    (hcoll : S.blake3 b.header.preimage = S.blake3 b'.header.preimage →
      b.header.preimage = b'.header.preimage) :
    b.header.hash S = b'.header.hash S ↔ SameFreeFields b.header b'.header := by
  have hm := ((validateBlock_valid_iff S).mp hv).magic
  have hm' := ((validateBlock_valid_iff S).mp hv').magic
  constructor
  · intro h
    have hbytes : S.blake3 b.header.preimage = S.blake3 b'.header.preimage := by
      simpa [BlockHeader.hash, Suite.hashConcat] using h
    rw [BlockHeader.preimage_injective (hcoll hbytes)]
    exact ⟨rfl, rfl, rfl, rfl, rfl, rfl, fun _ => rfl⟩
  · intro hfree
    rw [header_eq_of_same hpow hfree hm hm']

namespace SmallChain

open SmallSuite

def stolenBlock1 : Block Z :=
  { block1 with header := { block1.header with minerPubkey := ⟨encode 9⟩ } }

theorem stolenBlock1_samePowInputs : SamePowInputs block1 stolenBlock1 :=
  ⟨rfl, rfl, rfl, rfl, rfl, rfl, rfl, rfl, rfl⟩

theorem stolenBlock1_valid :
    (validateBlockWithCheckpointForNetwork suite cfg ctx stolenBlock1 (some genesis) genesisUtxos
      none .regtest).valid = true := by
  decide +kernel

/-- **One proof of work, two valid blocks.** -/
theorem stolen_block_valid_with_other_hash :
    (validateBlockWithCheckpointForNetwork suite cfg ctx block1 (some genesis) genesisUtxos none
        .regtest).valid = true ∧
      (validateBlockWithCheckpointForNetwork suite cfg ctx stolenBlock1 (some genesis)
        genesisUtxos none .regtest).valid = true ∧
      SamePowInputs block1 stolenBlock1 ∧
      block1.header.hash suite ≠ stolenBlock1.header.hash suite :=
  ⟨block1_valid, stolenBlock1_valid, stolenBlock1_samePowInputs, by decide +kernel⟩

/-- The two blocks differ in a free field, and so in their hash. -/
theorem stolen_block_hash_ne : ¬SameFreeFields block1.header stolenBlock1.header ∧
    block1.header.hash suite ≠ stolenBlock1.header.hash suite :=
  have hfree : ¬SameFreeFields block1.header stolenBlock1.header := fun h =>
    absurd h.minerPubkey (by decide +kernel)
  ⟨hfree, fun h => hfree ((hash_eq_iff_of_samePowInputs suite block1_valid stolenBlock1_valid
    stolenBlock1_samePowInputs fun hc => absurd hc (by decide +kernel)).mp h)⟩

end SmallChain

end Coincync
