/-
# Proof of work

`src/consensus/pow.rs`.  The anchor binds the proof to the parent, the height and the timestamp;
the proof itself is RandomX over the anchor, the nonce and the transaction root, keyed by the
epoch of the height and by the genesis hash the process was bound to.  Nothing else of the header
enters it.  The cache of anchors is left out: it maps a key to the value computed from it.
-/
import Coincync.Consensus.Block
import Coincync.Consensus.Difficulty

namespace Coincync

open Lib Suite

/-- What is fixed for a running process: the build features and `RANDOMX_GENESIS_BYTES`. -/
structure NodeConfig where
  build : BuildConfig
  randomxGenesis : FixedBytes 32

variable {F G : Type} [Field F] [AddCommGroup G] [Module F G] (S : Suite F G)

def computeSequentialPadding (seed : Hash) : Nat → Hash
  | 0 => seed
  | n + 1 => computeSequentialPadding (S.hashDomain (ascii "SEQ_PAD_ITER") seed.asSlice) n

def seqPadIterations : Nat := 1

/-- The mixed hash of `compute_full_anchor`, the part of the anchor that is compared and
hashed. -/
def computeFullAnchor (prevHash : Hash) (height timestamp : UInt64) : Hash :=
  let seed := S.hashConcat [prevHash.asSlice, u64LeBytes height, u64LeBytes timestamp]
  let sequential := computeSequentialPadding S seed seqPadIterations
  S.hashDomain (ascii "CYNC1_ANCHOR_MIX") (sequential.asSlice ++ prevHash.asSlice)

/-- `PowAlgorithm::RandomX as u8`, the algorithm of every anchor. -/
def randomxAlgorithm : UInt8 := 0

/-- `randomx_key_for_height`, with `RANDOMX_KEY_EPOCH` of 2048 blocks. -/
def randomxKeyForHeight (cfg : NodeConfig) (height : UInt64) : FixedBytes 32 :=
  (S.hashDomain (ascii "CYNC1_RANDOMX_KEY_EPOCH")
    (u64LeBytes (height / 2048) ++ cfg.randomxGenesis.toList)).bytes

def computePowHash (cfg : NodeConfig) (anchor : Hash) (nonce : UInt64) (txRoot : Hash)
    (height : UInt64) : Hash :=
  let input := S.hashConcat [anchor.asSlice, u64LeBytes nonce, txRoot.asSlice]
  ⟨S.randomx (randomxKeyForHeight S cfg height) input.asSlice⟩

/-- The errors of `verify_pow`: `PowVerifyError`, and the VM that could not be built. -/
inductive PowError
  | anchorMismatch (expected claimed : Hash)
  | algorithmMismatch (expected claimed : UInt8)
  | randomxUnavailable
  | targetNotMet (hash target : Hash)
  deriving DecidableEq

/-- `verify_pow`.  `randomxUp` says whether the RandomX VM can be had at the time of the call. -/
def verifyPow (cfg : NodeConfig) (randomxUp : Bool) (prevHash : Hash)
    (height timestamp nonce : UInt64) (txRoot target claimedAnchor : Hash)
    (claimedAlgo : UInt8) : Except PowError Unit :=
  let anchor := computeFullAnchor S prevHash height timestamp
  if anchor ≠ claimedAnchor then .error (.anchorMismatch anchor claimedAnchor)
  else if randomxAlgorithm ≠ claimedAlgo then
    .error (.algorithmMismatch randomxAlgorithm claimedAlgo)
  else if randomxUp = false then .error .randomxUnavailable
  else
    let powHash := computePowHash S cfg anchor nonce txRoot height
    if powHash.meetsDifficulty target = true then .ok ()
    else .error (.targetNotMet powHash target)

/-- `verify_pow` as the validator calls it, on a header and its parent's hash. -/
def verifyHeaderPow (cfg : NodeConfig) (randomxUp : Bool) (prevHash : Hash) (h : BlockHeader) :
    Except PowError Unit :=
  verifyPow S cfg randomxUp prevHash h.height h.timestamp h.nonce h.txRoot h.target h.anchor
    h.algorithm

end Coincync
