/-
# Consensus constants and activation heights

`src/constants.rs` and the network table of `src/config.rs`, as far as block validation and the
chain read them.  Two constants depend on the `testnet` feature the node was built with, and one
rule on the `insecure-fast-sync` feature: `BuildConfig` holds the two flags.
-/
import Coincync.Primitives

namespace Coincync

open Lib

/-- The compile-time features that change consensus. -/
structure BuildConfig where
  testnet : Bool
  insecureFastSync : Bool
  deriving DecidableEq

/-! ## 1. Networks -/

inductive NetworkType
  | mainnet
  | testnet
  | regtest
  deriving DecidableEq

def NetworkType.magicBytes : NetworkType → FixedBytes 4
  | .mainnet => ⟨[0x43, 0x59, 0x4E, 0x43], rfl⟩
  | .testnet => ⟨[0x74, 0x43, 0x59, 0x4E], rfl⟩
  | .regtest => ⟨[0x72, 0x43, 0x59, 0x4E], rfl⟩

def hardForkV1012Height : Nat := 13000

def v1012RulesActive (network : NetworkType) (height : Nat) : Bool :=
  match network with
  | .mainnet | .regtest => true
  | .testnet => decide (hardForkV1012Height ≤ height)

/-! ## 2. Blocks -/

/-- `MAX_BLOCK_SIZE`: 2 MiB. -/
def maxBlockSize : Nat := 2 * 1024 * 1024

def maxTxsPerBlock : Nat := 5000

/-- `TARGET_BLOCK_TIME`, in seconds. -/
def targetBlockTime : Nat := 120

/-- `MAX_TIMESTAMP_DRIFT`, in seconds. -/
def maxTimestampDrift : UInt64 := 600

def v2TxActivationHeight : Nat := 50000

/-- `block_version_at_height`: the minimum header version. -/
def blockVersionAtHeight (height : Nat) : UInt8 := if v2TxActivationHeight ≤ height then 2 else 1

/-- `CONSENSUS_CHECKPOINTS`: the table is empty in both builds. -/
def consensusCheckpoints : List (Nat × Hash) := []

def expectedCheckpointHash (height : Nat) : Option Hash :=
  (consensusCheckpoints.find? fun c => c.1 = height).map Prod.snd

def checkpointInterval : Nat := 144

def mtpWindow : Nat := 11

/-! ## 3. Transactions -/

def maxTxVersion : UInt8 := 2

def maxTxInputs : Nat := 256

def maxTxOutputs : Nat := 16

def maxOutputMemoSize : Nat := 256

def minFeePerByte : Nat := 1000

def minOutputAmount : Nat := 1000000

/-- `UNIFORM_TX_SHAPE_HEIGHT` (equal to `BULLETPROOFS_PLUS_HEIGHT`). -/
def uniformTxShapeHeight : Nat := 0

def standardInputCount : Nat := 2

def standardOutputCount : Nat := 2

/-- `STRICT_RING_MEMBER_HEIGHT`: below it a ring member that was never an output is allowed. -/
def strictRingMemberHeight : Nat := 100

/-- `min_output_age_at_height`.  The hard fork height is `u64::MAX` in a testnet build and 0
otherwise. -/
def minOutputAgeAtHeight (build : BuildConfig) (height : Nat) : Nat :=
  let hardforkHeight := if build.testnet then 2 ^ 64 - 1 else 0
  if height < hardforkHeight then 10 else 100

def ringSizeAtHeight (height : Nat) : Nat := if height < 10000 then 11 else 16

def effectiveRingSize (height available : Nat) : Nat :=
  let target := ringSizeAtHeight height
  if target ≤ available then target
  else if 10000 ≤ height then target
  else min (max available 2) target

/-! ## 4. Emission and fees -/

/-- `COIN`: atomic units per CYNC. -/
def coin : Nat := 1000000000000

/-- `TAIL_EMISSION`: 0.6 CYNC. -/
def tailEmission : Nat := 600000000000

/-- `TOTAL_SUPPLY_TARGET`, in CYNC. -/
def totalSupplyTarget : Nat := 100000000

def emissionDivisor : Nat := 2000000

/-- `CONGESTION_THRESHOLD`, in percent. -/
def congestionThreshold : Nat := 80

def feeDistributionHeight (build : BuildConfig) : Nat := if build.testnet then 525 else 0

end Coincync
