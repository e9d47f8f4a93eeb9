/-
# Transactions

`src/transaction/types.rs`: the data, the serialization (`borsh`) behind the transaction hash and
size, and the signing hash, which covers every field except the ring signatures.
-/
import Coincync.Crypto.Clsag

namespace Coincync

open Lib Suite

/-! ## 1. Data -/

/-- Transaction kinds, in the order of their tags. -/
inductive TxType
  | coinbase
  | transfer
  | churn
  deriving DecidableEq

/-- `tx_type as u8`. -/
def TxType.toU8 : TxType → UInt8
  | .coinbase => 0
  | .transfer => 1
  | .churn => 2

/-- A ring member as a transaction states it: key and commitment, not decoded. -/
structure RingMemberRef where
  publicKey : PublicKey
  commitment : FixedBytes 32
  deriving DecidableEq

/-- A transaction input. -/
structure TxInput (G : Type) where
  keyImage : KeyImage
  ringMembers : List RingMemberRef
  signature : ClsagSignature G
  pseudoOutputCommitment : FixedBytes 32
  deriving DecidableEq

/-- A transaction output. -/
structure TxOutput where
  stealthAddress : PublicKey
  txPublicKey : PublicKey
  commitment : FixedBytes 32
  encryptedAmount : Bytes
  viewTag : UInt8
  lockHeight : Option UInt64
  encryptedMemo : Bytes
  deriving DecidableEq

/-- A transaction. -/
structure Transaction (G : Type) where
  version : UInt8
  txType : TxType
  inputs : List (TxInput G)
  outputs : List TxOutput
  fee : Amount
  rangeProof : Bytes
  extra : Bytes
  deriving DecidableEq

variable {F G : Type} [Field F] [AddCommGroup G] [Module F G] (S : Suite F G)

/-! ## 2. Serialization and the transaction hash -/

/-- A ring member is its key and its commitment, 64 bytes. -/
def RingMemberRef.toBytes (m : RingMemberRef) : Bytes := m.publicKey.asSlice ++ m.commitment.toList

/-- `borsh` of an input. -/
def TxInput.toBytes (i : TxInput G) : Bytes :=
  i.keyImage.asSlice ++ vecBytes RingMemberRef.toBytes i.ringMembers ++ i.signature.toBytes S ++
    i.pseudoOutputCommitment.toList

/-- An output, both under `borsh` and in the signing preimage: the two agree field by field. -/
def TxOutput.toBytes (o : TxOutput) : Bytes :=
  o.stealthAddress.asSlice ++ o.txPublicKey.asSlice ++ o.commitment.toList ++
    vecBytes (fun b => [b]) o.encryptedAmount ++ [o.viewTag] ++
    optionBytes u64LeBytes o.lockHeight ++ vecBytes (fun b => [b]) o.encryptedMemo

namespace Transaction

variable (tx : Transaction G)

/-- `borsh::to_vec` of a transaction. -/
def toBytes : Bytes :=
  [tx.version, tx.txType.toU8] ++ vecBytes (TxInput.toBytes S) tx.inputs ++
    vecBytes TxOutput.toBytes tx.outputs ++ u64LeBytes tx.fee.atomic ++
    vecBytes (fun b => [b]) tx.rangeProof ++ vecBytes (fun b => [b]) tx.extra

def hash : Hash := S.hashConcat [tx.toBytes S]

def size : Nat := (tx.toBytes S).length

def isCoinbase : Bool := tx.txType == .coinbase

def keyImages : List KeyImage := tx.inputs.map TxInput.keyImage

/-! ## 3. The signing hash -/

def txSignDomainTag : Bytes := ascii "coincync/tx-sign/v1"

/-- What one input contributes to the signing preimage: everything but its signature. -/
def signingInputBytes (i : TxInput G) : Bytes :=
  i.keyImage.asSlice ++ i.pseudoOutputCommitment.toList ++
    vecBytes RingMemberRef.toBytes i.ringMembers

/-- The preimage of `compute_signing_hash`. -/
def signingPreimage : Bytes :=
  txSignDomainTag ++ [tx.version, tx.txType.toU8] ++ u64LeBytes tx.fee.atomic ++
    vecBytes signingInputBytes tx.inputs ++ vecBytes TxOutput.toBytes tx.outputs ++
    vecBytes (fun b => [b]) tx.rangeProof ++ vecBytes (fun b => [b]) tx.extra

def signingHash : Hash := S.hashConcat [tx.signingPreimage]

end Transaction

end Coincync
