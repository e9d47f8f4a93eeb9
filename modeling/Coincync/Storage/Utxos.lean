/-
# The UTXO set

`src/storage/utxos.rs`: the output map with its five indexes, the spent key images, and the
batches a block is connected and disconnected with.  Two facts about the source shape the model.
An address index keeps the OLDEST output of an address (`or_insert`) while disconnecting an
output removes whatever the index holds at its address; and `remove_output` also writes to the
on-disk output index (`src/db/output_index.rs`), which the set shares with the chain's database
and which is therefore kept in the set, as the field `db`.
-/
import Coincync.Lib.Maps
import Coincync.Transaction.Types

namespace Coincync

open Lib

/-! ## 1. Data -/

structure OutputRef where
  txHash : Hash
  index : UInt8
  output : TxOutput
  height : Nat
  isCoinbase : Bool
  deriving DecidableEq

abbrev OutputKey := Hash × UInt8

structure LocatorOutput where
  publicKey : PublicKey
  commitment : FixedBytes 32
  height : Nat
  isCoinbase : Bool
  lockHeight : Option UInt64
  deriving DecidableEq

structure OutputIndexEntry where
  commitment : FixedBytes 32
  height : Nat
  isCoinbase : Bool
  lockHeight : Option UInt64
  deriving DecidableEq

/-- `OutputIndexEntry::validate`: a lock does not end before the output was created. -/
def OutputIndexEntry.validate (e : OutputIndexEntry) : Bool :=
  match e.lockHeight with
  | some lh => decide (e.height ≤ lh.toNat)
  | none => true

/-- A stealth address, as the indexes key it. -/
abbrev StealthKey := FixedBytes 32

/-- The tree of `OutputIndexDb`. -/
abbrev OutputIndexDb := Map StealthKey OutputIndexEntry

namespace OutputIndexDb

/-- `OutputIndexDb::insert`: an existing entry wins. -/
def insert (db : OutputIndexDb) (stealth : StealthKey) (entry : OutputIndexEntry) : OutputIndexDb :=
  Map.orInsert db stealth entry

/-- `OutputIndexDb::get(..).ok().flatten()`: an entry that fails its own check is not readable. -/
def get (db : OutputIndexDb) (stealth : StealthKey) : Option OutputIndexEntry :=
  (Finmap.lookup stealth db).filter OutputIndexEntry.validate

end OutputIndexDb

structure UtxoSet where
  outputs : Map OutputKey OutputRef
  keyImages : Finset KeyImage
  heightIndex : Map Nat (Finset OutputKey)
  locatorIndex : Map Nat (Finset OutputKey)
  locatorOutputs : Map OutputKey LocatorOutput
  stealthIndex : Map StealthKey OutputKey
  outputIndex : Map StealthKey OutputIndexEntry
  db : Option OutputIndexDb
  totalOutputsEver : UInt64
  reorgDisconnectsTotal : UInt64
  deriving DecidableEq

/-- An entry of `UtxoBatch::adds`. -/
structure OutputAdd where
  txHash : Hash
  index : UInt8
  output : TxOutput
  height : Nat
  isCoinbase : Bool
  deriving DecidableEq

namespace OutputAdd

variable (a : OutputAdd)

/-- The primary key of the output. -/
def key : OutputKey := (a.txHash, a.index)

/-- Its stealth address. -/
def stealth : StealthKey := a.output.stealthAddress.bytes

/-- What the primary storage keeps of it. -/
def outputRef : OutputRef := ⟨a.txHash, a.index, a.output, a.height, a.isCoinbase⟩

/-- What the locator catalog keeps of it. -/
def locatorOutput : LocatorOutput :=
  ⟨a.output.stealthAddress, a.output.commitment, a.height, a.isCoinbase, a.output.lockHeight⟩

/-- What the output index keeps of it. -/
def indexEntry : OutputIndexEntry :=
  ⟨a.output.commitment, a.height, a.isCoinbase, a.output.lockHeight⟩

end OutputAdd

/-! ## 2. Operations -/

/-- `u64::saturating_add(1)`. -/
def saturatingSucc (n : UInt64) : UInt64 := if n = UInt64.ofNat (2 ^ 64 - 1) then n else n + 1

namespace UtxoSet

def new : UtxoSet := ⟨∅, ∅, ∅, ∅, ∅, ∅, ∅, none, 0, 0⟩

variable (U : UtxoSet)

def addOutputExt (a : OutputAdd) : UtxoSet :=
  { U with
    outputs := U.outputs.insert a.key a.outputRef
    heightIndex := Map.bucketInsert U.heightIndex a.height a.key
    locatorIndex := Map.bucketInsert U.locatorIndex a.height a.key
    locatorOutputs := U.locatorOutputs.insert a.key a.locatorOutput
    stealthIndex := Map.orInsert U.stealthIndex a.stealth a.key
    outputIndex := Map.orInsert U.outputIndex a.stealth a.indexEntry
    totalOutputsEver := U.totalOutputsEver + 1 }

/-- `mark_key_image_spent`, as a state change. -/
def markKeyImageSpent (ki : KeyImage) : UtxoSet := { U with keyImages := insert ki U.keyImages }

def removeKeyImage (ki : KeyImage) : UtxoSet := { U with keyImages := U.keyImages.erase ki }

def containsKeyImage (ki : KeyImage) : Bool := decide (ki ∈ U.keyImages)

def getOutputByStealth (stealth : StealthKey) : Option OutputRef :=
  (U.stealthIndex.lookup stealth).bind fun key => U.outputs.lookup key

/-- `get_output_index_entry`: memory first, then disk. -/
def getOutputIndexEntry (stealth : StealthKey) : Option OutputIndexEntry :=
  match U.outputIndex.lookup stealth with
  | some entry => some entry
  | none => U.db.bind fun db => db.get stealth

def outputCount : Nat := U.outputs.keys.card

def evictOldOutputs (currentHeight keepDepth : Nat) : UtxoSet :=
  if currentHeight ≤ keepDepth then U
  else
    { U with
      outputIndex :=
        Map.retain (fun _ entry => decide (currentHeight - keepDepth ≤ entry.height))
          U.outputIndex }

/-- The address under which an output is removed: the output's own, else the catalog's. -/
def addressOf (key : OutputKey) : Option StealthKey :=
  ((U.outputs.lookup key).map fun o => o.output.stealthAddress.bytes) <|>
    ((U.locatorOutputs.lookup key).map fun l => l.publicKey.bytes)

/-- `remove_output`, as a state change. -/
def removeOutput (key : OutputKey) : UtxoSet :=
  let U₁ :=
    { U with
      locatorOutputs := U.locatorOutputs.erase key
      locatorIndex :=
        match U.locatorOutputs.lookup key with
        | some l => Map.bucketRemove U.locatorIndex l.height key
        | none => U.locatorIndex
      outputs := U.outputs.erase key
      heightIndex :=
        match U.outputs.lookup key with
        | some o => Map.bucketRemove U.heightIndex o.height key
        | none => U.heightIndex }
  match U.addressOf key with
  | some stealth =>
    { U₁ with
      stealthIndex := U.stealthIndex.erase stealth
      outputIndex := U.outputIndex.erase stealth
      db := U.db.map fun db => db.erase stealth
      reorgDisconnectsTotal := saturatingSucc U.reorgDisconnectsTotal }
  | none => U₁

end UtxoSet

/-! ## 3. Batches -/

structure UtxoBatch where
  adds : List OutputAdd
  keyImages : List KeyImage
  removes : List OutputKey
  keyImageRemovals : List KeyImage

/-- `apply_batch`: adds, spent key images, removes, unspent key images. -/
def UtxoSet.applyBatch (U : UtxoSet) (b : UtxoBatch) : UtxoSet :=
  let U := b.adds.foldl addOutputExt U
  let U := b.keyImages.foldl markKeyImageSpent U
  let U := b.removes.foldl removeOutput U
  b.keyImageRemovals.foldl removeKeyImage U

section

variable {F G : Type} [Field F] [AddCommGroup G] [Module F G] (S : Suite F G)

/-- The outputs of a transaction with their positions, `idx as u8`. -/
def txAdds (height : Nat) (tx : Transaction G) : List OutputAdd :=
  tx.outputs.zipIdx.map fun o =>
    ⟨tx.hash S, UInt8.ofNat o.2, o.1, height, tx.isCoinbase⟩

/-- All outputs of a block, in order. -/
def blockAdds (height : Nat) (txs : List (Transaction G)) : List OutputAdd :=
  txs.flatMap (txAdds S height)

/-- The key images a block spends: those of its non-coinbase transactions. -/
def spentKeyImages (txs : List (Transaction G)) : List KeyImage :=
  txs.flatMap fun tx => if tx.isCoinbase then [] else tx.keyImages

def batchFromBlock (height : Nat) (txs : List (Transaction G)) : UtxoBatch :=
  ⟨blockAdds S height txs, spentKeyImages txs, [], []⟩

def batchDisconnectBlock (txs : List (Transaction G)) : UtxoBatch :=
  ⟨[], [], txs.flatMap fun tx =>
      (List.range tx.outputs.length).map fun idx => (tx.hash S, UInt8.ofNat idx),
    spentKeyImages txs⟩

end

end Coincync
