/-
# The wallet's balance

`src/wallet/balance.rs`.  A wallet keeps its outputs in a map from (transaction hash, output index)
to a record with a spent flag, its reservations in a second map, and in a third an index from key
images to keys, because the chain names what is spent by key image only.
-/
import Coincync.Primitives
import Coincync.Lib.Maps

namespace Coincync

open Lib

/-! ## 1. Outputs and reservations -/

/-- `OutputLocator`: where an output stands in the chain. -/
structure OutputLocator where
  height : Nat
  ordinal : Nat
  deriving DecidableEq

/-- (`tx_hash`, `output_index`): what an output is filed under. -/
abbrev OutputId := Hash × UInt8

/-- `UTXO`: an output the wallet owns. -/
structure UTXO where
  txHash : Hash
  outputIndex : UInt8
  outputLocator : Option OutputLocator
  amount : Amount
  height : Nat
  keyImage : KeyImage
  spent : Bool
  amountBlindingBytes : FixedBytes 32
  txPublicKey : PublicKey
  lockHeight : Option Nat
  subaddressAccount : Option Nat
  subaddressIndex : Option Nat
  deriving DecidableEq

/-- What it is filed under. -/
def UTXO.key (u : UTXO) : OutputId := (u.txHash, u.outputIndex)

/-- `Reservation`: a transaction in flight claims the output. -/
structure Reservation where
  byTx : Hash
  height : Nat
  deriving DecidableEq

def reservationExpiryBlocks : Nat := 300

/-! ## 2. The balance -/

structure Balance where
  utxos : Map OutputId UTXO
  reservations : Map OutputId Reservation
  keyImageIndex : Map KeyImage OutputId
  deriving DecidableEq

namespace Balance

def new : Balance := ⟨∅, ∅, ∅⟩

/-- `add_utxo`: what was filed under the key or the key image before is overwritten. -/
def addUtxo (w : Balance) (u : UTXO) : Balance :=
  { w with keyImageIndex := w.keyImageIndex.insert u.keyImage u.key
           utxos := w.utxos.insert u.key u }

end Balance

end Coincync
