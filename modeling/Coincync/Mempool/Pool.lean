/-
# The mempool

`Mempool` of `src/mempool.rs`: the pending transactions under their hashes, an index by fee rate, the
set of their key images and the sum of their sizes.  Admission (`add`) checks the transaction,
finds the residents it replaces, makes sure by a dry run that there will be room, removes what it
replaces, evicts the cheapest residents until there is room, and inserts.
-/
import Coincync.Lib.Table
import Coincync.Mempool.BasicValidation

namespace Coincync

open Lib Suite

/-! ## 1. The order of hashes -/

theorem Hash.upperBe_inj {a b : Hash} (h : a.upperBe 32 = b.upperBe 32) : a = b := by
  unfold Hash.upperBe at h
  rw [List.take_of_length_le (by simp), List.take_of_length_le (by simp)] at h
  exact Hash.asSlice_inj (foldl_be_inj (by simp) h)

/-- The derived order on hashes: the first differing byte decides. -/
instance : LinearOrder Hash :=
  { PartialOrder.lift (fun h : Hash => h.upperBe 32) fun _ _ => Hash.upperBe_inj with
    le_total := fun a b => Nat.le_total (a.upperBe 32) (b.upperBe 32)
    toDecidableLE := fun a b => inferInstanceAs (Decidable (a.upperBe 32 ≤ b.upperBe 32))
    toDecidableEq := inferInstance }

/-- A key of the fee index: the rate, then the hash. -/
structure FeeKey where
  rate : Nat
  hash : Hash
  deriving DecidableEq

/-- The pair behind a key. -/
def FeeKey.pair (k : FeeKey) : Nat ×ₗ Hash := toLex (k.rate, k.hash)

theorem FeeKey.pair_inj {a b : FeeKey} (h : a.pair = b.pair) : a = b := by
  obtain ⟨r, x⟩ := a
  obtain ⟨r', x'⟩ := b
  have hpair : (r, x) = (r', x') := h
  cases hpair
  rfl

/-- The order of the pairs. -/
instance : LinearOrder FeeKey :=
  { PartialOrder.lift FeeKey.pair fun _ _ => FeeKey.pair_inj with
    le_total := fun a b => le_total a.pair b.pair
    toDecidableLE := fun a b => inferInstanceAs (Decidable (a.pair ≤ b.pair))
    toDecidableEq := inferInstance }

/-! ## 2. Entries and the pool -/

/-- `scaled_fee_per_byte`: millionths per byte, clamped to `u64`. -/
def scaledFeePerByte (feeAtomic size : Nat) : Nat :=
  min (feeAtomic * 1000000 / max size 1) (2 ^ 64 - 1)

structure MempoolEntry (G : Type) where
  tx : Transaction G
  txHash : Hash
  fee : Amount
  feePerByte : Nat
  size : Nat
  addedTime : Nat
  heightAdded : Nat
  deriving DecidableEq

structure Mempool (G : Type) where
  transactions : OrdMap Hash (MempoolEntry G)
  byFee : OrdMap FeeKey Hash
  keyImages : Finset KeyImage
  maxSize : Nat
  currentSize : Nat
  chainHeight : Nat

/-- Why a transaction is not admitted. -/
inductive MempoolError
  | coinbase
  | basic (e : BasicError)
  | privacy (e : PrivacyError)
  | rangeProof
  | balanceProof
  | ringSignature (idx : Nat)
  | transactionTooLarge (size max : Nat)
  | feeTooLow (fee min : Nat)
  | duplicateKeyImage
  | mempoolFull
  deriving DecidableEq

def maxMempoolBytes : Nat := 300 * 1024 * 1024

def txExpiryBlocks : Nat := 288

def maxEvictionAttempts : Nat := 100

variable {F G : Type} [Field F] [AddCommGroup G] [Module F G] (S : Suite F G)

def MempoolEntry.new (tx : Transaction G) (height time : Nat) : MempoolEntry G where
  tx := tx
  txHash := tx.hash S
  fee := tx.fee
  feePerByte := scaledFeePerByte tx.fee.val (tx.size S)
  size := max (tx.size S) 1
  addedTime := time
  heightAdded := height

namespace Mempool

def withMaxSize (maxSize : Nat) : Mempool G := ⟨.empty, .empty, ∅, maxSize, 0, 0⟩

def new : Mempool G := withMaxSize maxMempoolBytes

variable (p : Mempool G)

/-! ## 3. Removal -/

def remove (txHash : Hash) : Mempool G :=
  match p.transactions.lookup txHash with
  | some entry =>
    { p with
      transactions := p.transactions.remove txHash
      keyImages := entry.tx.keyImages.foldl (fun s ki => s.erase ki) p.keyImages
      byFee := p.byFee.remove ⟨entry.feePerByte, txHash⟩
      currentSize := p.currentSize - entry.size }
  | none => p

/-- The removal loops. -/
def removeAll (hashes : List Hash) : Mempool G := hashes.foldl remove p

/-- The hashes of the entries that pass a test. -/
def hashesWhere (test : MempoolEntry G → Bool) : List Hash :=
  (p.transactions.entries.filter fun e => test e.2).map Prod.fst

def expireOldTransactions (currentHeight : Nat) : Mempool G :=
  p.removeAll (p.hashesWhere fun e => decide (txExpiryBlocks < currentHeight - e.heightAdded))

def setHeight (height : Nat) : Mempool G :=
  { p with chainHeight := height }.expireOldTransactions height

/-- `expire_old`, at the time `now`. -/
def expireOld (maxAgeSecs now : Nat) : Mempool G :=
  p.removeAll (p.hashesWhere fun e => decide (maxAgeSecs < now - e.addedTime))

/-- Walk the pool for the entry that has a key image. -/
def conflicting (ki : KeyImage) : Option (Hash × MempoolEntry G) :=
  p.transactions.entries.find? fun e => decide (ki ∈ e.2.tx.keyImages)

/-- The collection of pass 2 of `remove_confirmed`. -/
def shadowConflicts : List KeyImage → List Hash → List Hash
  | [], found => found
  | ki :: rest, found =>
    match p.conflicting ki with
    | some (h, _) => shadowConflicts rest (if h ∈ found then found else found ++ [h])
    | none => shadowConflicts rest found

/-- `remove_confirmed`: the transactions of a block, then what conflicts with them. -/
def removeConfirmed (txs : List (Transaction G)) : Mempool G :=
  let p := p.removeAll (txs.map (Transaction.hash S))
  p.removeAll (p.shadowConflicts (txs.flatMap Transaction.keyImages) [])

/-- `shadow_evict_invalid`, for what the chain says of a transaction. -/
def shadowEvictInvalid (valid : Transaction G → Bool) : Mempool G :=
  p.removeAll (p.hashesWhere fun e => !valid e.tx)

def removeConflicts (keyImages : List KeyImage) : Mempool G :=
  p.removeAll (p.hashesWhere fun e => e.tx.keyImages.any fun ki => keyImages.contains ki)

def clear : Mempool G :=
  { p with transactions := .empty, byFee := .empty, keyImages := ∅, currentSize := 0 }

def evictLowestFee : Mempool G :=
  match p.byFee.entries with
  | (key, _) :: _ => p.remove key.hash
  | [] => p

/-! ## 4. Admission -/

/-- The multiplier of the minimum fee, by how full the pool is. -/
def feeMultiplier : Nat :=
  let fullnessPct := if 0 < p.maxSize then p.currentSize * 100 / p.maxSize else 0
  if fullnessPct < 25 then 1
  else if fullnessPct < 50 then 2
  else if fullnessPct < 75 then 4
  else 8

/-- Whether a rate replaces another: 25% more, and more at all. -/
def replaces (newRate oldRate : Nat) : Bool :=
  decide (oldRate * 125 ≤ newRate * 100 ∧ oldRate < newRate)

/-- The residents that the new transaction replaces, or the error for one it may not replace. -/
def collectReplaced (newRate : Nat) : List KeyImage → List Hash → Except MempoolError (List Hash)
  | [], found => .ok found
  | ki :: rest, found =>
    if ki ∈ p.keyImages then
      match p.conflicting ki with
      | some (old, entry) =>
        if replaces newRate entry.feePerByte = true then
          collectReplaced newRate rest (if old ∈ found then found else found ++ [old])
        else .error .duplicateKeyImage
      | none => .error .duplicateKeyImage
    else collectReplaced newRate rest found

/-- The dry run of the eviction, cheapest first: what the size would come down to. -/
def simulateEviction (replaced : List Hash) (size : Nat) : List Hash → Nat → Nat → Nat
  | [], simulated, _ => simulated
  | h :: rest, simulated, attempts =>
    if simulated + size ≤ p.maxSize ∨ maxEvictionAttempts ≤ attempts then simulated
    else if h ∈ replaced then simulateEviction replaced size rest simulated attempts
    else
      match p.transactions.lookup h with
      | some e => simulateEviction replaced size rest (simulated - e.size) (attempts + 1)
      | none => simulateEviction replaced size rest simulated attempts

/-- The size that would be left, replacements first. -/
def simulatedSize (replaced : List Hash) (size : Nat) : Nat :=
  let replacedFreed := ((replaced.filterMap p.transactions.lookup).map MempoolEntry.size).sum
  p.simulateEviction replaced size p.byFee.values (p.currentSize - replacedFreed) 0

/-- The eviction loop, with the attempts it has left; it fails when the size did not fall or with
the last attempt, even if that made room. -/
def evictLoop (size : Nat) : Nat → Mempool G → Mempool G × Bool
  | 0, p => (p, false)
  | attempts + 1, p =>
    if p.currentSize + size ≤ p.maxSize ∨ p.transactions.isEmpty = true then (p, true)
    else
      let p' := p.evictLowestFee
      if p.currentSize ≤ p'.currentSize ∨ attempts = 0 then (p', false)
      else evictLoop size attempts p'

/-- The insertion at the end of `admit_after_checks`. -/
def insertEntry (txHash : Hash) (entry : MempoolEntry G) : Mempool G :=
  { p with
    keyImages := entry.tx.keyImages.foldl (fun s ki => insert ki s) p.keyImages
    byFee := p.byFee.insert ⟨entry.feePerByte, txHash⟩ txHash
    currentSize := p.currentSize + entry.size
    transactions := p.transactions.insert txHash entry }

/-- `admit_after_checks`, at the time `now`. -/
def admitAfterChecks (tx : Transaction G) (txHash : Hash) (now : Nat) :
    Mempool G × Except MempoolError Hash :=
  let size := tx.size S
  let minFee := size * minFeePerByte * p.feeMultiplier
  if maxTxSize < size then (p, .error (.transactionTooLarge size maxTxSize))
  else if tx.fee.val < minFee then (p, .error (.feeTooLow tx.fee.val minFee))
  else
    match p.collectReplaced (scaledFeePerByte tx.fee.val size) tx.keyImages [] with
    | .error e => (p, .error e)
    | .ok replaced =>
      if p.maxSize < p.simulatedSize replaced size + size then (p, .error .mempoolFull)
      else
        let evicted := evictLoop size maxEvictionAttempts (p.removeAll replaced)
        if evicted.2 = true then
          (evicted.1.insertEntry txHash (.new S tx evicted.1.chainHeight now), .ok txHash)
        else (evicted.1, .error .mempoolFull)

variable [DecidableEq F] [DecidableEq G]

def preflightCheck (tx : Transaction G) : Except MempoolError Unit := do
  require (tx.isCoinbase = false) .coinbase
  (validateTransactionBasic S tx).mapError .basic
  checkIf (!tx.isCoinbase) ((checkTxPrivacy S tx).mapError .privacy)

/-- `verify_crypto_for_admission`, given what the cache answers. -/
def verifyCryptoForAdmission (ctx : CallContext G) (tx : Transaction G) :
    Except MempoolError Unit :=
  if tx.isCoinbase = true then .ok ()
  else do
    require (verifyOutputRangeProofs S ctx tx = true) .rangeProof
    require (verifyBalanceProof S tx = true) .balanceProof
    checkAll (fun i : TxInput G × Nat =>
      require (ringSigVerdict S ctx tx i = true) (.ringSignature i.2)) tx.inputs.zipIdx

/-- `add` (and `accept`): checks, then admission. -/
def add (ctx : CallContext G) (tx : Transaction G) (now : Nat) :
    Mempool G × Except MempoolError Hash :=
  let txHash := tx.hash S
  match preflightCheck S tx with
  | .error e => (p, .error e)
  | .ok () =>
    if (p.transactions.lookup txHash).isSome = true then (p, .ok txHash)
    else
      match verifyCryptoForAdmission S ctx tx with
      | .error e => (p, .error e)
      | .ok () => p.admitAfterChecks S tx txHash now

/-! ## 5. Selection for a block -/

/-- The loop of `get_block_transactions` over the hashes, dearest first. -/
def selectLoop (maxSize maxCount : Nat) :
    List Hash → List (Transaction G) → Nat → List KeyImage → List (Transaction G)
  | [], selected, _, _ => selected
  | h :: rest, selected, totalSize, images =>
    if maxCount ≤ selected.length then selected
    else
      match p.transactions.lookup h with
      | some entry =>
        if totalSize + entry.size ≤ maxSize then
          if entry.tx.keyImages.any fun ki => images.contains ki then
            selectLoop maxSize maxCount rest selected totalSize images
          else
            selectLoop maxSize maxCount rest (selected ++ [entry.tx]) (totalSize + entry.size)
              (images ++ entry.tx.keyImages)
        else selectLoop maxSize maxCount rest selected totalSize images
      | none => selectLoop maxSize maxCount rest selected totalSize images

def getBlockTransactions (maxSize maxCount : Nat) : List (Transaction G) :=
  p.selectLoop maxSize maxCount p.byFee.values.reverse [] 0 []

end Mempool

/-- `validate_transaction` of the chain, at the next height. -/
def Blockchain.validateTransaction [DecidableEq F] [DecidableEq G] (cfg : NodeConfig)
    (ctx : CallContext G) (st : Blockchain G) (tx : Transaction G) : Except TxError Unit :=
  validateTransactionForNetwork S cfg ctx tx st.utxos (st.tip.height + 1) st.network

end Coincync
