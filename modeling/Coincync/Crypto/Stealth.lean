/-
# Stealth addresses

`src/crypto/stealth.rs`, and the keys of a subaddress from `src/wallet/subaddress.rs`.  A sender
draws `r`, pays to the one-time key `H(r V) G + B`, and publishes `R` beside it: `r G` for a main
address, whose view key `V` is `a G`, and `r D` for a subaddress, whose spend key is `D` and whose
view key is `a D`.  Either way `r V = a R`.  That is all that recognising an output
(`isOutputOurs_iff`) and spending it (`exists_computeOneTimeSecret`) rest on, so both are stated for
an address that is made from `a R` (`AddressedTo`), whoever made it.
-/
import Coincync.Crypto.Suite

namespace Coincync

open Lib Suite

/-! ## 1. Keys, randomness and errors -/

/-- `SecretKey`: 32 bytes. -/
structure SecretKey where
  bytes : FixedBytes 32
  deriving DecidableEq

/-- **The suite of a wallet**: it also reduces 32 bytes to a scalar. -/
structure KeySuite (F G : Type) [Field F] [AddCommGroup G] [Module F G] extends Suite F G where
  /-- `Scalar::from_bytes_mod_order`. -/
  scalarFromBytes : FixedBytes 32 → F
  scalarFromBytes_toBytes : ∀ s, scalarFromBytes (scalarToBytes s) = s

/-- **A random number generator**, of which nothing is known but the range of what it draws. -/
structure Rng (ρ F : Type) where
  /-- `SecretKey::generate`. -/
  key : ρ → SecretKey × ρ
  /-- `SecretScalar::random` and `BlindingFactor::random`. -/
  scalar : ρ → F × ρ
  /-- `gen_range(0..n)`, and the index that `choose` takes. -/
  below : Nat → ρ → Nat × ρ
  below_lt : ∀ n r, 0 < n → (below n r).1 < n
  /-- `shuffle`. -/
  shuffle : {α : Type} → List α → ρ → List α × ρ
  shuffle_perm : ∀ {α : Type} (l : List α) (r : ρ), (shuffle l r).1.Perm l

/-- What can go wrong when a transaction is made (`src/error.rs`). -/
inductive WalletError
  | invalidPublicKey (reason : String)
  | cryptoError (reason : String)
  | invalidState (reason : String)
  | invalidRingSize (expected got : Nat)
  | invalidInputCount (count max : Nat)
  | invalidOutputCount (count max : Nat)
  | outputTooSmall (amount min : Nat)
  | amountOverflow
  | transactionUnbalanced (inputs outputs : Nat)
  | invalidSigningParameters
  | noOutputsAvailable
  | insufficientBalance (have_ need : Nat)
  | insufficientInputs (have_ need : Nat)
  | noUtxoPairCovers (target utxoCount total largestPair maxSafe : Nat)
  | balancePendingMaturity (spendable pending pendingUtxos need blocksToWait secondsToWait : Nat)
  | ringCountMismatch (expected got : Nat)
  | ringSizeMismatch (expected got : Nat)
  | ringInputMismatch
  | walletLocked
  deriving DecidableEq

/-- `StealthAddress`: a one-time key and the public key of its transaction. -/
structure StealthAddress where
  publicKey : PublicKey
  txPublicKey : PublicKey
  deriving DecidableEq

namespace KeySuite

variable {ρ F G : Type} [Field F] [AddCommGroup G] [Module F G] (K : KeySuite F G)

/-! ## 2. Making an address -/

/-- `SecretScalar::from_bytes` of a secret key. -/
def scalarOf (s : SecretKey) : F := K.scalarFromBytes s.bytes

def publicKey (s : SecretKey) : PublicKey := ⟨K.compress (K.scalarOf s • K.generator)⟩

def hashToScalar (data : Bytes) : F :=
  K.scalarFromWide (K.sha3 (ascii "CoinCync_hash_to_scalar_v1" ++ data))

/-- A shared point and an output index, as everything derived from them hashes them. -/
def sharedInput (shared : G) (idx : UInt8) : Bytes := (K.compress shared).toList ++ [idx]

/-- The one-time key of an output, from the shared point. -/
def oneTimeKey (shared spend : G) (idx : UInt8) : PublicKey :=
  ⟨K.compress (K.hashToScalar (K.sharedInput shared idx) • K.generator + spend)⟩

def generateStealthAddressCheckedExt (rng : Rng ρ F) (spendPub viewPub : PublicKey) (idx : UInt8)
    (isSubaddress : Bool) (r : ρ) : Except WalletError ((StealthAddress × SecretKey) × ρ) :=
  let t := rng.scalar r
  match K.decompress spendPub.bytes with
  | none => .error (.invalidPublicKey "invalid spend public key")
  | some spend =>
    let txPublic := if isSubaddress = true then t.1 • spend else t.1 • K.generator
    match K.decompress viewPub.bytes with
    | none => .error (.invalidPublicKey "invalid view public key")
    | some view =>
      .ok ((⟨K.oneTimeKey (t.1 • view) spend idx, ⟨K.compress txPublic⟩⟩,
        ⟨K.scalarToBytes t.1⟩), t.2)

/-- **The address is one of `spend` at this index**, for the view secret `a`: it is made from the
point that `a` shares with the transaction. -/
def AddressedTo (st : StealthAddress) (a : F) (spend : G) (idx : UInt8) : Prop :=
  ∃ R, K.decompress st.txPublicKey.bytes = some R ∧ st.publicKey = K.oneTimeKey (a • R) spend idx

/-- **What a recipient publishes**: the view key is `a` times the generator, or times the spend key
of a subaddress. -/
def Publishes (a : F) (spendPub viewPub : PublicKey) (isSubaddress : Bool) (spend : G) : Prop :=
  spendPub = ⟨K.compress spend⟩ ∧
    viewPub = ⟨K.compress (a • if isSubaddress = true then spend else K.generator)⟩

variable {K} {rng : Rng ρ F} {spendPub viewPub : PublicKey} {idx : UInt8} {sub : Bool} {r r' : ρ}
  {st : StealthAddress} {tx : SecretKey} {a : F} {spend : G}

/-- **Sender and recipient share a point**, whichever form the transaction key has. -/
theorem generated_addressedTo (hpub : K.Publishes a spendPub viewPub sub spend)
    (h : K.generateStealthAddressCheckedExt rng spendPub viewPub idx sub r = .ok ((st, tx), r')) :
    K.AddressedTo st a spend idx ∧ ∃ V R, K.decompress viewPub.bytes = some V ∧
      K.decompress st.txPublicKey.bytes = some R ∧ K.scalarOf tx • V = a • R := by
  obtain ⟨rfl, rfl⟩ := hpub
  simp only [generateStealthAddressCheckedExt, K.decompress_compress] at h
  generalize rng.scalar r = t at h
  obtain ⟨⟨rfl, rfl⟩, rfl⟩ := Prod.mk.inj (Except.ok.inj h) |>.imp_left Prod.mk.inj
  have hbase : (if sub = true then t.1 • spend else t.1 • K.generator) =
      t.1 • if sub = true then spend else K.generator := (apply_ite (t.1 • ·) _ _ _).symm
  rw [hbase]
  have hshared : t.1 • a • (if sub = true then spend else K.generator) =
      a • t.1 • if sub = true then spend else K.generator := smul_comm _ _ _
  refine ⟨⟨_, K.decompress_compress _, by rw [hshared]⟩, _, _, K.decompress_compress _,
    K.decompress_compress _, ?_⟩
  rw [scalarOf, K.scalarFromBytes_toBytes, hshared]

/-! ## 3. Recognising an output and spending it -/

variable (K)

def isOutputOurs (st : StealthAddress) (viewSecret : SecretKey) (spendPub : PublicKey)
    (idx : UInt8) : Bool :=
  match K.decompress st.txPublicKey.bytes with
  | none => false
  | some txPoint =>
    if K.decompress st.publicKey.bytes = none then false
    else
      match K.decompress spendPub.bytes with
      | none => false
      | some spend => st.publicKey == K.oneTimeKey (K.scalarOf viewSecret • txPoint) spend idx

def computeOneTimeSecret (st : StealthAddress) (viewSecret spendSecret : SecretKey) (idx : UInt8) :
    Except WalletError SecretKey :=
  match K.decompress st.txPublicKey.bytes with
  | none => .error (.invalidPublicKey "invalid tx_public_key")
  | some txPoint =>
    .ok ⟨K.scalarToBytes (K.hashToScalar (K.sharedInput (K.scalarOf viewSecret • txPoint) idx) +
      K.scalarOf spendSecret)⟩

variable {K} {view s : SecretKey} {B : G}

/-- **Of all spend keys the output is that of its own only.** -/
theorem isOutputOurs_iff (hst : K.AddressedTo st (K.scalarOf view) spend idx)
    (hB : K.decompress spendPub.bytes = some B) :
    K.isOutputOurs st view spendPub idx = true ↔ B = spend := by
  obtain ⟨R, hR, hkey⟩ := hst
  unfold isOutputOurs
  rw [hR, hB]
  simp only [hkey, oneTimeKey, K.decompress_compress, reduceCtorEq, if_false, beq_iff_eq,
    PublicKey.mk.injEq]
  rw [K.compress_injective.eq_iff, add_right_inj, eq_comm]

/-- **The secret of the spend key is enough to spend the output.** -/
theorem exists_computeOneTimeSecret (hst : K.AddressedTo st (K.scalarOf view) spend idx)
    (hs : K.scalarOf s • K.generator = spend) :
    ∃ x, K.computeOneTimeSecret st view s idx = .ok x ∧ K.publicKey x = st.publicKey := by
  obtain ⟨R, hR, hkey⟩ := hst
  refine ⟨_, by rw [computeOneTimeSecret, hR], ?_⟩
  rw [publicKey, scalarOf, K.scalarFromBytes_toBytes, add_smul, hs, hkey, oneTimeKey]

/-! ## 4. Subaddresses -/

variable (K)

def subaddressScalar (viewSecret : SecretKey) (account index : Nat) : F :=
  K.scalarFromBytes (K.hashDomain (ascii "COINCYNC_SUBADDR_v1")
    (viewSecret.bytes.toList ++ leBytes 4 account ++ leBytes 4 index)).bytes

/-- The spend point of a subaddress, `b G + m G` (`SubaddressManager::generate_at`); the main
address is the subaddress 0/0. -/
def subaddressPoint (viewSecret spendSecret : SecretKey) (account index : Nat) : G :=
  if account = 0 ∧ index = 0 then K.scalarOf spendSecret • K.generator
  else K.scalarOf spendSecret • K.generator +
    K.subaddressScalar viewSecret account index • K.generator

def computeSubaddressSpendSecret (spendSecret viewSecret : SecretKey) (account index : Nat) :
    SecretKey :=
  if account = 0 ∧ index = 0 then spendSecret
  else ⟨K.scalarToBytes (K.scalarOf spendSecret + K.subaddressScalar viewSecret account index)⟩

theorem scalarOf_computeSubaddressSpendSecret (b view : SecretKey) (account index : Nat) :
    K.scalarOf (K.computeSubaddressSpendSecret b view account index) • K.generator =
      K.subaddressPoint view b account index := by
  unfold computeSubaddressSpendSecret subaddressPoint
  split_ifs
  · rfl
  · rw [scalarOf, K.scalarFromBytes_toBytes, add_smul]

end KeySuite

end Coincync
