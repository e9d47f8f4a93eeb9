/-
# A small suite to run the model with

The theorems of this development hold for every `Suite`.  To evaluate the model on a concrete
input one is needed, and this file has it: scalars and points are both `ZMod 101`, a point is
encoded by its residue in the first of 32 bytes -- except the value generator, which keeps the
encoding the source hard-codes -- and the digests are polynomial hashes; a range proof is the
digest of the commitments.  It has every law `Suite` asks for and no security.
-/
import Coincync.Crypto.Suite

namespace Coincync.SmallSuite

open Lib

instance factPrime : Fact (Nat.Prime 101) := ⟨by norm_num⟩

/-- Scalars and points. -/
abbrev Z := ZMod 101

instance instOfNatZ (n : Nat) : OfNat Z (n + 2) := ⟨((n + 2 : Nat) : Z)⟩

/-- A residue from a natural number, by one division. -/
def ofNat (n : Nat) : Z := (⟨n % 101, Nat.mod_lt _ (by decide)⟩ : Fin 101)

/-- A polynomial digest of `w` bytes. -/
def digest (w : Nat) (seed : Nat) (data : Bytes) : FixedBytes w :=
  ⟨leBytes w (data.foldl (fun h b => (h * 257 + b.toNat + 1) % (2 ^ (8 * w) - 189)) seed),
    length_leBytes w _⟩

/-- The encoding of a residue other than the value generator's. -/
def encode (v : Z) : FixedBytes 32 :=
  ⟨UInt8.ofNat v.val :: List.replicate 31 0, rfl⟩

/-- The value generator is the residue 2. -/
def compress (v : Z) : FixedBytes 32 := if v = 2 then Suite.hBytes else encode v

/-- The residue the first byte states, when that is what the whole string encodes. -/
def decompress (b : FixedBytes 32) : Option Z :=
  if b = Suite.hBytes then some 2
  else
    let v := ofNat b.head.toNat
    if v ≠ 2 ∧ encode v = b then some v else none

theorem decompress_compress : ∀ v : Z, decompress (compress v) = some v := by
  decide +kernel

theorem compress_of_decompress (b : FixedBytes 32) (v : Z) (h : decompress b = some v) :
    compress v = b := by
  simp only [decompress] at h
  split_ifs at h with h1 h2
  · cases h
    simp [compress, h1]
  · cases h
    simp [compress, h2.1, h2.2]

/-- Decoding of scalars: the encoding is that of points without the exception. -/
def scalarFromCanonical (b : FixedBytes 32) : Option Z :=
  let v := ofNat b.head.toNat
  if encode v = b then some v else none

theorem fromCanonical_toBytes : ∀ s : Z, scalarFromCanonical (encode s) = some s := by
  decide +kernel

theorem toBytes_of_fromCanonical (b : FixedBytes 32) (s : Z)
    (h : scalarFromCanonical b = some s) : encode s = b := by
  simp only [scalarFromCanonical] at h
  split_ifs at h with h1
  cases h
  exact h1

/-- **The small suite**, for a given BLAKE3. -/
def suite (blake3 : Bytes → FixedBytes 32) : Suite Z Z where
  blake3 := blake3
  sha3 := digest 64 5
  randomx := fun key input => digest 32 11 (key.toList ++ input)
  bpPlusVerify := fun points data =>
    data == (digest 32 3 (points.flatMap fun p => (compress p).toList)).toList
  basepoint := 1
  fromUniformBytes := fun b => ofNat (fromLeBytes b.toList)
  compress := compress
  decompress := decompress
  decompress_compress := decompress_compress
  compress_of_decompress := compress_of_decompress
  scalarFromWide := fun b => ofNat (fromLeBytes b.toList)
  scalarToBytes := encode
  scalarFromCanonical := scalarFromCanonical
  fromCanonical_toBytes := fromCanonical_toBytes
  toBytes_of_fromCanonical := toBytes_of_fromCanonical

end Coincync.SmallSuite
