/-
# The cryptography the node imports, and what it builds on it

BLAKE3, SHA3-512, the Ristretto group with its scalars, Bulletproofs+ and RandomX come from
third-party crates.  They are the fields of `Suite`, over an arbitrary field `F` of scalars and an arbitrary
`F`-module `G` of points: of the hash functions nothing is assumed, of the encodings only what
the crates document (an encoding decodes to what was encoded, and nothing else decodes to it).
On top of them this file has the node's own helpers: `hash_concat`, `hash_domain`,
`merkle_root` (`src/primitives/hash.rs`), and the generators, `hash_to_point` and Pedersen
commitments of `src/crypto/curve.rs`.
-/
import Coincync.Primitives

namespace Coincync

open Lib

/-! ## 1. The imported functions -/

/-- **The third-party cryptography.**  `F` is the scalar field of the Ristretto group `G`. -/
structure Suite (F G : Type) [Field F] [AddCommGroup G] [Module F G] where
  /-- `blake3::hash`. -/
  blake3 : Bytes → FixedBytes 32
  /-- `Sha3_512`. -/
  sha3 : Bytes → FixedBytes 64
  /-- `randomx` on a VM keyed with the first argument. -/
  randomx : FixedBytes 32 → Bytes → FixedBytes 32
  /-- `RangeProof::from_bytes` and `verify_batch` of `tari_bulletproofs_plus`: the serialized
  proof verifies for these commitments. -/
  bpPlusVerify : List G → Bytes → Bool
  /-- `RISTRETTO_BASEPOINT_POINT`. -/
  basepoint : G
  /-- `RistrettoPoint::from_uniform_bytes`. -/
  fromUniformBytes : FixedBytes 64 → G
  /-- `RistrettoPoint::compress`. -/
  compress : G → FixedBytes 32
  /-- `CompressedRistretto::decompress`. -/
  decompress : FixedBytes 32 → Option G
  decompress_compress : ∀ p, decompress (compress p) = some p
  compress_of_decompress : ∀ b p, decompress b = some p → compress p = b
  /-- `Scalar::from_bytes_mod_order_wide`. -/
  scalarFromWide : FixedBytes 64 → F
  /-- `Scalar::to_bytes`. -/
  scalarToBytes : F → FixedBytes 32
  /-- `Scalar::from_canonical_bytes`. -/
  scalarFromCanonical : FixedBytes 32 → Option F
  fromCanonical_toBytes : ∀ s, scalarFromCanonical (scalarToBytes s) = some s
  toBytes_of_fromCanonical : ∀ b s, scalarFromCanonical b = some s → scalarToBytes s = b

namespace Suite

variable {F G : Type} [Field F] [AddCommGroup G] [Module F G] (S : Suite F G)

theorem compress_injective : Function.Injective S.compress := by
  intro p q h
  have hp := S.decompress_compress p
  rw [h, S.decompress_compress q] at hp
  exact (Option.some.inj hp).symm

theorem scalarToBytes_injective : Function.Injective S.scalarToBytes := by
  intro s t h
  have hs := S.fromCanonical_toBytes s
  rw [h, S.fromCanonical_toBytes t] at hs
  exact (Option.some.inj hs).symm

/-! ## 2. Hashing helpers -/

/-- `hash_concat`: the hash of the parts fed one after the other. -/
def hashConcat (parts : List Bytes) : Hash := ⟨S.blake3 parts.flatten⟩

/-- `hash_domain`: the domain, a zero byte, the data. -/
def hashDomain (domain data : Bytes) : Hash := ⟨S.blake3 (domain ++ [0] ++ data)⟩

/-- One level of the Merkle tree: adjacent pairs, a lone last node paired with itself. -/
def merkleLevel : List Hash → List Hash
  | a :: b :: rest => S.hashConcat [[0x01], a.asSlice, b.asSlice] :: merkleLevel rest
  | [a] => [S.hashConcat [[0x01], a.asSlice, a.asSlice]]
  | [] => []

/-- The `while level.len() > 1` loop; each pass halves the level, so its length is enough fuel. -/
def merkleLoop : Nat → List Hash → List Hash
  | 0, level => level
  | fuel + 1, level => if 1 < level.length then merkleLoop fuel (S.merkleLevel level) else level

def merkleRoot (hashes : List Hash) : Hash :=
  match hashes with
  | [] => Hash.zero
  | [h] => S.hashConcat [[0x00], h.asSlice]
  | _ =>
    let level := hashes.map fun h => S.hashConcat [[0x00], h.asSlice]
    (S.merkleLoop level.length level).head?.getD Hash.zero

/-! ## 3. The curve -/

def generator : G := S.basepoint

/-- The hard-coded encoding of the value generator. -/
def hBytes : FixedBytes 32 :=
  ⟨[0x8c, 0x92, 0x40, 0xb4, 0x56, 0xa9, 0xe6, 0xdc, 0x65, 0xc3, 0x77, 0xa1, 0x04, 0x8d, 0x74,
    0x5f, 0x94, 0xa0, 0x8c, 0xdb, 0x7f, 0x44, 0xcb, 0xcd, 0x7b, 0x46, 0xf3, 0x40, 0x48, 0x87,
    0x11, 0x34], rfl⟩

/-- `generator_h`.  The source expects `H_BYTES` to decompress and aborts at start-up
otherwise. -/
def generatorH : G := (S.decompress hBytes).getD 0

/-- The bytes of an ASCII literal `b"..."`. -/
def ascii (s : String) : Bytes := s.toList.map fun c => UInt8.ofNat c.toNat

def hashToPoint (data : Bytes) : G :=
  S.fromUniformBytes (S.sha3 (ascii "CoinCync_hash_to_point_v1" ++ data))

/-- `Hp(P)`: `hash_to_point` of a point's encoding. -/
def hp (p : G) : G := S.hashToPoint (S.compress p).toList

/-- `Commitment::commit`: the value on `H`, the blinding on `G`. -/
def commit (value : UInt64) (blinding : F) : G :=
  (value.toNat : F) • S.generatorH + blinding • S.generator

/-- `PublicPoint::from_bytes` followed by the identity test the validators make: a valid
encoding of a point other than the identity. -/
def decompressNonIdentity [DecidableEq G] (b : FixedBytes 32) : Option G :=
  (S.decompress b).filter fun p => p ≠ 0

end Suite

end Coincync
