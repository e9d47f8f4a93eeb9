/-
# A suite with room for amounts

The group of the small suite has 101 elements, so amounts wrap.  This one has a field of
`2 ^ 89 - 1` elements and points with two coordinates, blinding and value: the generators are
independent, a point IS its opening, and a range proof is checked by looking.  It has every law
`Suite` asks for, and what the cryptography is assumed to give (`binding`, `rangeProof_sound`).
-/
import Coincync.Crypto.SmallSuite
import Coincync.Lib.Pedersen

namespace Coincync.WideSuite

open Lib SmallSuite

/-! ## 1. Scalars and points -/

/-- The Mersenne prime `2 ^ 89 - 1`. -/
abbrev order : Nat := 618970019642690137449562111

instance : Fact (Nat.Prime order) :=
  ⟨lucas_lehmer_sufficiency 89 (by norm_num) (by norm_num)⟩

/-- Scalars. -/
abbrev W := ZMod order

instance instOfNatW (n : Nat) : OfNat W (n + 2) := ⟨((n + 2 : Nat) : W)⟩

/-- A scalar from a natural number, by one division. -/
def ofNat (n : Nat) : W := (⟨n % order, Nat.mod_lt _ (by decide)⟩ : Fin order)

theorem val_lt (s : W) : s.val < 256 ^ 16 := s.val_lt.trans (by decide)

theorem ofNat_val (s : W) : ofNat s.val = s := by
  have h : (s : Fin order).val % order = (s : Fin order).val := Nat.mod_eq_of_lt (Fin.isLt s)
  exact Fin.ext h

/-- Two numbers of 16 bytes each. -/
def encode (v : W × W) : FixedBytes 32 :=
  ⟨leBytes 16 v.1.val ++ leBytes 16 v.2.val, by simp⟩

/-- The value generator is the second unit vector. -/
def compress (v : W × W) : FixedBytes 32 := if v = (0, 1) then Suite.hBytes else encode v

/-- The point that the two halves state, when that is what the whole string encodes. -/
def decompress (b : FixedBytes 32) : Option (W × W) :=
  if b = Suite.hBytes then some (0, 1)
  else
    let v := (ofNat (fromLeBytes (b.toList.take 16)), ofNat (fromLeBytes (b.toList.drop 16)))
    if v ≠ (0, 1) ∧ encode v = b then some v else none

theorem fromLeBytes_half (s : W) : ofNat (fromLeBytes (leBytes 16 s.val)) = s := by
  rw [fromLeBytes_leBytes, Nat.mod_eq_of_lt (val_lt s), ofNat_val]

theorem encode_ne_hBytes (v : W × W) : encode v ≠ Suite.hBytes := by
  intro h
  have hhalf : (encode v).toList.take 16 = leBytes 16 v.1.val := by
    change (leBytes 16 v.1.val ++ leBytes 16 v.2.val).take 16 = _
    rw [List.take_left' (length_leBytes 16 _)]
  have hnum := congrArg fromLeBytes hhalf
  rw [h, fromLeBytes_leBytes, Nat.mod_eq_of_lt (val_lt _)] at hnum
  have hlt : v.1.val < order := v.1.val_lt
  rw [← hnum] at hlt
  exact absurd hlt (by decide)

theorem decompress_compress (v : W × W) : decompress (compress v) = some v := by
  unfold decompress compress
  by_cases h01 : v = (0, 1)
  · rw [if_pos h01, if_pos rfl, h01]
  · rw [if_neg h01, if_neg (encode_ne_hBytes v)]
    have hv : (ofNat (fromLeBytes ((encode v).toList.take 16)),
        ofNat (fromLeBytes ((encode v).toList.drop 16))) = v := by
      change (ofNat (fromLeBytes ((leBytes 16 v.1.val ++ leBytes 16 v.2.val).take 16)),
        ofNat (fromLeBytes ((leBytes 16 v.1.val ++ leBytes 16 v.2.val).drop 16))) = v
      rw [List.take_left' (length_leBytes 16 _), List.drop_left' (length_leBytes 16 _),
        fromLeBytes_half, fromLeBytes_half]
    simp only [hv, h01, ne_eq, not_false_eq_true, and_self, if_true]

theorem compress_of_decompress (b : FixedBytes 32) (v : W × W) (h : decompress b = some v) :
    compress v = b := by
  simp only [decompress] at h
  split_ifs at h with h1 h2
  · cases h
    rw [compress, if_pos rfl, h1]
  · cases h
    rw [compress, if_neg h2.1, h2.2]

/-- Scalars are numbers of 32 bytes. -/
def encodeScalar (s : W) : FixedBytes 32 := ⟨leBytes 32 s.val, length_leBytes 32 _⟩

def scalarFromCanonical (b : FixedBytes 32) : Option W :=
  let s := ofNat (fromLeBytes b.toList)
  if encodeScalar s = b then some s else none

theorem fromCanonical_toBytes (s : W) : scalarFromCanonical (encodeScalar s) = some s := by
  have hs : ofNat (fromLeBytes (encodeScalar s).toList) = s := by
    change ofNat (fromLeBytes (leBytes 32 s.val)) = s
    rw [fromLeBytes_leBytes, Nat.mod_eq_of_lt ((val_lt s).trans (by decide)), ofNat_val]
  simp only [scalarFromCanonical, hs, if_true]

theorem toBytes_of_fromCanonical (b : FixedBytes 32) (s : W)
    (h : scalarFromCanonical b = some s) : encodeScalar s = b := by
  simp only [scalarFromCanonical] at h
  split_ifs at h with h1
  cases h
  exact h1

/-! ## 2. The suite -/

/-- **The wide suite**, for a given BLAKE3 and RandomX. -/
def suite (blake3 : Bytes → FixedBytes 32) : Suite W (W × W) where
  blake3 := blake3
  sha3 := digest 64 5
  randomx := fun _ _ => FixedBytes.replicate 32 0
  bpPlusVerify := fun points data =>
    points.all (fun P => decide (P.2.val < 2 ^ 64)) &&
      data == (digest 32 3 (points.flatMap fun P => (compress P).toList)).toList
  basepoint := (1, 0)
  fromUniformBytes := fun b => (ofNat (fromLeBytes b.toList), 0)
  compress := compress
  decompress := decompress
  decompress_compress := decompress_compress
  compress_of_decompress := compress_of_decompress
  scalarFromWide := fun b => ofNat (fromLeBytes b.toList)
  scalarToBytes := encodeScalar
  scalarFromCanonical := scalarFromCanonical
  fromCanonical_toBytes := fromCanonical_toBytes
  toBytes_of_fromCanonical := toBytes_of_fromCanonical

variable (blake3 : Bytes → FixedBytes 32)

theorem generatorH_eq : (suite blake3).generatorH = (0, 1) := by
  rw [Suite.generatorH]
  change (decompress Suite.hBytes).getD 0 = (0, 1)
  rw [decompress, if_pos rfl, Option.getD_some]

theorem opens_iff {P : W × W} {v : W} :
    Opens (suite blake3).generatorH (suite blake3).generator P v ↔ P.2 = v := by
  rw [generatorH_eq]
  constructor
  · rintro ⟨r, rfl⟩
    change (v • (0, 1) + r • ((1, 0) : W × W)).2 = v
    simp
  · rintro rfl
    refine ⟨P.1, Prod.ext ?_ ?_⟩
    · change P.1 = (P.2 • (0, 1) + P.1 • ((1, 0) : W × W)).1
      simp
    · change P.2 = (P.2 • (0, 1) + P.1 • ((1, 0) : W × W)).2
      simp

theorem binding : Binding W (suite blake3).generatorH (suite blake3).generator := by
  intro P v w hv hw
  exact ((opens_iff blake3).mp hv).symm.trans ((opens_iff blake3).mp hw)

theorem rangeProof_sound {points : List (W × W)} {data : Bytes}
    (h : (suite blake3).bpPlusVerify points data = true) {P : W × W} (hP : P ∈ points) :
    ∃ v < 2 ^ 64, Opens (suite blake3).generatorH (suite blake3).generator P ((v : ℕ) : W) := by
  simp only [suite, Bool.and_eq_true, List.all_eq_true, decide_eq_true_eq] at h
  exact ⟨P.2.val, h.1 P hP, (opens_iff blake3).mpr (ZMod.natCast_zmod_val P.2).symm⟩

end Coincync.WideSuite
