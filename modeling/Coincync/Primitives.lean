/-
# Primitive types: hashes, keys, amounts

`src/primitives/hash.rs`, `keys.rs` and `amount.rs`.  A hash, a public key and a key image are
32 bytes each and differ only in their type; an amount is a `u64` of atomic units.  What the
consensus rules do with a hash besides comparing it for equality is here: the lexicographic
test `meets_difficulty`, and the target of a difficulty, `from_difficulty`.
-/
import Coincync.Lib.Bytes

namespace Coincync

open Lib

/-! ## 1. 32-byte values -/

/-- A 32-byte hash. -/
structure Hash where
  bytes : FixedBytes 32
  deriving DecidableEq

/-- A 32-byte public key (a compressed point, not checked to be one). -/
structure PublicKey where
  bytes : FixedBytes 32
  deriving DecidableEq

/-- The key image a transaction input states, as bytes. -/
structure KeyImage where
  bytes : FixedBytes 32
  deriving DecidableEq

namespace Hash

def asSlice (h : Hash) : Bytes := h.bytes.toList

@[simp] theorem length_asSlice (h : Hash) : h.asSlice.length = 32 := h.bytes.toList_length

theorem asSlice_inj {a b : Hash} (h : a.asSlice = b.asSlice) : a = b := by
  cases a
  cases b
  congr
  exact List.Vector.eq _ _ h

def zero : Hash := ⟨FixedBytes.replicate 32 0⟩

/-- The comparison loop of `meets_difficulty`: the first differing byte decides, and equal
hashes pass. -/
def meetsDifficultyFrom : Bytes → Bytes → Bool
  | a :: s, b :: t =>
    if a < b then true
    else if b < a then false
    else meetsDifficultyFrom s t
  | _, _ => true

/-- `Hash::meets_difficulty`: the hash is lexicographically at most the target. -/
def meetsDifficulty (h target : Hash) : Bool := meetsDifficultyFrom h.asSlice target.asSlice

/-- The derived order on `[u8; 32]`: strictly smaller at the first differing byte. -/
def lt (a b : Hash) : Bool := decide (a.asSlice < b.asSlice)

/-- `Hash::from_difficulty`: `⌊log₂ d⌋` leading zero bits, then ones. -/
def fromDifficulty (difficulty : Nat) : Hash :=
  if difficulty = 0 then ⟨FixedBytes.replicate 32 0xFF⟩
  else
    let leadingZeroBits := difficulty.log2
    let fullZeroBytes := leadingZeroBits / 8
    let partialBits := leadingZeroBits % 8
    ⟨List.Vector.ofFn fun i : Fin 32 =>
      if i.val < min fullZeroBytes 32 then 0
      else if i.val = fullZeroBytes ∧ 0 < partialBits then
        UInt8.ofNat (0xFF / 2 ^ partialBits)
      else 0xFF⟩

/-- The first `n` bytes of the hash as a big-endian number (`u128::from_be_bytes` of the upper
half, for `n = 16`). -/
def upperBe (n : Nat) (h : Hash) : Nat :=
  (h.asSlice.take n).foldl (fun acc b => acc * 256 + b.toNat) 0

theorem foldl_be_lt : ∀ (l : Bytes) (acc : Nat),
    l.foldl (fun acc b => acc * 256 + b.toNat) acc < (acc + 1) * 256 ^ l.length
  | [], acc => by simp
  | x :: l, acc => by
    have hx : x.toNat < 256 := x.toNat_lt
    have hle : acc * 256 + x.toNat + 1 ≤ (acc + 1) * 256 := by omega
    calc
      (x :: l).foldl (fun acc b => acc * 256 + b.toNat) acc
          < (acc * 256 + x.toNat + 1) * 256 ^ l.length := foldl_be_lt l _
      _ ≤ (acc + 1) * 256 * 256 ^ l.length := Nat.mul_le_mul_right _ hle
      _ = (acc + 1) * 256 ^ (x :: l).length := by
        rw [List.length_cons, Nat.pow_succ', mul_assoc]

theorem upperBe_lt (h : Hash) {n : Nat} (hn : n ≤ 32) : h.upperBe n < 256 ^ n := by
  have hlt := foldl_be_lt (h.asSlice.take n) 0
  have hlen : (h.asSlice.take n).length = n := by
    rw [List.length_take, length_asSlice, min_eq_left hn]
  rwa [hlen, zero_add, one_mul] at hlt

end Hash

namespace PublicKey

/-- `PublicKey::as_bytes`, as a slice. -/
def asSlice (k : PublicKey) : Bytes := k.bytes.toList

@[simp] theorem length_asSlice (k : PublicKey) : k.asSlice.length = 32 := k.bytes.toList_length

theorem asSlice_inj {a b : PublicKey} (h : a.asSlice = b.asSlice) : a = b := by
  cases a
  cases b
  congr
  exact List.Vector.eq _ _ h

end PublicKey

namespace KeyImage

/-- `KeyImage::as_bytes`, as a slice. -/
def asSlice (k : KeyImage) : Bytes := k.bytes.toList

end KeyImage

/-! ## 2. Amounts -/

/-- An amount in atomic units. -/
structure Amount where
  atomic : UInt64
  deriving DecidableEq

namespace Amount

def zero : Amount := ⟨0⟩

/-- The amount as a number. -/
def val (a : Amount) : Nat := a.atomic.toNat

/-- `Amount::checked_add`: `none` on overflow. -/
def checkedAdd (a b : Amount) : Option Amount :=
  if a.val + b.val < 2 ^ 64 then some ⟨UInt64.ofNat (a.val + b.val)⟩ else none

def saturatingAdd (a b : Amount) : Amount :=
  ⟨UInt64.ofNat (min (a.val + b.val) (2 ^ 64 - 1))⟩

/-- The `Sum` instance of `Amount`: additions that saturate. -/
def sum (l : List Amount) : Amount := l.foldl saturatingAdd zero

end Amount

/-- The largest `u64`, where a sum would be larger. -/
def saturate (n : Nat) : Nat := min n (2 ^ 64 - 1)

/-- The `Sum` instance of `Amount`, on numbers. -/
def satSum (l : List Nat) : Nat := l.foldl (fun s a => saturate (s + a)) 0

theorem saturate_saturate_add (m n : Nat) : saturate (saturate m + n) = saturate (m + n) := by
  unfold saturate
  omega

theorem satSum_eq (l : List Nat) : satSum l = saturate l.sum := by
  have hfold : ∀ s, l.foldl (fun s a => saturate (s + a)) (saturate s) = saturate (s + l.sum) := by
    induction l with
    | nil => exact fun s => rfl
    | cons a l ih =>
      intro s
      rw [List.foldl_cons, saturate_saturate_add, ih, List.sum_cons, add_assoc]
  have hzero := hfold 0
  rwa [zero_add] at hzero

theorem Amount.val_sum (l : List Amount) :
    (Amount.sum l).val = saturate (l.map Amount.val).sum := by
  have hadd : ∀ a b : Amount, saturate (a.val + b.val) = (a.saturatingAdd b).val := fun a b =>
    (UInt64.toNat_ofNat_of_lt' (show _ < 2 ^ 64 by unfold saturate; omega)).symm
  rw [← satSum_eq, satSum, List.foldl_map]
  exact (List.foldl_hom Amount.val hadd).symm

end Coincync
