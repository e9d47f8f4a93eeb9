/-
# Bytes and fixed-width encodings

Every digest the node computes is a hash of a hand-written byte string: a domain tag, then each
field in turn, integers little-endian, variable-length fields behind a length or a presence
byte.  This file has the part of that which is not about any one record: the little-endian
encoding of a natural number on a fixed width, that it is injective below the width's bound,
the rule with which an optional field is read back (`optionBytes_append_inj`), and the reader that
takes a fixed number of bytes off the front (`splitBytes`).
-/
import Mathlib

namespace Coincync.Lib

open List

variable {w : Nat}

/-- A byte string. -/
abbrev Bytes := List UInt8

/-! ## 1. Fixed-size arrays `[u8; n]` -/

/-- `[u8; n]`: a byte string that carries its length. -/
abbrev FixedBytes (n : Nat) := List.Vector UInt8 n

/-- `[b; n]`. -/
def FixedBytes.replicate (n : Nat) (b : UInt8) : FixedBytes n := List.Vector.replicate n b

/-! ## 2. `to_le_bytes` -/

/-- The `w` low bytes of `v`, least significant first. -/
def leBytes : Nat → Nat → Bytes
  | 0, _ => []
  | w + 1, v => UInt8.ofNat (v % 256) :: leBytes w (v / 256)

/-- The number a little-endian byte string denotes (`from_le_bytes`). -/
def fromLeBytes : Bytes → Nat
  | [] => 0
  | b :: t => b.toNat + 256 * fromLeBytes t

@[simp] theorem length_leBytes : ∀ (w v : Nat), (leBytes w v).length = w
  | 0, _ => rfl
  | w + 1, v => by simp [leBytes, length_leBytes w]

theorem fromLeBytes_leBytes : ∀ (w v : Nat), fromLeBytes (leBytes w v) = v % 256 ^ w
  | 0, v => by simp [leBytes, fromLeBytes, Nat.mod_one]
  | w + 1, v => by
    have hb : (UInt8.ofNat (v % 256)).toNat = v % 256 := by
      rw [UInt8.toNat_ofNat']
      exact Nat.mod_eq_of_lt (Nat.mod_lt _ (by decide))
    rw [leBytes, fromLeBytes, fromLeBytes_leBytes w, hb, Nat.pow_succ', Nat.mod_mul]

theorem leBytes_inj {a b : Nat} (ha : a < 256 ^ w) (hb : b < 256 ^ w)
    (h : leBytes w a = leBytes w b) : a = b := by
  have h' : fromLeBytes (leBytes w a) = fromLeBytes (leBytes w b) := by rw [h]
  rwa [fromLeBytes_leBytes, fromLeBytes_leBytes, Nat.mod_eq_of_lt ha, Nat.mod_eq_of_lt hb] at h'

/-- `u64::to_le_bytes`. -/
def u64LeBytes (v : UInt64) : Bytes := leBytes 8 v.toNat

/-- `(n as u32).to_le_bytes()`: the length prefix of a variable-length field. -/
def lenBytes (n : Nat) : Bytes := leBytes 4 (n % 2 ^ 32)

/-- A length-prefixed sequence. -/
def vecBytes {α : Type} (enc : α → Bytes) (l : List α) : Bytes := lenBytes l.length ++ l.flatMap enc

@[simp] theorem length_u64LeBytes (v : UInt64) : (u64LeBytes v).length = 8 := length_leBytes 8 _

@[simp] theorem length_lenBytes (n : Nat) : (lenBytes n).length = 4 := length_leBytes 4 _

theorem u64LeBytes_inj {a b : UInt64} (h : u64LeBytes a = u64LeBytes b) : a = b :=
  UInt64.toNat_inj.mp (leBytes_inj a.toNat_lt b.toNat_lt h)

/-! ## 3. Reading an encoding back

An encoding is a concatenation, and two equal concatenations whose first parts have equal
length agree part by part (`List.append_inj`).  Optional fields have two lengths, so they need
a rule of their own. -/

/-- The encoding of an optional field: a presence byte `1` and the value, or the byte `0`. -/
def optionBytes {α : Type} (enc : α → Bytes) : Option α → Bytes
  | some a => 1 :: enc a
  | none => [0]

theorem optionBytes_append_inj {α : Type} {enc : α → Bytes} (hlen : ∀ a, (enc a).length = w)
    (hinj : Function.Injective enc) {o o' : Option α} {t t' : Bytes}
    (h : optionBytes enc o ++ t = optionBytes enc o' ++ t') : o = o' ∧ t = t' := by
  cases o with
  | none =>
    cases o' with
    | none => simpa [optionBytes] using h
    | some b => simp [optionBytes] at h
  | some a =>
    cases o' with
    | none => simp [optionBytes] at h
    | some b =>
      simp only [optionBytes, cons_append, List.cons.injEq, true_and] at h
      obtain ⟨h1, h2⟩ := append_inj h (by rw [hlen, hlen])
      exact ⟨by rw [hinj h1], h2⟩

theorem flatMap_inj_of_length {α : Type} {enc : α → Bytes} (hw : 0 < w)
    (hlen : ∀ a, (enc a).length = w) (hinj : Function.Injective enc) :
    ∀ {l l' : List α}, l.flatMap enc = l'.flatMap enc → l = l'
  | [], [], _ => rfl
  | [], b :: t, h => by
    have hl := congrArg List.length h
    simp only [flatMap_nil, flatMap_cons, length_nil, length_append, hlen] at hl
    omega
  | a :: t, [], h => by
    have hl := congrArg List.length h
    simp only [flatMap_nil, flatMap_cons, length_nil, length_append, hlen] at hl
    omega
  | a :: t, b :: t', h => by
    rw [flatMap_cons, flatMap_cons] at h
    obtain ⟨h1, h2⟩ := append_inj h (by rw [hlen, hlen])
    rw [hinj h1, flatMap_inj_of_length hw hlen hinj h2]

/-! ## 4. Reading bytes off the front -/

/-- The first `n` bytes and the rest. -/
def splitBytes (n : Nat) (data : Bytes) : Option (FixedBytes n × Bytes) :=
  if h : n ≤ data.length then some (⟨data.take n, by simp [h]⟩, data.drop n) else none

@[simp] theorem splitBytes_append {n : Nat} (x : FixedBytes n) (rest : Bytes) :
    splitBytes n (x.toList ++ rest) = some (x, rest) := by
  have hlength : x.toList.length = n := x.toList_length
  rw [splitBytes, dif_pos (by simp [hlength])]
  refine congrArg some (Prod.ext (List.Vector.toList_injective ?_) (drop_left' hlength))
  exact take_left' hlength

theorem eq_append_of_splitBytes {n : Nat} {data rest : Bytes} {x : FixedBytes n}
    (h : splitBytes n data = some (x, rest)) : data = x.toList ++ rest := by
  unfold splitBytes at h
  split_ifs at h with hle
  cases h
  exact (take_append_drop n data).symm

theorem fromLeBytes_lt : ∀ data : Bytes, fromLeBytes data < 256 ^ data.length
  | [] => by simp [fromLeBytes]
  | b :: t => by
    have hb := b.toNat_lt
    have ht := fromLeBytes_lt t
    simp only [fromLeBytes, length_cons, pow_succ]
    omega

theorem leBytes_fromLeBytes : ∀ data : Bytes, leBytes data.length (fromLeBytes data) = data
  | [] => rfl
  | b :: t => by
    have hb := b.toNat_lt
    have hlow : (b.toNat + 256 * fromLeBytes t) % 256 = b.toNat := by omega
    have hhigh : (b.toNat + 256 * fromLeBytes t) / 256 = fromLeBytes t := by omega
    simp only [fromLeBytes, length_cons, leBytes, hlow, hhigh, leBytes_fromLeBytes t]
    rw [UInt8.ofNat_toNat]

theorem foldl_be_reverse (l : Bytes) :
    l.reverse.foldl (fun acc b => acc * 256 + b.toNat) 0 = fromLeBytes l := by
  induction l with
  | nil => rfl
  | cons b l ih =>
    rw [reverse_cons, foldl_append, ih, fromLeBytes]
    simp only [foldl_cons, foldl_nil]
    omega

theorem foldl_be_inj {l l' : Bytes} (hlen : l.length = l'.length)
    (h : l.foldl (fun acc b => acc * 256 + b.toNat) 0 =
      l'.foldl (fun acc b => acc * 256 + b.toNat) 0) : l = l' := by
  rw [← reverse_reverse l, ← reverse_reverse l', foldl_be_reverse, foldl_be_reverse] at h
  have hl := leBytes_fromLeBytes l.reverse
  rw [h, length_reverse, hlen, ← length_reverse, leBytes_fromLeBytes] at hl
  exact (reverse_injective hl).symm

/-- A number in `w` bytes, as an array. -/
def leArray (w v : Nat) : FixedBytes w := ⟨leBytes w v, length_leBytes w v⟩

theorem leArray_eq_iff {v : Nat} (hv : v < 256 ^ w) {x : FixedBytes w} :
    leArray w v = x ↔ v = fromLeBytes x.toList := by
  constructor
  · rintro rfl
    change v = fromLeBytes (leBytes w v)
    rw [fromLeBytes_leBytes, Nat.mod_eq_of_lt hv]
  · rintro rfl
    refine List.Vector.toList_injective ?_
    have hread := leBytes_fromLeBytes x.toList
    rw [x.toList_length] at hread
    exact hread

end Coincync.Lib
