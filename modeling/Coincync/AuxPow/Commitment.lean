/-
# Merge-mining commitments

The crate `auxpow`: a parent-chain miner puts a tag into the coinbase, the root of a tree of child
block hashes with its size and a nonce; the nonce and the id of a child chain give the slot of that
chain's block in the tree.  A proof (`AuxPow`) climbs from the child hash to the tag's root and from
the coinbase to the root of the parent's transactions, and `verifyCommitment` checks the two climbs
and the slot.
-/
import Coincync.Lib.Bytes
import Coincync.Lib.MerklePath

set_option linter.dupNamespace false

namespace Coincync.AuxPow

open Lib List

/-- A 32-byte digest. -/
abbrev Digest := FixedBytes 32

inductive AuxPowError
  | tagNotFound (offset : Nat)
  | tagTruncated (offset need present : Nat)
  | merkleSizeNotPow2 (size : UInt32)
  | branchTooLong (len max : Nat)
  | wrongMerkleSlot (expected actual nonce size : UInt32)
  | auxBranchMismatch
  | coinbaseBranchMismatch
  deriving DecidableEq

/-! ## 1. The tag -/

def mergeMiningMagic : Bytes := [0xFA, 0xBE, 0x6D, 0x6D]

def tagLen : Nat := 4 + 32 + 4 + 4

structure AuxChainId where
  bytes : Digest
  deriving DecidableEq

/-- `slot_seed`: the first four bytes. -/
def AuxChainId.slotSeed (id : AuxChainId) : UInt32 :=
  UInt32.ofNat (fromLeBytes (id.bytes.toList.take 4))

structure MergeMiningTag where
  merkleRoot : Digest
  merkleSize : UInt32
  nonce : UInt32
  deriving DecidableEq

def isPowerOfTwo (n : UInt32) : Bool := n != 0 && n &&& (n - 1) == 0

namespace MergeMiningTag

def encode (tag : MergeMiningTag) : Bytes :=
  mergeMiningMagic ++ (tag.merkleRoot.toList ++
    (leBytes 4 tag.merkleSize.toNat ++ leBytes 4 tag.nonce.toNat))

/-- `[u8; 32]` out of a slice that is long enough. -/
def digestAt (bytes : Bytes) : Digest := ⟨(bytes ++ List.replicate 32 0).take 32, by simp⟩

/-- `MergeMiningTag::parse`; offsets are `usize`. -/
def parse (coinbase : Bytes) (offset : Nat) : Except AuxPowError MergeMiningTag :=
  if 2 ^ 64 ≤ offset + tagLen then .error (.tagNotFound offset)
  else if coinbase.length < offset + tagLen then
    .error (.tagTruncated offset tagLen (coinbase.length - offset))
  else
    let bytes := (coinbase.drop offset).take tagLen
    if bytes.take 4 ≠ mergeMiningMagic then .error (.tagNotFound offset)
    else
      let merkleRoot := digestAt ((bytes.drop 4).take 32)
      let merkleSize := UInt32.ofNat (fromLeBytes ((bytes.drop 36).take 4))
      let nonce := UInt32.ofNat (fromLeBytes ((bytes.drop 40).take 4))
      if merkleSize = 0 ∨ isPowerOfTwo merkleSize = false then
        .error (.merkleSizeNotPow2 merkleSize)
      else .ok ⟨merkleRoot, merkleSize, nonce⟩

/-- `expected_slot`: two rounds of a linear congruential generator, in wrapping `u32` arithmetic. -/
def expectedSlot (tag : MergeMiningTag) (chainId : AuxChainId) : UInt32 :=
  let rand := tag.nonce
  let rand := rand * 1103515245 + 12345
  let rand := rand + chainId.slotSeed
  let rand := rand * 1103515245 + 12345
  rand % tag.merkleSize

theorem eq_append_iff_take {l a b : Bytes} {n : Nat} (hn : a.length = n) :
    l = a ++ b ↔ l.take n = a ∧ l.drop n = b := by
  constructor
  · rintro rfl
    exact ⟨take_left' hn, drop_left' hn⟩
  · rintro ⟨rfl, rfl⟩
    exact (take_append_drop n l).symm

theorem digestAt_eq_iff {bytes : Bytes} (h : bytes.length = 32) {x : Digest} :
    digestAt bytes = x ↔ bytes = x.toList := by
  rw [← List.Vector.toList_injective.eq_iff]
  exact (take_left' h).congr_left

theorem ofNat_fromLeBytes_eq_iff {bytes : Bytes} (h : bytes.length = 4) {n : UInt32} :
    UInt32.ofNat (fromLeBytes bytes) = n ↔ bytes = leBytes 4 n.toNat := by
  have hlt : fromLeBytes bytes < 256 ^ 4 := h ▸ fromLeBytes_lt bytes
  constructor
  · rintro rfl
    rw [UInt32.toNat_ofNat_of_lt' hlt, ← h, leBytes_fromLeBytes]
  · rintro rfl
    rw [fromLeBytes_leBytes, Nat.mod_eq_of_lt (show _ < 256 ^ 4 from n.toNat_lt), UInt32.ofNat_toNat]

theorem length_encode (tag : MergeMiningTag) : tag.encode.length = tagLen := by
  have hroot : tag.merkleRoot.toList.length = 32 := tag.merkleRoot.toList_length
  simp only [encode, length_append, length_leBytes, hroot]
  rfl

theorem eq_encode_iff {bytes : Bytes} (h : bytes.length = tagLen) {tag : MergeMiningTag} :
    bytes = tag.encode ↔ bytes.take 4 = mergeMiningMagic ∧
      ⟨digestAt ((bytes.drop 4).take 32), UInt32.ofNat (fromLeBytes ((bytes.drop 36).take 4)),
        UInt32.ofNat (fromLeBytes ((bytes.drop 40).take 4))⟩ = tag := by
  have h40 : (bytes.drop 40).take 4 = bytes.drop 40 := take_of_length_le (by simp [h, tagLen])
  obtain ⟨root, size, nonce⟩ := tag
  rw [encode, eq_append_iff_take rfl, eq_append_iff_take root.toList_length,
    eq_append_iff_take (length_leBytes 4 _), drop_drop, drop_drop, mk.injEq,
    digestAt_eq_iff (by simp [h, tagLen]), ofNat_fromLeBytes_eq_iff (by simp [h, tagLen]),
    ofNat_fromLeBytes_eq_iff (by simp [h, tagLen]), h40]
  rfl

/-- **Parsing accepts exactly the encodings**: a tag whose size is a power of two is read back where
it was written, and nothing else is read as a tag. -/
theorem parse_eq_ok_iff {coinbase : Bytes} {offset : Nat} {tag : MergeMiningTag} :
    parse coinbase offset = .ok tag ↔ isPowerOfTwo tag.merkleSize = true ∧
      offset + tagLen < 2 ^ 64 ∧ (coinbase.drop offset).take tagLen = tag.encode := by
  unfold parse
  split_ifs with hoffset hshort
  · refine iff_of_false nofun fun h => hoffset.not_gt h.2.1
  · refine iff_of_false nofun fun h => ?_
    have hlen := tag.length_encode
    rw [← h.2.2, length_take, length_drop] at hlen
    simp only [tagLen] at hlen hshort
    omega
  · rw [eq_encode_iff (by rw [length_take, length_drop]; omega)]
    simp only
    split_ifs with hmagic hsize
    · exact iff_of_false nofun fun h => hmagic h.2.2.1
    · refine iff_of_false nofun fun ⟨h, _, _, htag⟩ => ?_
      subst htag
      rcases hsize with hzero | hpow
      · rw [hzero] at h
        cases h
      · exact absurd h (ne_true_of_eq_false hpow)
    · obtain ⟨-, hpow⟩ := not_or.mp hsize
      rw [Except.ok.injEq]
      refine ⟨?_, fun h => h.2.2.2⟩
      rintro rfl
      exact ⟨Bool.eq_true_of_not_eq_false hpow, not_le.mp hoffset, not_not.mp hmagic, rfl⟩

end MergeMiningTag

/-! ## 2. Branches -/

def maxBranchLen : Nat := 32

/-- `MerkleBranch`: the siblings from the leaf up, and the sides as bits. -/
structure MerkleBranch where
  hashes : List Digest
  sideMask : UInt32
  deriving DecidableEq

namespace MerkleBranch

/-- Bit `level` of the mask: the sibling is on the left. -/
def siblingOnLeft (mask : UInt32) (level : Nat) : Bool :=
  (mask >>> UInt32.ofNat level) &&& 1 == 1

/-- `leaf_index`: the bits above the branch are masked off. -/
def leafIndex (b : MerkleBranch) : UInt32 :=
  if 32 ≤ b.hashes.length then b.sideMask
  else b.sideMask &&& ((1 <<< UInt32.ofNat b.hashes.length) - 1)

/-- The loop of `fold`, from a level on. -/
def foldFrom (combine : Digest → Digest → Digest) (mask : UInt32) :
    Nat → List Digest → Digest → Digest
  | _, [], acc => acc
  | level, sibling :: rest, acc =>
    foldFrom combine mask (level + 1) rest
      (if siblingOnLeft mask level = true then combine sibling acc else combine acc sibling)

def fold (b : MerkleBranch) (leaf : Digest) (combine : Digest → Digest → Digest) :
    Except AuxPowError Digest :=
  if maxBranchLen < b.hashes.length then .error (.branchTooLong b.hashes.length maxBranchLen)
  else .ok (foldFrom combine b.sideMask 0 b.hashes leaf)

end MerkleBranch

/-! ## 3. The proof -/

structure CommitmentHasher where
  auxCombine : Digest → Digest → Digest
  coinbaseCombine : Digest → Digest → Digest
  coinbaseLeaf : Bytes → Digest

structure AuxPow where
  parentCoinbase : Bytes
  tagOffset : UInt32
  auxBranch : MerkleBranch
  coinbaseBranch : MerkleBranch
  parentTxMerkleRoot : Digest

namespace AuxPow

def tag (p : AuxPow) : Except AuxPowError MergeMiningTag :=
  MergeMiningTag.parse p.parentCoinbase p.tagOffset.toNat

def verifyCommitment (p : AuxPow) (childHash : Digest) (chainId : AuxChainId)
    (hasher : CommitmentHasher) : Except AuxPowError Unit :=
  p.tag.bind fun tag =>
  let expected := tag.expectedSlot chainId
  let actual := p.auxBranch.leafIndex
  if actual ≠ expected then .error (.wrongMerkleSlot expected actual tag.nonce tag.merkleSize)
  else (p.auxBranch.fold childHash hasher.auxCombine).bind fun auxRoot =>
  if auxRoot ≠ tag.merkleRoot then .error .auxBranchMismatch
  else
  let coinbaseLeaf := hasher.coinbaseLeaf p.parentCoinbase
  (p.coinbaseBranch.fold coinbaseLeaf hasher.coinbaseCombine).bind fun coinbaseRoot =>
  if coinbaseRoot ≠ p.parentTxMerkleRoot then .error .coinbaseBranchMismatch
  else .ok ()

end AuxPow

/-! ## 4. Branches as paths -/

variable {b : MerkleBranch}

namespace MerkleBranch

/-- The steps of a branch from a level on, from the leaf up. -/
def stepsFrom (mask : UInt32) : Nat → List Digest → List (Bool × Digest)
  | _, [] => []
  | level, sibling :: rest => (siblingOnLeft mask level, sibling) :: stepsFrom mask (level + 1) rest

/-- The steps of a branch from the top. -/
def steps (b : MerkleBranch) : List (Bool × Digest) := (stepsFrom b.sideMask 0 b.hashes).reverse

/-- The sides on the way to a leaf, from the top: the low bits of its index. -/
def slotPath (slot len : Nat) : List Bool := ((List.range len).map slot.testBit).reverse

@[simp] theorem length_slotPath (slot len : Nat) : (slotPath slot len).length = len := by
  simp [slotPath]

/-- **The fold is a climb.** -/
theorem foldFrom_eq_climb (combine : Digest → Digest → Digest) (mask : UInt32)
    (hashes : List Digest) : ∀ (level : Nat) (leaf : Digest),
    foldFrom combine mask level hashes leaf =
      climb combine leaf (stepsFrom mask level hashes).reverse := by
  induction hashes with
  | nil =>
    intro level leaf
    rfl
  | cons sibling rest ih =>
    intro level leaf
    rw [foldFrom, ih, stepsFrom, reverse_cons, climb_append]
    congr 1
    cases h : siblingOnLeft mask level <;> simp [climb, sideBySide]

theorem fold_eq_ok_iff {leaf root : Digest} {combine : Digest → Digest → Digest} :
    b.fold leaf combine = .ok root ↔
      b.hashes.length ≤ 32 ∧ climb combine leaf b.steps = root := by
  rw [fold, foldFrom_eq_climb, maxBranchLen]
  split_ifs with hlen
  · exact iff_of_false nofun fun h => absurd h.1 (not_le.mpr hlen)
  · rw [Except.ok.injEq]
    exact (and_iff_right (not_lt.mp hlen)).symm

theorem siblingOnLeft_eq {mask : UInt32} {level : Nat} (h : level < 32) :
    siblingOnLeft mask level = mask.toNat.testBit level := by
  have hlevel : (UInt32.ofNat level).toNat % 32 = level := by
    rw [UInt32.toNat_ofNat']
    omega
  have hbit : ((mask >>> UInt32.ofNat level) &&& 1).toNat = mask.toNat / 2 ^ level % 2 := by
    rw [UInt32.toNat_and, UInt32.toNat_shiftRight, hlevel, Nat.shiftRight_eq_div_pow]
    exact Nat.and_one_is_mod _
  rw [siblingOnLeft, Nat.testBit_eq_decide_div_mod_eq, Bool.beq_eq_decide_eq, decide_eq_decide,
    ← UInt32.toNat_inj, hbit]
  rfl

theorem map_fst_stepsFrom (mask : UInt32) (hashes : List Digest) : ∀ level : Nat,
    level + hashes.length ≤ 32 →
      (stepsFrom mask level hashes).map Prod.fst =
        (List.range' level hashes.length).map mask.toNat.testBit := by
  induction hashes with
  | nil =>
    intro level _
    rfl
  | cons sibling rest ih =>
    intro level h
    rw [length_cons] at h
    rw [stepsFrom, map_cons, ih (level + 1) (by omega), siblingOnLeft_eq (by omega),
      length_cons, range'_succ, map_cons]

theorem leafIndex_toNat (h : b.hashes.length ≤ 32) :
    b.leafIndex.toNat = b.sideMask.toNat % 2 ^ b.hashes.length := by
  unfold leafIndex
  split_ifs with hlen
  · have heq : b.hashes.length = 32 := le_antisymm h hlen
    rw [heq, Nat.mod_eq_of_lt b.sideMask.toNat_lt]
  · have hlt : b.hashes.length < 32 := not_le.mp hlen
    have hpow : 2 ^ b.hashes.length < 2 ^ 32 := Nat.pow_lt_pow_right (by omega) hlt
    have hshift : ((1 : UInt32) <<< UInt32.ofNat b.hashes.length).toNat = 2 ^ b.hashes.length := by
      rw [UInt32.toNat_shiftLeft, UInt32.toNat_ofNat']
      have hmod : b.hashes.length % 2 ^ 32 % 32 = b.hashes.length := by omega
      rw [hmod, Nat.shiftLeft_eq]
      change 1 * 2 ^ b.hashes.length % 2 ^ 32 = _
      rw [one_mul, Nat.mod_eq_of_lt hpow]
    have hone : (1 : UInt32) ≤ 1 <<< UInt32.ofNat b.hashes.length := by
      rw [UInt32.le_iff_toNat_le, hshift]
      exact Nat.one_le_two_pow
    rw [UInt32.toNat_and, UInt32.toNat_sub_of_le _ _ hone, hshift]
    exact Nat.and_two_pow_sub_one_eq_mod _ _

/-- **The sides of a branch are the bits of its leaf's index.** -/
theorem map_fst_steps (h : b.hashes.length ≤ 32) :
    b.steps.map Prod.fst = slotPath b.leafIndex.toNat b.hashes.length := by
  rw [steps, map_reverse, map_fst_stepsFrom _ _ 0 (by omega), slotPath, leafIndex_toNat h,
    ← range_eq_range']
  congr 1
  refine map_congr_left fun i hi => ?_
  rw [Nat.testBit_mod_two_pow, decide_eq_true (mem_range.mp hi), Bool.true_and]

end MerkleBranch

end Coincync.AuxPow
