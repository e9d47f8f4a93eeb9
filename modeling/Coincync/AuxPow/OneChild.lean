/-
# One child for each commitment

A tag assigns each child chain one slot of its tree, so that "one parent solution cannot be replayed
for a different block of the same aux chain" (`expected_slot`).  What the verification pins down is
less.  The prover chooses where in the coinbase the tag is read, and how long the branch is; the
length is checked against the slot only in that the slot has to fit, never against the size of the
tree that the tag states.  A slot reached by branches of two lengths is two places of the tree.
-/
import Coincync.AuxPow.Commitment
import Coincync.Lib.Checks

set_option linter.dupNamespace false

namespace Coincync.AuxPow

open Lib MerkleBranch List

/-! ## 1. What is verified -/

theorem ite_error_eq_ok_iff {ε α : Type} {P : Prop} [Decidable P] {e : ε} {x : Except ε α} {a : α} :
    (if ¬ P then .error e else x) = .ok a ↔ P ∧ x = .ok a := by
  by_cases hP : P
  · simp [hP]
  · simp [hP]

/-- **A proof that passes**: a tag, its slot at the leaf, its root at the end of the climb. -/
theorem AuxPow.verifyCommitment_ok_iff {p : AuxPow} {c : Digest} {chainId : AuxChainId}
    {h : CommitmentHasher} :
    p.verifyCommitment c chainId h = .ok () ↔
      ∃ tag, p.tag = .ok tag ∧ p.auxBranch.leafIndex = tag.expectedSlot chainId ∧
        p.auxBranch.hashes.length ≤ 32 ∧
        climb h.auxCombine c p.auxBranch.steps = tag.merkleRoot ∧
        p.coinbaseBranch.fold (h.coinbaseLeaf p.parentCoinbase) h.coinbaseCombine =
          .ok p.parentTxMerkleRoot := by
  simp only [verifyCommitment, Except.bind_eq_ok_iff, ne_eq, ite_error_eq_ok_iff, and_true,
    exists_eq_right, fold_eq_ok_iff]
  refine exists_congr fun tag => and_congr_right fun _ => and_congr_right fun _ => ?_
  constructor
  · rintro ⟨root, ⟨hlen, hclimb⟩, hroot, hcoinbase⟩
    exact ⟨hlen, hclimb.trans hroot, hcoinbase⟩
  · rintro ⟨hlen, hclimb, hcoinbase⟩
    exact ⟨_, ⟨hlen, hclimb⟩, rfl, hcoinbase⟩

/-- Two proofs over one coinbase and one parent root, read at these offsets and with branches of
these lengths, name one child: for every chain of hash functions without accidents on the way. -/
def OneChild (coinbase : Bytes) (chainId : AuxChainId) (offset offset' : UInt32) (len len' : Nat) :
    Prop :=
  ∀ (h : CommitmentHasher) (p p' : AuxPow) (c c' : Digest),
    p.parentCoinbase = coinbase → p'.parentCoinbase = coinbase →
    p.tagOffset = offset → p'.tagOffset = offset' →
    p.auxBranch.hashes.length = len → p'.auxBranch.hashes.length = len' →
    p.parentTxMerkleRoot = p'.parentTxMerkleRoot →
    p.verifyCommitment c chainId h = .ok () → p'.verifyCommitment c' chainId h = .ok () →
    Clean h.auxCombine c c' p.auxBranch.steps p'.auxBranch.steps → c = c'

/-- **The two places are in line**: if there are tags to read and their slots fit the branches, the
tags have one root and one path continues the other. -/
def InLine (coinbase : Bytes) (chainId : AuxChainId) (offset offset' : UInt32) (len len' : Nat) :
    Prop :=
  ∀ tag tag', MergeMiningTag.parse coinbase offset.toNat = .ok tag →
    MergeMiningTag.parse coinbase offset'.toNat = .ok tag' → len ≤ 32 → len' ≤ 32 →
    (tag.expectedSlot chainId).toNat < 2 ^ len → (tag'.expectedSlot chainId).toNat < 2 ^ len' →
    tag.merkleRoot = tag'.merkleRoot ∧
      Comparable (slotPath (tag.expectedSlot chainId).toNat len)
        (slotPath (tag'.expectedSlot chainId).toNat len')

variable {len len' : Nat} {offset offset' : UInt32}

/-- **Places in line have one child.** -/
theorem OneChild.of_inLine {coinbase : Bytes} {chainId : AuxChainId}
    (hline : InLine coinbase chainId offset offset' len len') :
    OneChild coinbase chainId offset offset' len len' := by
  rintro h p p' c c' rfl hcoinbase rfl rfl rfl rfl - hp hp' hclean
  obtain ⟨tag, htag, hslot, hlen, hclimb, -⟩ := AuxPow.verifyCommitment_ok_iff.mp hp
  obtain ⟨tag', htag', hslot', hlen', hclimb', -⟩ := AuxPow.verifyCommitment_ok_iff.mp hp'
  have hfits : (tag.expectedSlot chainId).toNat < 2 ^ p.auxBranch.hashes.length := by
    rw [← hslot, leafIndex_toNat hlen]
    exact Nat.mod_lt _ (Nat.two_pow_pos _)
  have hfits' : (tag'.expectedSlot chainId).toNat < 2 ^ p'.auxBranch.hashes.length := by
    rw [← hslot', leafIndex_toNat hlen']
    exact Nat.mod_lt _ (Nat.two_pow_pos _)
  rw [AuxPow.tag, hcoinbase] at htag'
  obtain ⟨hroot, hpaths⟩ := hline tag tag' htag htag' hlen hlen' hfits hfits'
  refine hclean.leaf_eq (hclimb.trans (hroot.trans hclimb'.symm)) ?_
  rw [map_fst_steps hlen, map_fst_steps hlen', hslot, hslot']
  exact hpaths

/-! ## 2. Two children otherwise -/

theorem toNat_inj {b b' : Bool} (h : b.toNat = b'.toNat) : b = b' := by
  cases b <;> cases b' <;> first | rfl | cases h

/-- The number of a place in a heap, its sides read from the bottom. -/
def heapIndex : List Bool → Nat
  | [] => 1
  | b :: p => 2 * heapIndex p + b.toNat

theorem heapIndex_pos : ∀ p : List Bool, 0 < heapIndex p
  | [] => Nat.one_pos
  | b :: p => by
    have hpos := heapIndex_pos p
    rw [heapIndex]
    omega

theorem heapIndex_inj : ∀ {p q : List Bool}, heapIndex p = heapIndex q → p = q
  | [], [], _ => rfl
  | [], b :: q, h => by
    have hpos := heapIndex_pos q
    simp only [heapIndex] at h
    omega
  | b :: p, [], h => by
    have hpos := heapIndex_pos p
    simp only [heapIndex] at h
    omega
  | b :: p, b' :: q, h => by
    have hb := b.toNat_le
    have hb' := b'.toNat_le
    simp only [heapIndex] at h
    have hbit : b = b' := toNat_inj (by omega)
    rw [hbit, heapIndex_inj (p := p) (q := q) (by omega)]

theorem heapIndex_lt : ∀ p : List Bool, heapIndex p < 2 ^ (p.length + 1)
  | [] => by decide
  | b :: p => by
    have hlt := heapIndex_lt p
    have hb := b.toNat_le
    rw [heapIndex, length_cons, pow_succ]
    omega

theorem exists_free_block (m n : Nat) : ∃ j < 3, m / 2 ^ 40 ≠ j ∧ n / 2 ^ 40 ≠ j := by
  by_cases h0 : m / 2 ^ 40 ≠ 0 ∧ n / 2 ^ 40 ≠ 0
  · exact ⟨0, by decide, h0⟩
  · by_cases h1 : m / 2 ^ 40 ≠ 1 ∧ n / 2 ^ 40 ≠ 1
    · exact ⟨1, by decide, h1⟩
    · exact ⟨2, by decide, by omega, by omega⟩

/-- **Two labelled trees with given roots.**  Every other place gets a digest of its own. -/
theorem exists_label {r r' : Digest} (hne : r ≠ r') : ∃ label : Bool → List Bool → Digest,
    Distinct label 32 ∧ label false [] = r ∧ label true [] = r' := by
  obtain ⟨j, hj, hr, hr'⟩ := exists_free_block (fromLeBytes r.toList) (fromLeBytes r'.toList)
  let number (t : Bool) (p : List Bool) : Nat := 2 ^ 40 * j + (2 * heapIndex p + t.toNat)
  have hsmall : ∀ (t : Bool) (p : List Bool), p.length ≤ 32 → 2 * heapIndex p + t.toNat < 2 ^ 40 := by
    intro t p hp
    have hlt := heapIndex_lt p
    have hpow : 2 ^ (p.length + 1) ≤ 2 ^ 33 := Nat.pow_le_pow_right (by decide) (by omega)
    have ht := t.toNat_le
    omega
  have hbound : ∀ (t : Bool) (p : List Bool), p.length ≤ 32 → number t p < 256 ^ 32 := by
    intro t p hp
    have hlt := hsmall t p hp
    have hbig : 3 * 2 ^ 40 ≤ 256 ^ 32 := by decide
    refine lt_of_lt_of_le ?_ hbig
    change 2 ^ 40 * j + (2 * heapIndex p + t.toNat) < 3 * 2 ^ 40
    omega
  have hblock : ∀ (t : Bool) (p : List Bool), p.length ≤ 32 → number t p / 2 ^ 40 = j := by
    intro t p hp
    have hlt := hsmall t p hp
    change (2 ^ 40 * j + (2 * heapIndex p + t.toNat)) / 2 ^ 40 = j
    omega
  -- a place below the roots has neither root's digest
  have hfree : ∀ (t : Bool) (p : List Bool) (s : Bool), p.length ≤ 32 →
      leArray 32 (number t p) ≠ if s then r' else r := by
    intro t p s hp h
    rw [leArray_eq_iff (hbound t p hp)] at h
    cases s
    · exact hr (h ▸ hblock t p hp)
    · exact hr' (h ▸ hblock t p hp)
  refine ⟨fun t p => if p = [] then (if t then r' else r) else leArray 32 (number t p), ?_, rfl, rfl⟩
  intro t p t' p' hp hp' heq
  by_cases hnil : p = [] <;> by_cases hnil' : p' = []
  · subst hnil hnil'
    simp only [if_true] at heq
    cases t <;> cases t'
    · exact ⟨rfl, rfl⟩
    · exact absurd heq hne
    · exact absurd heq.symm hne
    · exact ⟨rfl, rfl⟩
  · simp only [hnil, if_true, if_neg hnil'] at heq
    exact absurd heq.symm (hfree t' p' t hp')
  · simp only [hnil', if_true, if_neg hnil] at heq
    exact absurd heq (hfree t p t' hp)
  · simp only [if_neg hnil, if_neg hnil'] at heq
    rw [leArray_eq_iff (hbound t p hp)] at heq
    change number t p = fromLeBytes (leBytes 32 (number t' p')) at heq
    rw [fromLeBytes_leBytes, Nat.mod_eq_of_lt (hbound t' p' hp')] at heq
    have hcodes : 2 * heapIndex p + t.toNat = 2 * heapIndex p' + t'.toNat :=
      Nat.add_left_cancel heq
    have ht := t.toNat_le
    have ht' := t'.toNat_le
    exact ⟨toNat_inj (by omega), heapIndex_inj (by omega)⟩

/-- The branch of given steps, for a slot. -/
def branchOf (w : List (Bool × Digest)) (slot : UInt32) : MerkleBranch :=
  ⟨(w.map Prod.snd).reverse, slot⟩

theorem map_snd_stepsFrom (mask : UInt32) (hashes : List Digest) : ∀ level : Nat,
    (stepsFrom mask level hashes).map Prod.snd = hashes := by
  induction hashes with
  | nil =>
    intro level
    rfl
  | cons sibling rest ih =>
    intro level
    rw [stepsFrom, map_cons, ih]

theorem steps_branchOf (w : List (Bool × Digest)) (slot : UInt32) (hlen : w.length ≤ 32)
    (hfits : slot.toNat < 2 ^ w.length) (hw : w.map Prod.fst = slotPath slot.toNat w.length) :
    (branchOf w slot).leafIndex = slot ∧ (branchOf w slot).steps = w := by
  have hhashes : (branchOf w slot).hashes.length = w.length := by
    simp [branchOf]
  have hle : (branchOf w slot).hashes.length ≤ 32 := hhashes ▸ hlen
  have hindex : (branchOf w slot).leafIndex.toNat = slot.toNat := by
    rw [leafIndex_toNat hle, hhashes]
    exact Nat.mod_eq_of_lt hfits
  refine ⟨UInt32.toNat_inj.mp hindex, ?_⟩
  have hfst : (branchOf w slot).steps.map Prod.fst = w.map Prod.fst := by
    rw [map_fst_steps hle, hindex, hhashes, hw]
  have hsnd : (branchOf w slot).steps.map Prod.snd = w.map Prod.snd := by
    rw [steps, map_reverse, map_snd_stepsFrom]
    exact reverse_reverse _
  exact (zip_of_prod hfst hsnd).trans (zip_of_prod rfl rfl).symm

/-- **Places out of line have two children**, for some hash functions. -/
theorem not_oneChild {coinbase : Bytes} {chainId : AuxChainId} {tag tag' : MergeMiningTag}
    (htag : MergeMiningTag.parse coinbase offset.toNat = .ok tag)
    (htag' : MergeMiningTag.parse coinbase offset'.toNat = .ok tag')
    (hlen : len ≤ 32) (hlen' : len' ≤ 32) (hfits : (tag.expectedSlot chainId).toNat < 2 ^ len)
    (hfits' : (tag'.expectedSlot chainId).toNat < 2 ^ len')
    (hout : ¬ (tag.merkleRoot = tag'.merkleRoot ∧
      Comparable (slotPath (tag.expectedSlot chainId).toNat len)
        (slotPath (tag'.expectedSlot chainId).toNat len'))) :
    ¬ OneChild coinbase chainId offset offset' len len' := by
  set slot := tag.expectedSlot chainId
  set slot' := tag'.expectedSlot chainId
  -- one tree if the roots are equal, two if not
  obtain ⟨label, t', hdistinct, hroot, hroot', hpart⟩ :
      ∃ (label : Bool → List Bool → Digest) (t' : Bool), Distinct label 32 ∧
        label false [] = tag.merkleRoot ∧ label t' [] = tag'.merkleRoot ∧
        (false ≠ t' ∨ ¬ Comparable (slotPath slot.toNat len) (slotPath slot'.toNat len')) := by
    by_cases heq : tag.merkleRoot = tag'.merkleRoot
    · obtain ⟨r, hr⟩ : ∃ r : Digest, tag.merkleRoot ≠ r := by
        by_cases hzero : tag.merkleRoot = FixedBytes.replicate 32 0
        · exact ⟨FixedBytes.replicate 32 1, by rw [hzero]; decide +kernel⟩
        · exact ⟨_, hzero⟩
      obtain ⟨label, hdistinct, hroot, -⟩ := exists_label hr
      exact ⟨label, false, hdistinct, hroot, hroot.trans heq, .inr fun hcmp => hout ⟨heq, hcmp⟩⟩
    · obtain ⟨label, hdistinct, hroot, hroot'⟩ := exists_label heq
      exact ⟨label, true, hdistinct, hroot, hroot', .inl nofun⟩
  let q := slotPath slot.toNat len
  let q' := slotPath slot'.toNat len'
  let w := walk (label false) [] q
  let w' := walk (label t') [] q'
  have hw : w.length = len := (length_walk _ _ _).trans (length_slotPath _ _)
  have hw' : w'.length = len' := (length_walk _ _ _).trans (length_slotPath _ _)
  have hq : q.length ≤ 32 := by rwa [length_slotPath]
  have hq' : q'.length ≤ 32 := by rwa [length_slotPath]
  obtain ⟨hslot, hsteps⟩ := steps_branchOf w slot
    (hw.trans_le hlen) (by rw [hw]; exact hfits) (by rw [map_fst_walk, hw])
  obtain ⟨hslot', hsteps'⟩ := steps_branchOf w' slot'
    (hw'.trans_le hlen') (by rw [hw']; exact hfits') (by rw [map_fst_walk, hw'])
  have hclimb : climb (treeHash label 32) (label false q) w = tag.merkleRoot :=
    (climb_walk (hashes_treeHash hdistinct false) q [] (by simpa using hq)).trans hroot
  have hclimb' : climb (treeHash label 32) (label t' q') w' = tag'.merkleRoot :=
    (climb_walk (hashes_treeHash hdistinct t') q' [] (by simpa using hq')).trans hroot'
  let zero : Digest := FixedBytes.replicate 32 0
  let hasher : CommitmentHasher := ⟨treeHash label 32, fun l _ => l, fun _ => zero⟩
  have hhashes : (branchOf w slot).hashes.length = len := by
    simpa [branchOf] using hw
  have hhashes' : (branchOf w' slot').hashes.length = len' := by
    simpa [branchOf] using hw'
  intro hone
  refine label_ne hdistinct hq hq' hpart (hone hasher
    ⟨coinbase, offset, branchOf w slot, ⟨[], 0⟩, zero⟩
    ⟨coinbase, offset', branchOf w' slot', ⟨[], 0⟩, zero⟩
    _ _ rfl rfl rfl rfl hhashes hhashes' rfl ?_ ?_ ?_)
  · refine AuxPow.verifyCommitment_ok_iff.mpr ⟨tag, htag, hslot, hhashes.trans_le hlen, ?_, rfl⟩
    rw [hsteps]
    exact hclimb
  · refine AuxPow.verifyCommitment_ok_iff.mpr ⟨tag', htag', hslot', hhashes'.trans_le hlen', ?_, rfl⟩
    rw [hsteps']
    exact hclimb'
  · rw [hsteps, hsteps']
    exact clean_walk hdistinct hq hq' hpart

/-! ## 3. The exact condition -/

theorem getElem?_slotPath {slot len i : Nat} (hi : i < len) :
    (slotPath slot len)[i]? = some (slot.testBit (len - 1 - i)) := by
  have hlen : i < ((List.range len).map slot.testBit).length := by simpa using hi
  rw [slotPath, getElem?_reverse hlen, length_map, length_range, getElem?_map,
    getElem?_range (by omega)]
  rfl

variable {slot len len' : Nat}

theorem eq_zero_of_slotPath (hlt : len < len') (hfits : slot < 2 ^ len)
    (h : slotPath slot len <+: slotPath slot len') : slot = 0 := by
  obtain ⟨rest, hrest⟩ := h
  have hshift : ∀ j < len, slot.testBit j = slot.testBit (j + (len' - len)) := by
    intro j hj
    have hi : len - 1 - j < len := by omega
    have hi' : len - 1 - j < len' := by omega
    have happ : (slotPath slot len ++ rest)[len - 1 - j]? = (slotPath slot len)[len - 1 - j]? :=
      getElem?_append_left (by rwa [length_slotPath])
    rw [hrest, getElem?_slotPath hi, getElem?_slotPath hi', Option.some.injEq] at happ
    have hj' : len - 1 - (len - 1 - j) = j := by omega
    have hj'' : len' - 1 - (len - 1 - j) = j + (len' - len) := by omega
    rw [hj', hj''] at happ
    exact happ.symm
  -- from the highest bit down
  have hzero : ∀ n j, len ≤ j + n → slot.testBit j = false := by
    intro n
    induction n with
    | zero =>
      intro j hj
      exact Nat.testBit_lt_two_pow (lt_of_lt_of_le hfits (Nat.pow_le_pow_right (by decide) hj))
    | succ n ih =>
      intro j hj
      by_cases hjlen : j < len
      · rw [hshift j hjlen]
        exact ih _ (by omega)
      · exact ih j (by omega)
  refine Nat.eq_of_testBit_eq fun j => ?_
  rw [hzero len j (Nat.le_add_left _ _), Nat.zero_testBit]

theorem slotPath_zero (len : Nat) : slotPath 0 len = List.replicate len false := by
  have hmap : (List.range len).map (Nat.testBit 0) = List.replicate len false := by
    refine eq_replicate_iff.mpr ⟨by simp, fun b hb => ?_⟩
    obtain ⟨i, -, rfl⟩ := mem_map.mp hb
    exact Nat.zero_testBit i
  rw [slotPath, hmap, reverse_replicate]

theorem slotPath_zero_le (h : len ≤ len') :
    slotPath 0 len <+: slotPath 0 len' := by
  rw [slotPath_zero, slotPath_zero]
  refine ⟨List.replicate (len' - len) false, ?_⟩
  rw [replicate_append_replicate, Nat.add_sub_cancel' h]

/-- **Paths to one slot** run along each other if they are equally long, or go to slot 0. -/
theorem comparable_slotPath_iff (hfits : slot < 2 ^ len) (hfits' : slot < 2 ^ len') :
    Comparable (slotPath slot len) (slotPath slot len') ↔ len = len' ∨ slot = 0 := by
  constructor
  · intro h
    by_cases heq : len = len'
    · exact .inl heq
    · refine .inr ?_
      have hle : ∀ {m n : Nat}, slotPath slot m <+: slotPath slot n → m ≤ n := by
        intro m n hmn
        simpa using hmn.length_le
      rcases h with h | h
      · have hlen := hle h
        exact eq_zero_of_slotPath (by omega) hfits h
      · have hlen := hle h
        exact eq_zero_of_slotPath (by omega) hfits' h
  · rintro (rfl | rfl)
    · exact .inl (prefix_refl _)
    · rcases le_total len len' with h | h
      · exact .inl (slotPath_zero_le h)
      · exact .inr (slotPath_zero_le h)

/-- **One commitment names one child exactly for places in line.** -/
theorem oneChild_iff (coinbase : Bytes) (chainId : AuxChainId) (offset offset' : UInt32)
    (len len' : Nat) :
    (OneChild coinbase chainId offset offset' len len' ↔
      InLine coinbase chainId offset offset' len len') ∧
    (InLine coinbase chainId offset offset len len' ↔
      ∀ tag, MergeMiningTag.parse coinbase offset.toNat = .ok tag → len ≤ 32 → len' ≤ 32 →
        (tag.expectedSlot chainId).toNat < 2 ^ len → (tag.expectedSlot chainId).toNat < 2 ^ len' →
        len = len' ∨ tag.expectedSlot chainId = 0) := by
  have hzero : ∀ n : UInt32, n.toNat = 0 ↔ n = 0 := by
    intro n
    rw [← UInt32.toNat_inj]
    rfl
  refine ⟨⟨fun hone tag tag' htag htag' hlen hlen' hfits hfits' => ?_, OneChild.of_inLine⟩, ?_, ?_⟩
  · by_contra hout
    exact not_oneChild htag htag' hlen hlen' hfits hfits' hout hone
  · intro hline tag htag hlen hlen' hfits hfits'
    have hpaths := (hline tag tag htag htag hlen hlen' hfits hfits').2
    rwa [comparable_slotPath_iff hfits hfits', hzero] at hpaths
  · intro h tag tag' htag htag' hlen hlen' hfits hfits'
    obtain rfl : tag = tag' := Except.ok.inj (htag.symm.trans htag')
    refine ⟨rfl, ?_⟩
    rw [comparable_slotPath_iff hfits hfits', hzero]
    exact h tag htag hlen hlen' hfits hfits'

/-! ## 4. Two children of one tag -/

namespace TwoChildren

def digest (n : UInt8) : Digest := FixedBytes.replicate 32 n

/-- A tag for a tree of two, with slot 1 for the chain. -/
def tag : MergeMiningTag := ⟨digest 9, 2, 1⟩

def chainId : AuxChainId := ⟨digest 0⟩

/-- The tree: digest 1 on the right of the root, and digest 2 on the right below on the left. -/
def combine (l r : Digest) : Digest :=
  if l = digest 3 ∧ r = digest 2 then digest 4
  else if l = digest 4 ∧ r = digest 1 then digest 9
  else digest 0

def hasher : CommitmentHasher := ⟨combine, fun l _ => l, fun _ => digest 7⟩

/-- A proof over the coinbase that is the tag alone. -/
def proof (branch : MerkleBranch) : AuxPow := ⟨tag.encode, 0, branch, ⟨[], 0⟩, digest 7⟩

/-- To slot 1 in one level, and in two. -/
def short : MerkleBranch := ⟨[digest 4], 1⟩

def long : MerkleBranch := ⟨[digest 3, digest 1], 1⟩

theorem pairs_eq :
    hashedPairs combine (digest 1) short.steps ++ hashedPairs combine (digest 2) long.steps =
      [(digest 4, digest 1), (digest 4, digest 1), (digest 3, digest 2)] := by
  decide +kernel

/-- **Two children of one tag.**  Both proofs pass for the same coinbase, tag and parent root, with
nothing colliding; the children differ. -/
theorem two_children :
    (proof short).verifyCommitment (digest 1) chainId hasher = .ok () ∧
      (proof long).verifyCommitment (digest 2) chainId hasher = .ok () ∧
      Clean combine (digest 1) (digest 2) short.steps long.steps ∧ digest 1 ≠ digest 2 := by
  have hpairs : ([(digest 4, digest 1), (digest 4, digest 1), (digest 3, digest 2)].all fun x =>
      [(digest 4, digest 1), (digest 4, digest 1), (digest 3, digest 2)].all (fun y =>
        decide (combine x.1 x.2 = combine y.1 y.2 → x = y)) &&
      decide (combine x.1 x.2 ≠ digest 1 ∧ combine x.1 x.2 ≠ digest 2)) = true := by
    decide +kernel
  simp only [all_eq_true, Bool.and_eq_true, decide_eq_true_eq] at hpairs
  refine ⟨by decide +kernel, by decide +kernel, ⟨?_, ?_⟩, by decide +kernel⟩
  · rw [pairs_eq]
    exact fun x hx => (hpairs x hx).1
  · rw [pairs_eq]
    exact fun x hx => (hpairs x hx).2

end TwoChildren

end Coincync.AuxPow
