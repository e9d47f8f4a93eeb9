/-
# CLSAG ring signatures

`src/crypto/clsag.rs`.  The verifier walks the ring once, starting at position 1 with the
challenge `c1` the signature states: at position `i` it forms `L = s_i G + c W_i` and
`R = s_i Hp(P_i) + c J`, hashes them into the next challenge, and accepts when the walk comes
back to `c1`.  Here `W_i = mu_p P_i + mu_c (C_i - C')` and `J = mu_p I + mu_c D`, for the key
image `I` and the commitment image `D` of the signature.
-/
import Coincync.Crypto.SmallSuite

namespace Coincync

open Lib Suite

variable {message : Bytes}

/-! ## 1. Data -/

/-- A decoded ring member: public key and commitment. -/
structure RingMember (G : Type) where
  publicKey : G
  commitment : G
  deriving DecidableEq

/-- A CLSAG signature: key image `I`, commitment image `D`, the challenge `c1` and the
responses, the scalars still as bytes. -/
structure ClsagSignature (G : Type) where
  keyImage : G
  commitmentImage : G
  c1 : FixedBytes 32
  responses : List (FixedBytes 32)
  deriving DecidableEq

/-- What `clsag_sign` refuses. -/
inductive ClsagSignError
  | invalidRingSize (expected got : Nat)
  | invalidSigningParameters
  deriving DecidableEq

variable {F G : Type} [Field F] [AddCommGroup G] [Module F G] (S : Suite F G)

/-- The ring as it is fed to both hashes: each member's key and commitment. -/
def ringBytes (ring : List (RingMember G)) : Bytes :=
  ring.flatMap fun m => (S.compress m.publicKey).toList ++ (S.compress m.commitment).toList

/-- `borsh::to_vec` of a signature: two points, the challenge, the length-prefixed responses. -/
def ClsagSignature.toBytes (sig : ClsagSignature G) : Bytes :=
  (S.compress sig.keyImage).toList ++ (S.compress sig.commitmentImage).toList ++ sig.c1.toList ++
    lenBytes sig.responses.length ++ sig.responses.flatMap List.Vector.toList

theorem ClsagSignature.toBytes_injective :
    Function.Injective (ClsagSignature.toBytes S : ClsagSignature G → Bytes) := by
  rintro ⟨I, D, c, r⟩ ⟨I', D', c', r'⟩ h
  simp only [ClsagSignature.toBytes, List.append_assoc] at h
  obtain ⟨hI, h⟩ := List.append_inj h (by simp)
  obtain ⟨hD, h⟩ := List.append_inj h (by simp)
  obtain ⟨hc, h⟩ := List.append_inj h (by simp)
  obtain ⟨-, hr⟩ := List.append_inj h (by simp)
  obtain rfl := S.compress_injective (List.Vector.eq _ _ hI)
  obtain rfl := S.compress_injective (List.Vector.eq _ _ hD)
  obtain rfl := List.Vector.eq _ _ hc
  obtain rfl := flatMap_inj_of_length (by decide) (fun v : FixedBytes 32 => v.toList_length)
    (fun a b hab => List.Vector.eq a b hab) hr
  rfl

/-! ## 2. Signing and verifying -/

def clsagHash (tag : Bytes) (ring : List (RingMember G)) (keyImage commitmentImage : G)
    (message : Bytes) (l r : G) : F :=
  S.scalarFromWide (S.sha3 (ascii "CLSAG_" ++ tag ++ ringBytes S ring ++
    (S.compress keyImage).toList ++ (S.compress commitmentImage).toList ++ message ++
    (S.compress l).toList ++ (S.compress r).toList))

def clsagRoundHash (ring : List (RingMember G)) (keyImage pseudoOutput : G) (message : Bytes) : F :=
  S.scalarFromWide (S.sha3 (ascii "CLSAG_round" ++ ringBytes S ring ++
    (S.compress keyImage).toList ++ (S.compress pseudoOutput).toList ++ message))

/-- `compute_aggregate_coefficients`: `mu_p` hashes the ring, the key image, the pseudo-output
and the message; `mu_c` hashes `mu_p`. -/
def computeAggregateCoefficients (ring : List (RingMember G)) (keyImage pseudoOutput : G)
    (message : Bytes) : F × F :=
  let muP := clsagRoundHash S ring keyImage pseudoOutput message
  (muP, S.scalarFromWide (S.sha3 (ascii "CLSAG_agg_1" ++ (S.scalarToBytes muP).toList)))

/-- The aggregate keys `W_i = mu_p P_i + mu_c (C_i - C')`. -/
def aggregateKeys (mu : F × F) (ring : List (RingMember G)) (pseudoOutput : G) : List G :=
  ring.map fun m => mu.1 • m.publicKey + mu.2 • (m.commitment - pseudoOutput)

/-- The aggregate key image `J = mu_p I + mu_c D`. -/
def aggregateKeyImage (mu : F × F) (keyImage commitmentImage : G) : G :=
  mu.1 • keyImage + mu.2 • commitmentImage

/-- Everything the challenge loop reads and does not change. -/
structure ClsagRound (F G : Type) where
  message : Bytes
  ring : List (RingMember G)
  pseudoOutput : G
  keyImage : G
  commitmentImage : G
  responses : List F

namespace ClsagRound

variable (t : ClsagRound F G)

/-- The aggregation coefficients of the round. -/
def mu : F × F := computeAggregateCoefficients S t.ring t.keyImage t.pseudoOutput t.message

/-- The public key at a position of the ring (positions are taken below its length). -/
def publicKeyAt (idx : Nat) : G := ((t.ring[idx]?).map RingMember.publicKey).getD 0

/-- `L_idx = s_idx G + c W_idx`. -/
def lAt (idx : Nat) (c : F) : G :=
  t.responses.getD idx 0 • S.generator +
    c • (aggregateKeys (t.mu S) t.ring t.pseudoOutput).getD idx 0

/-- `R_idx = s_idx Hp(P_idx) + c J`. -/
def rAt (idx : Nat) (c : F) : G :=
  t.responses.getD idx 0 • S.hp (t.publicKeyAt idx) +
    c • aggregateKeyImage (t.mu S) t.keyImage t.commitmentImage

/-- One pass of the loop: the next challenge from the one at `idx`. -/
def next (idx : Nat) (c : F) : F :=
  clsagHash S (ascii "c") t.ring t.keyImage t.commitmentImage t.message
    (t.lAt S idx c) (t.rAt S idx c)

/-- The challenge after `k` passes, from position 1 on. -/
def challengeAfter (c1 : F) (k : Nat) : F :=
  (List.range k).foldl (fun c i => t.next S ((i + 1) % t.ring.length) c) c1

/-- The challenge the loop holds when it visits position `l`: it gets there after
`l - 1` passes, and to position 0 last. -/
def challengeAt (c1 : F) (l : Nat) : F :=
  t.challengeAfter S c1 ((l + t.ring.length - 1) % t.ring.length)

end ClsagRound

/-- Decode every response, failing on the first non-canonical one (`PeerScalar::decode`). -/
def decodeScalars : List (FixedBytes 32) → Option (List F)
  | [] => some []
  | b :: t => (S.scalarFromCanonical b).bind fun s => (decodeScalars t).map (s :: ·)

variable [DecidableEq F] [DecidableEq G]

def clsagVerify (message : Bytes) (ring : List (RingMember G)) (pseudoOutput : G)
    (sig : ClsagSignature G) : Bool :=
  let n := ring.length
  if sig.responses.length ≠ n ∨ n < 2 then false
  else if sig.keyImage = 0 then false
  else if sig.commitmentImage = 0 then false
  else if ring.any fun m => m.publicKey = 0 ∨ m.commitment = 0 then false
  else
    match decodeScalars S sig.responses with
    | none => false
    | some responses =>
      if responses.length ≠ n then false
      else
        match S.scalarFromCanonical sig.c1 with
        | none => false
        | some c1 =>
          if c1 = 0 then false
          else
            let t : ClsagRound F G :=
              ⟨message, ring, pseudoOutput, sig.keyImage, sig.commitmentImage, responses⟩
            S.scalarToBytes (t.challengeAfter S c1 n) == S.scalarToBytes c1

/-- The challenges of `clsag_sign`: the array is filled from the position after the signer's
around to the signer's own. -/
def signChallenges (t : ClsagRound F G) (realIndex : Nat) (start : F) : List F :=
  let n := t.ring.length
  (List.range' 1 (n - 1)).foldl
    (fun cs offset =>
      let i := (realIndex + offset) % n
      cs.set ((i + 1) % n) (t.next S i (cs.getD i 0)))
    ((List.replicate n (0 : F)).set ((realIndex + 1) % n) start)

/-- `clsag_sign`, with the draws of the random number generator (`alpha` and the initial
responses) as arguments. -/
def clsagSign (message : Bytes) (ring : List (RingMember G)) (realIndex : Nat)
    (secretKey blindingDiff : F) (pseudoOutput : G) (alpha : F) (draws : List F) :
    Except ClsagSignError (ClsagSignature G) :=
  let n := ring.length
  if n < 2 then .error (.invalidRingSize 2 n)
  else
    match ring[realIndex]? with
    | none => .error (.invalidRingSize n (realIndex + 1))
    | some real =>
      if secretKey • S.generator ≠ real.publicKey then .error .invalidSigningParameters
      else
        let h := S.hp (secretKey • S.generator)
        let keyImage := secretKey • h
        let commitmentImage := blindingDiff • h
        let t : ClsagRound F G := ⟨message, ring, pseudoOutput, keyImage, commitmentImage, draws⟩
        let start := clsagHash S (ascii "c") ring keyImage commitmentImage message
          (alpha • S.generator) (alpha • h)
        let cs := signChallenges S t realIndex start
        let aggregateSecret := (t.mu S).1 * secretKey + (t.mu S).2 * blindingDiff
        let responses := draws.set realIndex (alpha - cs.getD realIndex 0 * aggregateSecret)
        .ok ⟨keyImage, commitmentImage, S.scalarToBytes (cs.getD 1 0),
          responses.map S.scalarToBytes⟩

/-! ## 3. What an accepted signature says at one position -/

variable {ring : List (RingMember G)} {sig : ClsagSignature G} {pseudoOutput : G}

theorem clsagVerify_accepts (h : clsagVerify S message ring pseudoOutput sig = true) :
    2 ≤ ring.length ∧ sig.keyImage ≠ 0 ∧ sig.commitmentImage ≠ 0 ∧
      ∃ responses c1, decodeScalars S sig.responses = some responses ∧
        S.scalarFromCanonical sig.c1 = some c1 ∧ responses.length = ring.length ∧ c1 ≠ 0 ∧
        ClsagRound.challengeAfter S
          ⟨message, ring, pseudoOutput, sig.keyImage, sig.commitmentImage, responses⟩ c1
          ring.length = c1 := by
  simp only [clsagVerify] at h
  split_ifs at h with h1 h2 h3 h4
  rw [not_or, not_lt] at h1
  refine ⟨h1.2, h2, h3, ?_⟩
  cases hr : decodeScalars S sig.responses with
  | none => simp [hr] at h
  | some responses =>
    cases hc : S.scalarFromCanonical sig.c1 with
    | none => simp [hr, hc] at h
    | some c1 =>
      simp only [hr, hc] at h
      split_ifs at h with h5 h6
      refine ⟨responses, c1, rfl, rfl, not_not.mp h5, h6, ?_⟩
      exact S.scalarToBytes_injective (by simpa using h)

/-- **The signature is closed at position `l` with the aggregate secret of `x` and `z`.** -/
def ClosedWith (message : Bytes) (ring : List (RingMember G)) (pseudoOutput : G)
    (sig : ClsagSignature G) (l : Nat) (x z : F) : Prop :=
  ∀ responses c1, decodeScalars S sig.responses = some responses →
    S.scalarFromCanonical sig.c1 = some c1 →
    let t : ClsagRound F G :=
      ⟨message, ring, pseudoOutput, sig.keyImage, sig.commitmentImage, responses⟩
    let c := t.challengeAt S c1 l
    c ≠ 0 ∧ ∃ alpha : F, t.lAt S l c = alpha • S.generator ∧
      t.rAt S l c = alpha • S.hp (t.publicKeyAt l) ∧
      responses.getD l 0 = alpha - c * ((t.mu S).1 * x + (t.mu S).2 * z)

omit [DecidableEq F] [DecidableEq G] in
/-- **The closing equation fixes the aggregate key image.** -/
theorem aggregateKeyImage_eq_of_closing {s c a alpha : F} {h J : G} (hc : c ≠ 0)
    (hr : s • h + c • J = alpha • h) (hs : s = alpha - c * a) : J = a • h := by
  have hcJ : c • (J - a • h) = 0 := by
    have hexp : c • (J - a • h) = (s • h + c • J) - (s + c * a) • h := by module
    rw [hexp, hr, hs, sub_add_cancel, sub_self]
  exact sub_eq_zero.mp ((smul_eq_zero.mp hcJ).resolve_left hc)

theorem image_combination_eq_zero {l : Nat} {x z : F}
    (hacc : clsagVerify S message ring pseudoOutput sig = true)
    (hclosed : ClosedWith S message ring pseudoOutput sig l x z) {m : RingMember G}
    (hm : ring[l]? = some m) {mu : F × F}
    (hmu : computeAggregateCoefficients S ring sig.keyImage pseudoOutput message = mu) :
    mu.1 • (sig.keyImage - x • S.hp m.publicKey) +
      mu.2 • (sig.commitmentImage - z • S.hp m.publicKey) = 0 := by
  obtain ⟨-, -, -, responses, c1, hresp, hc1, -, -, -⟩ := clsagVerify_accepts S hacc
  obtain ⟨hc, alpha, -, hR, hs⟩ := hclosed responses c1 hresp hc1
  have hpk : ClsagRound.publicKeyAt
      (⟨message, ring, pseudoOutput, sig.keyImage, sig.commitmentImage, responses⟩ :
        ClsagRound F G) l = m.publicKey := by
    simp [ClsagRound.publicKeyAt, hm]
  rw [hpk] at hR
  unfold ClsagRound.rAt at hR
  rw [hpk] at hR
  have hJ := aggregateKeyImage_eq_of_closing hc hR hs
  have hJ' : mu.1 • sig.keyImage + mu.2 • sig.commitmentImage =
      (mu.1 * x + mu.2 * z) • S.hp m.publicKey := by rw [← hmu]; exact hJ
  have hexp : mu.1 • (sig.keyImage - x • S.hp m.publicKey) +
      mu.2 • (sig.commitmentImage - z • S.hp m.publicKey) =
      (mu.1 • sig.keyImage + mu.2 • sig.commitmentImage) -
        (mu.1 * x + mu.2 * z) • S.hp m.publicKey := by module
  rw [hexp, hJ', sub_self]

/-! ## 4. Linkability -/

/-- `KeyImage::from_secret`: `x Hp(x G)`. -/
def keyImageFromSecret (x : F) : G := x • S.hp (x • S.generator)

/-- The secrets of position `l`: its key is `x G` and its commitment differs from the
pseudo-output by `z G`. -/
def OpensAt (ring : List (RingMember G)) (pseudoOutput : G) (l : Nat) (x z : F) : Prop :=
  ∃ m, ring[l]? = some m ∧ m.publicKey = x • S.generator ∧
    m.commitment - pseudoOutput = z • S.generator

/-- **The key image of an accepted signature is the signer's exactly when the commitment image
is.** -/
theorem keyImage_eq_fromSecret_iff {message : Bytes} {ring : List (RingMember G)}
    {pseudoOutput : G} {sig : ClsagSignature G} {l : Nat} {x z : F}
    (howner : OpensAt S ring pseudoOutput l x z)
    (hacc : clsagVerify S message ring pseudoOutput sig = true)
    (hclosed : ClosedWith S message ring pseudoOutput sig l x z)
    (hmu : (computeAggregateCoefficients S ring sig.keyImage pseudoOutput message).1 ≠ 0) :
    sig.keyImage = keyImageFromSecret S x ↔
      (computeAggregateCoefficients S ring sig.keyImage pseudoOutput message).2 = 0 ∨
        sig.commitmentImage = z • S.hp (x • S.generator) := by
  obtain ⟨m, hm, hpk, -⟩ := howner
  generalize hmudef : computeAggregateCoefficients S ring sig.keyImage pseudoOutput message = mu
    at hmu ⊢
  have hcomb := image_combination_eq_zero S hacc hclosed hm hmudef
  rw [hpk] at hcomb
  constructor
  · intro hki
    rw [hki, keyImageFromSecret, sub_self, smul_zero, zero_add] at hcomb
    rcases smul_eq_zero.mp hcomb with h | h
    · exact Or.inl h
    · exact Or.inr (sub_eq_zero.mp h)
  · intro himg
    have hzero : mu.2 • (sig.commitmentImage - z • S.hp (x • S.generator)) = 0 := by
      rcases himg with h | h
      · rw [h, zero_smul]
      · rw [h, sub_self, smul_zero]
    rw [hzero, add_zero] at hcomb
    exact sub_eq_zero.mp ((smul_eq_zero.mp hcomb).resolve_left hmu)

/-! ### The two key images of one output

The signer of position 0 below knows `x = 7` and `z = 5`.  `honestSignature` is what
`clsag_sign` returns; for `forgedSignature` the signer picks the key image 50, hashes it into
the coefficients, and only then solves `mu_p (I - x Hp) + mu_c (D - z Hp) = 0` for `D`. -/

/-- A ring of two; the pseudo-output is 25 and the message one byte. -/
def linkRing : List (RingMember SmallSuite.Z) := [⟨7, 30⟩, ⟨9, 40⟩]

/-- The suite of the example. -/
def linkSuite : Suite SmallSuite.Z SmallSuite.Z := SmallSuite.suite (SmallSuite.digest 32 7)

/-- What `clsag_sign` makes for position 0. -/
def honestSignature : ClsagSignature SmallSuite.Z :=
  ⟨41, 87, SmallSuite.encode 52, [SmallSuite.encode 27, SmallSuite.encode 4]⟩

/-- The same secrets, another key image. -/
def forgedSignature : ClsagSignature SmallSuite.Z :=
  ⟨50, 97, SmallSuite.encode 31, [SmallSuite.encode 69, SmallSuite.encode 4]⟩

omit [DecidableEq F] [DecidableEq G] in
theorem closedWith_of_decoded {l : Nat} {x z : F} (responses : List F) (c1 alpha : F)
    (hresp : decodeScalars S sig.responses = some responses)
    (hc1 : S.scalarFromCanonical sig.c1 = some c1) (h : let t : ClsagRound F G :=
        ⟨message, ring, pseudoOutput, sig.keyImage, sig.commitmentImage, responses⟩
      let c := t.challengeAt S c1 l
      c ≠ 0 ∧ t.lAt S l c = alpha • S.generator ∧ t.rAt S l c = alpha • S.hp (t.publicKeyAt l) ∧
        responses.getD l 0 = alpha - c * ((t.mu S).1 * x + (t.mu S).2 * z)) :
    ClosedWith S message ring pseudoOutput sig l x z := by
  intro responses' c1' hresp' hc1'
  cases hresp.symm.trans hresp'
  cases hc1.symm.trans hc1'
  exact ⟨h.1, alpha, h.2⟩

theorem honestSignature_closed : ClosedWith linkSuite [1] linkRing 25 honestSignature 0 7 5 :=
  closedWith_of_decoded linkSuite [27, 4] 52 11
    (by decide +kernel) (by decide +kernel) (by decide +kernel)

theorem forgedSignature_closed : ClosedWith linkSuite [1] linkRing 25 forgedSignature 0 7 5 :=
  closedWith_of_decoded linkSuite [69, 4] 31 11
    (by decide +kernel) (by decide +kernel) (by decide +kernel)

example : (clsagSign linkSuite [1] linkRing 0 7 5 25 11 [3, 4]).toOption = some honestSignature := by
  decide +kernel

theorem linkRing_opensAt : OpensAt linkSuite linkRing 25 0 7 5 :=
  ⟨⟨7, 30⟩, by decide +kernel, by decide +kernel, by decide +kernel⟩

/-- **One output, one pair of secrets, two accepted key images.** -/
theorem clsagVerify_accepts_two_keyImages :
    OpensAt linkSuite linkRing 25 0 7 5 ∧
      clsagVerify linkSuite [1] linkRing 25 honestSignature = true ∧
      ClosedWith linkSuite [1] linkRing 25 honestSignature 0 7 5 ∧
      clsagVerify linkSuite [1] linkRing 25 forgedSignature = true ∧
      ClosedWith linkSuite [1] linkRing 25 forgedSignature 0 7 5 ∧
      honestSignature.keyImage = keyImageFromSecret linkSuite 7 ∧
      forgedSignature.keyImage ≠ keyImageFromSecret linkSuite 7 :=
  ⟨linkRing_opensAt, by decide +kernel, honestSignature_closed, by decide +kernel,
    forgedSignature_closed, by decide +kernel, by decide +kernel⟩

/-- The honest signature meets the condition, and has the signer's key image. -/
theorem honestSignature_keyImage :
    (computeAggregateCoefficients linkSuite linkRing honestSignature.keyImage 25 [1]).1 ≠ 0 ∧
      honestSignature.keyImage = keyImageFromSecret linkSuite 7 :=
  have hmu : (computeAggregateCoefficients linkSuite linkRing honestSignature.keyImage 25
      [1]).1 ≠ 0 := by decide +kernel
  ⟨hmu, (keyImage_eq_fromSecret_iff linkSuite linkRing_opensAt (by decide +kernel)
    honestSignature_closed hmu).mpr (Or.inr (by decide +kernel))⟩

end Coincync
