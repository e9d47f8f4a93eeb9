/-
# Attestations in the coinbase

`codec` of `crates/coincync-rolling-finality` and the adapter of `src/consensus/rolling_finality.rs`.
An attestation travels in the `extra` field of a coinbase, behind the magic `CIP9`: the adapter
looks for the FIRST place with the magic, takes everything from there to the end, and decodes it.
The codec is strict, so what it accepts is what it writes, bit for bit (`decode_eq_ok_iff`); in
particular nothing may follow the attestation.
-/
import Coincync.RollingFinality.Tracker

namespace Coincync.RollingFinality

open Lib List Option

variable {a : FinalityAttestation}

/-! ## 1. The codec -/

/-- `WIRE_MAGIC`: `CIP9`. -/
def wireMagic : Bytes := [0x43, 0x49, 0x50, 0x39]

def wireVersion : UInt8 := 1

def signatureLen : Nat := 64

inductive WireError
  | tooShort
  | badMagic
  | unknownVersion (v : UInt8)
  | borshDecode
  | wrongSignatureLength (expected actual : Nat)
  deriving DecidableEq

/-- The borsh form of a `WireAttestation`, which has the fields of the attestation. -/
def wireBody (a : FinalityAttestation) : Bytes :=
  a.minerPubkey.toList ++ ((leArray 8 a.targetHeight).toList ++ (a.targetHash.toList ++
    ((leArray 4 a.signature.length).toList ++ a.signature)))

def encode (a : FinalityAttestation) : Bytes := wireMagic ++ wireVersion :: wireBody a

/-- `WireAttestation::try_from_slice`: field by field, and nothing may be left. -/
def tryFromSlice (body : Bytes) : Option FinalityAttestation := do
  let (minerPubkey, rest) ← splitBytes 32 body
  let (targetHeight, rest) ← splitBytes 8 rest
  let (targetHash, rest) ← splitBytes 32 rest
  let (length, signature) ← splitBytes 4 rest
  if signature.length = fromLeBytes length.toList then
    some ⟨minerPubkey, fromLeBytes targetHeight.toList, targetHash, signature⟩
  else none

def decode (bytes : Bytes) : Except WireError FinalityAttestation :=
  if bytes.length < wireMagic.length + 1 then .error .tooShort
  else if bytes.take wireMagic.length ≠ wireMagic then .error .badMagic
  else
    match bytes.drop wireMagic.length with
    | [] => .error .tooShort
    | version :: body =>
      if version ≠ wireVersion then .error (.unknownVersion version)
      else
        match tryFromSlice body with
        | none => .error .borshDecode
        | some a =>
          if a.signature.length ≠ signatureLen then
            .error (.wrongSignatureLength signatureLen a.signature.length)
          else .ok a

/-- The attestations that fit the wire. -/
structure OnWire (a : FinalityAttestation) : Prop where
  height : a.targetHeight < 2 ^ 64
  signature : a.signature.length = signatureLen

theorem tryFromSlice_wireBody (h : OnWire a) : tryFromSlice (wireBody a) = some a := by
  have hheight : a.targetHeight = fromLeBytes (leArray 8 a.targetHeight).toList :=
    (leArray_eq_iff (by exact h.height)).mp rfl
  have hlength : a.signature.length = fromLeBytes (leArray 4 a.signature.length).toList := by
    refine (leArray_eq_iff ?_).mp rfl
    rw [h.signature]
    decide
  simp only [tryFromSlice, wireBody, splitBytes_append, bind_eq_bind, bind_some]
  rw [if_pos hlength, ← hheight]

theorem eq_wireBody_of_tryFromSlice {body : Bytes} (h : tryFromSlice body = some a) :
    body = wireBody a ∧ a.targetHeight < 2 ^ 64 := by
  simp only [tryFromSlice, bind_eq_bind, bind_eq_some_iff, Prod.exists] at h
  obtain ⟨miner, rest₁, h₁, height, rest₂, h₂, hash, rest₃, h₃, length, signature, h₄, h⟩ := h
  split_ifs at h with hlength
  cases h
  have hfits : fromLeBytes height.toList < 2 ^ 64 := by
    have := fromLeBytes_lt height.toList
    rwa [height.toList_length] at this
  have hshort : signature.length < 256 ^ 4 := by
    rw [hlength]
    have := fromLeBytes_lt length.toList
    rwa [length.toList_length] at this
  refine ⟨?_, hfits⟩
  rw [wireBody, (leArray_eq_iff (by exact hfits)).mpr rfl, (leArray_eq_iff hshort).mpr hlength,
    eq_append_of_splitBytes h₁, eq_append_of_splitBytes h₂, eq_append_of_splitBytes h₃,
    eq_append_of_splitBytes h₄]

/-- **The codec accepts exactly what it writes.** -/
theorem decode_eq_ok_iff {bytes : Bytes} : decode bytes = .ok a ↔ OnWire a ∧ bytes = encode a := by
  constructor
  · intro h
    unfold decode at h
    split_ifs at h with hshort hmagic
    split at h
    · cases h
    · rename_i version body hdrop
      split_ifs at h with hversion
      split at h
      · cases h
      · rename_i a' hbody
        split_ifs at h with hsignature
        cases h
        obtain ⟨rfl, hheight⟩ := eq_wireBody_of_tryFromSlice hbody
        refine ⟨⟨hheight, not_not.mp hsignature⟩, ?_⟩
        rw [← take_append_drop wireMagic.length bytes, hdrop, not_not.mp hmagic,
          not_not.mp hversion]
        rfl
  · rintro ⟨ha, rfl⟩
    have hlong : ¬(encode a).length < wireMagic.length + 1 := by
      simp only [encode, length_append, length_cons]
      omega
    have hmagic : (encode a).take wireMagic.length = wireMagic := take_left' rfl
    have hdrop : (encode a).drop wireMagic.length = wireVersion :: wireBody a := drop_left' rfl
    simp only [decode, if_neg hlong, hmagic, hdrop, tryFromSlice_wireBody ha, ha.signature, ne_eq,
      not_true_eq_false, if_false]

/-! ## 2. Finding the attestation -/

/-- `find_attestation`: from the first magic to the end. -/
def findAttestation : Bytes → Option Bytes
  | [] => none
  | b :: rest =>
    if (b :: rest).take wireMagic.length = wireMagic then some (b :: rest)
    else findAttestation rest

/-- The attestation that an `extra` field carries. -/
def attestationIn (extra : Bytes) : Option FinalityAttestation :=
  (findAttestation extra).bind fun bytes => (decode bytes).toOption

theorem attestationIn_encode (ha : OnWire a) : attestationIn (encode a) = some a := by
  have hfind : findAttestation (encode a) = some (encode a) := if_pos rfl
  rw [attestationIn, hfind, bind_some, decode_eq_ok_iff.mpr ⟨ha, rfl⟩]
  rfl

theorem take_append_wireMagic {pre rest : Bytes} (hpre : pre ≠ []) :
    (pre ++ (wireMagic ++ rest)).take wireMagic.length = wireMagic ↔
      pre.take wireMagic.length = wireMagic := by
  match pre with
  | [] => exact absurd rfl hpre
  | [_] | [_, _] | [_, _, _] | _ :: _ :: _ :: _ :: _ => simp [wireMagic]

theorem findAttestation_eq_some_iff {extra rest : Bytes} :
    findAttestation extra = some (wireMagic ++ rest) ↔
      ∃ pre, extra = pre ++ (wireMagic ++ rest) ∧ findAttestation pre = none := by
  constructor
  · intro h
    induction extra with
    | nil => cases h
    | cons b extra ih =>
      rw [findAttestation] at h
      split_ifs at h with hmagic
      · exact ⟨[], some.inj h, rfl⟩
      · obtain ⟨pre, rfl, hpre⟩ := ih h
        rw [← cons_append, take_append_wireMagic (cons_ne_nil b pre)] at hmagic
        exact ⟨b :: pre, rfl, (if_neg hmagic).trans hpre⟩
  · rintro ⟨pre, rfl, hpre⟩
    induction pre with
    | nil => exact if_pos rfl
    | cons b pre ih =>
      rw [findAttestation] at hpre
      split_ifs at hpre with hmagic
      rw [← take_append_wireMagic (cons_ne_nil b pre)] at hmagic
      exact (if_neg hmagic).trans (ih hpre)

/-- **A field carries an attestation exactly if it ends in its encoding**, and the magic does not
occur before: no byte may follow it, and only the first magic counts. -/
theorem attestationIn_eq_some_iff {extra : Bytes} : attestationIn extra = some a ↔
    OnWire a ∧ ∃ pre, extra = pre ++ encode a ∧ findAttestation pre = none := by
  have hdecode (bytes) : (decode bytes).toOption = some a ↔ OnWire a ∧ bytes = encode a := by
    rw [← decode_eq_ok_iff]
    cases decode bytes <;> simp [Except.toOption]
  simp only [attestationIn, bind_eq_some_iff, hdecode]
  constructor
  · rintro ⟨_, hfind, ha, rfl⟩
    exact ⟨ha, findAttestation_eq_some_iff.mp hfind⟩
  · rintro ⟨ha, h⟩
    exact ⟨_, findAttestation_eq_some_iff.mpr h, ha, rfl⟩

/-! ## 3. The adapter -/

inductive OnBlockOutcome
  | noAttestation
  | malformed (e : WireError)
  | rejected (e : FinalityError)
  | recorded
  | newlyFinalized (height : Nat) (hash : BlockHash)
  deriving DecidableEq

namespace FinalityTracker

variable (t : FinalityTracker)

/-- `on_accepted_block`, for a verifier of signatures. -/
def onAcceptedBlock (verify : FinalityAttestation → Bool) (blockHeight : Nat)
    (coinbaseExtra : Bytes) : FinalityTracker × OnBlockOutcome :=
  match findAttestation coinbaseExtra with
  | none => (t, .noAttestation)
  | some bytes =>
    match decode bytes with
    | .error e => (t, .malformed e)
    | .ok a =>
      let t := t.recordBlock a.minerPubkey blockHeight
      match t.applyAttestation verify a with
      | .ok (t', .accepted) => (t', .recorded)
      | .ok (t', .newlyFinalized height hash) => (t', .newlyFinalized height hash)
      | .error e => (t, .rejected e)

variable {t} {verify : FinalityAttestation → Bool} {blockHeight : Nat} {extra : Bytes}

theorem onAcceptedBlock_of_none (h : attestationIn extra = none) :
    (t.onAcceptedBlock verify blockHeight extra).1 = t ∧
      ∀ height hash,
        (t.onAcceptedBlock verify blockHeight extra).2 ≠ .newlyFinalized height hash := by
  unfold attestationIn at h
  cases hfind : findAttestation extra with
  | none => simp [onAcceptedBlock, hfind]
  | some bytes =>
    rw [hfind, bind_some] at h
    cases hdecode : decode bytes with
    | error e => simp [onAcceptedBlock, hfind, hdecode]
    | ok a =>
      rw [hdecode] at h
      cases h

theorem onAcceptedBlock_of_some (h : attestationIn extra = some a) :
    t.onAcceptedBlock verify blockHeight extra =
      match (t.recordBlock a.minerPubkey blockHeight).applyAttestation verify a with
      | .ok (t', .accepted) => (t', .recorded)
      | .ok (t', .newlyFinalized height hash) => (t', .newlyFinalized height hash)
      | .error e => (t.recordBlock a.minerPubkey blockHeight, .rejected e) := by
  unfold attestationIn at h
  cases hfind : findAttestation extra with
  | none =>
    rw [hfind] at h
    cases h
  | some bytes =>
    rw [hfind, bind_some] at h
    cases hdecode : decode bytes with
    | error e =>
      rw [hdecode] at h
      cases h
    | ok a' =>
      rw [hdecode] at h
      cases h
      simp only [onAcceptedBlock, hfind, hdecode]

theorem softFinalHeight_recordBlock (miner : MinerPubkey) (blockHeight : Nat) :
    (t.recordBlock miner blockHeight).softFinalHeight = t.softFinalHeight := by
  simp only [recordBlock]
  split <;> rfl

/-- **The soft-final height moves with a finalisation only**, and then to the height and the hash
that the block attests to. -/
theorem onAcceptedBlock_softFinalHeight (t : FinalityTracker) (verify : FinalityAttestation → Bool)
    (blockHeight : Nat) (extra : Bytes) :
    (t.onAcceptedBlock verify blockHeight extra).1.softFinalHeight = t.softFinalHeight ∧
        (∀ height hash,
          (t.onAcceptedBlock verify blockHeight extra).2 ≠ .newlyFinalized height hash) ∨
      ∃ a, attestationIn extra = some a ∧
        (t.onAcceptedBlock verify blockHeight extra).1.softFinalHeight = some a.targetHeight ∧
        (t.onAcceptedBlock verify blockHeight extra).2 =
          .newlyFinalized a.targetHeight a.targetHash := by
  cases ha : attestationIn extra with
  | none =>
    exact .inl ⟨congrArg softFinalHeight (onAcceptedBlock_of_none ha).1,
      (onAcceptedBlock_of_none ha).2⟩
  | some a =>
    rw [onAcceptedBlock_of_some ha]
    cases happly : (t.recordBlock a.minerPubkey blockHeight).applyAttestation verify a with
    | error e => exact .inl ⟨softFinalHeight_recordBlock _ _, by simp⟩
    | ok r =>
      obtain ⟨t', outcome⟩ := r
      obtain ⟨-, -, -, ⟨rfl, rfl⟩ | ⟨rfl, rfl, -⟩⟩ := applyAttestation_ok happly
      · exact .inl ⟨softFinalHeight_recordBlock _ _, by simp⟩
      · exact .inr ⟨a, rfl, rfl, rfl⟩

/-! ## 4. Attestations that are refused -/

/-- The miner and the height are recorded already. -/
def hasSeen (t : FinalityTracker) (miner : MinerPubkey) (height : Nat) : Bool :=
  decide (height ≤ t.chainTip) &&
    (t.activeSet.miners.lookup miner).any fun r => decide (height ≤ r.lastSeenHeight)

variable {miner : MinerPubkey}

theorem recordBlock_of_hasSeen {height : Nat}
    (h : t.hasSeen miner height = true) : t.recordBlock miner height = t := by
  simp only [hasSeen, Bool.and_eq_true, decide_eq_true_eq, Option.any_eq_true] at h
  obtain ⟨htip, r, hr, hseen⟩ := h
  simp only [recordBlock, ActiveMinerSet.recordBlock, hr, if_neg (not_lt.mpr hseen),
    if_neg (not_lt.mpr htip)]

theorem activeSet_onAcceptedBlock (ha : attestationIn extra = some a) :
    (t.onAcceptedBlock verify blockHeight extra).1.activeSet =
      t.activeSet.recordBlock a.minerPubkey blockHeight := by
  rw [onAcceptedBlock_of_some ha, ← activeSet_recordBlock]
  cases happly : (t.recordBlock a.minerPubkey blockHeight).applyAttestation verify a with
  | error e => rfl
  | ok r =>
    obtain ⟨t', outcome⟩ := r
    rw [← activeSet_of_applied happly]
    cases outcome <;> rfl

/-- `on_accepted_block` for one block after the other. -/
def onAcceptedBlocks (verify : FinalityAttestation → Bool) (t : FinalityTracker)
    (blocks : List (Nat × Bytes)) : FinalityTracker :=
  blocks.foldl (fun t b => (t.onAcceptedBlock verify b.1 b.2).1) t

/-- The block has an attestation that is validly signed. -/
def attests (verify : FinalityAttestation → Bool) (b : Nat × Bytes) : Bool :=
  (attestationIn b.2).any verify

/-- A block with a bad signature is by a miner, and at a height, that is recorded already. -/
def forgerSeen (verify : FinalityAttestation → Bool) (t : FinalityTracker) (b : Nat × Bytes) :
    Bool :=
  (attestationIn b.2).all fun a => verify a || t.hasSeen a.minerPubkey b.1

/-- **Whoever forges has been seen**, at each of the blocks. -/
def forgersSeen (verify : FinalityAttestation → Bool) : FinalityTracker → List (Nat × Bytes) → Bool
  | _, [] => true
  | t, b :: rest =>
    forgerSeen verify t b && forgersSeen verify (t.onAcceptedBlock verify b.1 b.2).1 rest

theorem onAcceptedBlock_of_refused {b : Nat × Bytes} (hseen : forgerSeen verify t b = true)
    (hrefused : attests verify b = false) : (t.onAcceptedBlock verify b.1 b.2).1 = t := by
  unfold forgerSeen at hseen
  unfold attests at hrefused
  cases ha : attestationIn b.2 with
  | none => exact (onAcceptedBlock_of_none ha).1
  | some a =>
    simp only [ha, all_some, any_some] at hseen hrefused
    rw [hrefused, Bool.false_or] at hseen
    rw [onAcceptedBlock_of_some ha, applyAttestation, if_pos hrefused, recordBlock_of_hasSeen hseen]

theorem known_of_onAcceptedBlocks : ∀ {blocks : List (Nat × Bytes)}
    {t : FinalityTracker}, (t.onAcceptedBlocks verify blocks).activeSet.miners.lookup miner ≠ none →
    t.activeSet.miners.lookup miner ≠ none ∨
      ∃ b ∈ blocks, ∃ a, attestationIn b.2 = some a ∧ a.minerPubkey = miner
  | [], _, h => .inl h
  | b :: rest, t, h => by
    rcases known_of_onAcceptedBlocks (t := (t.onAcceptedBlock verify b.1 b.2).1) h with
      hafter | ⟨b', hb', hsent⟩
    · cases ha : attestationIn b.2 with
      | none => exact .inl (by rwa [(onAcceptedBlock_of_none ha).1] at hafter)
      | some a =>
        rw [activeSet_onAcceptedBlock ha, Watched.lookup_recordBlock] at hafter
        split_ifs at hafter with hminer
        · exact .inr ⟨b, by simp, a, ha, hminer.symm⟩
        · exact .inl hafter
    · exact .inr ⟨b', by simp [hb'], hsent⟩

/-- **Refused attestations add nothing** as long as forgers have been seen: the tracker is that of
the blocks with a valid signature alone, and every miner it counts was known or has signed one of
them. -/
theorem refused_add_nothing_of_forgersSeen (verify : FinalityAttestation → Bool)
    (t : FinalityTracker) (blocks : List (Nat × Bytes)) (h : forgersSeen verify t blocks = true) :
    t.onAcceptedBlocks verify blocks = t.onAcceptedBlocks verify (blocks.filter (attests verify)) ∧
      ∀ miner height, (t.onAcceptedBlocks verify blocks).activeSet.isActive miner height = true →
        t.activeSet.miners.lookup miner ≠ none ∨ ∃ b ∈ blocks, ∃ a,
          attestationIn b.2 = some a ∧ a.minerPubkey = miner ∧ verify a = true := by
  have hsame : t.onAcceptedBlocks verify blocks =
      t.onAcceptedBlocks verify (blocks.filter (attests verify)) := by
    induction blocks generalizing t with
    | nil => rfl
    | cons b rest ih =>
      simp only [forgersSeen, Bool.and_eq_true] at h
      have hrest := ih _ h.2
      cases hgood : attests verify b with
      | true =>
        rw [filter_cons_of_pos hgood]
        exact hrest
      | false =>
        rw [filter_cons_of_neg (by simp [hgood])]
        rw [onAcceptedBlock_of_refused h.1 hgood] at hrest
        rw [← hrest]
        exact congrArg (onAcceptedBlocks verify · rest) (onAcceptedBlock_of_refused h.1 hgood)
  refine ⟨hsame, fun miner height hactive => ?_⟩
  have hknown : (t.onAcceptedBlocks verify blocks).activeSet.miners.lookup miner ≠ none := by
    intro hnone
    simp [ActiveMinerSet.isActive, hnone] at hactive
  rw [hsame] at hknown
  refine (known_of_onAcceptedBlocks hknown).imp_right ?_
  rintro ⟨b, hb, a, ha, hminer⟩
  obtain ⟨hmem, hgood⟩ := mem_filter.mp hb
  exact ⟨b, hmem, a, ha, hminer, by simpa [attests, ha] using hgood⟩

/-! A miner that is alone finalizes its own block, and two forged blocks prevent it. -/

namespace Forgery

/-- An attestation of miner `n` to height 5. -/
def attestation (n : UInt8) : FinalityAttestation :=
  ⟨FixedBytes.replicate 32 n, 5, FixedBytes.replicate 32 7, List.replicate 64 0⟩

def byMiner1 (a : FinalityAttestation) : Bool := decide (a = attestation 1)

/-- A block of miner `n` at height 5. -/
def block (n : UInt8) : Nat × Bytes := (5, encode (attestation n))

/-- A new tracker. -/
def tracker : FinalityTracker := withParams 23 0 1 10 (by decide)

def forged : Nat × Bytes :=
  (5, encode { attestation 1 with signature := List.replicate 64 1 })

/-- A block whose attestation is cut short. -/
def malformed : Nat × Bytes := (6, (encode (attestation 2)).take 50)

theorem refused_add_nothing :
    let t := (tracker.onAcceptedBlock byMiner1 5 (block 1).2).1
    (t.onAcceptedBlock byMiner1 forged.1 forged.2).2 = .rejected .invalidSignature ∧
      (t.onAcceptedBlock byMiner1 malformed.1 malformed.2).2 = .malformed .borshDecode ∧
      tracker.onAcceptedBlocks byMiner1 [block 1, forged, malformed] =
        tracker.onAcceptedBlocks byMiner1 [block 1] :=
  ⟨by decide +kernel, by decide +kernel,
    (refused_add_nothing_of_forgersSeen byMiner1 tracker [block 1, forged, malformed]
      (by decide +kernel)).1.trans (by decide +kernel)⟩

/-- **Forged blocks raise the quorum.** -/
theorem forged_blocks_prevent_finality :
    (tracker.onAcceptedBlock byMiner1 5 (block 2).2).2 = .rejected .invalidSignature ∧
      (tracker.onAcceptedBlocks byMiner1 [block 2, block 3]).activeSet.activeCount 5 = 2 ∧
      (tracker.onAcceptedBlock byMiner1 5 (block 1).2).2 =
        .newlyFinalized 5 (FixedBytes.replicate 32 7) ∧
      ((tracker.onAcceptedBlocks byMiner1 [block 2, block 3]).onAcceptedBlock byMiner1 5
        (block 1).2).2 = .recorded := by
  decide +kernel

end Forgery

end FinalityTracker

end Coincync.RollingFinality
