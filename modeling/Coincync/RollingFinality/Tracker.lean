/-
# The rolling-finality tracker

`FinalityTracker` and `ActiveMinerSet` of `crates/coincync-rolling-finality`.  Miners attest to
blocks; a height becomes soft-final when two thirds of the miners active at it have attested to one
hash there.
-/
import Coincync.Lib.Bytes
import Coincync.Lib.Maps
import Coincync.Lib.Runs

namespace Coincync.RollingFinality

open Lib

/-! ## 1. The active set -/

abbrev MinerPubkey := FixedBytes 32

abbrev BlockHash := FixedBytes 32

structure MinerRecord where
  firstSeenHeight : Nat
  lastSeenHeight : Nat
  deriving DecidableEq

/-- `ActiveMinerSet`: the constructor asserts that the window is positive. -/
structure ActiveMinerSet where
  miners : Map MinerPubkey MinerRecord
  window : Nat
  window_pos : 0 < window
  deriving DecidableEq

namespace ActiveMinerSet

def new (window : Nat) (h : 0 < window) : ActiveMinerSet := ⟨∅, window, h⟩

variable (A : ActiveMinerSet)

def recordBlock (miner : MinerPubkey) (height : Nat) : ActiveMinerSet :=
  match A.miners.lookup miner with
  | some r =>
    if r.lastSeenHeight < height then
      { A with miners := A.miners.insert miner { r with lastSeenHeight := height } }
    else A
  | none => { A with miners := A.miners.insert miner ⟨height, height⟩ }

def isActiveRecord (r : MinerRecord) (atHeight window : Nat) : Bool :=
  if atHeight < r.firstSeenHeight then false
  else if atHeight - r.firstSeenHeight < window then true
  else if r.lastSeenHeight ≤ atHeight ∧ atHeight - r.lastSeenHeight < window then true
  else false

def isActive (miner : MinerPubkey) (atHeight : Nat) : Bool :=
  match A.miners.lookup miner with
  | some r => isActiveRecord r atHeight A.window
  | none => false

def activeMiners (atHeight : Nat) : Finset MinerPubkey :=
  A.miners.keys.filter fun miner => A.isActive miner atHeight = true

def activeCount (atHeight : Nat) : Nat := (A.activeMiners atHeight).card

end ActiveMinerSet

/-! ## 2. The tracker -/

structure FinalityAttestation where
  minerPubkey : MinerPubkey
  targetHeight : Nat
  targetHash : BlockHash
  signature : Bytes
  deriving DecidableEq

inductive FinalityError
  | invalidSignature
  | minerNotActive (height : Nat)
  | staleTarget (targetHeight earliestAccepted : Nat)
  | futureTarget (targetHeight trackerTip : Nat)
  | duplicateAttestation (targetHeight : Nat)
  deriving DecidableEq

inductive ApplyOutcome
  | accepted
  | newlyFinalized (height : Nat) (hash : BlockHash)
  deriving DecidableEq

structure FinalityTracker where
  minQuorum : Nat
  lag : Nat
  staleHorizon : Nat
  activeSet : ActiveMinerSet
  chainTip : Nat
  attestations : Map Nat (Map BlockHash (Finset MinerPubkey))
  softFinalHeight : Option Nat
  totalRecorded : Nat
  deriving DecidableEq

def ceilTwoThirds (n : Nat) : Nat := (2 * n + 2) / 3

namespace FinalityTracker

def withParams (window lag minQuorum staleHorizon : Nat) (h : 0 < window) : FinalityTracker where
  minQuorum := minQuorum
  lag := lag
  staleHorizon := staleHorizon
  activeSet := .new window h
  chainTip := 0
  attestations := ∅
  softFinalHeight := none
  totalRecorded := 0

def newDefault : FinalityTracker := withParams 10000 100 5 10000 (by decide)

variable (t : FinalityTracker)

def pruneStaleAttestations : FinalityTracker :=
  { t with
    attestations :=
      Map.retain (fun height _ => decide (t.chainTip - t.staleHorizon ≤ height)) t.attestations }

def recordBlock (miner : MinerPubkey) (blockHeight : Nat) : FinalityTracker :=
  let t := { t with activeSet := t.activeSet.recordBlock miner blockHeight }
  if t.chainTip < blockHeight then { t with chainTip := blockHeight }.pruneStaleAttestations else t

def signers (height : Nat) (hash : BlockHash) : Finset MinerPubkey :=
  (((t.attestations.lookup height).getD ∅).lookup hash).getD ∅

/-- The tracker with one more signer. -/
def addSigner (a : FinalityAttestation) : FinalityTracker :=
  { t with
    attestations :=
      t.attestations.insert a.targetHeight
        (((t.attestations.lookup a.targetHeight).getD ∅).insert a.targetHash
          (insert a.minerPubkey (t.signers a.targetHeight a.targetHash)))
    totalRecorded := t.totalRecorded + 1 }

/-- Whether a height is beyond the soft-final one. -/
def advances (height : Nat) : Bool :=
  match t.softFinalHeight with
  | some current => decide (current < height)
  | none => true

/-- `apply_attestation`, for a verifier of signatures. -/
def applyAttestation (verify : FinalityAttestation → Bool) (a : FinalityAttestation) :
    Except FinalityError (FinalityTracker × ApplyOutcome) :=
  let earliestAccepted := t.chainTip - t.staleHorizon
  if verify a = false then .error .invalidSignature
  else if t.chainTip < a.targetHeight then .error (.futureTarget a.targetHeight t.chainTip)
  else if a.targetHeight < earliestAccepted then
    .error (.staleTarget a.targetHeight earliestAccepted)
  else if t.activeSet.isActive a.minerPubkey a.targetHeight = false then
    .error (.minerNotActive a.targetHeight)
  else if a.minerPubkey ∈ t.signers a.targetHeight a.targetHash then
    .error (.duplicateAttestation a.targetHeight)
  else
    let t := t.addSigner a
    let activeCount := t.activeSet.activeCount a.targetHeight
    if activeCount < t.minQuorum then .ok (t, .accepted)
    else if ceilTwoThirds activeCount ≤ (t.signers a.targetHeight a.targetHash).card ∧
        t.advances a.targetHeight = true then
      .ok ({ t with softFinalHeight := some a.targetHeight },
        .newlyFinalized a.targetHeight a.targetHash)
    else .ok (t, .accepted)

def wouldReorgViolateFinality (proposedForkHeight : Nat) : Bool :=
  match t.softFinalHeight with
  | some softFinal => decide (proposedForkHeight ≤ softFinal)
  | none => false

/-! ## 3. What the operations do -/

variable {t} {t' : FinalityTracker} {verify : FinalityAttestation → Bool} {a : FinalityAttestation}
  {outcome : ApplyOutcome}

theorem signers_addSigner (height : Nat) (hash : BlockHash) :
    (t.addSigner a).signers height hash =
      if height = a.targetHeight ∧ hash = a.targetHash then
        insert a.minerPubkey (t.signers height hash)
      else t.signers height hash := by
  by_cases hheight : height = a.targetHeight
  · subst hheight
    by_cases hhash : hash = a.targetHash
    · subst hhash
      simp [addSigner, signers]
    · simp [addSigner, signers, hhash]
  · simp [addSigner, signers, hheight]

theorem signers_pruneStaleAttestations_subset (height : Nat) (hash : BlockHash) :
    t.pruneStaleAttestations.signers height hash ⊆ t.signers height hash := by
  unfold signers pruneStaleAttestations
  rw [Map.lookup_retain]
  by_cases h : t.chainTip - t.staleHorizon ≤ height
  · cases hl : t.attestations.lookup height with
    | none => simp
    | some m => simp [h, Option.filter]
  · cases hl : t.attestations.lookup height with
    | none => simp
    | some m => simp [h]

theorem signers_recordBlock_subset (miner : MinerPubkey) (blockHeight height : Nat)
    (hash : BlockHash) :
    (t.recordBlock miner blockHeight).signers height hash ⊆ t.signers height hash := by
  simp only [recordBlock]
  split
  · exact signers_pruneStaleAttestations_subset height hash
  · exact Finset.Subset.refl _

@[simp] theorem activeSet_recordBlock (miner : MinerPubkey) (blockHeight : Nat) :
    (t.recordBlock miner blockHeight).activeSet = t.activeSet.recordBlock miner blockHeight := by
  simp only [recordBlock]
  split <;> rfl

@[simp] theorem minQuorum_recordBlock (miner : MinerPubkey) (blockHeight : Nat) :
    (t.recordBlock miner blockHeight).minQuorum = t.minQuorum := by
  simp only [recordBlock]
  split <;> rfl

section

variable (h : t.applyAttestation verify a = .ok (t', outcome))

include h

/-- **What an applied attestation does.**  Its miner becomes a signer, and nothing else changes but
the count and, with a full quorum, the soft-final height. -/
theorem applyAttestation_ok :
    verify a = true ∧ a.targetHeight ≤ t.chainTip ∧
      t.activeSet.isActive a.minerPubkey a.targetHeight = true ∧
      (outcome = .accepted ∧ t' = t.addSigner a ∨
        outcome = .newlyFinalized a.targetHeight a.targetHash ∧
          t' = { t.addSigner a with softFinalHeight := some a.targetHeight } ∧
          t.minQuorum ≤ t.activeSet.activeCount a.targetHeight ∧
          ceilTwoThirds (t.activeSet.activeCount a.targetHeight) ≤
            ((t.addSigner a).signers a.targetHeight a.targetHash).card ∧
          t.advances a.targetHeight = true) := by
  simp only [applyAttestation] at h
  split_ifs at h with hverify hfuture hstale hactive hdup hquorum hthreshold
  all_goals
    cases h
    refine ⟨by simpa using hverify, not_lt.mp hfuture, by simpa using hactive, ?_⟩
  · exact .inl ⟨rfl, rfl⟩
  · exact .inr ⟨rfl, rfl, not_lt.mp hquorum, hthreshold.1, hthreshold.2⟩
  · exact .inl ⟨rfl, rfl⟩

theorem signers_of_applied (height : Nat) (hash : BlockHash) :
    t'.signers height hash = (t.addSigner a).signers height hash := by
  obtain ⟨-, -, -, ⟨-, rfl⟩ | ⟨-, rfl, -⟩⟩ := applyAttestation_ok h
  · rfl
  · rfl

theorem activeSet_of_applied : t'.activeSet = t.activeSet := by
  obtain ⟨-, -, -, ⟨-, rfl⟩ | ⟨-, rfl, -⟩⟩ := applyAttestation_ok h
  · rfl
  · rfl

theorem minQuorum_of_applied : t'.minQuorum = t.minQuorum := by
  obtain ⟨-, -, -, ⟨-, rfl⟩ | ⟨-, rfl, -⟩⟩ := applyAttestation_ok h
  · rfl
  · rfl

end

end FinalityTracker

/-! ## 4. A tracker and its history -/

/-- A call on the tracker. -/
inductive Call
  | recordBlock (miner : MinerPubkey) (height : Nat)
  | applyAttestation (a : FinalityAttestation)
  deriving DecidableEq

/-- **A tracker with what has happened to it**: the blocks recorded and the attestations applied,
none of which the tracker itself keeps in full. -/
structure Watched where
  tracker : FinalityTracker
  recorded : List (MinerPubkey × Nat)
  applied : List FinalityAttestation

namespace Watched

/-- A new tracker, with nothing behind it. -/
def new (t : FinalityTracker) : Watched := ⟨t, [], []⟩

/-- One call.  A refused attestation changes nothing. -/
def step (verify : FinalityAttestation → Bool) (w : Watched) : Call → Option Watched
  | .recordBlock miner height =>
    some ⟨w.tracker.recordBlock miner height, (miner, height) :: w.recorded, w.applied⟩
  | .applyAttestation a =>
    match w.tracker.applyAttestation verify a with
    | .ok (t', _) => some ⟨t', w.recorded, a :: w.applied⟩
    | .error _ => some w

/-- The miners that recorded a block in the window that ends at `height`. -/
def minersInWindow (w : Watched) (height : Nat) : Finset MinerPubkey :=
  ((w.recorded.filter fun r => decide (r.2 ≤ height ∧ height - r.2 < w.tracker.activeSet.window)).map
    Prod.fst).toFinset

/-- The miners whose attestation for exactly this height and hash was applied. -/
def attesters (w : Watched) (height : Nat) (hash : BlockHash) : Finset MinerPubkey :=
  ((w.applied.filter fun a => decide (a.targetHeight = height ∧ a.targetHash = hash)).map
    FinalityAttestation.minerPubkey).toFinset

variable {w : Watched} {miner : MinerPubkey} {height : Nat} {A : ActiveMinerSet}
  {recorded : List (MinerPubkey × Nat)}

theorem mem_minersInWindow :
    miner ∈ w.minersInWindow height ↔
      ∃ x, (miner, x) ∈ w.recorded ∧ x ≤ height ∧ height - x < w.tracker.activeSet.window := by
  simp [minersInWindow]

theorem mem_attesters {hash : BlockHash} :
    miner ∈ w.attesters height hash ↔
      ∃ a ∈ w.applied, a.targetHeight = height ∧ a.targetHash = hash ∧ a.minerPubkey = miner := by
  simp [attesters, and_assoc]

/-- **The condition on a call.**  A block is not recorded below its miner's first block; and when an
attestation is applied, no known miner straddles its target: a first block before the window, a
last block after the target. -/
def Guarded (w : Watched) : Call → Prop
  | .recordBlock miner height =>
    ∀ r, w.tracker.activeSet.miners.lookup miner = some r → r.firstSeenHeight ≤ height
  | .applyAttestation a =>
    ∀ miner r, w.tracker.activeSet.miners.lookup miner = some r →
      ¬(r.firstSeenHeight + w.tracker.activeSet.window ≤ a.targetHeight ∧
        a.targetHeight < r.lastSeenHeight)

/-! ## 5. What the summary says about the history -/

/-- **The record of a miner is the first and the last of its blocks**, and only the recorded miners
have one. -/
structure Summarizes (miners : Map MinerPubkey MinerRecord) (recorded : List (MinerPubkey × Nat)) :
    Prop where
  known : ∀ miner x, (miner, x) ∈ recorded → (miners.lookup miner).isSome = true
  first_mem : ∀ miner r, miners.lookup miner = some r → (miner, r.firstSeenHeight) ∈ recorded
  last_mem : ∀ miner r, miners.lookup miner = some r → (miner, r.lastSeenHeight) ∈ recorded
  between : ∀ miner r x, miners.lookup miner = some r → (miner, x) ∈ recorded →
    r.firstSeenHeight ≤ x ∧ x ≤ r.lastSeenHeight

theorem Summarizes.nil : Summarizes ∅ [] where
  known _ _ h := by cases h
  first_mem _ _ h := by simp at h
  last_mem _ _ h := by simp at h
  between _ _ _ h := by simp at h

theorem lookup_recordBlock (m : MinerPubkey) :
    (A.recordBlock miner height).miners.lookup m =
      if m = miner then
        some (match A.miners.lookup miner with
          | some r => ⟨r.firstSeenHeight, max r.lastSeenHeight height⟩
          | none => ⟨height, height⟩)
      else A.miners.lookup m := by
  unfold ActiveMinerSet.recordBlock
  cases hr : A.miners.lookup miner with
  | none => simp [Map.lookup_insert_ite]
  | some r =>
    by_cases hlast : r.lastSeenHeight < height
    · simp [hlast, Map.lookup_insert_ite, max_eq_right hlast.le]
    · by_cases hm : m = miner
      · subst hm
        simp [hlast, hr, max_eq_left (not_lt.mp hlast)]
      · simp [hlast, hm]

section

variable (h : Summarizes A.miners recorded)
include h

/-- **Recording a block keeps the summary right**, unless the block is below the miner's first. -/
theorem Summarizes.recordBlock
    (hfirst : ∀ r, A.miners.lookup miner = some r → r.firstSeenHeight ≤ height) :
    Summarizes (A.recordBlock miner height).miners ((miner, height) :: recorded) := by
  have hcases : ∀ m r, (A.recordBlock miner height).miners.lookup m = some r →
      m = miner ∧ A.miners.lookup m = none ∧ r = ⟨height, height⟩ ∨
      (∃ r', m = miner ∧ A.miners.lookup m = some r' ∧
        r = ⟨r'.firstSeenHeight, max r'.lastSeenHeight height⟩) ∨
      m ≠ miner ∧ A.miners.lookup m = some r := by
    intro m r hr
    rw [lookup_recordBlock] at hr
    split_ifs at hr with hm
    · subst hm
      cases hold : A.miners.lookup m with
      | none => exact .inl ⟨rfl, rfl, by rw [hold] at hr; exact (Option.some.inj hr).symm⟩
      | some r' =>
        exact .inr (.inl ⟨r', rfl, rfl, by rw [hold] at hr; exact (Option.some.inj hr).symm⟩)
    · exact .inr (.inr ⟨hm, hr⟩)
  refine ⟨?_, ?_, ?_, ?_⟩
  · intro m x hx
    rw [lookup_recordBlock]
    split_ifs with hm
    · rfl
    · rcases List.mem_cons.mp hx with hx | hx
      · exact absurd (congrArg Prod.fst hx) hm
      · exact h.known m x hx
  · intro m r hr
    rcases hcases m r hr with ⟨rfl, -, rfl⟩ | ⟨r', rfl, hold, rfl⟩ | ⟨-, hr⟩
    · exact .head _
    · exact .tail _ (h.first_mem m r' hold)
    · exact .tail _ (h.first_mem m r hr)
  · intro m r hr
    rcases hcases m r hr with ⟨rfl, -, rfl⟩ | ⟨r', rfl, hold, rfl⟩ | ⟨-, hr⟩
    · exact .head _
    · rcases max_choice r'.lastSeenHeight height with hmax | hmax
      · simp only [hmax]
        exact .tail _ (h.last_mem m r' hold)
      · simp only [hmax]
        exact .head _
    · exact .tail _ (h.last_mem m r hr)
  · intro m r x hr hx
    rcases List.mem_cons.mp hx with hnow | hbefore
    · cases hnow
      rcases hcases _ r hr with ⟨-, -, rfl⟩ | ⟨r', -, hold, rfl⟩ | ⟨hm, -⟩
      · exact ⟨le_refl _, le_refl _⟩
      · exact ⟨hfirst r' hold, le_max_right _ _⟩
      · exact absurd rfl hm
    · rcases hcases m r hr with ⟨rfl, hold, -⟩ | ⟨r', rfl, hold, rfl⟩ | ⟨-, hr⟩
      · have := h.known m x hbefore
        rw [hold] at this
        cases this
      · obtain ⟨hlow, hhigh⟩ := h.between m r' x hold hbefore
        exact ⟨hlow, hhigh.trans (le_max_left _ _)⟩
      · exact h.between m r x hr hbefore

/-- **An active miner has mined in the window**: the summary never says too much. -/
theorem Summarizes.exists_of_isActive (hactive : A.isActive miner height = true) :
    ∃ x, (miner, x) ∈ recorded ∧ x ≤ height ∧ height - x < A.window := by
  unfold ActiveMinerSet.isActive at hactive
  cases hr : A.miners.lookup miner with
  | none =>
    rw [hr] at hactive
    cases hactive
  | some r =>
    simp only [hr, ActiveMinerSet.isActiveRecord] at hactive
    split_ifs at hactive with hafter hfirst hlast
    · exact ⟨_, h.first_mem miner r hr, not_lt.mp hafter, hfirst⟩
    · exact ⟨_, h.last_mem miner r hr, hlast.1, hlast.2⟩

/-- **A miner that has mined in the window is active**, unless its record straddles the height. -/
theorem Summarizes.isActive_of_mem {x : Nat}
    (hx : (miner, x) ∈ recorded) (hle : x ≤ height) (hwindow : height - x < A.window)
    (hstraddle : ∀ r, A.miners.lookup miner = some r →
      ¬(r.firstSeenHeight + A.window ≤ height ∧ height < r.lastSeenHeight)) :
    A.isActive miner height = true := by
  obtain ⟨r, hr⟩ := Option.isSome_iff_exists.mp (h.known miner x hx)
  obtain ⟨hlow, hhigh⟩ := h.between miner r x hr hx
  have hno := hstraddle r hr
  simp only [ActiveMinerSet.isActive, hr, ActiveMinerSet.isActiveRecord]
  split_ifs with hafter hfirst hlast
  · omega
  · rfl
  · rfl
  · omega

end

/-! ## 6. The quorum -/

/-- What holds of a watched tracker along a guarded run. -/
structure Sound (w : Watched) : Prop where
  summarizes : Summarizes w.tracker.activeSet.miners w.recorded
  signed : ∀ height hash, w.tracker.signers height hash ⊆ w.attesters height hash

theorem Sound.new (window lag minQuorum staleHorizon : Nat) (h : 0 < window) :
    (Watched.new (.withParams window lag minQuorum staleHorizon h)).Sound where
  summarizes := .nil
  signed height hash := by
    intro miner hminer
    simp [Watched.new, FinalityTracker.withParams, FinalityTracker.signers] at hminer

theorem Sound.recordBlock (h : w.Sound) (hguard : w.Guarded (.recordBlock miner height)) :
    Sound ⟨w.tracker.recordBlock miner height, (miner, height) :: w.recorded, w.applied⟩ where
  summarizes := by
    rw [FinalityTracker.activeSet_recordBlock]
    exact h.summarizes.recordBlock hguard
  signed height' hash :=
    (FinalityTracker.signers_recordBlock_subset miner height height' hash).trans
      (h.signed height' hash)

variable {verify : FinalityAttestation → Bool}

theorem Sound.applied (h : w.Sound) {a : FinalityAttestation}
    {t' : FinalityTracker} {outcome : ApplyOutcome}
    (happly : w.tracker.applyAttestation verify a = .ok (t', outcome)) :
    Sound ⟨t', w.recorded, a :: w.applied⟩ where
  summarizes := by
    rw [FinalityTracker.activeSet_of_applied happly]
    exact h.summarizes
  signed height hash := by
    intro miner hminer
    rw [FinalityTracker.signers_of_applied happly, FinalityTracker.signers_addSigner] at hminer
    rw [mem_attesters]
    -- an earlier signer has its attestation further down the list
    have hearlier : miner ∈ w.tracker.signers height hash →
        ∃ b ∈ a :: w.applied, b.targetHeight = height ∧ b.targetHash = hash ∧
          b.minerPubkey = miner := by
      intro hold
      obtain ⟨b, hb, hrest⟩ := mem_attesters.mp (h.signed height hash hold)
      exact ⟨b, .tail _ hb, hrest⟩
    split_ifs at hminer with htarget
    · rcases Finset.mem_insert.mp hminer with rfl | hold
      · exact ⟨a, .head _, htarget.1.symm, htarget.2.symm, rfl⟩
      · exact hearlier hold
    · exact hearlier hminer

/-- **One guarded call keeps the history and the tracker together.** -/
theorem Sound.step {w' : Watched} {call : Call} (h : w.Sound)
    (hguard : w.Guarded call) (hstep : step verify w call = some w') : w'.Sound := by
  cases call with
  | recordBlock miner height =>
    cases hstep
    exact h.recordBlock hguard
  | applyAttestation a =>
    simp only [Watched.step] at hstep
    split at hstep
    · rename_i t' outcome happly
      cases hstep
      exact h.applied happly
    · cases hstep
      exact h

/-- **The active miners are the miners of the window**, where no record straddles the height. -/
theorem Sound.activeMiners_eq (h : w.Sound)
    (hstraddle : ∀ miner r, w.tracker.activeSet.miners.lookup miner = some r →
      ¬(r.firstSeenHeight + w.tracker.activeSet.window ≤ height ∧ height < r.lastSeenHeight)) :
    w.tracker.activeSet.activeMiners height = w.minersInWindow height := by
  ext miner
  rw [ActiveMinerSet.activeMiners, Finset.mem_filter, mem_minersInWindow]
  constructor
  · rintro ⟨-, hactive⟩
    exact h.summarizes.exists_of_isActive hactive
  · rintro ⟨x, hx, hle, hwindow⟩
    refine ⟨?_, h.summarizes.isActive_of_mem hx hle hwindow (hstraddle miner)⟩
    obtain ⟨r, hr⟩ := Option.isSome_iff_exists.mp (h.summarizes.known miner x hx)
    rw [Finmap.mem_keys]
    exact Finmap.mem_of_lookup_eq_some hr

end Watched

/-- **A newly finalized height has its quorum.**  In every run of guarded calls, when
`apply_attestation` answers that a height is newly finalized, the miners that recorded a block in
the window that ends there are at least the minimum quorum, and two thirds of them, rounded up,
have an applied attestation for exactly that height and hash. -/
theorem newly_finalized_quorum {verify : FinalityAttestation → Bool}
    {window lag minQuorum staleHorizon : Nat} {hwindow : 0 < window} {w w' : Watched}
    {a : FinalityAttestation} {t' : FinalityTracker} {height : Nat} {hash : BlockHash}
    (hrun : Reaches (Watched.step verify) Watched.Guarded
      (.new (.withParams window lag minQuorum staleHorizon hwindow)) w)
    (hguard : w.Guarded (.applyAttestation a))
    (hanswer : w.tracker.applyAttestation verify a = .ok (t', .newlyFinalized height hash))
    (hw' : Watched.step verify w (.applyAttestation a) = some w') :
    minQuorum ≤ (w'.minersInWindow height).card ∧
      ceilTwoThirds (w'.minersInWindow height).card ≤ (w'.attesters height hash).card := by
  -- along a run the history is right and the parameters stay
  have hinv : w.Sound ∧ w.tracker.minQuorum = minQuorum := by
    refine hrun.invariant (I := fun w => w.Sound ∧ w.tracker.minQuorum = minQuorum)
      ⟨Watched.Sound.new window lag minQuorum staleHorizon hwindow, rfl⟩ ?_
    rintro s call s' ⟨hs, hmin⟩ hg hstep
    refine ⟨hs.step hg hstep, ?_⟩
    cases call with
    | recordBlock miner x =>
      cases hstep
      rw [FinalityTracker.minQuorum_recordBlock, hmin]
    | applyAttestation b =>
      simp only [Watched.step] at hstep
      split at hstep
      · rename_i t'' outcome happly
        cases hstep
        rw [FinalityTracker.minQuorum_of_applied happly, hmin]
      · cases hstep
        exact hmin
  obtain ⟨hsound, hmin⟩ := hinv
  obtain ⟨-, -, -, ⟨hno, -⟩ | ⟨houtcome, -, hquorum, hthreshold, -⟩⟩ :=
    FinalityTracker.applyAttestation_ok hanswer
  · cases hno
  · cases houtcome
    simp only [Watched.step, hanswer, Option.some.injEq] at hw'
    subst hw'
    have hsound' := hsound.applied hanswer
    -- the window is that of the tracker before the call
    have hcount : (Watched.minersInWindow ⟨t', w.recorded, a :: w.applied⟩ a.targetHeight).card =
        w.tracker.activeSet.activeCount a.targetHeight := by
      rw [ActiveMinerSet.activeCount, hsound.activeMiners_eq hguard, Watched.minersInWindow,
        Watched.minersInWindow, FinalityTracker.activeSet_of_applied hanswer]
    rw [hcount]
    refine ⟨hmin ▸ hquorum, hthreshold.trans (Finset.card_le_card ?_)⟩
    rw [← FinalityTracker.signers_of_applied hanswer]
    exact hsound'.signed a.targetHeight a.targetHash

/-! ## 7. Six miners that are not counted -/

namespace Overlap

/-- The miner with number `n`. -/
def miner (n : UInt8) : MinerPubkey := FixedBytes.replicate 32 n

/-- An attestation of miner `n` to a hash at height 50. -/
def attest (n : UInt8) : FinalityAttestation := ⟨miner n, 50, FixedBytes.replicate 32 9, []⟩

/-- A window of 10 blocks and a minimum quorum of 2. -/
def start : Watched := .new (.withParams 10 0 2 1000 (by decide))

/-- Every miner has a block at height 45, and six of them have one at height 1 and one at height
60 as well. -/
def blocks : List Call :=
  [1, 2, 3, 4, 5, 6].map (fun n => .recordBlock (miner n) 1) ++
    [1, 2, 3, 4, 5, 6, 7, 8].map (fun n => .recordBlock (miner n) 45) ++
    [1, 2, 3, 4, 5, 6].map (fun n => .recordBlock (miner n) 60)

/-- Run the calls and then see what the attestation `a` is answered. -/
def answer (calls : List Call) (a : FinalityAttestation) : Option (ApplyOutcome × Nat × Nat) :=
  (run (Watched.step fun _ => true) (fun _ _ => true) start calls).bind fun w =>
    match w.tracker.applyAttestation (fun _ => true) a with
    | .ok (t', outcome) =>
      let w' : Watched := ⟨t', w.recorded, a :: w.applied⟩
      some (outcome, (w'.minersInWindow a.targetHeight).card,
        (w'.attesters a.targetHeight a.targetHash).card)
    | .error _ => none

/-- **Two of eight finalize a height.**  All eight miners have a block in the window that ends at
height 50, but six of them are not counted; so the second attestation completes a quorum of two,
where `ceil(16 / 3)` is six. -/
theorem two_of_eight_finalize :
    answer (blocks ++ [.applyAttestation (attest 7)]) (attest 8) =
        some (.newlyFinalized 50 (FixedBytes.replicate 32 9), 8, 2) ∧
      ¬ ceilTwoThirds 8 ≤ 2 := by
  decide +kernel

/-- The blocks of three miners, none after the attested height. -/
def calm : List Call :=
  [1, 2, 3].map (fun n => .recordBlock (miner n) 45) ++ [.recordBlock (miner 1) 50]

/-- A test of the condition. -/
def guardedBool (w : Watched) : Call → Bool
  | .recordBlock m height =>
    (w.tracker.activeSet.miners.lookup m).all fun r => decide (r.firstSeenHeight ≤ height)
  | .applyAttestation a =>
    decide ((w.tracker.activeSet.miners.keys.filter fun m =>
      (w.tracker.activeSet.miners.lookup m).any (fun r =>
        decide (r.firstSeenHeight + w.tracker.activeSet.window ≤ a.targetHeight ∧
          a.targetHeight < r.lastSeenHeight)) = true).card = 0)

theorem guarded_of_guardedBool (w : Watched) (call : Call) (h : guardedBool w call = true) :
    w.Guarded call := by
  cases call with
  | recordBlock m height =>
    intro r hr
    simpa [guardedBool, hr] using h
  | applyAttestation a =>
    intro m r hr
    have hkey : m ∈ w.tracker.activeSet.miners.keys :=
      Finmap.mem_keys.mpr (Finmap.mem_of_lookup_eq_some hr)
    intro hsilent
    have hnone := Finset.card_eq_zero.mp (of_decide_eq_true h)
    refine Finset.notMem_empty m (hnone ▸ Finset.mem_filter.mpr ⟨hkey, ?_⟩)
    rw [hr]
    exact decide_eq_true hsilent

/-- Whether the attestation is answered with a new soft-final height. -/
def finalizes (w : Watched) (a : FinalityAttestation) : Bool :=
  match w.tracker.applyAttestation (fun _ => true) a with
  | .ok (_, outcome) => decide (outcome = .newlyFinalized a.targetHeight a.targetHash)
  | .error _ => false

theorem answer_of_finalizes {w : Watched} {a : FinalityAttestation} (h : finalizes w a = true) :
    ∃ t', w.tracker.applyAttestation (fun _ => true) a =
      .ok (t', .newlyFinalized a.targetHeight a.targetHash) := by
  unfold finalizes at h
  split at h
  · rename_i t' outcome happly
    obtain rfl := of_decide_eq_true h
    exact ⟨t', happly⟩
  · cases h

/-- Two attestations of three miners finalize a height, and that is a quorum. -/
theorem two_of_three_finalize :
    ∃ w w' : Watched, finalizes w (attest 2) = true ∧
      Watched.step (fun _ => true) w (.applyAttestation (attest 2)) = some w' ∧
      2 ≤ (w'.minersInWindow 50).card ∧
      ceilTwoThirds (w'.minersInWindow 50).card ≤
        (w'.attesters 50 (FixedBytes.replicate 32 9)).card := by
  have hcheck : ((run (Watched.step fun _ => true) guardedBool start
      (calm ++ [.applyAttestation (attest 1)])).any fun w =>
        guardedBool w (.applyAttestation (attest 2)) && finalizes w (attest 2)) = true := by
    decide +kernel
  obtain ⟨w, hrun, hlast⟩ := (Option.any_eq_true _ _).mp hcheck
  obtain ⟨hguard, hfinal⟩ := (Bool.and_eq_true _ _).mp hlast
  obtain ⟨t', hanswer⟩ := answer_of_finalizes hfinal
  have hreach := Reaches.run guarded_of_guardedBool .start hrun
  have hstep : Watched.step (fun _ => true) w (.applyAttestation (attest 2)) =
      some ⟨t', w.recorded, attest 2 :: w.applied⟩ := by
    simp only [Watched.step, hanswer]
  exact ⟨w, _, hfinal, hstep,
    newly_finalized_quorum hreach (guarded_of_guardedBool w _ hguard) hanswer hstep⟩

end Overlap

end Coincync.RollingFinality
