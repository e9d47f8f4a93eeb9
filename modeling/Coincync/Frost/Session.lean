/-
# A FROST signing session

`Session` of `crates/coincync-frost-coordinator/src/session.rs`: the state machine with which the
coordinator routes a threshold signature.  Participants attach, a message is declared, `threshold`
commitments are collected (round 1), then shares (round 2), and an aggregate is filed.  Every input
is first held against the deadline of the state the session is in.
-/
import Coincync.Lib.Bytes
import Coincync.Lib.Maps
import Coincync.Lib.Runs

namespace Coincync.Frost

open Lib Finset

/-! ## 1. Data -/

structure ParticipantId where
  bytes : FixedBytes 32
  deriving DecidableEq

structure ParticipantState where
  attached : Bool
  commitment : Option Bytes
  sigShare : Option Bytes
  deriving DecidableEq

def ParticipantState.invited : ParticipantState := ⟨false, none, none⟩

/-- A share comes after a commitment, and a commitment after attaching. -/
def ParticipantState.Orderly (e : ParticipantState) : Prop :=
  (e.sigShare.isSome = true → e.commitment.isSome = true) ∧
    (e.commitment.isSome = true → e.attached = true)

inductive SessionState
  | created
  | invited
  | round1
  | round2
  | aggregated
  | aborted
  | expired
  deriving DecidableEq

def invitedTimeoutSecs : UInt64 := 7 * 24 * 60 * 60

def round1TimeoutSecs : UInt64 := 60 * 60

def round2TimeoutSecs : UInt64 := 60 * 60

namespace SessionState

def isTerminal : SessionState → Bool
  | .aggregated | .aborted | .expired => true
  | _ => false

def timeoutSecs : SessionState → Option UInt64
  | .created | .invited => some invitedTimeoutSecs
  | .round1 => some round1TimeoutSecs
  | .round2 => some round2TimeoutSecs
  | .aggregated | .aborted | .expired => none

def name : SessionState → String
  | .created => "Created"
  | .invited => "Invited"
  | .round1 => "Round1"
  | .round2 => "Round2"
  | .aggregated => "Aggregated"
  | .aborted => "Aborted"
  | .expired => "Expired"

end SessionState

/-- `CoordinatorError`, as far as a session returns it. -/
inductive CoordinatorError
  | invalidTransition (transition state : String)
  | unauthorizedParticipant
  | sessionTerminal (state : String)
  | sessionExpired (state : String)
  | thresholdViolation (what : String)
  | duplicateAction (what : String)
  deriving DecidableEq

inductive Transition
  | attachParticipant (participant : ParticipantId)
  | declareMessage (message : Bytes)
  | submitRound1 (participant : ParticipantId) (commitment : Bytes)
  | submitRound2 (participant : ParticipantId) (sigShare : Bytes)
  | submitAggregate (signature : Bytes)
  | abort (participant : ParticipantId)
  | tick
  deriving DecidableEq

/-- `Session`.  The identifier is a UUID that nothing here reads. -/
structure Session where
  id : Nat
  state : SessionState
  threshold : UInt16
  total : UInt16
  groupPubkey : FixedBytes 32
  creator : ParticipantId
  message : Option Bytes
  participants : Map ParticipantId ParticipantState
  aggregateSignature : Option Bytes
  createdAt : UInt64
  stateEnteredAt : UInt64

namespace Session

def new (id : Nat) (threshold total : UInt16) (groupPubkey : FixedBytes 32)
    (creator : ParticipantId) (now : UInt64) : Except CoordinatorError Session :=
  if threshold < 2 then .error (.thresholdViolation "threshold must be >= 2")
  else if total < threshold then .error (.thresholdViolation "total must be >= threshold")
  else if 255 < total then
    .error (.thresholdViolation "total must be <= 255 (FROST participant ID byte)")
  else
    .ok
      { id := id
        state := .created
        threshold := threshold
        total := total
        groupPubkey := groupPubkey
        creator := creator
        message := none
        participants := ∅
        aggregateSignature := none
        createdAt := now
        stateEnteredAt := now }

variable (s : Session)

/-- The participants whose record passes a test: `values().filter(..)`. -/
def having (p : ParticipantState → Bool) : Finset ParticipantId :=
  s.participants.keys.filter fun i => (s.participants.lookup i).any p

def transitionTo (state : SessionState) (now : UInt64) : Session :=
  { s with state := state, stateEnteredAt := now }

/-- Write the record of a participant. -/
def record (i : ParticipantId) (e : ParticipantState) : Session :=
  { s with participants := s.participants.insert i e }

def round1Count : Nat := (s.having fun e => e.commitment.isSome).card

def round2Count : Nat := (s.having fun e => e.sigShare.isSome).card

/-! ## 2. The handlers

The result, and the session as the handler leaves it. -/

/-- What an input does. -/
abbrev Outcome := Except CoordinatorError Unit × Session

/-- `handle_attach` once the state is `Invited`: the room is counted AFTER the transition. -/
def attachInvited (participant : ParticipantId) : Outcome :=
  if s.total.toNat ≤ s.participants.keys.card ∧ participant ∉ s.participants.keys then
    (.error (.thresholdViolation
      ("session already has total=" ++ toString s.total.toNat ++ " participants")), s)
  else
    let entry := (s.participants.lookup participant).getD .invited
    (.ok (), s.record participant { entry with attached := true })

def handleAttach (participant : ParticipantId) (now : UInt64) : Outcome :=
  match s.state with
  | .created => (s.transitionTo .invited now).attachInvited participant
  | .invited => s.attachInvited participant
  | other => (.error (.invalidTransition "AttachParticipant" other.name), s)

def handleDeclareMessage (message : Bytes) (now : UInt64) : Outcome :=
  match s.state with
  | .invited =>
    if s.message.isSome then (.error (.duplicateAction "message-declaration"), s)
    else
      let attached := (s.having ParticipantState.attached).card
      if attached < s.threshold.toNat then
        (.error (.thresholdViolation
          ("need " ++ toString s.threshold.toNat ++ " attached participants to start Round1, have "
            ++ toString attached)), s)
      else (.ok (), ({ s with message := some message } : Session).transitionTo .round1 now)
  | other => (.error (.invalidTransition "DeclareMessage" other.name), s)

def handleRound1 (participant : ParticipantId) (commitment : Bytes) (now : UInt64) : Outcome :=
  if s.state ≠ .round1 then (.error (.invalidTransition "SubmitRound1" s.state.name), s)
  else
    match s.participants.lookup participant with
    | none => (.error .unauthorizedParticipant, s)
    | some entry =>
      if entry.attached = false then (.error .unauthorizedParticipant, s)
      else if entry.commitment.isSome then (.error (.duplicateAction "round-1 commitment"), s)
      else
        let s' := s.record participant { entry with commitment := some commitment }
        (.ok (), if s'.threshold.toNat ≤ s'.round1Count then s'.transitionTo .round2 now else s')

def handleRound2 (participant : ParticipantId) (sigShare : Bytes) : Outcome :=
  if s.state ≠ .round2 then (.error (.invalidTransition "SubmitRound2" s.state.name), s)
  else
    match s.participants.lookup participant with
    | none => (.error .unauthorizedParticipant, s)
    | some entry =>
      if entry.commitment = none then (.error .unauthorizedParticipant, s)
      else if entry.sigShare.isSome then (.error (.duplicateAction "round-2 share"), s)
      else (.ok (), s.record participant { entry with sigShare := some sigShare })

def handleAggregate (signature : Bytes) (now : UInt64) : Outcome :=
  if s.state ≠ .round2 then (.error (.invalidTransition "SubmitAggregate" s.state.name), s)
  else if s.round2Count < s.threshold.toNat then
    (.error (.thresholdViolation
      ("need " ++ toString s.threshold.toNat ++ " sig shares to aggregate, have "
        ++ toString s.round2Count)), s)
  else
    (.ok (), ({ s with aggregateSignature := some signature } : Session).transitionTo .aggregated now)

/-- The deadline of the state has passed.  The sum is a `u64` and wraps. -/
def overdue (now : UInt64) : Bool :=
  (s.state.timeoutSecs).any fun timeout => decide (s.stateEnteredAt + timeout ≤ now)

/-- The dispatch of `apply`. -/
def dispatch (now : UInt64) : Transition → Outcome
  | .attachParticipant participant => s.handleAttach participant now
  | .declareMessage message => s.handleDeclareMessage message now
  | .submitRound1 participant commitment => s.handleRound1 participant commitment now
  | .submitRound2 participant sigShare => s.handleRound2 participant sigShare
  | .submitAggregate signature => s.handleAggregate signature now
  | .abort _ => (.ok (), s.transitionTo .aborted now)
  | .tick => (.ok (), s)

def apply (t : Transition) (now : UInt64) : Outcome :=
  if s.state.isTerminal = true then (.error (.sessionTerminal s.state.name), s)
  else if s.overdue now = true then
    (.error (.sessionExpired s.state.name), s.transitionTo .expired now)
  else s.dispatch now t

end Session

/-! ## 3. Runs

The inputs of a session come at non-decreasing times, so a run carries the time of the last one. -/

/-- A session with the time of its last input. -/
structure Clocked where
  session : Session
  now : UInt64

/-- One input, at a time that is not before the last one. -/
def Clocked.step (c : Clocked) (input : Transition × UInt64) : Option Clocked :=
  if c.now ≤ input.2 then some ⟨(c.session.apply input.1 input.2).2, input.2⟩ else none

/-- The states that a run of inputs leads to. -/
abbrev Clocked.Runs : Clocked → Clocked → Prop := Reaches Clocked.step fun _ _ => True

/-! ## 4. What an input does -/

variable {i : ParticipantId} {p : ParticipantState → Bool} {e : ParticipantState}

namespace Session

variable {s s' : Session} {now : UInt64} {t : Transition}

/-- **Everything an accepted input can do**, with the guards it has passed. -/
inductive Move (s : Session) (now : UInt64) : Transition → Session → Prop
  | attach (participant : ParticipantId) (entered : UInt64)
      (hstate : s.state = .created ∨ s.state = .invited)
      (hroom : s.participants.keys.card < s.total.toNat ∨ participant ∈ s.participants.keys) :
      Move s now (.attachParticipant participant)
        (({ s with state := .invited, stateEnteredAt := entered } : Session).record participant
          { (s.participants.lookup participant).getD .invited with attached := true })
  | declare (message : Bytes) (hstate : s.state = .invited) (hnone : s.message = none)
      (hattached : s.threshold.toNat ≤ (s.having ParticipantState.attached).card) :
      Move s now (.declareMessage message)
        (({ s with message := some message } : Session).transitionTo .round1 now)
  | commit (participant : ParticipantId) (commitment : Bytes) (entry : ParticipantState)
      (hstate : s.state = .round1) (hentry : s.participants.lookup participant = some entry)
      (hattached : entry.attached = true) (hnone : entry.commitment = none) :
      Move s now (.submitRound1 participant commitment)
        (let s' := s.record participant { entry with commitment := some commitment }
         if s'.threshold.toNat ≤ s'.round1Count then s'.transitionTo .round2 now else s')
  | share (participant : ParticipantId) (sigShare : Bytes) (entry : ParticipantState)
      (hstate : s.state = .round2) (hentry : s.participants.lookup participant = some entry)
      (hcommitted : entry.commitment.isSome = true) (hnone : entry.sigShare = none) :
      Move s now (.submitRound2 participant sigShare)
        (s.record participant { entry with sigShare := some sigShare })
  | aggregate (signature : Bytes) (hstate : s.state = .round2)
      (hshares : s.threshold.toNat ≤ s.round2Count) :
      Move s now (.submitAggregate signature)
        (({ s with aggregateSignature := some signature } : Session).transitionTo .aggregated now)
  | abort (participant : ParticipantId) :
      Move s now (.abort participant) (s.transitionTo .aborted now)
  | tick : Move s now .tick s

/-- An input that is refused without a trace: an error that is not the deadline's. -/
def Refused (s : Session) (o : Outcome) : Prop :=
  ∃ e, o = (.error e, s) ∧ ∀ state, e ≠ .sessionExpired state

/-- An input that is accepted, as one of the moves. -/
def Accepted (s : Session) (now : UInt64) (t : Transition) (o : Outcome) : Prop :=
  ∃ s', o = (.ok (), s') ∧ Move s now t s'

theorem cases_of_guard {c : Prop} [Decidable c] {e : CoordinatorError} {o : Outcome}
    (he : ∀ state, e ≠ .sessionExpired state) (h : ¬c → s.Refused o ∨ s.Accepted now t o) :
    s.Refused (if c then (.error e, s) else o) ∨
      s.Accepted now t (if c then (.error e, s) else o) := by
  split_ifs with hc
  · exact .inl ⟨e, rfl, he⟩
  · exact h hc

theorem attachInvited_cases (i : ParticipantId) (now : UInt64) (hstate : s.state = .invited) :
    s.Refused (s.attachInvited i) ∨ s.Accepted now (.attachParticipant i) (s.attachInvited i) := by
  rw [attachInvited]
  refine cases_of_guard (by simp) fun hfull => ?_
  refine .inr ⟨_, rfl, ?_⟩
  have hroom : s.participants.keys.card < s.total.toNat ∨ i ∈ s.participants.keys := by
    by_cases hi : i ∈ s.participants.keys
    · exact .inr hi
    · exact .inl (by_contra fun hlt => hfull ⟨le_of_not_gt hlt, hi⟩)
  have hmove : Move s now (.attachParticipant i) _ :=
    .attach i s.stateEnteredAt (.inr hstate) hroom
  rwa [show ({ s with state := .invited, stateEnteredAt := s.stateEnteredAt } : Session) = s by
    rw [← hstate]] at hmove

theorem handleAttach_cases (i : ParticipantId)
    (hcreated : s.state = .created → s.participants = ∅ ∧ 0 < s.total.toNat) :
    s.Refused (s.handleAttach i now) ∨
      s.Accepted now (.attachParticipant i) (s.handleAttach i now) := by
  cases hstate : s.state with
  | created =>
    obtain ⟨hempty, hroom⟩ := hcreated hstate
    have hfree : s.participants.keys.card < s.total.toNat := by
      rw [hempty, Finmap.keys_empty, card_empty]
      exact hroom
    have hopen : ¬ ((s.transitionTo .invited now).total.toNat ≤
          (s.transitionTo .invited now).participants.keys.card ∧
        i ∉ (s.transitionTo .invited now).participants.keys) := fun h =>
      absurd h.1 (Nat.not_le_of_lt hfree)
    refine .inr ⟨_, ?_, .attach i now (.inl hstate) (.inl hfree)⟩
    simp only [handleAttach, hstate, attachInvited, if_neg hopen]
    rfl
  | invited =>
    have hinvited := attachInvited_cases i now hstate
    rwa [show s.handleAttach i now = s.attachInvited i by simp only [handleAttach, hstate]]
  | _ =>
    refine .inl ⟨.invalidTransition "AttachParticipant" s.state.name, ?_, by simp⟩
    simp only [handleAttach, hstate]

theorem handleDeclareMessage_cases (message : Bytes) :
    s.Refused (s.handleDeclareMessage message now) ∨
      s.Accepted now (.declareMessage message) (s.handleDeclareMessage message now) := by
  cases hstate : s.state with
  | invited =>
    simp only [handleDeclareMessage, hstate]
    refine cases_of_guard (by simp) fun hsome => cases_of_guard (by simp) fun hfew => ?_
    exact .inr ⟨_, rfl, .declare message hstate (by simpa using hsome) (le_of_not_gt hfew)⟩
  | _ =>
    refine .inl ⟨.invalidTransition "DeclareMessage" s.state.name, ?_, by simp⟩
    simp only [handleDeclareMessage, hstate]

theorem handleRound1_cases (i : ParticipantId) (commitment : Bytes) :
    s.Refused (s.handleRound1 i commitment now) ∨
      s.Accepted now (.submitRound1 i commitment) (s.handleRound1 i commitment now) := by
  rw [handleRound1]
  refine cases_of_guard (by simp) fun hstate => ?_
  cases hentry : s.participants.lookup i with
  | none => exact .inl ⟨_, rfl, by simp⟩
  | some entry =>
    refine cases_of_guard (by simp) fun hattached => cases_of_guard (by simp) fun hdone => ?_
    exact .inr ⟨_, rfl, .commit i commitment entry (not_not.mp hstate) hentry
      (by simpa using hattached) (by simpa using hdone)⟩

theorem handleRound2_cases (i : ParticipantId) (sigShare : Bytes) :
    s.Refused (s.handleRound2 i sigShare) ∨
      s.Accepted now (.submitRound2 i sigShare) (s.handleRound2 i sigShare) := by
  rw [handleRound2]
  refine cases_of_guard (by simp) fun hstate => ?_
  cases hentry : s.participants.lookup i with
  | none => exact .inl ⟨_, rfl, by simp⟩
  | some entry =>
    refine cases_of_guard (by simp) fun hnone => cases_of_guard (by simp) fun hdone => ?_
    exact .inr ⟨_, rfl, .share i sigShare entry (not_not.mp hstate) hentry
      (Option.isSome_iff_ne_none.mpr hnone) (by simpa using hdone)⟩

theorem handleAggregate_cases (signature : Bytes) :
    s.Refused (s.handleAggregate signature now) ∨
      s.Accepted now (.submitAggregate signature) (s.handleAggregate signature now) := by
  rw [handleAggregate]
  refine cases_of_guard (by simp) fun hstate => cases_of_guard (by simp) fun hfew => ?_
  exact .inr ⟨_, rfl, .aggregate signature (not_not.mp hstate) (le_of_not_gt hfew)⟩

/-- **An input expires the session, is refused without a trace, or is one of the moves.** -/
theorem apply_cases (t : Transition) (now : UInt64)
    (hcreated : s.state = .created → s.participants = ∅ ∧ 0 < s.total.toNat) :
    s.Refused (s.apply t now) ∨
      s.state.isTerminal = false ∧
        (s.apply t now = (.error (.sessionExpired s.state.name), s.transitionTo .expired now) ∨
          s.Accepted now t (s.apply t now)) := by
  rw [apply]
  by_cases hterminal : s.state.isTerminal = true
  · rw [if_pos hterminal]
    exact .inl ⟨_, rfl, by simp⟩
  · rw [if_neg hterminal]
    have hlive : s.state.isTerminal = false := by simpa using hterminal
    by_cases hlate : s.overdue now = true
    · rw [if_pos hlate]
      exact .inr ⟨hlive, .inl rfl⟩
    · rw [if_neg hlate]
      have hcases : s.Refused (s.dispatch now t) ∨ s.Accepted now t (s.dispatch now t) := by
        cases t with
        | attachParticipant i => exact handleAttach_cases i hcreated
        | declareMessage message => exact handleDeclareMessage_cases message
        | submitRound1 i commitment => exact handleRound1_cases i commitment
        | submitRound2 i sigShare => exact handleRound2_cases i sigShare
        | submitAggregate signature => exact handleAggregate_cases signature
        | abort i => exact .inr ⟨_, rfl, .abort i⟩
        | tick => exact .inr ⟨_, rfl, .tick⟩
      exact hcases.imp_right fun h => ⟨hlive, .inr h⟩

/-! ## 5. Counting -/

theorem mem_having : i ∈ s.having p ↔ ∃ e, s.participants.lookup i = some e ∧ p e = true := by
  rw [having, mem_filter, Finmap.mem_keys, ← Finmap.lookup_isSome]
  cases s.participants.lookup i with
  | none => simp
  | some e => simp

/-- **A count after a record is written.** -/
theorem having_record (p : ParticipantState → Bool) (i : ParticipantId) (e : ParticipantState) :
    (s.record i e).having p = if p e = true then insert i (s.having p) else (s.having p).erase i := by
  ext j
  rw [mem_having, record, Map.lookup_insert_ite]
  by_cases hp : p e = true
  · rw [if_pos hp, mem_insert, mem_having]
    by_cases hj : j = i
    · simp [hj, hp]
    · simp [hj]
  · rw [if_neg hp, mem_erase, mem_having]
    by_cases hj : j = i
    · simp [hj, hp]
    · simp [hj]

theorem having_record_of_eq {e' : ParticipantState} (he : s.participants.lookup i = some e)
    (hp : p e' = p e) : (s.record i e').having p = s.having p := by
  rw [having_record]
  cases hpe : p e with
  | true =>
    have hmem : i ∈ s.having p := mem_having.mpr ⟨e, he, hpe⟩
    rw [if_pos (hp.trans hpe), insert_eq_of_mem hmem]
  | false =>
    have hmem : i ∉ s.having p := by
      rw [mem_having, he]
      rintro ⟨e'', heq, htrue⟩
      rw [← Option.some.inj heq, hpe] at htrue
      cases htrue
    rw [if_neg (by rw [hp, hpe]; decide), erase_eq_of_notMem hmem]

theorem keys_record (i : ParticipantId) (e : ParticipantState) :
    (s.record i e).participants.keys = insert i s.participants.keys :=
  Map.keys_insert_eq _ _ _

theorem having_attach (i : ParticipantId)
    (hkeep : ∀ e : ParticipantState, p { e with attached := true } = p e)
    (hnew : p .invited = false) :
    (s.record i { (s.participants.lookup i).getD .invited with attached := true }).having p =
      s.having p := by
  cases he : s.participants.lookup i with
  | none =>
    have hmem : i ∉ s.having p := by simp [mem_having, he]
    rw [Option.getD_none, having_record, if_neg (by rw [hkeep, hnew]; decide),
      erase_eq_of_notMem hmem]
  | some e => exact having_record_of_eq he (hkeep e)

/-! ## 6. The invariant -/

/-- What the state of a session says of it. -/
def Staged (s : Session) : Prop :=
  match s.state with
  | .created => s.message = none ∧ s.participants = ∅
  | .invited => s.message = none ∧ s.round1Count = 0
  | .round1 => s.message.isSome = true ∧ s.round1Count < s.threshold.toNat
  | .round2 => s.message.isSome = true ∧ s.round1Count = s.threshold.toNat
  | .aggregated => s.message.isSome = true ∧ s.round1Count = s.threshold.toNat ∧
      s.round2Count = s.threshold.toNat
  | .aborted | .expired => True

/-- **What holds of a session between two inputs.** -/
structure WellFormed (s : Session) : Prop where
  two_le : 2 ≤ s.threshold.toNat
  le_total : s.threshold.toNat ≤ s.total.toNat
  room : s.participants.keys.card ≤ s.total.toNat
  orderly : ∀ i e, s.participants.lookup i = some e → e.Orderly
  staged : s.Staged

theorem Staged.created (h : s.Staged) (hstate : s.state = .created) :
    s.message = none ∧ s.participants = ∅ := by
  simpa only [Staged, hstate] using h

theorem Staged.round1 (h : s.Staged) (hstate : s.state = .round1) :
    s.message.isSome = true ∧ s.round1Count < s.threshold.toNat := by
  simpa only [Staged, hstate] using h

theorem Staged.round2 (h : s.Staged) (hstate : s.state = .round2) :
    s.message.isSome = true ∧ s.round1Count = s.threshold.toNat := by
  simpa only [Staged, hstate] using h

theorem Staged.aggregated (h : s.Staged) (hstate : s.state = .aggregated) :
    s.message.isSome = true ∧ s.round1Count = s.threshold.toNat ∧
      s.round2Count = s.threshold.toNat := by
  simpa only [Staged, hstate] using h

theorem Staged.quiet (h : s.Staged) (hstate : s.state = .created ∨ s.state = .invited) :
    s.message = none ∧ s.round1Count = 0 := by
  rcases hstate with hstate | hstate
  · obtain ⟨hmessage, hempty⟩ := h.created hstate
    exact ⟨hmessage, by rw [round1Count, having, hempty, Finmap.keys_empty]; rfl⟩
  · simpa only [Staged, hstate] using h

theorem WellFormed.new {id : Nat} {threshold total : UInt16} {groupPubkey : FixedBytes 32}
    {creator : ParticipantId} (h : Session.new id threshold total groupPubkey creator now = .ok s) :
    s.WellFormed ∧ s.state = .created ∧ s.threshold = threshold ∧ s.total = total := by
  rw [Session.new] at h
  split_ifs at h with htwo htotal hbyte
  cases h
  refine ⟨⟨?_, ?_, ?_, ?_, rfl, rfl⟩, rfl, rfl, rfl⟩
  · rw [UInt16.lt_iff_toNat_lt] at htwo
    exact le_of_not_gt htwo
  · rw [UInt16.lt_iff_toNat_lt] at htotal
    exact le_of_not_gt htotal
  · simp
  · intro i e he
    rw [Finmap.lookup_empty] at he
    cases he

theorem WellFormed.close (h : s.WellFormed) {state : SessionState}
    (hstate : state = .aborted ∨ state = .expired) : (s.transitionTo state now).WellFormed := by
  refine ⟨h.two_le, h.le_total, h.room, h.orderly, ?_⟩
  rcases hstate with rfl | rfl <;> trivial

theorem WellFormed.orderly_record (h : s.WellFormed) (horderly : e.Orderly) :
    ∀ j f, (s.record i e).participants.lookup j = some f → f.Orderly := by
  intro j f hf
  rw [record, Map.lookup_insert_ite] at hf
  split_ifs at hf with hj
  · exact Option.some.inj hf ▸ horderly
  · exact h.orderly j f hf

theorem keys_record_of_lookup (f : ParticipantState) (he : s.participants.lookup i = some e) :
    (s.record i f).participants.keys = s.participants.keys := by
  rw [keys_record, insert_eq_of_mem]
  rw [Finmap.mem_keys, ← Finmap.lookup_isSome, he]
  rfl

section

variable (h : s.WellFormed)

include h

theorem WellFormed.attach {entered : UInt64} (hstate : s.state = .created ∨ s.state = .invited)
    (hroom : s.participants.keys.card < s.total.toNat ∨ i ∈ s.participants.keys) :
    (({ s with state := .invited, stateEnteredAt := entered } : Session).record i
      { (s.participants.lookup i).getD .invited with attached := true }).WellFormed := by
  obtain ⟨hmessage, hzero⟩ := h.staged.quiet hstate
  have hhaving : (s.record i
      { (s.participants.lookup i).getD .invited with attached := true }).having
        (fun e => e.commitment.isSome) = s.having fun e => e.commitment.isSome :=
    having_attach i (fun _ => rfl) rfl
  have horderly : ({ (s.participants.lookup i).getD .invited with attached := true } :
      ParticipantState).Orderly := by
    refine ⟨fun hshare => ?_, fun _ => rfl⟩
    cases he : s.participants.lookup i with
    | none =>
      rw [he] at hshare
      cases hshare
    | some e =>
      rw [he] at hshare
      exact (h.orderly i e he).1 hshare
  refine ⟨h.two_le, h.le_total, ?_, h.orderly_record horderly, hmessage, ?_⟩
  · change (s.record i _).participants.keys.card ≤ s.total.toNat
    rw [keys_record]
    rcases hroom with hroom | hmem
    · exact (card_insert_le _ _).trans hroom
    · rw [insert_eq_of_mem hmem]
      exact h.room
  · exact (congrArg Finset.card hhaving).trans hzero

theorem WellFormed.declare (message : Bytes) (hstate : s.state = .invited) :
    (({ s with message := some message } : Session).transitionTo .round1 now).WellFormed := by
  have hzero : s.round1Count = 0 := (h.staged.quiet (.inr hstate)).2
  have hpos : 0 < s.threshold.toNat := lt_of_lt_of_le Nat.zero_lt_two h.two_le
  refine ⟨h.two_le, h.le_total, h.room, h.orderly, rfl, ?_⟩
  change s.round1Count < s.threshold.toNat
  rwa [hzero]

variable {entry : ParticipantState}

/-- **A commitment more.**  It is counted once, so the count meets the threshold exactly. -/
theorem WellFormed.commit {commitment : Bytes}
    (hstate : s.state = .round1) (hentry : s.participants.lookup i = some entry)
    (hattached : entry.attached = true) (hnone : entry.commitment = none) :
    (let s' := s.record i { entry with commitment := some commitment }
     if s'.threshold.toNat ≤ s'.round1Count then s'.transitionTo .round2 now else s').WellFormed := by
  obtain ⟨hdeclared, hlt⟩ := h.staged.round1 hstate
  have hfresh : i ∉ s.having fun e => e.commitment.isSome := by
    rw [mem_having, hentry]
    rintro ⟨e, heq, hsome⟩
    rw [← Option.some.inj heq, hnone] at hsome
    cases hsome
  have hcount : (s.record i { entry with commitment := some commitment }).round1Count =
      s.round1Count + 1 := by
    have hcommitted : ({ entry with commitment := some commitment } :
        ParticipantState).commitment.isSome = true := rfl
    rw [round1Count, having_record, if_pos hcommitted, card_insert_of_notMem hfresh]
    rfl
  have hroom : (s.record i { entry with commitment := some commitment }).participants.keys.card ≤
      s.total.toNat := by
    rw [keys_record_of_lookup _ hentry]
    exact h.room
  have horderly := h.orderly_record (i := i) (e := { entry with commitment := some commitment })
    ⟨fun _ => rfl, fun _ => hattached⟩
  simp only
  split_ifs with hfull
  · rw [hcount] at hfull
    refine ⟨h.two_le, h.le_total, hroom, horderly, hdeclared, ?_⟩
    exact hcount.trans (le_antisymm hlt hfull)
  · refine ⟨h.two_le, h.le_total, hroom, horderly, ?_⟩
    simp only [Staged, show (s.record i { entry with commitment := some commitment }).state = .round1
      from hstate]
    exact ⟨hdeclared, lt_of_not_ge hfull⟩

theorem WellFormed.share {sigShare : Bytes}
    (hstate : s.state = .round2) (hentry : s.participants.lookup i = some entry)
    (hcommitted : entry.commitment.isSome = true) :
    (s.record i { entry with sigShare := some sigShare }).WellFormed := by
  obtain ⟨hdeclared, hcollected⟩ := h.staged.round2 hstate
  have hhaving : (s.record i { entry with sigShare := some sigShare }).having
      (fun e => e.commitment.isSome) = s.having fun e => e.commitment.isSome :=
    having_record_of_eq hentry rfl
  have horderly := h.orderly_record (i := i) (e := { entry with sigShare := some sigShare })
    ⟨fun _ => hcommitted, (h.orderly i entry hentry).2⟩
  refine ⟨h.two_le, h.le_total, ?_, horderly, ?_⟩
  · rw [keys_record_of_lookup _ hentry]
    exact h.room
  · simp only [Staged, show (s.record i { entry with sigShare := some sigShare }).state = .round2
      from hstate]
    exact ⟨hdeclared, (congrArg Finset.card hhaving).trans hcollected⟩

/-- **Filing the aggregate.**  The shares are among the commitments, so they are all of them. -/
theorem WellFormed.aggregate (signature : Bytes) (hstate : s.state = .round2)
    (hshares : s.threshold.toNat ≤ s.round2Count) :
    (({ s with aggregateSignature := some signature } : Session).transitionTo
      .aggregated now).WellFormed := by
  obtain ⟨hdeclared, hcollected⟩ := h.staged.round2 hstate
  have hsubset : (s.having fun e => e.sigShare.isSome) ⊆ s.having fun e => e.commitment.isSome := by
    intro i hi
    obtain ⟨e, he, hshare⟩ := mem_having.mp hi
    exact mem_having.mpr ⟨e, he, (h.orderly i e he).1 hshare⟩
  have hle : s.round2Count ≤ s.round1Count := card_le_card hsubset
  refine ⟨h.two_le, h.le_total, h.room, h.orderly, hdeclared, hcollected, ?_⟩
  exact le_antisymm (hle.trans_eq hcollected) hshares

/-- **A move keeps a session well formed.** -/
theorem WellFormed.move (hmove : Move s now t s') : s'.WellFormed := by
  cases hmove with
  | attach i entered hstate hroom => exact h.attach hstate hroom
  | declare message hstate hnone hattached => exact h.declare message hstate
  | commit i commitment entry hstate hentry hattached hnone =>
    exact h.commit hstate hentry hattached hnone
  | share i sigShare entry hstate hentry hcommitted hnone => exact h.share hstate hentry hcommitted
  | aggregate signature hstate hshares => exact h.aggregate signature hstate hshares
  | abort i => exact h.close (.inl rfl)
  | tick => exact h

theorem WellFormed.created (hcreated : s.state = .created) :
    s.participants = ∅ ∧ 0 < s.total.toNat := by
  refine ⟨(h.staged.created hcreated).2, ?_⟩
  have htwo := h.two_le
  have htotal := h.le_total
  omega

/-- **Every input keeps a session well formed**, whatever comes of it. -/
theorem WellFormed.apply (t : Transition) (now : UInt64) : (s.apply t now).2.WellFormed := by
  rcases apply_cases t now h.created with ⟨e, heq, -⟩ | ⟨-, heq | ⟨s', heq, hmove⟩⟩
  · rw [heq]
    exact h
  · rw [heq]
    exact h.close (.inr rfl)
  · rw [heq]
    exact h.move hmove

end

/-! ## 7. What an input leaves alone -/

/-- The commitments are complete. -/
def Settled (s : Session) : Prop :=
  (s.state = .round2 ∨ s.state.isTerminal = true) ∧ s.round1Count = s.threshold.toNat

theorem Move.config_eq (h : Move s now t s') : s'.threshold = s.threshold ∧ s'.total = s.total := by
  cases h with
  | commit i commitment entry hstate hentry hattached hnone =>
    simp only
    split <;> exact ⟨rfl, rfl⟩
  | _ => exact ⟨rfl, rfl⟩

/-- **No input touches the configuration.** -/
theorem config_apply (h : s.WellFormed) (t : Transition) (now : UInt64) :
    (s.apply t now).2.threshold = s.threshold ∧ (s.apply t now).2.total = s.total := by
  rcases apply_cases t now h.created with ⟨e, heq, -⟩ | ⟨-, heq | ⟨s', heq, hmove⟩⟩
  · rw [heq]
    exact ⟨rfl, rfl⟩
  · rw [heq]
    exact ⟨rfl, rfl⟩
  · rw [heq]
    exact hmove.config_eq

/-- **After round 1 nobody's commitment changes.** -/
theorem Settled.apply (h : s.WellFormed) (hsettled : s.Settled) (t : Transition) (now : UInt64) :
    (s.apply t now).2.Settled := by
  obtain ⟨hstate, hcount⟩ := hsettled
  rcases apply_cases t now h.created with ⟨e, heq, -⟩ | ⟨hlive, heq | ⟨s', heq, hmove⟩⟩
  · rw [heq]
    exact ⟨hstate, hcount⟩
  · rw [heq]
    exact ⟨.inr rfl, hcount⟩
  · rw [heq]
    have hround2 : s.state = .round2 := hstate.resolve_right (by rw [hlive]; decide)
    cases hmove with
    | attach i entered hstate' hroom =>
      rw [hround2] at hstate'
      rcases hstate' with h | h <;> cases h
    | declare message hstate' hnone hattached =>
      rw [hround2] at hstate'
      cases hstate'
    | commit i commitment entry hstate' hentry hattached hnone =>
      rw [hround2] at hstate'
      cases hstate'
    | share i sigShare entry hstate' hentry hcommitted hnone =>
      have hhaving : (s.record i { entry with sigShare := some sigShare }).having
          (fun e => e.commitment.isSome) = s.having fun e => e.commitment.isSome :=
        having_record_of_eq hentry rfl
      exact ⟨.inl hround2, (congrArg Finset.card hhaving).trans hcount⟩
    | aggregate signature hstate' hshares => exact ⟨.inr rfl, hcount⟩
    | abort i => exact ⟨.inr rfl, hcount⟩
    | tick => exact ⟨hstate, hcount⟩

/-- **A message comes from the declaration that started round 1**, and stays. -/
theorem message_apply (h : s.WellFormed) {m : Bytes} (hm : (s.apply t now).2.message = some m) :
    s.message = some m ∨
      s.state = .invited ∧ t = .declareMessage m ∧ (s.apply t now).1 = .ok () ∧
        (s.apply t now).2.state = .round1 := by
  rcases apply_cases t now h.created with ⟨e, heq, -⟩ | ⟨-, heq | ⟨s', heq, hmove⟩⟩
  · rw [heq] at hm
    exact .inl hm
  · rw [heq] at hm
    exact .inl hm
  · rw [heq] at hm ⊢
    cases hmove with
    | declare message hstate hnone hattached =>
      obtain rfl : message = m := Option.some.inj hm
      exact .inr ⟨hstate, rfl, rfl, rfl⟩
    | commit i commitment entry hstate hentry hattached hnone =>
      refine .inl ?_
      simp only at hm
      split at hm <;> exact hm
    | _ => exact .inl hm

end Session

/-! ## 8. Runs of inputs -/

namespace Clocked

variable {c₀ c c' : Clocked}

theorem eq_of_step {input : Transition × UInt64} (h : c.step input = some c') :
    c' = ⟨(c.session.apply input.1 input.2).2, input.2⟩ := by
  rw [step] at h
  split_ifs at h with hle
  exact (Option.some.inj h).symm

section

variable (h₀ : c₀.session.WellFormed)

include h₀

/-- **What every input keeps, on well-formed sessions, a run keeps.** -/
theorem Runs.keeps {I : Session → Prop} (hI : I c₀.session)
    (hkeep : ∀ s t now, Session.WellFormed s → I s → I (s.apply t now).2) (hrun : Runs c₀ c) :
    c.session.WellFormed ∧ I c.session := by
  refine Reaches.invariant (I := fun c : Clocked => c.session.WellFormed ∧ I c.session)
    ⟨h₀, hI⟩ ?_ hrun
  rintro c ⟨t, now⟩ c' ⟨hc, hIc⟩ - hstep
  rw [eq_of_step hstep]
  exact ⟨hc.apply t now, hkeep _ t now hc hIc⟩

theorem Runs.wellFormed (hrun : Runs c₀ c) : c.session.WellFormed :=
  (Runs.keeps (I := fun _ => True) h₀ trivial (fun _ _ _ _ _ => trivial) hrun).1

theorem Runs.config_eq (hrun : Runs c₀ c) :
    c.session.threshold = c₀.session.threshold ∧ c.session.total = c₀.session.total := by
  refine (Runs.keeps (I := fun s => s.threshold = c₀.session.threshold ∧ s.total = c₀.session.total)
    h₀ ⟨rfl, rfl⟩ ?_ hrun).2
  intro s t now hs hconfig
  obtain ⟨hthreshold, htotal⟩ := Session.config_apply hs t now
  exact ⟨hthreshold.trans hconfig.1, htotal.trans hconfig.2⟩

end

/-- **A run through the declaration of `m`**: the session was `Invited`, took `DeclareMessage m`,
and was in `Round1` after it. -/
def Declared (c₀ c : Clocked) (m : Bytes) : Prop :=
  ∃ c₁ c₂ now, Runs c₀ c₁ ∧ c₁.session.state = .invited ∧ c₁.now ≤ now ∧
    c₁.session.apply (.declareMessage m) now = (.ok (), c₂.session) ∧ c₂.now = now ∧
      c₂.session.state = .round1 ∧ Runs c₂ c

theorem Runs.declared (h₀ : c₀.session.WellFormed) (hnone : c₀.session.message = none)
    (hrun : Runs c₀ c) : ∀ m, c.session.message = some m → Declared c₀ c m := by
  induction hrun with
  | start =>
    intro m hm
    rw [hnone] at hm
    cases hm
  | @next c c' input hrun _ hstep ih =>
    intro m hm
    have hc : c.session.WellFormed := Runs.wellFormed h₀ hrun
    have heq := eq_of_step hstep
    rw [heq] at hm
    rcases Session.message_apply hc hm with hold | ⟨hstate, ht, hok, hround1⟩
    · obtain ⟨c₁, c₂, now, hrun₁, hinvited, hle, happly, hnow, hround1, hrest⟩ := ih m hold
      exact ⟨c₁, c₂, now, hrun₁, hinvited, hle, happly, hnow, hround1, hrest.next input trivial hstep⟩
    · have hle : c.now ≤ input.2 := by
        by_contra hlt
        rw [step, if_neg hlt] at hstep
        cases hstep
      refine ⟨c, c', input.2, hrun, hstate, hle, ?_, by rw [heq], by rw [heq]; exact hround1, .start⟩
      rw [heq, ← ht]
      exact Prod.ext hok rfl

end Clocked

/-- **A session over any run of inputs.**  From a new session on, with inputs at non-decreasing
times: from round 2 on there are exactly `threshold` commitments, in every later state; who has a
share has a commitment and is attached; an aggregated session has `threshold` shares and the message
that was declared when it entered round 1; there are at most `total` participants; and an input that
is refused other than by the deadline leaves the session as it was. -/
theorem session_runs {id : Nat} {threshold total : UInt16} {groupPubkey : FixedBytes 32}
    {creator : ParticipantId} {now : UInt64} {s : Session} {c : Clocked}
    (hnew : Session.new id threshold total groupPubkey creator now = .ok s)
    (hrun : Clocked.Runs ⟨s, now⟩ c) :
    (c.session.state = .round2 → ∀ c', Clocked.Runs c c' →
      c'.session.round1Count = threshold.toNat) ∧
    (∀ i e, c.session.participants.lookup i = some e → e.sigShare.isSome = true →
      e.commitment.isSome = true ∧ e.attached = true) ∧
    (c.session.state = .aggregated →
      c.session.round1Count = threshold.toNat ∧ c.session.round2Count = threshold.toNat ∧
        ∃ m, c.session.message = some m ∧ Clocked.Declared ⟨s, now⟩ c m) ∧
    c.session.participants.keys.card ≤ total.toNat ∧
    (∀ t time e, (c.session.apply t time).1 = .error e → (∀ state, e ≠ .sessionExpired state) →
      (c.session.apply t time).2 = c.session) := by
  obtain ⟨hs, hcreated, hthreshold, htotal⟩ := Session.WellFormed.new hnew
  have hc : c.session.WellFormed := Clocked.Runs.wellFormed hs hrun
  obtain ⟨hthreshold', htotal'⟩ := Clocked.Runs.config_eq hs hrun
  rw [hthreshold] at hthreshold'
  rw [htotal] at htotal'
  have hnone : s.message = none := (hs.staged.created hcreated).1
  refine ⟨?_, ?_, ?_, ?_, ?_⟩
  · intro hstate c' hrun'
    have hcollected := (hc.staged.round2 hstate).2
    have hsettled := (Clocked.Runs.keeps hc ⟨.inl hstate, hcollected⟩
      (fun _ t now hs (h : Session.Settled _) => h.apply hs t now) hrun').2
    rw [hsettled.2, (Clocked.Runs.config_eq hc hrun').1, hthreshold']
  · intro i e he hshare
    obtain ⟨hcommitment, hattached⟩ := hc.orderly i e he
    exact ⟨hcommitment hshare, hattached (hcommitment hshare)⟩
  · intro hstate
    obtain ⟨hsome, hcommitments, hshares⟩ := hc.staged.aggregated hstate
    rw [hthreshold'] at hcommitments hshares
    obtain ⟨m, hm⟩ := Option.isSome_iff_exists.mp hsome
    exact ⟨hcommitments, hshares, m, hm, Clocked.Runs.declared hs hnone hrun m hm⟩
  · rw [← htotal']
    exact hc.room
  · intro t time e herror hnot
    rcases Session.apply_cases t time hc.created with ⟨e', heq, -⟩ | ⟨-, heq | ⟨s', heq, -⟩⟩
    · rw [heq]
    · rw [heq] at herror
      cases herror
      exact absurd rfl (hnot _)
    · rw [heq] at herror
      cases herror

/-! ## 9. A signature of two -/

namespace Signing

/-- Two participants. -/
def signer (n : UInt8) : ParticipantId := ⟨FixedBytes.replicate 32 n⟩

/-- Both attach, a message is declared, both commit, both sign, and the aggregate is filed. -/
def inputs : List (Transition × UInt64) :=
  [(.attachParticipant (signer 1), 1), (.attachParticipant (signer 2), 2),
    (.declareMessage [7], 3), (.submitRound1 (signer 1) [8], 4), (.submitRound1 (signer 2) [9], 5),
    (.submitRound2 (signer 1) [10], 6), (.submitRound2 (signer 2) [11], 7),
    (.submitAggregate [12], 7)]

/-- A new two-of-three session. -/
def start : Session where
  id := 0
  state := .created
  threshold := 2
  total := 3
  groupPubkey := FixedBytes.replicate 32 0
  creator := signer 1
  message := none
  participants := ∅
  aggregateSignature := none
  createdAt := 0
  stateEnteredAt := 0

theorem exists_run : ∃ c, Clocked.Runs ⟨start, 0⟩ c ∧ c.session.state = .aggregated := by
  have hrun : (Lib.run Clocked.step (fun _ _ => true) ⟨start, 0⟩ inputs).any
      (fun c => decide (c.session.state = .aggregated)) = true := by
    decide +kernel
  obtain ⟨c, hreach, hstate⟩ := Reaches.exists_of_run (fun _ _ _ => trivial) hrun
  exact ⟨c, hreach, of_decide_eq_true hstate⟩

/-- The two-of-three session is signed: two commitments, two shares, and the declared message. -/
theorem two_of_three_aggregated :
    Session.new 0 2 3 (FixedBytes.replicate 32 0) (signer 1) 0 = .ok start ∧
      ∃ c, Clocked.Runs ⟨start, 0⟩ c ∧ c.session.state = .aggregated ∧
        c.session.round1Count = 2 ∧ c.session.round2Count = 2 ∧
          ∃ m, c.session.message = some m ∧ Clocked.Declared ⟨start, 0⟩ c m := by
  have hnew : Session.new 0 2 3 (FixedBytes.replicate 32 0) (signer 1) 0 = .ok start := rfl
  obtain ⟨c, hrun, hstate⟩ := exists_run
  exact ⟨hnew, c, hrun, hstate, (session_runs hnew hrun).2.2.1 hstate⟩

end Signing

end Coincync.Frost
