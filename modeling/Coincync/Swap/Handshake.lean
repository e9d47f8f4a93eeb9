/-
# The handshake of an atomic swap

`HandshakeSession` of `crates/coincync-swap/src/coordinator.rs`, one side of the negotiation between
Alice (who sells CYNC) and Bob (who sells BTC), with the parameters of `protocol.rs`.  A session is
moved by the messages of the counterparty (`handleInbound`) and by calls of its own side
(`startBob`, `respondWithHelloAck`, `accept`, `sendAdaptors`, `sendReady`, `sendAbort`).  A call
that returns an error has written nothing, so an operation here is a function into `Except`.
-/
import Coincync.Lib.Bytes
import Coincync.Lib.Runs

namespace Coincync.Swap

open Lib

/-! ## 1. Parameters -/

inductive Role
  | alice
  | bob
  deriving DecidableEq

structure SwapParameters where
  cyncAmount : UInt64
  btcAmountSats : UInt64
  cyncTimeoutBlocks : UInt32
  btcTimeoutBlocks : UInt32
  aliceCyncAddress : String
  bobBtcAddress : String
  cyncNetwork : String
  btcNetwork : String
  deriving DecidableEq

/-- `u64::saturating_mul`. -/
def saturatingMulU64 (a b : Nat) : Nat := min (a * b) (2 ^ 64 - 1)

namespace SwapParameters

variable (p : SwapParameters)

def cyncBlockTimeSecs : Nat := 120

def btcBlockTimeSecs : Nat := 600

def safetyMarginNumerator : Nat := 6

def safetyMarginDenominator : Nat := 5

def cyncTimeoutSecs : Nat := saturatingMulU64 p.cyncTimeoutBlocks.toNat cyncBlockTimeSecs

def btcTimeoutSecs : Nat := saturatingMulU64 p.btcTimeoutBlocks.toNat btcBlockTimeSecs

/-- `is_timeout_safe`: the CYNC timeout outlasts the BTC timeout and a fifth of it. -/
def isTimeoutSafe : Bool :=
  let btcSecs := p.btcTimeoutSecs
  let marginSecs := saturatingMulU64 btcSecs safetyMarginNumerator / safetyMarginDenominator
  decide (marginSecs < p.cyncTimeoutSecs)

/-- **The rule in blocks**: more than six CYNC blocks for each BTC block. -/
theorem isTimeoutSafe_iff :
    p.isTimeoutSafe = true ↔ 6 * p.btcTimeoutBlocks.toNat < p.cyncTimeoutBlocks.toNat := by
  have hbtc := p.btcTimeoutBlocks.toNat_lt
  have hcync := p.cyncTimeoutBlocks.toNat_lt
  rw [isTimeoutSafe, decide_eq_true_iff]
  simp only [cyncTimeoutSecs, btcTimeoutSecs, saturatingMulU64, cyncBlockTimeSecs,
    btcBlockTimeSecs, safetyMarginNumerator, safetyMarginDenominator]
  omega

end SwapParameters

/-! ## 2. Messages and sessions -/

/-- What a party sends in `AdaptorMaterial`. -/
structure AdaptorBundle where
  btcAdaptor : Bytes
  cyncAdaptor : Bytes
  dlProof : Bytes
  refundTx : Bytes
  deriving DecidableEq

inductive Message
  | hello (swapId : String) (bobBtcPubkey bobCyncPubkey : Bytes)
  | helloAck (aliceBtcPubkey aliceCyncPubkey : Bytes) (parameters : SwapParameters)
  | accept
  | adaptorMaterial (bundle : AdaptorBundle)
  | ready
  | abort (reason : String)
  deriving DecidableEq

/-- `message_kind`. -/
def Message.kind : Message → String
  | .hello .. => "Hello"
  | .helloAck .. => "HelloAck"
  | .accept => "Accept"
  | .adaptorMaterial _ => "AdaptorMaterial"
  | .ready => "Ready"
  | .abort _ => "Abort"

inductive Phase
  | initial
  | awaitingAck
  | exchangingAdaptors
  | awaitingReady
  | negotiated
  | aborted
  deriving DecidableEq

def Phase.isTerminal : Phase → Bool
  | .negotiated | .aborted => true
  | _ => false

structure HandshakeSession where
  role : Role
  phase : Phase
  swapId : String
  counterpartyBtcPubkey : Option Bytes
  counterpartyCyncPubkey : Option Bytes
  parameters : Option SwapParameters
  sentAdaptors : Bool
  receivedAdaptors : Bool
  deriving DecidableEq

inductive HandshakeAction
  | send (m : Message)
  | waitForCaller (nextCall : String)
  | done
  | verifyAdaptorMaterial (bundle : AdaptorBundle)
  | aborted (reason : String)
  deriving DecidableEq

inductive HandshakeError
  | outOfOrder (messageKind : String) (phase : Phase)
  | swapIdMismatch (sessionSwapId incomingSwapId : String)
  | terminal (phase : Phase)
  | duplicate (kind : String)
  deriving DecidableEq

namespace HandshakeSession

/-- `new_alice` and `new_bob`. -/
def new (role : Role) (swapId : String) : HandshakeSession :=
  ⟨role, .initial, swapId, none, none, none, false, false⟩

def newAlice : String → HandshakeSession := new .alice

def newBob : String → HandshakeSession := new .bob

variable (s : HandshakeSession)

def maybeAdvanceToAwaitingReady : HandshakeSession :=
  if s.sentAdaptors ∧ s.receivedAdaptors then { s with phase := .awaitingReady } else s

/-! ## 3. The operations -/

def startBob (bobBtcPubkey bobCyncPubkey : Bytes) :
    Except HandshakeError (HandshakeSession × Message) :=
  if s.role ≠ .bob then .error (.outOfOrder "start_bob" s.phase)
  else if s.phase ≠ .initial then .error (.outOfOrder "start_bob" s.phase)
  else .ok ({ s with phase := .awaitingAck }, .hello s.swapId bobBtcPubkey bobCyncPubkey)

def respondWithHelloAck (aliceBtcPubkey aliceCyncPubkey : Bytes) (parameters : SwapParameters) :
    Except HandshakeError (HandshakeSession × Message) :=
  if s.role ≠ .alice then .error (.outOfOrder "respond_with_hello_ack" s.phase)
  else if s.phase ≠ .awaitingAck then .error (.outOfOrder "respond_with_hello_ack" s.phase)
  else if parameters.isTimeoutSafe = false then
    .error (.outOfOrder "respond_with_hello_ack (unsafe timeouts)" s.phase)
  else
    .ok ({ s with parameters := some parameters },
      .helloAck aliceBtcPubkey aliceCyncPubkey parameters)

def accept : Except HandshakeError (HandshakeSession × Message) :=
  if s.role ≠ .bob then .error (.outOfOrder "accept" s.phase)
  else if s.phase ≠ .awaitingAck then .error (.outOfOrder "accept" s.phase)
  else if s.parameters = none then .error (.outOfOrder "accept (no parameters)" s.phase)
  else .ok ({ s with phase := .exchangingAdaptors }, .accept)

def sendAdaptors (bundle : AdaptorBundle) : Except HandshakeError (HandshakeSession × Message) :=
  if s.phase ≠ .exchangingAdaptors then .error (.outOfOrder "send_adaptors" s.phase)
  else if s.sentAdaptors = true then .error (.duplicate "outbound AdaptorMaterial")
  else .ok ({ s with sentAdaptors := true }.maybeAdvanceToAwaitingReady, .adaptorMaterial bundle)

def sendReady : Except HandshakeError (HandshakeSession × Message) :=
  if s.phase ≠ .awaitingReady then .error (.outOfOrder "send_ready" s.phase) else .ok (s, .ready)

def sendAbort (reason : String) : HandshakeSession × Message :=
  ({ s with phase := .aborted }, .abort reason)

def handleInbound (m : Message) : Except HandshakeError (HandshakeSession × HandshakeAction) :=
  if s.phase.isTerminal = true then .error (.terminal s.phase)
  else
    match m, s.role, s.phase with
    | .abort reason, _, _ => .ok ({ s with phase := .aborted }, .aborted reason)
    | .hello swapId btc cync, .alice, .initial =>
      if swapId ≠ s.swapId then .error (.swapIdMismatch s.swapId swapId)
      else
        .ok ({ s with
            counterpartyBtcPubkey := some btc
            counterpartyCyncPubkey := some cync
            phase := .awaitingAck },
          .waitForCaller "respond_with_hello_ack")
    | .helloAck btc cync parameters, .bob, .awaitingAck =>
      .ok ({ s with
          counterpartyBtcPubkey := some btc
          counterpartyCyncPubkey := some cync
          parameters := some parameters
          phase := .awaitingAck },
        .waitForCaller "accept_or_send_abort")
    | .accept, .alice, .awaitingAck =>
      .ok ({ s with phase := .exchangingAdaptors }, .waitForCaller "send_adaptors")
    | .adaptorMaterial bundle, _, .exchangingAdaptors =>
      if s.receivedAdaptors = true then .error (.duplicate "AdaptorMaterial")
      else
        .ok ({ s with receivedAdaptors := true }.maybeAdvanceToAwaitingReady,
          .verifyAdaptorMaterial bundle)
    | .ready, _, .awaitingReady => .ok ({ s with phase := .negotiated }, .done)
    | m, _, phase => .error (.outOfOrder m.kind phase)

end HandshakeSession

/-! ## 4. Runs -/

/-- What can happen to a session: a message of the counterparty, or a call of its own side. -/
inductive Event
  | inbound (m : Message)
  | startBob (btc cync : Bytes)
  | respondWithHelloAck (btc cync : Bytes) (parameters : SwapParameters)
  | accept
  | sendAdaptors (bundle : AdaptorBundle)
  | sendReady
  | sendAbort (reason : String)
  deriving DecidableEq

namespace HandshakeSession

/-- The operation of an event, without its answer. -/
def operate (s : HandshakeSession) : Event → Except HandshakeError HandshakeSession
  | .inbound m => (s.handleInbound m).map Prod.fst
  | .startBob btc cync => (s.startBob btc cync).map Prod.fst
  | .respondWithHelloAck btc cync parameters =>
    (s.respondWithHelloAck btc cync parameters).map Prod.fst
  | .accept => s.accept.map Prod.fst
  | .sendAdaptors bundle => (s.sendAdaptors bundle).map Prod.fst
  | .sendReady => s.sendReady.map Prod.fst
  | .sendAbort reason => .ok (s.sendAbort reason).1

/-- One event: an error leaves the session as it is. -/
def step (s : HandshakeSession) (e : Event) : Option HandshakeSession :=
  match s.operate e with
  | .ok s' => some s'
  | .error _ => some s

/-- **The handshake has what the swap needs**: agreed parameters with safe timeouts, and both public
keys of the counterparty. -/
def Agreed (s : HandshakeSession) : Prop :=
  ∃ p, s.parameters = some p ∧ p.isTimeoutSafe = true ∧ s.counterpartyBtcPubkey.isSome = true ∧
    s.counterpartyCyncPubkey.isSome = true

/-- **The condition on an event**: Bob accepts parameters with safe timeouts only, and an `Accept`
reaches Alice after she has proposed. -/
def Guarded (s : HandshakeSession) : Event → Prop
  | .accept => ∀ p, s.parameters = some p → p.isTimeoutSafe = true
  | .inbound .accept => s.role = .alice → s.phase = .awaitingAck → s.parameters.isSome = true
  | _ => True

/-! ## 5. What an accepted event does -/

/-- **Everything an accepted event can do**, with the guards it has passed. -/
inductive Move (s : HandshakeSession) : Event → HandshakeSession → Prop
  | startBob (btc cync : Bytes) (hrole : s.role = .bob) (hphase : s.phase = .initial) :
      Move s (.startBob btc cync) { s with phase := .awaitingAck }
  | respond (btc cync : Bytes) (p : SwapParameters) (hrole : s.role = .alice)
      (hphase : s.phase = .awaitingAck) (hsafe : p.isTimeoutSafe = true) :
      Move s (.respondWithHelloAck btc cync p) { s with parameters := some p }
  | accept (hrole : s.role = .bob) (hphase : s.phase = .awaitingAck)
      (hparameters : s.parameters ≠ none) : Move s .accept { s with phase := .exchangingAdaptors }
  | sendAdaptors (bundle : AdaptorBundle) (hphase : s.phase = .exchangingAdaptors) :
      Move s (.sendAdaptors bundle) { s with sentAdaptors := true }.maybeAdvanceToAwaitingReady
  | sendReady (hphase : s.phase = .awaitingReady) : Move s .sendReady s
  | sendAbort (reason : String) : Move s (.sendAbort reason) { s with phase := .aborted }
  | aborted (reason : String) : Move s (.inbound (.abort reason)) { s with phase := .aborted }
  | hello (btc cync : Bytes) (hrole : s.role = .alice) (hphase : s.phase = .initial) :
      Move s (.inbound (.hello s.swapId btc cync))
        { s with
          counterpartyBtcPubkey := some btc
          counterpartyCyncPubkey := some cync
          phase := .awaitingAck }
  | helloAck (btc cync : Bytes) (p : SwapParameters) (hrole : s.role = .bob)
      (hphase : s.phase = .awaitingAck) :
      Move s (.inbound (.helloAck btc cync p))
        { s with
          counterpartyBtcPubkey := some btc
          counterpartyCyncPubkey := some cync
          parameters := some p
          phase := .awaitingAck }
  | accepted (hrole : s.role = .alice) (hphase : s.phase = .awaitingAck) :
      Move s (.inbound .accept) { s with phase := .exchangingAdaptors }
  | adaptorMaterial (bundle : AdaptorBundle) (hphase : s.phase = .exchangingAdaptors) :
      Move s (.inbound (.adaptorMaterial bundle))
        { s with receivedAdaptors := true }.maybeAdvanceToAwaitingReady
  | ready (hphase : s.phase = .awaitingReady) :
      Move s (.inbound .ready) { s with phase := .negotiated }

variable {s s' : HandshakeSession} {e : Event} {action : HandshakeAction}

theorem Move.of_handleInbound {m : Message}
    (h : s.handleInbound m = .ok (s', action)) : Move s (.inbound m) s' := by
  unfold handleInbound at h
  split at h
  · cases h
  · split at h
    · cases h
      exact .aborted _
    · split at h
      · cases h
      · rename_i hrole hphase hid
        cases h
        rw [not_not] at hid
        subst hid
        exact .hello _ _ hrole hphase
    · rename_i hrole hphase
      cases h
      exact .helloAck _ _ _ hrole hphase
    · rename_i hrole hphase
      cases h
      exact .accepted hrole hphase
    · rename_i hphase
      split at h
      · cases h
      · cases h
        exact .adaptorMaterial _ hphase
    · rename_i hphase
      cases h
      exact .ready hphase
    · cases h

/-- The action a message is answered with, whenever it is accepted. -/
def answer : Message → HandshakeAction
  | .hello .. => .waitForCaller "respond_with_hello_ack"
  | .helloAck .. => .waitForCaller "accept_or_send_abort"
  | .accept => .waitForCaller "send_adaptors"
  | .adaptorMaterial bundle => .verifyAdaptorMaterial bundle
  | .ready => .done
  | .abort reason => .aborted reason

/-- **The action is a function of the message alone.** -/
theorem action_of_handleInbound {m : Message}
    (h : s.handleInbound m = .ok (s', action)) : action = answer m := by
  unfold handleInbound at h
  split at h
  · cases h
  · split at h <;> (try split at h) <;> cases h <;> rfl

theorem exists_of_map_fst {ε α β : Type} {x : Except ε (α × β)} {a : α}
    (h : x.map Prod.fst = .ok a) : ∃ b, x = .ok (a, b) := by
  cases x with
  | error e => cases h
  | ok p => exact ⟨p.2, by cases h; rfl⟩

/-- **An event that is not refused is one of the moves.** -/
theorem Move.of_operate (h : s.operate e = .ok s') : Move s e s' := by
  cases e with
  | inbound m =>
    obtain ⟨action, haction⟩ := exists_of_map_fst h
    exact of_handleInbound haction
  | startBob btc cync =>
    obtain ⟨m, hm⟩ := exists_of_map_fst h
    rw [HandshakeSession.startBob] at hm
    split_ifs at hm with hrole hphase
    cases hm
    exact .startBob btc cync (not_not.mp hrole) (not_not.mp hphase)
  | respondWithHelloAck btc cync p =>
    obtain ⟨m, hm⟩ := exists_of_map_fst h
    rw [HandshakeSession.respondWithHelloAck] at hm
    split_ifs at hm with hrole hphase hsafe
    cases hm
    exact .respond btc cync p (not_not.mp hrole) (not_not.mp hphase) (by simpa using hsafe)
  | accept =>
    obtain ⟨m, hm⟩ := exists_of_map_fst h
    rw [HandshakeSession.accept] at hm
    split_ifs at hm with hrole hphase hparameters
    cases hm
    exact .accept (not_not.mp hrole) (not_not.mp hphase) hparameters
  | sendAdaptors bundle =>
    obtain ⟨m, hm⟩ := exists_of_map_fst h
    rw [HandshakeSession.sendAdaptors] at hm
    split_ifs at hm with hphase hsent
    cases hm
    exact .sendAdaptors bundle (not_not.mp hphase)
  | sendReady =>
    obtain ⟨m, hm⟩ := exists_of_map_fst h
    rw [HandshakeSession.sendReady] at hm
    split_ifs at hm with hphase
    cases hm
    exact .sendReady (not_not.mp hphase)
  | sendAbort reason =>
    cases h
    exact .sendAbort reason

theorem Move.eq_of_sendReady (h : Move s .sendReady s') : s' = s := by
  cases h; rfl

theorem Move.eq_of_ready (h : Move s (.inbound .ready) s') :
    s.phase = .awaitingReady ∧ s' = { s with phase := .negotiated } := by
  cases h with
  | ready hphase => exact ⟨hphase, rfl⟩

theorem Move.eq_of_accept (h : Move s .accept s') :
    s' = { s with phase := .exchangingAdaptors } := by
  cases h; rfl

theorem Move.phase_of_adaptorMaterial {bundle : AdaptorBundle}
    (h : Move s (.inbound (.adaptorMaterial bundle)) s') : s.phase = .exchangingAdaptors := by
  cases h with
  | adaptorMaterial _ hphase => exact hphase

/-- The phases after Bob's acceptance. -/
def Phase.pastAccept : Phase → Bool
  | .exchangingAdaptors | .awaitingReady | .negotiated => true
  | _ => false

/-- **After the acceptance the parameters are fixed.** -/
theorem Move.parameters_eq (h : Move s e s') (hpast : Phase.pastAccept s.phase = true) :
    s'.parameters = s.parameters := by
  cases h with
  | respond btc cync p hrole hphase hsafe => rw [hphase] at hpast; cases hpast
  | helloAck btc cync p hrole hphase => rw [hphase] at hpast; cases hpast
  | sendAdaptors | adaptorMaterial => unfold maybeAdvanceToAwaitingReady; split <;> rfl
  | _ => rfl

/-! ## 6. The invariant -/

/-- Both public keys of the counterparty are held. -/
def HasKeys (s : HandshakeSession) : Prop :=
  s.counterpartyBtcPubkey.isSome = true ∧ s.counterpartyCyncPubkey.isSome = true

/-- **What a session knows on the way.**  Alice has Bob's keys since his `Hello` and writes safe
parameters only; Bob gets Alice's keys with her parameters, in one message. -/
structure Sound (s : HandshakeSession) : Prop where
  agreed : Phase.pastAccept s.phase = true → s.Agreed
  aliceKeys : s.role = .alice → s.phase = .awaitingAck → s.HasKeys
  aliceSafe : s.role = .alice → ∀ p, s.parameters = some p → p.isTimeoutSafe = true
  bobKeys : s.role = .bob → s.parameters.isSome = true → s.HasKeys

theorem Sound.new (role : Role) (swapId : String) : (HandshakeSession.new role swapId).Sound where
  agreed h := by cases h
  aliceKeys _ h := by cases h
  aliceSafe _ p h := by cases h
  bobKeys _ h := by cases h

section

variable (h : s.Sound)
include h

theorem Sound.abort : ({ s with phase := .aborted } : HandshakeSession).Sound where
  agreed h' := by cases h'
  aliceKeys _ h' := by cases h'
  aliceSafe := h.aliceSafe
  bobKeys := h.bobKeys

theorem Sound.advance (hagreed : s.Agreed) {phase : Phase} (sent received : Bool)
    (hphase : phase ≠ .awaitingAck) :
    ({ s with phase, sentAdaptors := sent, receivedAdaptors := received } :
      HandshakeSession).Sound where
  agreed _ := hagreed
  aliceKeys _ hack := absurd hack hphase
  aliceSafe := h.aliceSafe
  bobKeys := h.bobKeys

theorem Sound.maybeAdvance (hphase : s.phase = .exchangingAdaptors) (sent received : Bool) :
    ({ s with sentAdaptors := sent, receivedAdaptors := received } :
      HandshakeSession).maybeAdvanceToAwaitingReady.Sound := by
  have hagreed : s.Agreed := h.agreed (by rw [hphase]; rfl)
  unfold maybeAdvanceToAwaitingReady
  split
  · exact h.advance hagreed _ _ nofun
  · exact h.advance hagreed _ _ (by rw [hphase]; nofun)

/-- **A guarded move keeps the invariant.** -/
theorem Sound.move (hmove : Move s e s') (hguard : s.Guarded e) : s'.Sound := by
  cases hmove with
  | startBob btc cync hrole hphase =>
    refine ⟨fun h' => (by cases h'), fun hr => ?_, fun hr => ?_, h.bobKeys⟩
    · rw [show s.role = .alice from hr] at hrole
      cases hrole
    · rw [show s.role = .alice from hr] at hrole
      cases hrole
  | respond btc cync p hrole hphase hsafe =>
    refine ⟨fun h' => ?_, h.aliceKeys, fun _ q hq => ?_, fun hr => ?_⟩
    · rw [show Phase.pastAccept s.phase = false by rw [hphase]; rfl] at h'
      cases h'
    · exact Option.some.inj hq ▸ hsafe
    · rw [show s.role = .bob from hr] at hrole
      cases hrole
  | accept hrole hphase hparameters =>
    obtain ⟨p, hp⟩ := Option.ne_none_iff_exists'.mp hparameters
    have hkeys : s.HasKeys := h.bobKeys hrole (by rw [hp]; rfl)
    exact h.advance ⟨p, hp, hguard p hp, hkeys⟩ _ _ (by simp)
  | sendAdaptors bundle hphase => exact h.maybeAdvance hphase true _
  | sendReady hphase => exact h
  | sendAbort reason => exact h.abort
  | aborted reason => exact h.abort
  | hello btc cync hrole hphase =>
    refine ⟨fun h' => (by cases h'), fun _ _ => ⟨rfl, rfl⟩, h.aliceSafe, fun hr => ?_⟩
    rw [show s.role = .bob from hr] at hrole
    cases hrole
  | helloAck btc cync p hrole hphase =>
    refine ⟨fun h' => (by cases h'), fun _ _ => ⟨rfl, rfl⟩, fun hr => ?_, fun _ _ => ⟨rfl, rfl⟩⟩
    rw [show s.role = .alice from hr] at hrole
    cases hrole
  | accepted hrole hphase =>
    obtain ⟨p, hp⟩ := Option.isSome_iff_exists.mp (hguard hrole hphase)
    exact h.advance ⟨p, hp, h.aliceSafe hrole p hp, h.aliceKeys hrole hphase⟩ _ _
      (by simp)
  | adaptorMaterial bundle hphase => exact h.maybeAdvance hphase _ true
  | ready hphase =>
    exact h.advance (h.agreed (by rw [hphase]; rfl)) _ _ (by simp)

/-- **One event keeps the invariant**, refused or not. -/
theorem Sound.step (hguard : s.Guarded e) (hstep : s.step e = some s') :
    s'.Sound := by
  rw [HandshakeSession.step] at hstep
  split at hstep
  · rename_i t ht
    cases hstep
    exact h.move (.of_operate ht) hguard
  · cases hstep
    exact h

/-- **Every state of a guarded run is sound**, from any state that is. -/
theorem Sound.reaches (hrun : Reaches HandshakeSession.step Guarded s s') :
    s'.Sound :=
  hrun.invariant h fun _ _ _ hs hguard hstep => hs.step hguard hstep

end

end HandshakeSession

end Coincync.Swap
