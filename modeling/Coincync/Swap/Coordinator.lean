/-
# The coordinator: a handshake driven over a connection

`Coordinator` of `crates/coincync-swap/src/coordinator.rs`: a session with a transport, and the two
drivers `run_alice` and `run_bob`.  The connection is what the counterparty makes of it: the
messages still to arrive (any messages, in any order) and the number of sends that go through.
-/
import Coincync.Swap.Handshake
import Coincync.Lib.Checks

namespace Coincync.Swap

open Lib HandshakeSession Except

/-! ## 1. The transport -/

/-- An error of a driver: `Error::Rpc` by what its text says, or what the caller's verifier said. -/
inductive CoordError
  | handshake (context : String) (cause : HandshakeError)
  | aborted (context reason : String)
  | unexpected (expected : String) (got : HandshakeAction)
  | verification (text : String)
  | io
  deriving DecidableEq

/-- `CoordTransport`: what is still to arrive, and how many more sends go through. -/
structure CoordTransport where
  inbound : List Message
  sends : Nat
  deriving DecidableEq

def CoordTransport.send (t : CoordTransport) (_m : Message) : Except CoordError CoordTransport :=
  match t.sends with
  | 0 => .error .io
  | n + 1 => .ok { t with sends := n }

def CoordTransport.recv (t : CoordTransport) : Except CoordError (Message × CoordTransport) :=
  match t.inbound with
  | [] => .error .io
  | m :: rest => .ok (m, { t with inbound := rest })

/-! ## 2. The drivers -/

structure Pubkeys where
  btc : Bytes
  cync : Bytes
  deriving DecidableEq

abbrev AdaptorVerifier := AdaptorBundle → Except CoordError Unit

def expectWaitFor (action : HandshakeAction) (expected : String) : Except CoordError Unit :=
  match action with
  | .waitForCaller nextCall =>
    if nextCall = expected then .ok () else .error (.unexpected expected action)
  | .aborted reason => .error (.aborted "counterparty aborted handshake" reason)
  | _ => .error (.unexpected expected action)

def expectDone : HandshakeAction → Except CoordError Unit
  | .done => .ok ()
  | .aborted reason => .error (.aborted "counterparty aborted at final step" reason)
  | action => .error (.unexpected "HandshakeAction::Done" action)

def runVerifier (action : HandshakeAction) (verifier : AdaptorVerifier) : Except CoordError Unit :=
  match action with
  | .verifyAdaptorMaterial bundle => verifier bundle
  | .aborted reason => .error (.aborted "counterparty aborted" reason)
  | _ => .error (.unexpected "VerifyAdaptorMaterial" action)

structure Coordinator where
  transport : CoordTransport
  session : HandshakeSession
  deriving DecidableEq

namespace Coordinator

/-- Call the session and send the message it returns. -/
def transmit (c : Coordinator) (context : String)
    (result : Except HandshakeError (HandshakeSession × Message)) : Except CoordError Coordinator :=
  match result with
  | .error e => .error (.handshake context e)
  | .ok (session, m) => do
    let transport ← c.transport.send m
    return { transport, session }

/-- Receive a message and hand it to the session. -/
def deliver (c : Coordinator) (context : String) :
    Except CoordError (Coordinator × HandshakeAction) := do
  let (m, transport) ← c.transport.recv
  match c.session.handleInbound m with
  | .error e => .error (.handshake context e)
  | .ok (session, action) => return ({ transport, session }, action)

/-- The steps the drivers share: send `AdaptorMaterial`, receive and verify the counterparty's,
send `Ready`, receive `Ready`. -/
def exchange (who : String) (c : Coordinator) (adaptors : AdaptorBundle)
    (verifier : AdaptorVerifier) : Except CoordError Coordinator := do
  let c ← c.transmit (who ++ " send_adaptors") (c.session.sendAdaptors adaptors)
  let (c, action) ← c.deliver (who ++ " recv AdaptorMaterial")
  runVerifier action verifier
  let c ← c.transmit (who ++ " send_ready") c.session.sendReady
  let (c, action) ← c.deliver (who ++ " recv Ready")
  expectDone action
  return c

def runAlicePostHello (c : Coordinator) (alicePubkeys : Pubkeys) (params : SwapParameters)
    (adaptors : AdaptorBundle) (verifier : AdaptorVerifier) : Except CoordError Coordinator := do
  let c ← c.transmit "Alice respond_with_hello_ack"
    (c.session.respondWithHelloAck alicePubkeys.btc alicePubkeys.cync params)
  let (c, action) ← c.deliver "Alice recv Accept"
  expectWaitFor action "send_adaptors"
  c.exchange "Alice" adaptors verifier

def runAlice (c : Coordinator) (alicePubkeys : Pubkeys) (params : SwapParameters)
    (adaptors : AdaptorBundle) (verifier : AdaptorVerifier) : Except CoordError Coordinator := do
  let (c, action) ← c.deliver "Alice recv Hello"
  expectWaitFor action "respond_with_hello_ack"
  c.runAlicePostHello alicePubkeys params adaptors verifier

def runBob (c : Coordinator) (bobPubkeys : Pubkeys) (adaptors : AdaptorBundle)
    (verifier : AdaptorVerifier) : Except CoordError Coordinator := do
  let c ← c.transmit "Bob start_bob" (c.session.startBob bobPubkeys.btc bobPubkeys.cync)
  let (c, action) ← c.deliver "Bob recv HelloAck"
  expectWaitFor action "accept_or_send_abort"
  let c ← c.transmit "Bob accept" c.session.accept
  c.exchange "Bob" adaptors verifier

/-! ## 3. The moves behind an `Ok` -/

variable {c c' : Coordinator} {adaptors : AdaptorBundle} {verifier : AdaptorVerifier}
  {context : String} {keys : Pubkeys} {params : SwapParameters} {who : String}
  {result : Except HandshakeError (HandshakeSession × Message)}

theorem transmit_ok (h : c.transmit context result = .ok c') :
    ∃ m, result = .ok (c'.session, m) ∧ c'.transport.inbound = c.transport.inbound := by
  unfold transmit at h
  split at h
  · cases h
  · rename_i session m
    obtain ⟨t, ht, hc⟩ := bind_eq_ok_iff.mp h
    cases hc
    rw [CoordTransport.send] at ht
    split at ht
    · cases ht
    · cases ht
      exact ⟨m, rfl, rfl⟩

theorem deliver_ok {action : HandshakeAction} (h : c.deliver context = .ok (c', action)) :
    ∃ m, c.transport.inbound = m :: c'.transport.inbound ∧ action = answer m ∧
      Move c.session (.inbound m) c'.session := by
  obtain ⟨⟨m, t⟩, hrecv, hrest⟩ := bind_eq_ok_iff.mp h
  simp only at hrest
  split at hrest
  · cases hrest
  · rename_i session action' hsession
    cases hrest
    rw [CoordTransport.recv] at hrecv
    split at hrecv
    · cases hrecv
    · rename_i m' rest hinbound
      cases hrecv
      exact ⟨m, hinbound, action_of_handleInbound hsession, .of_handleInbound hsession⟩

theorem move_of_transmit {e : Event} (h : c.transmit context result = .ok c')
    (hoperate : c.session.operate e = result.map Prod.fst) : Move c.session e c'.session := by
  obtain ⟨m, hm, -⟩ := transmit_ok h
  exact .of_operate (by rw [hoperate, hm]; rfl)

theorem answer_of_expectWaitFor {m : Message} {expected : String}
    (h : expectWaitFor (answer m) expected = .ok ()) : answer m = .waitForCaller expected := by
  unfold expectWaitFor at h
  split at h
  · rename_i nextCall hanswer
    split_ifs at h with heq
    rw [hanswer, heq]
  · cases h
  · cases h

/-- **The shared steps** end the handshake. -/
theorem exchange_moves (h : c.exchange who adaptors verifier = .ok c') :
    ∃ s₁ s₂ bundle, Move c.session (.sendAdaptors adaptors) s₁ ∧
      Move s₁ (.inbound (.adaptorMaterial bundle)) s₂ ∧
      Move s₂ (.inbound .ready) c'.session := by
  obtain ⟨c₁, h₁, k₁⟩ := bind_eq_ok_iff.mp h
  obtain ⟨⟨c₂, action₂⟩, h₂, k₂⟩ := bind_eq_ok_iff.mp k₁
  obtain ⟨⟨⟩, hverify, k₃⟩ := bind_eq_ok_iff.mp k₂
  obtain ⟨c₃, h₃, k₄⟩ := bind_eq_ok_iff.mp k₃
  obtain ⟨⟨c₄, action₄⟩, h₄, k₅⟩ := bind_eq_ok_iff.mp k₄
  obtain ⟨⟨⟩, hdone, k₆⟩ := bind_eq_ok_iff.mp k₅
  obtain rfl : c₄ = c' := Except.ok.inj k₆
  obtain ⟨m₂, -, rfl, hmove₂⟩ := deliver_ok h₂
  obtain ⟨m₄, -, rfl, hmove₄⟩ := deliver_ok h₄
  have hmove₁ : Move c.session (.sendAdaptors adaptors) c₁.session := move_of_transmit h₁ rfl
  -- `send_ready` leaves the session as it is
  have hmove₃ : Move c₂.session .sendReady c₃.session := move_of_transmit h₃ rfl
  have hsame := hmove₃.eq_of_sendReady
  rw [hsame] at hmove₄
  cases m₂ with
  | adaptorMaterial bundle =>
    cases m₄ with
    | ready => exact ⟨_, _, bundle, hmove₁, hmove₂, hmove₄⟩
    | _ => simp [answer, expectDone] at hdone
  | _ => simp [answer, runVerifier] at hverify

/-- **Alice's `Ok`, after the `Hello`**: she has proposed, and then read an `Accept`. -/
theorem runAlicePostHello_moves (h : c.runAlicePostHello keys params adaptors verifier = .ok c') :
    ∃ (s₁ : HandshakeSession) (c₂ : Coordinator),
      Move c.session (.respondWithHelloAck keys.btc keys.cync params) s₁ ∧
      Move s₁ (.inbound .accept) c₂.session ∧ c₂.exchange "Alice" adaptors verifier = .ok c' := by
  obtain ⟨c₁, h₁, k₁⟩ := bind_eq_ok_iff.mp h
  obtain ⟨⟨c₂, action⟩, h₂, k₂⟩ := bind_eq_ok_iff.mp k₁
  obtain ⟨⟨⟩, hwait, k₃⟩ := bind_eq_ok_iff.mp k₂
  obtain ⟨m, -, rfl, hmove⟩ := deliver_ok h₂
  have hanswer := answer_of_expectWaitFor hwait
  refine ⟨c₁.session, c₂, move_of_transmit h₁ rfl, ?_, k₃⟩
  cases m with
  | accept => exact hmove
  | hello swapId btc cync => simp [answer] at hanswer
  | helloAck btc cync p => simp [answer] at hanswer
  | _ => cases hanswer

/-- **Bob's `Ok`**: the first message was a `HelloAck`, and he accepted its parameters. -/
theorem runBob_moves (h : c.runBob keys adaptors verifier = .ok c') :
    ∃ (s₁ s₂ : HandshakeSession) (c₃ : Coordinator) (btc cync : Bytes) (p : SwapParameters)
        (rest : List Message),
      Move c.session (.startBob keys.btc keys.cync) s₁ ∧
      c.transport.inbound = .helloAck btc cync p :: rest ∧
      Move s₁ (.inbound (.helloAck btc cync p)) s₂ ∧ Move s₂ .accept c₃.session ∧
      c₃.exchange "Bob" adaptors verifier = .ok c' := by
  obtain ⟨c₁, h₁, k₁⟩ := bind_eq_ok_iff.mp h
  obtain ⟨⟨c₂, action⟩, h₂, k₂⟩ := bind_eq_ok_iff.mp k₁
  obtain ⟨⟨⟩, hwait, k₃⟩ := bind_eq_ok_iff.mp k₂
  obtain ⟨c₃, h₃, k₄⟩ := bind_eq_ok_iff.mp k₃
  obtain ⟨m, hinbound, rfl, hmove⟩ := deliver_ok h₂
  have hanswer := answer_of_expectWaitFor hwait
  obtain ⟨-, -, hinbound₁⟩ := transmit_ok h₁
  rw [hinbound₁] at hinbound
  cases m with
  | helloAck btc cync p =>
    exact ⟨_, _, c₃, btc, cync, p, _, move_of_transmit h₁ rfl, hinbound, hmove,
      move_of_transmit h₃ rfl, k₄⟩
  | hello swapId btc cync => simp [answer] at hanswer
  | accept => simp [answer] at hanswer
  | _ => cases hanswer

/-! ## 4. What an `Ok` means -/

theorem exchange_sound (hsound : c.session.Sound) (h : c.exchange who adaptors verifier = .ok c') :
    c'.session.Sound ∧ c'.session.phase = .negotiated := by
  obtain ⟨s₁, s₂, bundle, h₁, h₂, h₃⟩ := exchange_moves h
  have hsound' : c'.session.Sound := ((hsound.move h₁ trivial).move h₂ trivial).move h₃ trivial
  exact ⟨hsound', by rw [h₃.eq_of_ready.2]⟩

theorem exchange_parameters (hphase : Phase.pastAccept c.session.phase = true)
    (h : c.exchange who adaptors verifier = .ok c') :
    c'.session.parameters = c.session.parameters := by
  obtain ⟨s₁, s₂, bundle, h₁, h₂, h₃⟩ := exchange_moves h
  have hpast₁ : Phase.pastAccept s₁.phase = true := by rw [h₂.phase_of_adaptorMaterial]; rfl
  have hpast₂ : Phase.pastAccept s₂.phase = true := by rw [h₃.eq_of_ready.1]; rfl
  rw [h₃.parameters_eq hpast₂, h₂.parameters_eq hpast₁, h₁.parameters_eq hphase]

theorem agreed_of_negotiated {s : HandshakeSession} (hsound : s.Sound)
    (hphase : s.phase = .negotiated) : s.Agreed :=
  hsound.agreed (by rw [hphase]; rfl)

/-- **Alice's `Ok` is an agreed swap**, from any sound session that has read a `Hello`. -/
theorem runAlicePostHello_agreed
    (hsound : c.session.Sound) (h : c.runAlicePostHello keys params adaptors verifier = .ok c') :
    c'.session.phase = .negotiated ∧ c'.session.Agreed := by
  obtain ⟨s₁, c₂, h₁, h₂, hexchange⟩ := runAlicePostHello_moves h
  have hsound₁ : s₁.Sound := hsound.move h₁ trivial
  -- her parameters are set when the `Accept` is read
  have hset : s₁.parameters.isSome = true := by cases h₁; rfl
  have hsound₂ : c₂.session.Sound := hsound₁.move h₂ fun _ _ => hset
  obtain ⟨hsound', hphase⟩ := exchange_sound hsound₂ hexchange
  exact ⟨hphase, agreed_of_negotiated hsound' hphase⟩

theorem runAlice_agreed {swapId : String} (hnew : c.session = newAlice swapId)
    (h : c.runAlice keys params adaptors verifier = .ok c') :
    c'.session.phase = .negotiated ∧ c'.session.Agreed := by
  obtain ⟨⟨c₁, action⟩, h₁, k₁⟩ := bind_eq_ok_iff.mp h
  obtain ⟨⟨⟩, -, k₂⟩ := bind_eq_ok_iff.mp k₁
  obtain ⟨m, -, -, hmove⟩ := deliver_ok h₁
  have hsound : c.session.Sound := hnew ▸ Sound.new .alice swapId
  have hguard : c.session.Guarded (.inbound m) := by
    cases m with
    | accept =>
      intro _ hphase
      rw [hnew] at hphase
      cases hphase
    | _ => trivial
  exact runAlicePostHello_agreed (hsound.move hmove hguard) k₂

/-- **Bob's `Ok` is an agreed swap exactly when the proposed timeouts were safe.** -/
theorem runBob_agreed_iff {swapId : String} (hnew : c.session = newBob swapId)
    (h : c.runBob keys adaptors verifier = .ok c') :
    c'.session.phase = .negotiated ∧
      ∃ btc cync p rest, c.transport.inbound = .helloAck btc cync p :: rest ∧
        (c'.session.Agreed ↔ p.isTimeoutSafe = true) := by
  obtain ⟨s₁, s₂, c₃, btc, cync, p, rest, h₁, hinbound, h₂, h₃, hexchange⟩ := runBob_moves h
  have hsound₂ : s₂.Sound :=
    ((hnew ▸ Sound.new .bob swapId : c.session.Sound).move h₁ trivial).move h₂ trivial
  have hp₂ : s₂.parameters = some p := by cases h₂; rfl
  have hp₃ : c₃.session.parameters = some p := by rw [h₃.eq_of_accept]; exact hp₂
  have hpast : Phase.pastAccept c₃.session.phase = true := by rw [h₃.eq_of_accept]; rfl
  have hp' : c'.session.parameters = some p := by
    rw [exchange_parameters hpast hexchange, hp₃]
  obtain ⟨s₄, s₅, bundle, h₄, h₅, h₆⟩ := exchange_moves hexchange
  have hphase : c'.session.phase = .negotiated := by rw [h₆.eq_of_ready.2]
  refine ⟨hphase, btc, cync, p, rest, hinbound, ?_⟩
  constructor
  · rintro ⟨q, hq, hsafe, -⟩
    rw [hp'] at hq
    exact Option.some.inj hq ▸ hsafe
  · intro hsafe
    have hguard : s₂.Guarded .accept := by
      intro q hq
      rw [hp₂] at hq
      exact Option.some.inj hq ▸ hsafe
    obtain ⟨hsound', -⟩ := exchange_sound (hsound₂.move h₃ hguard) hexchange
    exact agreed_of_negotiated hsound' hphase

end Coordinator

/-- **What a finished handshake holds.**  In a run whose every event is guarded -- Bob accepts safe
timeouts only, and no `Accept` reaches Alice before her proposal -- a negotiated session has its
parameters, their timeouts are safe, and both keys of the counterparty are there. -/
theorem negotiated_session_agreed (swapId : String) :
    (∀ role (s : HandshakeSession),
      Reaches step Guarded (HandshakeSession.new role swapId) s → s.phase = .negotiated →
        s.Agreed) ∧
    (∀ (c c' : Coordinator) keys params adaptors verifier, c.session = newAlice swapId →
      c.runAlice keys params adaptors verifier = .ok c' →
        c'.session.phase = .negotiated ∧ c'.session.Agreed) ∧
    (∀ (c c' : Coordinator) keys adaptors verifier, c.session = newBob swapId →
      c.runBob keys adaptors verifier = .ok c' →
        c'.session.phase = .negotiated ∧
          ∃ btc cync p rest, c.transport.inbound = .helloAck btc cync p :: rest ∧
            (c'.session.Agreed ↔ p.isTimeoutSafe = true)) := by
  refine ⟨?_, ?_, ?_⟩
  · intro role s hrun hphase
    exact Coordinator.agreed_of_negotiated ((Sound.new role swapId).reaches hrun) hphase
  · intro c c' keys params adaptors verifier hnew h
    exact Coordinator.runAlice_agreed hnew h
  · intro c c' keys adaptors verifier hnew h
    exact Coordinator.runBob_agreed_iff hnew h

/-! ## 5. Two conversations -/

namespace Talk

/-- Parameters with a BTC timeout of one block. -/
def params (cyncTimeoutBlocks : UInt32) : SwapParameters where
  cyncAmount := 1000
  btcAmountSats := 10
  cyncTimeoutBlocks := cyncTimeoutBlocks
  btcTimeoutBlocks := 1
  aliceCyncAddress := "a"
  bobBtcAddress := "b"
  cyncNetwork := "testnet"
  btcNetwork := "testnet"

def keys : Pubkeys := ⟨[1], [2]⟩

def bundle : AdaptorBundle := ⟨[3], [4], [5], [6]⟩

/-- A verifier that accepts. -/
def trust : AdaptorVerifier := fun _ => .ok ()

/-- What Bob sends. -/
def fromBob : List Message := [.hello "s" [1] [2], .accept, .adaptorMaterial bundle, .ready]

/-- What Alice sends, with a proposal of her choice. -/
def fromAlice (p : SwapParameters) : List Message :=
  [.helloAck [1] [2] p, .adaptorMaterial bundle, .ready]

def alice : Coordinator := ⟨⟨fromBob, 4⟩, newAlice "s"⟩

def bob (p : SwapParameters) : Coordinator := ⟨⟨fromAlice p, 4⟩, newBob "s"⟩

/-- The session both end with. -/
def negotiated (role : Role) (parameters : Option SwapParameters) : HandshakeSession :=
  ⟨role, .negotiated, "s", some [1], some [2], parameters, true, true⟩

/-- An Alice whose caller lets Bob's `Accept` in before she has proposed anything. -/
def hasty : List Event :=
  [.inbound (.hello "s" [1] [2]), .inbound .accept, .sendAdaptors bundle,
    .inbound (.adaptorMaterial bundle), .sendReady, .inbound .ready]

theorem runAlice_alice :
    alice.runAlice keys (params 7) bundle trust =
      .ok ⟨⟨[], 1⟩, negotiated .alice (some (params 7))⟩ := by
  decide +kernel

theorem runBob_bob (blocks : UInt32) :
    (bob (params blocks)).runBob keys bundle trust =
      .ok ⟨⟨[], 0⟩, negotiated .bob (some (params blocks))⟩ := by
  rfl

/-- The guarded steps of a run are its steps, where the guard has been tested. -/
def guardedBool (s : HandshakeSession) : Event → Bool
  | .accept => s.parameters.all SwapParameters.isTimeoutSafe
  | .inbound .accept => s.parameters.isSome
  | _ => true

theorem guarded_of_guardedBool (s : HandshakeSession) (e : Event) (h : guardedBool s e = true) :
    s.Guarded e := by
  cases e with
  | accept =>
    intro p hp
    simpa [guardedBool, hp] using h
  | inbound m =>
    cases m with
    | accept => exact fun _ _ => h
    | _ => trivial
  | _ => trivial

/-- Bob's side of an orderly conversation, event by event. -/
def orderly : List Event :=
  [.startBob [1] [2], .inbound (.helloAck [1] [2] (params 7)), .accept, .sendAdaptors bundle,
    .inbound (.adaptorMaterial bundle), .sendReady, .inbound .ready]

/-- An orderly conversation ends agreed on both sides, as does its run event by event. -/
theorem orderly_conversation_agreed :
    (negotiated .bob (some (params 7))).Agreed ∧ (negotiated .alice (some (params 7))).Agreed ∧
      ∃ btc cync p rest, (bob (params 7)).transport.inbound = .helloAck btc cync p :: rest ∧
        ((negotiated .bob (some (params 7))).Agreed ↔ p.isTimeoutSafe = true) := by
  obtain ⟨hrun, halice, hbob⟩ := negotiated_session_agreed "s"
  have horderly : Lib.run step guardedBool (HandshakeSession.new .bob "s") orderly =
      some (negotiated .bob (some (params 7))) := by
    decide +kernel
  refine ⟨hrun .bob _ ?_ rfl, ?_, ?_⟩
  · exact Reaches.run guarded_of_guardedBool .start horderly
  · exact (halice alice _ keys (params 7) bundle trust rfl runAlice_alice).2
  · exact (hbob (bob (params 7)) _ keys bundle trust rfl (runBob_bob 7)).2

theorem not_agreed_of_unsafe {role : Role} {p : SwapParameters} (h : p.isTimeoutSafe = false) :
    ¬ (negotiated role (some p)).Agreed := by
  rintro ⟨q, hq, hsafe, -⟩
  obtain rfl : p = q := Option.some.inj hq
  rw [h] at hsafe
  cases hsafe

/-- **Two ways to a negotiated session that is not agreed.** -/
theorem negotiated_without_safe_parameters :
    ((bob (params 1)).runBob keys bundle trust =
        .ok ⟨⟨[], 0⟩, negotiated .bob (some (params 1))⟩ ∧
      ¬ (negotiated .bob (some (params 1))).Agreed) ∧
    (Lib.run step (fun _ _ => true) (newAlice "s") hasty = some (negotiated .alice none) ∧
      ¬ (negotiated .alice none).Agreed) := by
  refine ⟨⟨runBob_bob 1, not_agreed_of_unsafe (by decide)⟩, by decide +kernel, ?_⟩
  rintro ⟨p, hp, -⟩
  cases hp

end Talk

end Coincync.Swap
