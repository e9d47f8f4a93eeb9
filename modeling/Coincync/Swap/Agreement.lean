/-
# Alice and Bob, interleaved

`run_alice` and `run_bob` at the two ends of one connection.  Each driver is a SCRIPT of seven
instructions -- call the session and send, or receive and check the action -- and running the script
on a transport is running the driver (`runAlice_eq`, `runBob_eq`).  The two scripts are then put at
the ends of two first-in, first-out channels and interleaved in every way, with a transport that may
fail under either party at any time.
-/
import Coincync.Swap.Coordinator
import Coincync.Lib.Dialogue

namespace Coincync.Swap

open Lib HandshakeSession

variable {context : String}

/-! ## 1. The drivers as scripts -/

abbrev DriverInstr := Instr HandshakeSession Message CoordError

/-- Call the session and send the message it returns. -/
def callAndSend (context : String)
    (op : HandshakeSession → Except HandshakeError (HandshakeSession × Message)) : DriverInstr :=
  .emit fun s => (op s).mapError (.handshake context)

/-- What a check of an action has to say. -/
def complaint : Except CoordError Unit → Option CoordError
  | .ok () => none
  | .error e => some e

/-- Receive a message, hand it to the session and check the action. -/
def receiveAndCheck (context : String) (check : HandshakeAction → Except CoordError Unit) :
    DriverInstr :=
  .take fun s m =>
    match s.handleInbound m with
    | .error e => (s, some (.handshake context e))
    | .ok (s', action) => (s', complaint (check action))

/-- The script of `exchange`. -/
def exchangeScript (who : String) (adaptors : AdaptorBundle) (verifier : AdaptorVerifier) :
    List DriverInstr :=
  [callAndSend (who ++ " send_adaptors") (fun s => s.sendAdaptors adaptors),
    receiveAndCheck (who ++ " recv AdaptorMaterial") (fun action => runVerifier action verifier),
    callAndSend (who ++ " send_ready") sendReady,
    receiveAndCheck (who ++ " recv Ready") expectDone]

/-- The script of `run_alice`. -/
def aliceScript (keys : Pubkeys) (params : SwapParameters) (adaptors : AdaptorBundle)
    (verifier : AdaptorVerifier) : List DriverInstr :=
  receiveAndCheck "Alice recv Hello" (fun action => expectWaitFor action "respond_with_hello_ack") ::
    callAndSend "Alice respond_with_hello_ack"
      (fun s => s.respondWithHelloAck keys.btc keys.cync params) ::
    receiveAndCheck "Alice recv Accept" (fun action => expectWaitFor action "send_adaptors") ::
    exchangeScript "Alice" adaptors verifier

/-- The script of `run_bob`. -/
def bobScript (keys : Pubkeys) (adaptors : AdaptorBundle) (verifier : AdaptorVerifier) :
    List DriverInstr :=
  callAndSend "Bob start_bob" (fun s => s.startBob keys.btc keys.cync) ::
    receiveAndCheck "Bob recv HelloAck" (fun action => expectWaitFor action "accept_or_send_abort") ::
    callAndSend "Bob accept" accept :: exchangeScript "Bob" adaptors verifier

def Coordinator.runScript : List DriverInstr → Coordinator → Except CoordError Coordinator
  | [], c => .ok c
  | .emit op :: rest, c =>
    match op c.session with
    | .error e => .error e
    | .ok (session, m) => do
      let transport ← c.transport.send m
      runScript rest { transport, session }
  | .take op :: rest, c => do
    let (m, transport) ← c.transport.recv
    match op c.session m with
    | (_, some e) => .error e
    | (session, none) => runScript rest { transport, session }

namespace Coordinator

variable (c : Coordinator) (rest : List DriverInstr)

theorem runScript_callAndSend (context : String)
    (op : HandshakeSession → Except HandshakeError (HandshakeSession × Message)) :
    runScript (callAndSend context op :: rest) c =
      c.transmit context (op c.session) >>= runScript rest := by
  cases hop : op c.session with
  | error e =>
    simp only [callAndSend, runScript, hop, transmit, Except.mapError]
    rfl
  | ok r =>
    simp only [callAndSend, runScript, hop, transmit, Except.mapError]
    cases c.transport.send r.2 <;> rfl

theorem runScript_receiveAndCheck (context : String)
    (check : HandshakeAction → Except CoordError Unit) :
    runScript (receiveAndCheck context check :: rest) c =
      c.deliver context >>= fun r => check r.2 >>= fun _ => runScript rest r.1 := by
  rw [receiveAndCheck, runScript, deliver]
  cases c.transport.recv with
  | error e => rfl
  | ok r =>
    cases hin : c.session.handleInbound r.1 with
    | error e =>
      simp only [bind, Except.bind, hin]
    | ok r' =>
      cases hcheck : check r'.2 with
      | error e => simp [bind, Except.bind, pure, Except.pure, hin, hcheck, complaint]
      | ok u => simp [bind, Except.bind, pure, Except.pure, hin, hcheck, complaint]

theorem runScript_exchange (who : String) (adaptors : AdaptorBundle) (verifier : AdaptorVerifier) :
    runScript (exchangeScript who adaptors verifier) c = c.exchange who adaptors verifier := by
  rw [exchangeScript, runScript_callAndSend, exchange]
  refine bind_congr fun c₁ => ?_
  rw [runScript_receiveAndCheck]
  refine bind_congr fun r₁ => bind_congr fun _ => ?_
  rw [runScript_callAndSend]
  refine bind_congr fun c₂ => ?_
  rw [runScript_receiveAndCheck]
  exact bind_congr fun r₂ => bind_congr fun _ => rfl

/-- **The script of Alice is `run_alice`.** -/
theorem runAlice_eq (keys : Pubkeys) (params : SwapParameters) (adaptors : AdaptorBundle)
    (verifier : AdaptorVerifier) :
    c.runAlice keys params adaptors verifier =
      runScript (aliceScript keys params adaptors verifier) c := by
  rw [aliceScript, runScript_receiveAndCheck, runAlice]
  refine bind_congr fun r => bind_congr fun _ => ?_
  rw [runScript_callAndSend]
  refine bind_congr fun c₁ => ?_
  rw [runScript_receiveAndCheck]
  refine bind_congr fun r₁ => bind_congr fun _ => ?_
  exact (runScript_exchange r₁.1 "Alice" adaptors verifier).symm

/-- **The script of Bob is `run_bob`.** -/
theorem runBob_eq (keys : Pubkeys) (adaptors : AdaptorBundle) (verifier : AdaptorVerifier) :
    c.runBob keys adaptors verifier = runScript (bobScript keys adaptors verifier) c := by
  rw [bobScript, runScript_callAndSend, runBob]
  refine bind_congr fun c₁ => ?_
  rw [runScript_receiveAndCheck]
  refine bind_congr fun r => bind_congr fun _ => ?_
  rw [runScript_callAndSend]
  refine bind_congr fun c₂ => ?_
  exact (runScript_exchange c₂ "Bob" adaptors verifier).symm

end Coordinator

/-! ## 2. The plans -/

/-- A party may stop short of `Negotiated`, because of the transport or for a reason of its own. -/
def StopsFor (Reason : CoordError → Prop) (s : HandshakeSession) (e : CoordError) : Prop :=
  s.phase ≠ .negotiated ∧ (e = .io ∨ Reason e)

section

variable {Reason : CoordError → Prop} {goal s : HandshakeSession} {rest : List DriverInstr}
  {ins outs : List Message} {m : Message}
  {op : HandshakeSession → Except HandshakeError (HandshakeSession × Message)}

theorem follows_callAndSend (hphase : s.phase ≠ .negotiated)
    (hrefused : ∀ e, op s = .error e → Reason (.handshake context e))
    (hok : ∀ s' m', op s = .ok (s', m') → m' = m ∧ s'.phase ≠ .negotiated ∧
      Follows .io (StopsFor Reason) goal s' rest ins outs) :
    Follows .io (StopsFor Reason) goal s (callAndSend context op :: rest) ins (m :: outs) := by
  have hop : ∀ s' m', (op s).mapError (CoordError.handshake context) = .ok (s', m') →
      op s = .ok (s', m') :=
    fun _ _ h => Except.mapError_eq_ok_iff.mp h
  refine .emit ⟨hphase, .inl rfl⟩ (fun e he => ?_) (fun s' m' h => (hok s' m' (hop s' m' h)).1)
    (fun s' m' h => ⟨(hok s' m' (hop s' m' h)).2.1, .inl rfl⟩)
    (fun s' m' h => (hok s' m' (hop s' m' h)).2.2)
  cases hs : op s with
  | error e' =>
    simp only [hs, Except.mapError, Except.error.injEq] at he
    subst he
    exact ⟨hphase, .inr (hrefused e' hs)⟩
  | ok r =>
    simp only [hs, Except.mapError] at he
    cases he

variable {check : HandshakeAction → Except CoordError Unit}

theorem follows_receiveAndCheck (hphase : s.phase ≠ .negotiated)
    (hrefused : ∀ e, s.handleInbound m = .error e → Reason (.handshake context e))
    (hcheck : ∀ s' action e, s.handleInbound m = .ok (s', action) → check action = .error e →
      s'.phase ≠ .negotiated ∧ Reason e)
    (hok : ∀ s' action, s.handleInbound m = .ok (s', action) → check action = .ok () →
      Follows .io (StopsFor Reason) goal s' rest ins outs) :
    Follows .io (StopsFor Reason) goal s (receiveAndCheck context check :: rest) (m :: ins) outs := by
  refine .take ⟨hphase, .inl rfl⟩ (fun e he => ?_) (fun hnone => ?_)
  · cases hin : s.handleInbound m with
    | error e' =>
      simp only [hin, Option.some.injEq] at he ⊢
      rw [← he]
      exact ⟨hphase, .inr (hrefused e' hin)⟩
    | ok r =>
      obtain ⟨s', action⟩ := r
      simp only [hin] at he ⊢
      cases hc : check action with
      | ok u =>
        rw [hc] at he
        cases he
      | error e' =>
        rw [hc] at he
        cases he
        obtain ⟨hphase', hreason⟩ := hcheck s' action e hin hc
        exact ⟨hphase', .inr hreason⟩
  · cases hin : s.handleInbound m with
    | error e' =>
      simp only [hin] at hnone
      cases hnone
    | ok r =>
      obtain ⟨s', action⟩ := r
      simp only [hin] at hnone ⊢
      cases hc : check action with
      | ok u => exact hok s' action hin hc
      | error e' =>
        rw [hc] at hnone
        cases hnone

variable {s' : HandshakeSession}

theorem follows_callAndSend_ok
    (hop : op s = .ok (s', m)) (hphase : s.phase ≠ .negotiated) (hphase' : s'.phase ≠ .negotiated)
    (hnext : Follows .io (StopsFor Reason) goal s' rest ins outs) :
    Follows .io (StopsFor Reason) goal s (callAndSend context op :: rest) ins (m :: outs) := by
  refine follows_callAndSend hphase (fun e he => ?_) (fun s₁ m₁ h => ?_)
  · rw [hop] at he
    cases he
  · rw [hop] at h
    cases h
    exact ⟨rfl, hphase', hnext⟩

theorem follows_receiveAndCheck_ok {action : HandshakeAction}
    (hin : s.handleInbound m = .ok (s', action))
    (hcheck : check action = .ok ()) (hphase : s.phase ≠ .negotiated)
    (hnext : Follows .io (StopsFor Reason) goal s' rest ins outs) :
    Follows .io (StopsFor Reason) goal s (receiveAndCheck context check :: rest) (m :: ins) outs := by
  refine follows_receiveAndCheck hphase (fun e he => ?_) (fun s₁ a e h he => ?_)
    (fun s₁ a h _ => ?_)
  · rw [hin] at he
    cases he
  · rw [hin] at h
    cases h
    rw [hcheck] at he
    cases he
  · rw [hin] at h
    cases h
    exact hnext

end

/-- **The plan of the shared steps**, for a session that has neither sent nor received its adaptor
material. -/
theorem follows_exchange {Reason : CoordError → Prop} (who : String) (role : Role) (swapId : String)
    (btc cync : Option Bytes) (parameters : Option SwapParameters) {adaptors other : AdaptorBundle}
    {verifier : AdaptorVerifier} (hverifier : ∀ e, verifier other = .error e → Reason e) :
    Follows .io (StopsFor Reason) ⟨role, .negotiated, swapId, btc, cync, parameters, true, true⟩
      ⟨role, .exchangingAdaptors, swapId, btc, cync, parameters, false, false⟩
      (exchangeScript who adaptors verifier) [.adaptorMaterial other, .ready]
      [.adaptorMaterial adaptors, .ready] := by
  refine follows_callAndSend_ok rfl nofun nofun ?_
  refine follows_receiveAndCheck nofun (fun e he => ?_) (fun s' action e h he => ?_)
    (fun s' action h _ => ?_)
  · cases he
  · cases h
    exact ⟨nofun, hverifier e he⟩
  · cases h
    refine follows_callAndSend_ok rfl nofun nofun ?_
    exact follows_receiveAndCheck_ok rfl rfl nofun .done

section

variable (aliceId bobId : String) (aliceKeys bobKeys : Pubkeys) (params : SwapParameters)
  (aliceAdaptors bobAdaptors : AdaptorBundle) (aliceVerifier bobVerifier : AdaptorVerifier)

/-- What Alice sends, and what Bob sends. -/
def aliceMessages : List Message :=
  [.helloAck aliceKeys.btc aliceKeys.cync params, .adaptorMaterial aliceAdaptors, .ready]

def bobMessages : List Message :=
  [.hello bobId bobKeys.btc bobKeys.cync, .accept, .adaptorMaterial bobAdaptors, .ready]

/-- **Why Alice may stop**, the transport apart: the swap id of the `Hello` is not hers, her own
parameters have unsafe timeouts, or her verifier refuses Bob's material. -/
def AliceRefuses (e : CoordError) : Prop :=
  (bobId ≠ aliceId ∧ e = .handshake "Alice recv Hello" (.swapIdMismatch aliceId bobId)) ∨
  (params.isTimeoutSafe = false ∧ e = .handshake "Alice respond_with_hello_ack"
    (.outOfOrder "respond_with_hello_ack (unsafe timeouts)" .awaitingAck)) ∨
  aliceVerifier bobAdaptors = .error e

/-- **Why Bob may stop**, the transport apart: his verifier refuses Alice's material. -/
def BobRefuses (e : CoordError) : Prop := bobVerifier aliceAdaptors = .error e

/-- The session Alice ends with, and the session Bob ends with. -/
def aliceGoal : HandshakeSession :=
  ⟨.alice, .negotiated, aliceId, some bobKeys.btc, some bobKeys.cync, some params, true, true⟩

def bobGoal : HandshakeSession :=
  ⟨.bob, .negotiated, bobId, some aliceKeys.btc, some aliceKeys.cync, some params, true, true⟩

/-- **The plan of Alice.** -/
theorem follows_aliceScript :
    Follows .io (StopsFor (AliceRefuses aliceId bobId params bobAdaptors aliceVerifier))
      (aliceGoal aliceId bobKeys params) (newAlice aliceId)
      (aliceScript aliceKeys params aliceAdaptors aliceVerifier)
      (bobMessages bobId bobKeys bobAdaptors) (aliceMessages aliceKeys params aliceAdaptors) := by
  refine follows_receiveAndCheck nofun (fun e he => ?_) (fun s' action e h he => ?_)
    (fun s' action h _ => ?_)
  · -- the `Hello` is refused for its swap id only
    change (if bobId ≠ aliceId then _ else _) = Except.error e at he
    split_ifs at he with hid
    cases he
    exact .inl ⟨hid, rfl⟩
  · change (if bobId ≠ aliceId then _ else _) = Except.ok (s', action) at h
    split_ifs at h with hid
    cases h
    cases he
  · change (if bobId ≠ aliceId then _ else _) = Except.ok (s', action) at h
    split_ifs at h with hid
    cases h
    refine follows_callAndSend nofun (fun e he => ?_) (fun s₁ m₁ h₁ => ?_)
    · -- her own proposal is refused for its timeouts only
      change (if params.isTimeoutSafe = false then _ else _) = Except.error e at he
      split_ifs at he with hsafe
      cases he
      exact .inr (.inl ⟨hsafe, rfl⟩)
    · change (if params.isTimeoutSafe = false then _ else _) = Except.ok (s₁, m₁) at h₁
      split_ifs at h₁ with hsafe
      cases h₁
      refine ⟨rfl, nofun, follows_receiveAndCheck_ok rfl rfl nofun ?_⟩
      exact follows_exchange "Alice" .alice _ _ _ _ fun e he => .inr (.inr he)

/-- **The plan of Bob.** -/
theorem follows_bobScript :
    Follows .io (StopsFor (BobRefuses aliceAdaptors bobVerifier)) (bobGoal bobId aliceKeys params)
      (newBob bobId) (bobScript bobKeys bobAdaptors bobVerifier)
      (aliceMessages aliceKeys params aliceAdaptors) (bobMessages bobId bobKeys bobAdaptors) := by
  refine follows_callAndSend_ok rfl nofun nofun ?_
  refine follows_receiveAndCheck_ok rfl rfl nofun ?_
  refine follows_callAndSend_ok rfl nofun nofun ?_
  exact follows_exchange "Bob" .bob _ _ _ _ fun e he => he

/-! ## 3. Every interleaving -/

/-- Alice and Bob at the two ends of a connection, about to begin. -/
def conversation : Dialogue HandshakeSession HandshakeSession Message CoordError :=
  .start (newAlice aliceId) (aliceScript aliceKeys params aliceAdaptors aliceVerifier)
    (newBob bobId) (bobScript bobKeys bobAdaptors bobVerifier)

/-- **Agreement.**  In every interleaving of the drivers, with a transport that may fail under either
party at any time: Alice stops early only because of the transport, another swap id, her own unsafe
timeouts or her verifier; Bob only because of the transport or his verifier; and if both are in phase
`Negotiated`, they hold the parameters that Alice proposed and each holds the keys of the other. -/
theorem swap_agreement {d : Dialogue HandshakeSession HandshakeSession Message CoordError}
    (h : Reaches (Dialogue.step .io) (fun _ _ => True)
      (conversation aliceId bobId aliceKeys bobKeys params aliceAdaptors bobAdaptors aliceVerifier
        bobVerifier) d) :
    (∀ e, d.left.failure = some e →
      e = .io ∨ AliceRefuses aliceId bobId params bobAdaptors aliceVerifier e) ∧
    (∀ e, d.right.failure = some e → e = .io ∨ BobRefuses aliceAdaptors bobVerifier e) ∧
    (d.left.state.phase = .negotiated → d.right.state.phase = .negotiated →
      d.left.state.parameters = d.right.state.parameters ∧
      d.left.state.parameters = some params ∧
      d.left.state.counterpartyBtcPubkey = some bobKeys.btc ∧
      d.left.state.counterpartyCyncPubkey = some bobKeys.cync ∧
      d.right.state.counterpartyBtcPubkey = some aliceKeys.btc ∧
      d.right.state.counterpartyCyncPubkey = some aliceKeys.cync) := by
  obtain ⟨outs, outs', hleft, hright⟩ := Dialogue.InStep.reaches
    (follows_aliceScript aliceId bobId aliceKeys bobKeys params aliceAdaptors bobAdaptors
      aliceVerifier)
    (follows_bobScript bobId aliceKeys bobKeys params aliceAdaptors bobAdaptors bobVerifier) h
  refine ⟨fun e he => (hleft.stops he).2, fun e he => (hright.stops he).2, fun hphase hphase' => ?_⟩
  -- a session in phase `Negotiated` is the one its plan ends with
  have hgoal : d.left.state = aliceGoal aliceId bobKeys params := by
    rcases hleft.state_eq with hgoal | ⟨e, hstops⟩
    · exact hgoal
    · exact absurd hphase hstops.1
  have hgoal' : d.right.state = bobGoal bobId aliceKeys params := by
    rcases hright.state_eq with hgoal' | ⟨e, hstops⟩
    · exact hgoal'
    · exact absurd hphase' hstops.1
  rw [hgoal, hgoal']
  exact ⟨rfl, rfl, rfl, rfl, rfl, rfl⟩

end

namespace Unsafe

open Talk

/-- A conversation of two honest parties about these parameters. -/
def talk (p : SwapParameters) : Dialogue HandshakeSession HandshakeSession Message CoordError :=
  conversation "s" "s" keys ⟨[7], [8]⟩ p bundle bundle trust trust

/-- The conversation after these turns. -/
def after (p : SwapParameters) (turns : List Side) :
    Option (Dialogue HandshakeSession HandshakeSession Message CoordError) :=
  Lib.run (Dialogue.step .io) (fun _ _ => true) (talk p) (turns.map fun side => (side, true))

/-- All turns, as an interleaving that works. -/
def turns : List Side :=
  [.right, .left, .left, .right, .right, .right, .left, .left, .left, .right, .right, .left, .left,
    .right]

/-- **Alice's own parameters are refused as out of order.** -/
theorem own_parameters_refused :
    (after (params 1) [.right, .left, .left]).map (fun d => d.left.failure) =
      some (some (.handshake "Alice respond_with_hello_ack"
        (.outOfOrder "respond_with_hello_ack (unsafe timeouts)" .awaitingAck))) := by
  decide +kernel

/-- With safe timeouts both finish. -/
theorem safe_talk_agrees :
    ∃ d, after (params 7) turns = some d ∧
      d.left.state.phase = .negotiated ∧ d.right.state.phase = .negotiated ∧
      d.left.state.parameters = d.right.state.parameters := by
  have hrun : (after (params 7) turns).any (fun d =>
      decide (d.left.state.phase = .negotiated) && decide (d.right.state.phase = .negotiated)) =
        true := by
    decide +kernel
  obtain ⟨d, hd, hphases⟩ := (Option.any_eq_true _ _).mp hrun
  simp only [Bool.and_eq_true, decide_eq_true_eq] at hphases
  have hreach : Reaches (Dialogue.step .io) (fun _ _ => True) (talk (params 7)) d :=
    .run (fun _ _ _ => trivial) .start hd
  obtain ⟨-, -, hagree⟩ := swap_agreement "s" "s" keys ⟨[7], [8]⟩ (params 7) bundle bundle trust
    trust hreach
  exact ⟨d, hd, hphases.1, hphases.2, (hagree hphases.1 hphases.2).1⟩

end Unsafe

end Coincync.Swap
