/-
# The atomic swap as a state machine

`Swap` of `crates/coincync-swap/src/protocol.rs`: the states a party goes through after the
handshake, and `apply`, which admits a transition by the role and the state.  Both parties run a
machine of their own; `Duo` puts the two side by side on one clock and keeps a log of what was
accepted.
-/
import Coincync.Swap.Handshake

set_option linter.dupNamespace false

namespace Coincync.Swap

open Lib

variable {id : String}

/-! ## 1. States and transitions -/

inductive State
  | negotiated
  | aliceLocked
  | bobLocked
  | secretRevealed
  | completed
  | refunded
  | aborted
  deriving DecidableEq

def State.isTerminal : State → Bool
  | .completed | .refunded | .aborted => true
  | _ => false

inductive Transition
  | aliceLocksCync
  | bobLocksBtc
  | aliceClaimsBtc
  | bobClaimsCync
  | aliceRefunds
  | bobRefunds
  | observeBobLocked
  | observeAliceLocked
  | observeSecretRevealed
  | observeCompleted
  | abort
  deriving DecidableEq

/-- `Error::InvalidState`, with its text. -/
structure InvalidState where
  text : String
  deriving DecidableEq

structure Swap where
  id : String
  role : Role
  state : State
  parameters : SwapParameters
  deriving DecidableEq

namespace Swap

def negotiate (id : String) (role : Role) (params : SwapParameters) : Except InvalidState Swap :=
  if params.isTimeoutSafe = false then
    .error ⟨"swap parameters violate timeout-safety: BTC timeout * margin >= CYNC timeout"⟩
  else .ok ⟨id, role, .negotiated, params⟩

def transitionErrorMessage (_t : Transition) (_r : Role) (_s : State) : String :=
  "transition not legal for this (role, state) pair"

/-- The text for a transition that the pair of role and state does not permit. -/
def refusal (t : Transition) (r : Role) (s : State) : String :=
  match r, t with
  | .alice, .bobLocksBtc => "BobLocksBtc is Bob's transition; Alice cannot apply it"
  | .bob, .aliceLocksCync => "AliceLocksCync is Alice's transition; Bob cannot apply it"
  | .bob, .aliceClaimsBtc => "AliceClaimsBtc is Alice's transition; Bob cannot apply it"
  | .alice, .bobClaimsCync => "BobClaimsCync is Bob's transition; Alice cannot apply it"
  | .alice, .bobRefunds => "BobRefunds is Bob's transition; Alice cannot apply it"
  | .bob, .aliceRefunds => "AliceRefunds is Alice's transition; Bob cannot apply it"
  | _, _ => transitionErrorMessage t r s

/-- The destination of a transition from a state that is not terminal. -/
def next (t : Transition) (r : Role) (s : State) : Option State :=
  match t, r, s with
  | .abort, _, _ => some .aborted
  -- Alice's actions
  | .aliceLocksCync, .alice, .negotiated => some .aliceLocked
  | .aliceClaimsBtc, .alice, .bobLocked => some .secretRevealed
  | .aliceRefunds, .alice, .aliceLocked => some .refunded
  | .aliceRefunds, .alice, .bobLocked => some .refunded
  -- Alice's observations
  | .observeBobLocked, .alice, .aliceLocked => some .bobLocked
  -- Bob's actions
  | .bobLocksBtc, .bob, .aliceLocked => some .bobLocked
  | .bobClaimsCync, .bob, .secretRevealed => some .completed
  | .bobRefunds, .bob, .bobLocked => some .refunded
  -- Bob's observations
  | .observeAliceLocked, .bob, .negotiated => some .aliceLocked
  | .observeSecretRevealed, .bob, .bobLocked => some .secretRevealed
  | .observeCompleted, .bob, .secretRevealed => some .completed
  | _, _, _ => none

/-- `Swap::apply`: an error has written nothing. -/
def apply (s : Swap) (t : Transition) : Except InvalidState Swap :=
  match s.state with
  | .completed => .error ⟨"swap is Completed; no further transitions"⟩
  | .refunded => .error ⟨"swap is Refunded; no further transitions"⟩
  | .aborted => .error ⟨"swap is Aborted; no further transitions"⟩
  | _ =>
    match next t s.role s.state with
    | some state => .ok { s with state }
    | none => .error ⟨refusal t s.role s.state⟩

def legalTransitions (s : Swap) : List Transition :=
  if s.state.isTerminal = true then []
  else
    .abort :: match s.role, s.state with
      | .alice, .negotiated => [.aliceLocksCync]
      | .alice, .aliceLocked => [.observeBobLocked, .aliceRefunds]
      | .alice, .bobLocked => [.aliceClaimsBtc, .aliceRefunds]
      | .bob, .negotiated => [.observeAliceLocked]
      | .bob, .aliceLocked => [.bobLocksBtc]
      | .bob, .bobLocked => [.observeSecretRevealed, .bobRefunds]
      | .bob, .secretRevealed => [.bobClaimsCync]
      | _, _ => []

/-- **What `apply` accepts**: from a state that is not terminal, to the destination of the table,
with everything else as it was. -/
theorem apply_eq_ok_iff {s s' : Swap} {t : Transition} :
    s.apply t = .ok s' ↔ s.state.isTerminal = false ∧
      ∃ state, next t s.role s.state = some state ∧ s' = { s with state } := by
  obtain ⟨id, role, state, parameters⟩ := s
  have happly : state.isTerminal = false → apply ⟨id, role, state, parameters⟩ t =
      match next t role state with
      | some state' => .ok ⟨id, role, state', parameters⟩
      | none => .error ⟨refusal t role state⟩ := by
    intro h
    cases state <;> first | rfl | cases h
  cases hterminal : state.isTerminal with
  | true =>
    -- the three terminal states answer with an error of their own
    have herror : ∀ s', apply ⟨id, role, state, parameters⟩ t ≠ .ok s' := by
      intro s' h
      cases state <;> simp [State.isTerminal, apply] at hterminal h
    simp only [herror, Bool.true_eq_false, false_and]
  | false =>
    rw [happly hterminal]
    cases hnext : next t role state with
    | none => simp
    | some state' =>
      simp only [true_and, Except.ok.injEq, Option.some.injEq]
      constructor
      · rintro rfl
        exact ⟨state', rfl, rfl⟩
      · rintro ⟨_, rfl, rfl⟩
        rfl

theorem exists_listed {s s' : Swap} {t : Transition} (h : s.apply t = .ok s') :
    ∃ t ∈ s.legalTransitions, s.apply t = .ok s' := by
  obtain ⟨id, role, state, parameters⟩ := s
  cases role <;> cases state <;> cases t <;> cases h <;>
    simp [legalTransitions, State.isTerminal, apply, next]

end Swap

/-! ## 2. Two machines on one clock -/

/-- A transition a party applies, and when. -/
structure Occurrence where
  role : Role
  transition : Transition
  time : Nat
  deriving DecidableEq

/-- Alice's machine and Bob's, the time, and what has been accepted so far. -/
structure Duo where
  alice : Swap
  bob : Swap
  now : Nat
  log : List Occurrence
  deriving DecidableEq

namespace Duo

/-- The machine of a party. -/
def party (d : Duo) : Role → Swap
  | .alice => d.alice
  | .bob => d.bob

/-- Put a machine in a party's place. -/
def setParty (d : Duo) (role : Role) (s : Swap) : Duo :=
  match role with
  | .alice => { d with alice := s }
  | .bob => { d with bob := s }

/-- Both parties negotiate with the same parameters. -/
def negotiate (id : String) (params : SwapParameters) : Except InvalidState Duo :=
  match Swap.negotiate id .alice params, Swap.negotiate id .bob params with
  | .ok alice, .ok bob => .ok ⟨alice, bob, 0, []⟩
  | .error e, _ => .error e
  | _, .error e => .error e

/-- **A step of a schedule**: a party applies a transition, not earlier than the last one; if its
machine refuses, this is not a step. -/
def step (d : Duo) (o : Occurrence) : Option Duo :=
  if o.time < d.now then none
  else
    match (d.party o.role).apply o.transition with
    | .error _ => none
    | .ok s => some { d.setParty o.role s with now := o.time, log := o :: d.log }

/-- The schedules the two machines accept. -/
abbrev Runs : Duo → Duo → Prop := Reaches step fun _ _ => True

/-- **Two operators who keep to their lists can bring the machines wherever they go**, by the same
times: the lists leave out `ObserveCompleted` only, which ends where Bob's claim does. -/
theorem exists_listed_run_iff {d d' : Duo} :
    (∃ log, Reaches step (fun d o => o.transition ∈ (d.party o.role).legalTransitions) d
      { d' with log }) ↔ ∃ log, Runs d { d' with log } := by
  constructor
  · rintro ⟨log, hrun⟩
    exact ⟨log, hrun.mono fun _ _ _ => trivial⟩
  · rintro ⟨_, hrun⟩
    refine hrun.invariant (I := fun x => ∃ log, Reaches _ _ d { x with log }) ⟨d.log, .start⟩ ?_
    rintro x ⟨role, t, time⟩ x' ⟨log, hx⟩ - hstep
    unfold step at hstep
    split_ifs at hstep with htime
    cases hs : (x.party role).apply t with
    | error e => simp [hs] at hstep
    | ok s =>
      simp only [hs, Option.some.injEq] at hstep
      subst hstep
      obtain ⟨t', ht', hs'⟩ := Swap.exists_listed hs
      refine ⟨⟨role, t', time⟩ :: log, .next ⟨role, t', time⟩ hx ?_ ?_⟩
      · cases role <;> exact ht'
      · cases role <;> simp_all [step, party, setParty]

end Duo

/-! ## 3. Claims and refunds -/

/-- How a party takes the other's coins. -/
def Role.claim : Role → Transition
  | .alice => .aliceClaimsBtc
  | .bob => .bobClaimsCync

/-- How a party takes its own coins back. -/
def Role.refund : Role → Transition
  | .alice => .aliceRefunds
  | .bob => .bobRefunds

namespace SwapParameters

variable (p : SwapParameters)

/-- When the refund of a BTC lock made at `b` opens. -/
def btcRefundOpens (b : Nat) : Nat := b + p.btcTimeoutSecs

/-- When the refund of a CYNC lock made at `a` opens. -/
def cyncRefundOpens (a : Nat) : Nat := a + p.cyncTimeoutSecs

variable {p}

/-- **The margin of a safe pair of timeouts**: a fifth of the BTC timeout and one CYNC block. -/
theorem margin_of_safe (h : p.isTimeoutSafe = true) :
    p.btcTimeoutSecs + p.btcTimeoutSecs / 5 + cyncBlockTimeSecs ≤ p.cyncTimeoutSecs := by
  have hblocks := p.isTimeoutSafe_iff.mp h
  have hcync := p.cyncTimeoutBlocks.toNat_lt
  simp only [cyncTimeoutSecs, btcTimeoutSecs, saturatingMulU64, cyncBlockTimeSecs, btcBlockTimeSecs]
  omega

end SwapParameters

namespace Swap

/-- A party that has claimed is here, and cannot refund from here. -/
def HasClaimed (s : Swap) : Prop :=
  s.state = .secretRevealed ∨ s.state = .completed ∨ s.state = .aborted

variable {s s' : Swap} {t : Transition}

theorem role_of_apply (h : s.apply t = .ok s') : s'.role = s.role := by
  obtain ⟨-, state, -, rfl⟩ := apply_eq_ok_iff.mp h
  rfl

theorem hasClaimed_of_claim (h : s.apply s.role.claim = .ok s') : s'.HasClaimed := by
  obtain ⟨id, role, state, parameters⟩ := s
  obtain ⟨-, state', hnext, rfl⟩ := apply_eq_ok_iff.mp h
  cases role <;> cases state <;> cases hnext
  · exact .inl rfl
  · exact .inr (.inl rfl)

theorem refunded_of_refund (h : s.apply s.role.refund = .ok s') : s'.state = .refunded := by
  obtain ⟨id, role, state, parameters⟩ := s
  obtain ⟨-, state', hnext, rfl⟩ := apply_eq_ok_iff.mp h
  cases role <;> cases state <;> cases hnext <;> rfl

/-- **A party that has claimed stays one that has claimed.** -/
theorem HasClaimed.apply (hs : s.HasClaimed) (h : s.apply t = .ok s') : s'.HasClaimed := by
  obtain ⟨id, role, state, parameters⟩ := s
  obtain ⟨hterminal, state', hnext, rfl⟩ := apply_eq_ok_iff.mp h
  rcases hs with hs | hs | hs <;> cases hs
  · cases role <;> cases t <;> cases hnext
    · exact .inr (.inr rfl)
    · exact .inr (.inl rfl)
    · exact .inr (.inl rfl)
    · exact .inr (.inr rfl)
  · cases hterminal
  · cases hterminal

theorem not_apply_of_refunded (hs : s.state = .refunded) : s.apply t ≠ .ok s' := by
  intro h
  have hterminal := (apply_eq_ok_iff.mp h).1
  rw [hs] at hterminal
  cases hterminal

end Swap

namespace Duo

variable {d d' : Duo} {role : Role} {o : Occurrence}

/-- **The log tells the states**: each party's machine has its own role, one that has claimed is
past refunding, and one that has refunded is done. -/
structure Logged (d : Duo) : Prop where
  role_eq : ∀ role, (d.party role).role = role
  claimed : ∀ role t, ⟨role, role.claim, t⟩ ∈ d.log → (d.party role).HasClaimed
  refunded : ∀ role t, ⟨role, role.refund, t⟩ ∈ d.log → (d.party role).state = .refunded

/-- **A step, taken apart**: the one party moves, and the log says so. -/
theorem step_cases (h : d.step o = some d') : ∃ s, (d.party o.role).apply o.transition = .ok s ∧
    d'.log = o :: d.log ∧ ∀ r, d'.party r = if r = o.role then s else d.party r := by
  unfold step at h
  split_ifs at h
  cases happly : (d.party o.role).apply o.transition with
  | error e => simp only [happly, reduceCtorEq] at h
  | ok s =>
    simp only [happly, Option.some.injEq] at h
    subst h
    refine ⟨s, rfl, rfl, fun r => ?_⟩
    cases o.role <;> cases r <;> rfl

theorem Logged.step (h : d.Logged) (hstep : d.step o = some d') : d'.Logged := by
  obtain ⟨s, happly, hlog, hparty⟩ := step_cases hstep
  have hrole := h.role_eq o.role
  constructor
  · intro r
    rw [hparty]
    split_ifs with hr
    · rw [Swap.role_of_apply happly, hrole, hr]
    · exact h.role_eq r
  · intro r t hmem
    rw [hparty]
    rw [hlog, List.mem_cons] at hmem
    split_ifs with hr
    · rcases hmem with rfl | hmem
      · exact Swap.hasClaimed_of_claim (by rw [hrole]; exact happly)
      · exact (h.claimed _ t (hr ▸ hmem)).apply happly
    · rcases hmem with rfl | hmem
      · exact absurd rfl hr
      · exact h.claimed r t hmem
  · intro r t hmem
    rw [hparty]
    rw [hlog, List.mem_cons] at hmem
    split_ifs with hr
    · rcases hmem with rfl | hmem
      · exact Swap.refunded_of_refund (by rw [hrole]; exact happly)
      · exact absurd happly (Swap.not_apply_of_refunded (h.refunded _ t (hr ▸ hmem)))
    · rcases hmem with rfl | hmem
      · exact absurd rfl hr
      · exact h.refunded r t hmem

variable {p : SwapParameters}

theorem negotiate_ok (h : negotiate id p = .ok d) :
    p.isTimeoutSafe = true ∧
      d = ⟨⟨id, .alice, .negotiated, p⟩, ⟨id, .bob, .negotiated, p⟩, 0, []⟩ := by
  unfold negotiate Swap.negotiate at h
  cases hsafe : p.isTimeoutSafe with
  | false => simp only [hsafe, if_true, reduceCtorEq] at h
  | true =>
    simp only [hsafe, Bool.true_eq_false, if_false, Except.ok.injEq] at h
    exact ⟨rfl, h.symm⟩

theorem Logged.of_negotiate (h : negotiate id p = .ok d) : d.Logged := by
  obtain ⟨-, rfl⟩ := negotiate_ok h
  refine ⟨?_, fun role t hmem => ?_, fun role t hmem => ?_⟩
  · intro role
    cases role <;> rfl
  · cases hmem
  · cases hmem

/-- **Any delay is accepted**: Alice locks at 0 and Bob `delay` seconds later. -/
theorem exists_locks (hstart : negotiate id p = .ok d) (delay : Nat) : ∃ d', Runs d d' ∧
      ⟨.alice, .aliceLocksCync, 0⟩ ∈ d'.log ∧ ⟨.bob, .bobLocksBtc, delay⟩ ∈ d'.log := by
  obtain ⟨-, rfl⟩ := negotiate_ok hstart
  have hrun : Lib.run step (fun _ _ => true)
      ⟨⟨id, .alice, .negotiated, p⟩, ⟨id, .bob, .negotiated, p⟩, 0, []⟩
      [⟨.alice, .aliceLocksCync, 0⟩, ⟨.bob, .observeAliceLocked, 0⟩, ⟨.bob, .bobLocksBtc, delay⟩] =
      some ⟨⟨id, .alice, .aliceLocked, p⟩, ⟨id, .bob, .bobLocked, p⟩, delay,
        [⟨.bob, .bobLocksBtc, delay⟩, ⟨.bob, .observeAliceLocked, 0⟩,
          ⟨.alice, .aliceLocksCync, 0⟩]⟩ := rfl
  refine ⟨_, Reaches.run (fun _ _ _ => trivial) .start hrun, ?_, ?_⟩
  · simp
  · simp

/-- **Refunds in the accepted schedules.**  Bob's refund opens before Alice's in every schedule that
has the two locks `delay` seconds apart exactly if `delay` is below the difference of the timeouts,
and that difference is at least a fifth of the BTC timeout and a CYNC block. -/
theorem refunds_ordered {id : String} {p : SwapParameters} (hstart : negotiate id p = .ok d) :
    (∀ delay,
      (∀ d', Runs d d' → ∀ a, ⟨.alice, .aliceLocksCync, a⟩ ∈ d'.log →
        ⟨.bob, .bobLocksBtc, a + delay⟩ ∈ d'.log →
          p.btcRefundOpens (a + delay) < p.cyncRefundOpens a) ↔
      delay < p.cyncTimeoutSecs - p.btcTimeoutSecs) ∧
    p.btcTimeoutSecs / 5 + SwapParameters.cyncBlockTimeSecs ≤
      p.cyncTimeoutSecs - p.btcTimeoutSecs ∧
    ∀ d', Runs d d' → ∀ role t t',
      ⟨role, role.refund, t⟩ ∈ d'.log → ⟨role, role.claim, t'⟩ ∉ d'.log := by
  have hmargin := SwapParameters.margin_of_safe (negotiate_ok hstart).1
  refine ⟨fun delay => ⟨fun h => ?_, fun h d' _ a _ _ => ?_⟩, ?_, ?_⟩
  · obtain ⟨d', hrun, halice, hbob⟩ := exists_locks hstart delay
    have hopens := h d' hrun 0 halice (by rwa [zero_add])
    simp only [SwapParameters.btcRefundOpens, SwapParameters.cyncRefundOpens] at hopens
    omega
  · simp only [SwapParameters.btcRefundOpens, SwapParameters.cyncRefundOpens]
    omega
  · omega
  · intro d' hrun role t t' hrefund hclaim
    have hlogged : d'.Logged :=
      Reaches.invariant (Logged.of_negotiate hstart) (fun _ _ _ hs _ hstep => hs.step hstep) hrun
    have hrefunded := hlogged.refunded role t hrefund
    rcases hlogged.claimed role t' hclaim with h | h | h <;> rw [hrefunded] at h <;> cases h

end Duo

/-! ## 4. A day against 100 blocks -/

namespace Schedule

/-- A day of CYNC blocks against 100 BTC blocks. -/
def params : SwapParameters where
  cyncAmount := 1000
  btcAmountSats := 2000
  cyncTimeoutBlocks := 720
  btcTimeoutBlocks := 100
  aliceCyncAddress := "alice"
  bobBtcAddress := "bob"
  cyncNetwork := "regtest"
  btcNetwork := "regtest"

/-- Both parties after the negotiation. -/
def start : Duo :=
  ⟨⟨"s", .alice, .negotiated, params⟩, ⟨"s", .bob, .negotiated, params⟩, 0, []⟩

theorem negotiate_params : Duo.negotiate "s" params = .ok start := by
  have hsafe : params.isTimeoutSafe = true := params.isTimeoutSafe_iff.mpr (by decide)
  simp only [Duo.negotiate, Swap.negotiate, hsafe, Bool.true_eq_false, if_false]
  rfl

theorem timeouts_params : params.btcTimeoutSecs = 60000 ∧ params.cyncTimeoutSecs = 86400 := by
  decide +kernel

/-- With these timeouts Bob may take more than seven hours to lock. -/
theorem prompt_lock_ordered : Duo.negotiate "s" params = .ok start ∧
    ∀ d, Duo.Runs start d → ∀ a, ⟨.alice, .aliceLocksCync, a⟩ ∈ d.log →
      ⟨.bob, .bobLocksBtc, a + 26399⟩ ∈ d.log →
        params.btcRefundOpens (a + 26399) < params.cyncRefundOpens a := by
  refine ⟨negotiate_params, ((Duo.refunds_ordered negotiate_params).1 26399).mpr ?_⟩
  rw [timeouts_params.1, timeouts_params.2]
  omega

/-- **A late lock turns the order round.**  The parameters are safe; Bob locks 30000 seconds after
Alice, his machine accepts it, and her refund opens before his. -/
theorem late_lock_accepted : params.isTimeoutSafe = true ∧
    ∃ d, Duo.Runs start d ∧ ⟨.alice, .aliceLocksCync, 0⟩ ∈ d.log ∧
      ⟨.bob, .bobLocksBtc, 30000⟩ ∈ d.log ∧
      params.cyncRefundOpens 0 < params.btcRefundOpens 30000 := by
  obtain ⟨d, hrun, halice, hbob⟩ := Duo.exists_locks negotiate_params 30000
  refine ⟨(Duo.negotiate_ok negotiate_params).1, d, hrun, halice, hbob, ?_⟩
  rw [SwapParameters.cyncRefundOpens, SwapParameters.btcRefundOpens, timeouts_params.1,
    timeouts_params.2]
  omega

end Schedule

end Coincync.Swap
