/-
# The faucet

`crates/coincync-faucet`: a request is answered with a drip unless the drip log has a recent one for
its address or its IP.  The two lookups, the send of the wallet and the insert into the log are
awaited one after the other, and other requests run in between; the time of a request is read before
the first of them.
-/
import Coincync.Lib.Runs

namespace Coincync.Faucet

open Lib List

/-! ## 1. Requests and the log -/

/-- The limits of the configuration. -/
structure FaucetConfig where
  rateLimitAddressSecs : Int
  rateLimitIpSecs : Int

/-- A row of `drip_log`. -/
structure DripRow (A I : Type) where
  address : A
  ip : I
  ts : Int
  deriving DecidableEq

/-- What a request is answered. -/
inductive Response
  | success
  | addressRateLimited (retryAfter : Int)
  | ipRateLimited (retryAfter : Int)
  | dbError
  | walletSendFailed
  deriving DecidableEq

/-- What a request awaits, or has been answered. -/
inductive Stage
  | lookupAddress
  | lookupIp
  | send
  | record
  | answered (r : Response)
  deriving DecidableEq

/-- A request for a canonical address from a resolved IP, with the time that was read. -/
structure Drip (A I : Type) where
  address : A
  ip : I
  now : Int
  stage : Stage
  deriving DecidableEq

/-- The requests so far, the log, and the last reading of the clock. -/
structure State (A I : Type) where
  drips : List (Drip A I)
  dripLog : List (DripRow A I)
  clock : Int
  deriving DecidableEq

/-- A new request, or the next step of one; `ok` is whether the database or the wallet answers. -/
inductive Act (A I : Type)
  | request (address : A) (ip : I) (now : Int)
  | proceed (id : Nat) (ok : Bool)

variable {A I : Type}

def Drip.row (d : Drip A I) : DripRow A I := ⟨d.address, d.ip, d.now⟩

/-- The time of the newest row that passes a test (`ORDER BY ts DESC LIMIT 1`). -/
def newest (test : DripRow A I → Bool) (log : List (DripRow A I)) : Option Int :=
  ((log.filter test).map DripRow.ts).max?

/-- The rate limit: how long to wait, if the last drip is too recent. -/
def retryAfter (limit now : Int) (last : Option Int) : Option Int :=
  last.bind fun ts => if now - ts < limit then some (limit - (now - ts)) else none

variable [DecidableEq A] [DecidableEq I] (cfg : FaucetConfig) {st : Stage}

def lastDripForAddress (log : List (DripRow A I)) (address : A) : Option Int :=
  newest (fun r => r.address = address) log

def lastDripForIp (log : List (DripRow A I)) (ip : I) : Option Int :=
  newest (fun r => r.ip = ip) log

/-- **The next step of `drip`**: what the request comes to, and the log. -/
def Drip.proceed (d : Drip A I) (log : List (DripRow A I)) (ok : Bool) :
    Stage × List (DripRow A I) :=
  match d.stage with
  | .lookupAddress =>
    if ok = false then (.answered .dbError, log)
    else
      match retryAfter cfg.rateLimitAddressSecs d.now (lastDripForAddress log d.address) with
      | some wait => (.answered (.addressRateLimited wait), log)
      | none => (.lookupIp, log)
  | .lookupIp =>
    if ok = false then (.answered .dbError, log)
    else
      match retryAfter cfg.rateLimitIpSecs d.now (lastDripForIp log d.ip) with
      | some wait => (.answered (.ipRateLimited wait), log)
      | none => (.send, log)
  | .send => if ok = false then (.answered .walletSendFailed, log) else (.record, log)
  -- the answer is a success even if the insert fails: the chain has the drip
  | .record => (.answered .success, if ok = true then d.row :: log else log)
  | .answered r => (.answered r, log)

/-- One atomic step. -/
def step (s : State A I) : Act A I → Option (State A I)
  | .request address ip now =>
    if s.clock ≤ now then
      some { s with drips := s.drips ++ [⟨address, ip, now, .lookupAddress⟩], clock := now }
    else none
  | .proceed id ok =>
    s.drips[id]?.map fun d =>
      { s with
        drips := s.drips.set id { d with stage := (d.proceed cfg s.dripLog ok).1 }
        dripLog := (d.proceed cfg s.dripLog ok).2 }

/-! ## 2. Where a request is -/

namespace Stage

/-- Under way: between the first lookup and the insert. -/
def underWay : Stage → Bool
  | .lookupIp | .send | .record => true
  | _ => false

/-- The wallet has sent the drip. -/
def paid : Stage → Bool
  | .record | .answered .success => true
  | _ => false

/-- The lookup of the IP was passed. -/
def passedIp : Stage → Bool
  | .send => true
  | st => st.paid

def passedAddress : Stage → Bool
  | .lookupIp => true
  | st => st.passedIp

theorem underWay_or_success (h : st.passedAddress = true) :
    st.underWay = true ∨ st = .answered .success := by
  cases st with
  | answered r => cases r <;> simp_all [passedAddress, passedIp, paid]
  | _ => simp_all [passedAddress, passedIp, paid, underWay]

theorem passedAddress_of_passedIp (h : st.passedIp = true) : st.passedAddress = true := by
  cases st <;> simp_all [passedAddress, passedIp]

theorem passedIp_of_paid (h : st.paid = true) : st.passedIp = true := by
  cases st <;> simp_all [passedIp]

end Stage

/-- At least so far apart. -/
def Apart (limit a b : Int) : Prop := limit ≤ a - b ∨ limit ≤ b - a

theorem Apart.symm {limit a b : Int} (h : Apart limit a b) : Apart limit b a := Or.symm h

omit [DecidableEq A] [DecidableEq I] in
theorem apart_of_newest {test : DripRow A I → Bool} {log : List (DripRow A I)} {limit now : Int}
    (h : retryAfter limit now (newest test log) = none) {r : DripRow A I} (hr : r ∈ log)
    (htest : test r = true) : Apart limit now r.ts := by
  have hmem : r.ts ∈ (log.filter test).map DripRow.ts :=
    mem_map_of_mem (mem_filter.mpr ⟨hr, htest⟩)
  cases hlast : newest test log with
  | none =>
    rw [newest, max?_eq_none_iff] at hlast
    rw [hlast] at hmem
    cases hmem
  | some ts =>
    have hle : r.ts ≤ ts := (max?_eq_some_iff.mp hlast).2 _ hmem
    rw [hlast, retryAfter, Option.bind_some] at h
    split_ifs at h with hrecent
    exact .inl (by omega)

/-- **What one step of a request can do.** -/
structure Advance (d : Drip A I) (log : List (DripRow A I)) (ok : Bool) (st : Stage)
    (log' : List (DripRow A I)) : Prop where
  keeps : ∀ r ∈ log, r ∈ log'
  underWay : st.underWay = true → d.stage.underWay = true ∨ d.stage = .lookupAddress
  passedAddress : st.passedAddress = true → d.stage.passedAddress = true ∨
    d.stage = .lookupAddress ∧
      ∀ r ∈ log, r.address = d.address → Apart cfg.rateLimitAddressSecs d.now r.ts
  passedIp : st.passedIp = true → d.stage.passedIp = true ∨
    d.stage = .lookupIp ∧ ∀ r ∈ log, r.ip = d.ip → Apart cfg.rateLimitIpSecs d.now r.ts
  paid : st.paid = true → d.stage.paid = true ∨ d.stage = .send
  logged : st = .answered .success → d.stage = .answered .success ∨
    d.stage = .record ∧ (ok = true → d.row ∈ log')

theorem advance_proceed (d : Drip A I) (log : List (DripRow A I)) (ok : Bool) :
    Advance cfg d log ok (d.proceed cfg log ok).1 (d.proceed cfg log ok).2 := by
  obtain ⟨address, ip, now, stage⟩ := d
  cases stage with
  | lookupAddress =>
    simp only [Drip.proceed]
    split_ifs
    · exact ⟨fun r hr => hr, nofun, nofun, nofun, nofun, nofun⟩
    · split
      · exact ⟨fun r hr => hr, nofun, nofun, nofun, nofun, nofun⟩
      · rename_i hnone
        exact ⟨fun r hr => hr, fun _ => .inr rfl,
          fun _ => .inr ⟨rfl, fun r hr ha => apart_of_newest hnone hr (decide_eq_true ha)⟩,
          nofun, nofun, nofun⟩
  | lookupIp =>
    simp only [Drip.proceed]
    split_ifs
    · exact ⟨fun r hr => hr, nofun, nofun, nofun, nofun, nofun⟩
    · split
      · exact ⟨fun r hr => hr, nofun, nofun, nofun, nofun, nofun⟩
      · rename_i hnone
        exact ⟨fun r hr => hr, fun _ => .inl rfl, fun _ => .inl rfl,
          fun _ => .inr ⟨rfl, fun r hr ha => apart_of_newest hnone hr (decide_eq_true ha)⟩,
          nofun, nofun⟩
  | send =>
    simp only [Drip.proceed]
    split_ifs
    · exact ⟨fun r hr => hr, nofun, nofun, nofun, nofun, nofun⟩
    · exact ⟨fun r hr => hr, fun _ => .inl rfl, fun _ => .inl rfl, fun _ => .inl rfl,
        fun _ => .inr rfl, nofun⟩
  | record =>
    simp only [Drip.proceed]
    refine ⟨fun r hr => ?_, nofun, fun _ => .inl rfl, fun _ => .inl rfl, fun _ => .inl rfl,
      fun _ => .inr ⟨rfl, fun hok => ?_⟩⟩
    · split_ifs
      · exact .tail _ hr
      · exact hr
    · rw [if_pos hok]
      exact .head _
  | answered r =>
    exact ⟨fun r hr => hr, .inl, .inl, .inl, .inl, .inl⟩

/-! ## 3. Runs -/

/-- **An undisturbed step**: no request makes its first lookup while another one of its address or
its IP is under way, and no insert fails. -/
def Undisturbed (s : State A I) : Act A I → Prop
  | .request .. => True
  | .proceed id ok => ∀ d ∈ s.drips[id]?,
      (d.stage = .lookupAddress → ∀ d' ∈ s.drips, d'.stage.underWay = true →
        d'.address ≠ d.address ∧ d'.ip ≠ d.ip) ∧
      (d.stage = .record → ok = true)

instance (s : State A I) (a : Act A I) : Decidable (Undisturbed s a) :=
  match a with
  | .request .. => .isTrue trivial
  | .proceed id ok => inferInstanceAs (Decidable (∀ d ∈ s.drips[id]?,
      (d.stage = .lookupAddress → ∀ d' ∈ s.drips, d'.stage.underWay = true →
        d'.address ≠ d.address ∧ d'.ip ≠ d.ip) ∧ (d.stage = .record → ok = true)))

/-- What holds between any two elements at different places. -/
def Pairs {α : Type} (P : α → α → Prop) (l : List α) : Prop :=
  ∀ (i j : Nat) (a b : α), l[i]? = some a → l[j]? = some b → i ≠ j → P a b

theorem Pairs.append_singleton {α : Type} {P : α → α → Prop} {l : List α} (h : Pairs P l) {x : α}
    (hx : ∀ a, P x a ∧ P a x) : Pairs P (l ++ [x]) := by
  have hold : ∀ {i : Nat} {a : α}, (l ++ [x])[i]? = some a → l[i]? = some a ∨ a = x := by
    intro i a ha
    rw [getElem?_append] at ha
    split_ifs at ha
    · exact .inl ha
    · exact .inr (mem_singleton.mp (mem_of_getElem? ha))
  intro i j a b ha hb hij
  rcases hold ha with ha | rfl
  · rcases hold hb with hb | rfl
    · exact h i j a b ha hb hij
    · exact (hx a).2
  · exact (hx b).1

theorem Pairs.set {α : Type} {P : α → α → Prop} {l : List α} (h : Pairs P l) {k : Nat} {x : α}
    (hx : ∀ j b, l[j]? = some b → k ≠ j → P x b ∧ P b x) : Pairs P (l.set k x) := by
  have hold : ∀ {i : Nat} {a : α}, (l.set k x)[i]? = some a →
      k = i ∧ a = x ∨ k ≠ i ∧ l[i]? = some a := by
    intro i a ha
    rw [getElem?_set] at ha
    split_ifs at ha with hi hlt
    · exact .inl ⟨hi, (Option.some.inj ha).symm⟩
    · exact .inr ⟨hi, ha⟩
  intro i j a b ha hb hij
  rcases hold ha with ⟨rfl, rfl⟩ | ⟨hi, hai⟩
  · rcases hold hb with ⟨hj, -⟩ | ⟨hj, hbj⟩
    · exact absurd hj hij
    · exact (hx j b hbj hj).1
  · rcases hold hb with ⟨rfl, rfl⟩ | ⟨-, hbj⟩
    · exact (hx i a hai hi).2
    · exact h i j a b hai hbj hij

/-- Requests under way together have nothing in common. -/
def Alone (d d' : Drip A I) : Prop :=
  d.stage.underWay = true → d'.stage.underWay = true → d.address ≠ d'.address ∧ d.ip ≠ d'.ip

/-- Who has passed a lookup is far enough from who was paid. -/
def FarByAddress (cfg : FaucetConfig) (d d' : Drip A I) : Prop :=
  d.stage.passedAddress = true → d'.stage.paid = true → d.address = d'.address →
    Apart cfg.rateLimitAddressSecs d.now d'.now

def FarByIp (cfg : FaucetConfig) (d d' : Drip A I) : Prop :=
  d.stage.passedIp = true → d'.stage.paid = true → d.ip = d'.ip →
    Apart cfg.rateLimitIpSecs d.now d'.now

/-- **What an undisturbed run keeps**; the log has every drip that was answered. -/
structure Spaced (s : State A I) : Prop where
  alone : Pairs Alone s.drips
  logged : ∀ d ∈ s.drips, d.stage = .answered .success → d.row ∈ s.dripLog
  address : Pairs (FarByAddress cfg) s.drips
  ip : Pairs (FarByIp cfg) s.drips

variable {cfg} {s s' : State A I} {d : Drip A I} {id : Nat} {ok : Bool}

omit [DecidableEq A] [DecidableEq I] in
theorem Spaced.request (h : Spaced cfg s) (address : A) (ip : I) (now clock : Int) :
    Spaced cfg { s with drips := s.drips ++ [⟨address, ip, now, .lookupAddress⟩], clock } where
  alone := h.alone.append_singleton fun _ => ⟨nofun, fun _ => nofun⟩
  logged d hd hsuccess := by
    rcases mem_append.mp hd with hd | hd
    · exact h.logged d hd hsuccess
    · rw [mem_singleton.mp hd] at hsuccess
      cases hsuccess
  address := h.address.append_singleton fun _ => ⟨nofun, fun _ => nofun⟩
  ip := h.ip.append_singleton fun _ => ⟨nofun, fun _ => nofun⟩

omit [DecidableEq A] [DecidableEq I] in
theorem Spaced.paid_cases (h : Spaced cfg s) {j : Nat} (hd : s.drips[j]? = some d)
    (hpaid : d.stage.passedAddress = true) : d.stage.underWay = true ∨ d.row ∈ s.dripLog ∧
      d.stage.paid = true := by
  rcases Stage.underWay_or_success hpaid with hway | hsuccess
  · exact .inl hway
  · exact .inr ⟨h.logged d (mem_of_getElem? hd) hsuccess, by rw [hsuccess]; rfl⟩

/-- **A step of a request keeps the distances.** -/
theorem Spaced.proceed (h : Spaced cfg s) (hd : s.drips[id]? = some d)
    (hP : Undisturbed s (.proceed id ok)) :
    Spaced cfg { s with
      drips := s.drips.set id { d with stage := (d.proceed cfg s.dripLog ok).1 }
      dripLog := (d.proceed cfg s.dripLog ok).2 } := by
  have hadv := advance_proceed cfg d s.dripLog ok
  obtain ⟨hfirst, hinsert⟩ := hP d hd
  generalize (d.proceed cfg s.dripLog ok).1 = st at hadv ⊢
  generalize (d.proceed cfg s.dripLog ok).2 = log at hadv ⊢
  -- a request that gets under way, or is, has nothing in common with one that is
  have halone : ∀ j d', s.drips[j]? = some d' → id ≠ j →
      d.stage.underWay = true ∨ d.stage = .lookupAddress → d'.stage.underWay = true →
      d'.address ≠ d.address ∧ d'.ip ≠ d.ip := by
    rintro j d' hd' hj (hway | hstage) hway'
    · exact h.alone j id d' d hd' hd (Ne.symm hj) hway' hway
    · exact hfirst hstage d' (mem_of_getElem? hd') hway'
  refine ⟨h.alone.set fun j d' hd' hj => ?_, ?_, h.address.set fun j d' hd' hj => ?_,
    h.ip.set fun j d' hd' hj => ?_⟩
  · have hne := fun hway => halone j d' hd' hj (hadv.underWay hway)
    exact ⟨fun hway hway' => ⟨(hne hway hway').1.symm, (hne hway hway').2.symm⟩,
      fun hway' hway => hne hway hway'⟩
  · intro d' hd' hsuccess
    rcases mem_or_eq_of_mem_set hd' with hd' | rfl
    · exact hadv.keeps _ (h.logged d' hd' hsuccess)
    · rcases hadv.logged hsuccess with hold | ⟨hrecord, hrow⟩
      · exact hadv.keeps _ (h.logged d (mem_of_getElem? hd) hold)
      · exact hrow (hinsert hrecord)
  · constructor
    · intro hpassed hpaid heq
      rcases hadv.passedAddress hpassed with hold | ⟨hstage, hfar⟩
      · exact h.address id j d d' hd hd' hj hold hpaid heq
      · have hboth := Stage.passedAddress_of_passedIp (Stage.passedIp_of_paid hpaid)
        rcases h.paid_cases hd' hboth with hway | ⟨hrow, -⟩
        · exact absurd heq.symm (halone j d' hd' hj (.inr hstage) hway).1
        · exact hfar _ hrow heq.symm
    · intro hpassed hpaid heq
      rcases hadv.paid hpaid with hold | hstage
      · exact h.address j id d' d hd' hd (Ne.symm hj) hpassed hold heq
      · rcases h.paid_cases hd' hpassed with hway | ⟨-, hpaid'⟩
        · exact absurd heq (halone j d' hd' hj (.inl (by rw [hstage]; rfl)) hway).1
        · exact (h.address id j d d' hd hd' hj (by rw [hstage]; rfl) hpaid' heq.symm).symm
  · constructor
    · intro hpassed hpaid heq
      rcases hadv.passedIp hpassed with hold | ⟨hstage, hfar⟩
      · exact h.ip id j d d' hd hd' hj hold hpaid heq
      · have hboth := Stage.passedAddress_of_passedIp (Stage.passedIp_of_paid hpaid)
        rcases h.paid_cases hd' hboth with hway | ⟨hrow, -⟩
        · exact absurd heq.symm (halone j d' hd' hj (.inl (by rw [hstage]; rfl)) hway).2
        · exact hfar _ hrow heq.symm
    · intro hpassed hpaid heq
      rcases hadv.paid hpaid with hold | hstage
      · exact h.ip j id d' d hd' hd (Ne.symm hj) hpassed hold heq
      · rcases h.paid_cases hd' (Stage.passedAddress_of_passedIp hpassed) with hway | ⟨-, hpaid'⟩
        · exact absurd heq (halone j d' hd' hj (.inl (by rw [hstage]; rfl)) hway).2
        · exact (h.ip id j d d' hd hd' hj (by rw [hstage]; rfl) hpaid' heq.symm).symm

theorem Spaced.step (h : Spaced cfg s) {a : Act A I} (hP : Undisturbed s a)
    (hstep : step cfg s a = some s') : Spaced cfg s' := by
  cases a with
  | request address ip now =>
    simp only [Faucet.step] at hstep
    split_ifs at hstep
    cases hstep
    exact h.request address ip now now
  | proceed id ok =>
    obtain ⟨d, hd, rfl⟩ := Option.map_eq_some_iff.mp hstep
    exact h.proceed hd hP

/-- A faucet with an empty log. -/
def start (clock : Int) : State A I := ⟨[], [], clock⟩

omit [DecidableEq A] [DecidableEq I] in
theorem spaced_start (clock : Int) : Spaced cfg (start clock : State A I) where
  alone i j a b ha := by cases ha
  logged d hd := by cases hd
  address i j a b ha := by cases ha
  ip i j a b ha := by cases ha

/-- **The limits of the faucet**, in every undisturbed run: of two requests that were paid, those
for one address have times at least the one limit apart, and those from one IP the other. -/
theorem drips_apart {clock : Int}
    (hrun : Reaches (step cfg) Undisturbed (start clock : State A I) s) {i j : Nat}
    {d d' : Drip A I} (hij : i ≠ j) (hd : s.drips[i]? = some d) (hd' : s.drips[j]? = some d')
    (hpaid : d.stage.paid = true) (hpaid' : d'.stage.paid = true) :
    (d.address = d'.address → Apart cfg.rateLimitAddressSecs d.now d'.now) ∧
      (d.ip = d'.ip → Apart cfg.rateLimitIpSecs d.now d'.now) := by
  have hspaced : Spaced cfg s :=
    hrun.invariant (spaced_start clock) fun s a s' h hP hstep => h.step hP hstep
  have hpassed := Stage.passedIp_of_paid hpaid
  exact ⟨hspaced.address i j d d' hd hd' hij (Stage.passedAddress_of_passedIp hpassed) hpaid',
    hspaced.ip i j d d' hd hd' hij hpassed hpaid'⟩

/-! ## 4. Two requests -/

namespace Together

/-- A day for an address, an hour for an IP. -/
def limits : FaucetConfig := ⟨86400, 3600⟩

/-- All four steps of a request. -/
def served (id : Nat) : List (Act Nat Nat) := List.replicate 4 (.proceed id true)

/-- **One after the other**, a day apart: both requests are paid. -/
theorem served_in_turn : ∃ (s : State Nat Nat) (d d' : Drip Nat Nat),
    Reaches (step limits) Undisturbed (start 0) s ∧ s.drips = [d, d'] ∧ d.stage.paid = true ∧
      d'.stage.paid = true ∧ d.address = d'.address ∧
      Apart limits.rateLimitAddressSecs d.now d'.now := by
  have hrun : ((run (step limits) (fun s a => decide (Undisturbed s a)) (start 0)
      ([.request 7 1 1000] ++ served 0 ++ [.request 7 1 87400] ++ served 1)).any fun s =>
        decide (s.drips = [⟨7, 1, 1000, .answered .success⟩, ⟨7, 1, 87400, .answered .success⟩])) =
      true := by
    decide
  obtain ⟨s, hreach, hs⟩ := Reaches.exists_of_run (fun _ _ h => of_decide_eq_true h) hrun
  have hdrips := of_decide_eq_true hs
  have hfar := drips_apart hreach zero_ne_one (by rw [hdrips]; rfl) (by rw [hdrips]; rfl) rfl
    rfl
  exact ⟨s, _, _, hreach, hdrips, rfl, rfl, rfl, hfar.1 rfl⟩

/-- **Together**, a second apart: both requests are paid. -/
theorem both_paid : ∃ (s : State Nat Nat) (d d' : Drip Nat Nat),
    Reaches (step limits) (fun _ _ => True) (start 0) s ∧ s.drips = [d, d'] ∧
      d.stage.paid = true ∧ d'.stage.paid = true ∧ d.address = d'.address ∧ d.ip = d'.ip ∧
      ¬ Apart limits.rateLimitAddressSecs d.now d'.now ∧
      ¬ Apart limits.rateLimitIpSecs d.now d'.now := by
  have hrun : ((run (step limits) (fun _ _ => true) (start 0)
      [.request 7 1 1000, .request 7 1 1001, .proceed 0 true, .proceed 1 true, .proceed 0 true,
        .proceed 1 true, .proceed 0 true, .proceed 1 true]).any fun s =>
        decide (s.drips = [⟨7, 1, 1000, .record⟩, ⟨7, 1, 1001, .record⟩])) = true := by
    decide
  obtain ⟨s, hreach, hs⟩ := Reaches.exists_of_run (P := fun _ _ => True) (fun _ _ _ => trivial) hrun
  refine ⟨s, _, _, hreach, of_decide_eq_true hs, rfl, rfl, rfl, rfl, ?_, ?_⟩
  · simp [Apart, limits]
  · simp [Apart, limits]

end Together

end Coincync.Faucet
