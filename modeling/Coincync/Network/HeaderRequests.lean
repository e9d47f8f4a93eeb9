/-
# The cycle of header requests

A node asks one peer at a time for headers.  A request carries a nonce, and an answer is taken only
with a nonce that is outstanding and from the peer it was issued to.  Four fields of `ChainSync` are
about this (`RequestCycle`): since when a request is pending, the outstanding nonces, their
generation and the next nonce.
-/
import Coincync.Lib.Tickets
import Coincync.Network.Frames

namespace Coincync

open Lib List Option Finset

/-! ## 1. The cycle by itself -/

/-- What `ChainSync` knows of its header requests. -/
structure RequestCycle where
  since : Option Nat
  outstanding : Map Nat (PeerId × Nat)
  generation : Nat
  next : Nat

/-- What can happen to the cycle. -/
inductive CycleEvent
  | begin (peer : PeerId) (now : Nat)
  | consume (nonce : Nat) (peer : PeerId)
  | reset
  | rearm
  | none
  deriving DecidableEq

namespace RequestCycle

variable {c : RequestCycle}

/-- An answer with this nonce is taken from this peer. -/
def honours (c : RequestCycle) (nonce : Nat) (peer : PeerId) : Bool :=
  decide (c.outstanding.lookup nonce = some (peer, c.generation))

/-- The cycle after an event. -/
def take (c : RequestCycle) : CycleEvent → RequestCycle
  | .begin peer now =>
    if c.since.isSome then c
    else
      { c with
        since := some now
        outstanding := c.outstanding.insert c.next (peer, c.generation)
        next := (c.next + 1) % 2 ^ 64 }
  | .consume nonce peer =>
    if c.honours nonce peer = true then
      { c with since := none, outstanding := c.outstanding.erase nonce }
    else c
  | .reset =>
    { c with since := none, outstanding := ∅, generation := (c.generation + 1) % 2 ^ 64 }
  | .rearm => { c with since := none }
  | .none => c

/-- **At most one nonce is outstanding, and a request is pending exactly if one is.** -/
def Single (c : RequestCycle) : Prop :=
  c.outstanding.keys.card ≤ 1 ∧ (c.since.isSome = true ↔ c.outstanding.keys.Nonempty)

theorem Single.eq_empty (h : c.Single) (hsince : c.since = none) : c.outstanding.keys = ∅ := by
  rw [← not_nonempty_iff_eq_empty, ← h.2, hsince]
  exact nofun

theorem single_of_eq_empty (hsince : c.since = none) (hkeys : c.outstanding.keys = ∅) :
    c.Single := by
  refine ⟨?_, ?_⟩
  · rw [hkeys]
    exact zero_le
  · rw [hsince, hkeys]
    exact ⟨nofun, fun h => absurd h Finset.not_nonempty_empty⟩

theorem Single.begin (h : c.Single) (peer : PeerId) (now : Nat) :
    (c.take (.begin peer now)).Single := by
  simp only [take]
  split_ifs with hpending
  · exact h
  · have hempty := h.eq_empty (not_isSome_iff_eq_none.mp hpending)
    have hkeys : (c.outstanding.insert c.next (peer, c.generation)).keys = {c.next} := by
      rw [Map.keys_insert_eq, hempty]
      rfl
    refine ⟨?_, ?_⟩
    · change (c.outstanding.insert c.next (peer, c.generation)).keys.card ≤ 1
      rw [hkeys]
      exact le_of_eq (card_singleton _)
    · change (some now).isSome = true ↔
        (c.outstanding.insert c.next (peer, c.generation)).keys.Nonempty
      rw [hkeys]
      exact ⟨fun _ => singleton_nonempty _, fun _ => rfl⟩

theorem Single.consume (h : c.Single) (nonce : Nat) (peer : PeerId) :
    (c.take (.consume nonce peer)).Single := by
  simp only [take]
  split_ifs with hhonours
  · have hmem : nonce ∈ c.outstanding.keys :=
      Map.mem_keys_iff.mpr ⟨_, of_decide_eq_true hhonours⟩
    refine single_of_eq_empty rfl ?_
    change (c.outstanding.erase nonce).keys = ∅
    rw [Map.keys_erase_eq, ← card_eq_zero, card_erase_of_mem hmem]
    have := h.1
    omega
  · exact h

theorem single_rearm_iff (h : c.Single) : (c.take .rearm).Single ↔ c.since = none := by
  refine ⟨fun hrearmed => ?_, fun hsince => single_of_eq_empty rfl (h.eq_empty hsince)⟩
  have hempty : c.outstanding.keys = ∅ := hrearmed.eq_empty rfl
  rw [← not_isSome_iff_eq_none, h.2, hempty]
  exact Finset.not_nonempty_empty

/-- **An event keeps the single request exactly if it does not rearm over a pending one.** -/
theorem single_take_iff (h : c.Single) (e : CycleEvent) :
    (c.take e).Single ↔ (e = .rearm → c.since = none) := by
  cases e with
  | begin peer now => exact iff_of_true (h.begin peer now) nofun
  | consume nonce peer => exact iff_of_true (h.consume nonce peer) nofun
  | reset => exact iff_of_true (single_of_eq_empty rfl rfl) nofun
  | rearm =>
    rw [single_rearm_iff h]
    exact ⟨fun hsince _ => hsince, fun hsince => hsince rfl⟩
  | none => exact iff_of_true h nofun

/-! ### Nonces as tickets -/

/-- **The log vouches for the outstanding nonces**: each was issued, and nothing has happened to it
since. -/
structure Vouched (c : RequestCycle) (log : List (TicketEntry Nat PeerId)) : Prop where
  honest : Honest log
  lastIssued : ∀ n p g, c.outstanding.lookup n = some (p, g) → lastEntry n log = some (.issued n p)
  numbered : issues log = (List.range (issues log).length).reverse.map fun i => (i + 1) % 2 ^ 64
  next_eq : c.next = ((issues log).length + 1) % 2 ^ 64

variable {log : List (TicketEntry Nat PeerId)}

section

variable (h : c.Vouched log)

include h

theorem Vouched.keep {c' : RequestCycle} (hnext : c'.next = c.next)
    (hfewer : ∀ n v, c'.outstanding.lookup n = some v → c.outstanding.lookup n = some v) :
    c'.Vouched log where
  honest := h.honest
  lastIssued n p g hlookup := h.lastIssued n p g (hfewer n (p, g) hlookup)
  numbered := h.numbered
  next_eq := hnext.trans h.next_eq

omit h in
theorem lookup_of_lookup_erase {m : Map Nat (PeerId × Nat)} {nonce n : Nat} {v : PeerId × Nat}
    (h : (m.erase nonce).lookup n = some v) : n ≠ nonce ∧ m.lookup n = some v := by
  by_cases hn : n = nonce
  · subst hn
    rw [Finmap.lookup_erase] at h
    cases h
  · rw [Finmap.lookup_erase_ne hn] at h
    exact ⟨hn, h⟩

theorem Vouched.consume (nonce : Nat) (peer : PeerId) :
    (c.take (.consume nonce peer)).Vouched log := by
  simp only [take]
  split_ifs
  · exact h.keep rfl fun n v hlookup => (lookup_of_lookup_erase hlookup).2
  · exact h

theorem Vouched.take_of_ne_begin {e : CycleEvent} (he : ∀ peer now, e ≠ .begin peer now) :
    (c.take e).Vouched log := by
  cases e with
  | begin peer now => exact absurd rfl (he peer now)
  | consume nonce peer => exact h.consume nonce peer
  | reset => exact h.keep rfl fun n v hlookup => nomatch hlookup
  | rearm => exact h.keep rfl fun n v hlookup => hlookup
  | none => exact h

theorem Vouched.begin (hsince : c.since = none) (peer : PeerId) (now : Nat) :
    (c.take (.begin peer now)).Vouched (.issued c.next peer :: log) := by
  have hissues : issues (.issued c.next peer :: log) = c.next :: issues log := rfl
  simp only [take, hsince, isSome_none, Bool.false_eq_true, if_false]
  refine ⟨h.honest, fun n p g hlookup => ?_, ?_, ?_⟩
  · by_cases hn : c.next = n
    · subst hn
      rw [Finmap.lookup_insert] at hlookup
      cases hlookup
      exact lastEntry_cons_self (.issued c.next peer) log
    · rw [Finmap.lookup_insert_of_ne _ (Ne.symm hn)] at hlookup
      rw [lastEntry_cons_of_ne (e := .issued c.next peer) hn]
      exact h.lastIssued n p g hlookup
  · rw [hissues, length_cons, range_succ, reverse_append, reverse_singleton,
      singleton_append, List.map_cons, ← h.numbered, ← h.next_eq]
  · rw [hissues, length_cons]
    change (c.next + 1) % 2 ^ 64 = _
    rw [h.next_eq, Nat.mod_add_mod]

theorem Vouched.accept {nonce : Nat} {peer : PeerId} (hhonours : c.honours nonce peer = true) :
    (c.take (.consume nonce peer)).Vouched (.accepted nonce peer :: log) := by
  have hlast := h.lastIssued nonce peer c.generation (of_decide_eq_true hhonours)
  simp only [take, hhonours, if_true]
  refine ⟨⟨hlast, h.honest⟩, fun n p g hlookup => ?_, h.numbered, h.next_eq⟩
  obtain ⟨hn, hlookup⟩ := lookup_of_lookup_erase hlookup
  rw [lastEntry_cons_of_ne (e := .accepted nonce peer) hn.symm]
  exact h.lastIssued n p g hlookup

theorem Vouched.nodup_issues (hfew : (issues log).length ≤ 2 ^ 64) : (issues log).Nodup := by
  rw [h.numbered]
  refine List.Nodup.map_on (fun i hi j hj heq => ?_) (nodup_reverse.mpr nodup_range)
  rw [mem_reverse, List.mem_range] at hi hj
  omega

end

end RequestCycle

namespace ChainSync

variable {B : Type} {s s' : ChainSync B}

/-! ## 2. What the operations do to the cycle -/

/-- The fields that are about header requests. -/
def cycle (s : ChainSync B) : RequestCycle where
  since := s.headersRequestTime
  outstanding := s.pendingHeaderNonces
  generation := s.headerNonceGeneration
  next := s.nextHeaderNonce

/-- **The operation ends the pending request and keeps its nonce.** -/
def rearms (s : ChainSync B) : SyncOp B → Bool
  | .updatePeerHeightFor _ height =>
    decide (s.localHeight < height ∧ height ≤ s.localHeight + maxHeightLead) && s.state.isSettled
  | .updatePeerDifficultyFor _ totalDifficulty _ =>
    decide (s.localTotalDifficulty < totalDifficulty ∧ totalDifficulty ≤ s.claimCap) &&
      s.state.isSettled
  | .queueHeaders [] _ | .queueHeadersFromPeer _ [] _ =>
    decide ((s.state = .headers ∨ s.state = .confirmingSynced ∧ s.localHeight = 0) ∧
      s.localHeight + 2 < s.trueBestHeight)
  | .getBlocksToRetry _ _ stuck =>
    decide (5 ≤ stuck.length ∧ (s.state = .blocks ∨ s.state = .synced))
  | .triggerResync => decide (s.state = .synced ∨ s.state = .idle)
  | .armNearTipCatchup =>
    decide ((s.pendingHeaders = [] ∧ s.downloading = ∅ ∧ s.pendingRequests.keys = ∅) ∧
      s.isSynced = false)
  | _ => false

/-- What an operation does to the cycle. -/
def cycleEvent (s : ChainSync B) : SyncOp B → CycleEvent
  | .beginHeadersRequest peer now => .begin peer now
  | .validateHeaderNonce nonce peer | .cancelHeadersRequest nonce peer => .consume nonce peer
  | .resetHeadersTimeout => .reset
  | op => if s.rearms op = true then .rearm else .none

theorem cycle_leaveSynced (s : ChainSync B) (now : Nat) (anyWork : Bool) :
    (s.leaveSynced now anyWork).cycle = s.cycle := by
  unfold leaveSynced
  split_ifs
  · rfl
  · rfl

theorem state_leaveSynced_eq_blocks_iff {now : Nat} :
    (s.leaveSynced now true).state = .blocks ↔ s.state = .blocks ∨ s.state = .synced := by
  unfold leaveSynced
  split_ifs with hleave
  · exact iff_of_true rfl (.inr hleave.2)
  · exact ⟨.inl, fun h => h.resolve_right fun hsynced => hleave ⟨rfl, hsynced⟩⟩

theorem cycle_getBlocksToRetry (s : ChainSync B) (now : Nat) (expired stuck : List Hash) :
    (s.getBlocksToRetry now expired stuck).2.cycle =
      s.cycle.take (s.cycleEvent (.getBlocksToRetry now expired stuck)) := by
  have hstate : ((s.requeueAll expired).requeueDownloads stuck).state = s.state :=
    (view_eq_of_blank state (sansQueue_requeueDownloads _ stuck)).trans
      (view_eq_of_blank state (s.sansQueue_requeueAll expired))
  have hcycle : ∀ anyWork, (((s.requeueAll expired).requeueDownloads stuck).leaveSynced now
      anyWork).cycle = s.cycle := fun anyWork => by
    rw [cycle_leaveSynced, view_eq_of_blank cycle (sansQueue_requeueDownloads _ stuck),
      view_eq_of_blank cycle (s.sansQueue_requeueAll expired)]
  unfold getBlocksToRetry
  simp only
  by_cases hstuck : 5 ≤ stuck.length
  · -- there are stuck downloads, so a `Synced` node has been moved to `Blocks`
    have hwork : (!expired.isEmpty || !stuck.isEmpty) = true := by
      cases stuck with
      | nil => exact absurd hstuck (by decide)
      | cons h t => exact Bool.or_true _
    rw [hwork]
    by_cases hblocks : s.state = .blocks ∨ s.state = .synced
    · rw [if_pos ⟨hstuck, state_leaveSynced_eq_blocks_iff.mpr (hstate ▸ hblocks)⟩]
      simp only [cycleEvent, rearms, hstuck, hblocks, and_self, decide_true, if_true]
      exact congrArg (RequestCycle.take · .rearm) (hcycle true)
    · rw [if_neg fun h => hblocks (hstate ▸ state_leaveSynced_eq_blocks_iff.mp h.2)]
      simp only [cycleEvent, rearms, hblocks, and_false, decide_false, Bool.false_eq_true, if_false]
      exact hcycle true
  · rw [if_neg fun h => hstuck h.1]
    simp only [cycleEvent, rearms, hstuck, false_and, decide_false, Bool.false_eq_true, if_false]
    exact hcycle _

theorem cycle_queueHeadersInner_nil (s : ChainSync B) (peer : Option PeerId) (now : Nat) :
    (s.queueHeadersInner [] peer now).cycle =
      s.cycle.take (s.cycleEvent (.queueHeaders [] now)) := by
  unfold queueHeadersInner
  simp only [if_true, cycleEvent, rearms, decide_eq_true_eq]
  by_cases hconfirm : s.state = .confirmingSynced ∧ 0 < s.localHeight
  · rw [if_pos hconfirm, if_neg (by rintro ⟨h | h, -⟩ <;> cases h), if_neg]
    · rfl
    · rintro ⟨h | h, -⟩
      · exact nomatch hconfirm.1.symm.trans h
      · exact absurd h.2 hconfirm.2.ne'
  · have hiff : (s.state = .headers ∨ s.state = .confirmingSynced) ↔
        s.state = .headers ∨ s.state = .confirmingSynced ∧ s.localHeight = 0 := by
      refine or_congr_right ⟨fun h => ⟨h, ?_⟩, And.left⟩
      exact Nat.eq_zero_of_not_pos fun hpos => hconfirm ⟨h, hpos⟩
    rw [if_neg hconfirm]
    simp only [hiff]
    split_ifs
    · rfl
    · rfl

theorem cycle_queueHeadersInner_cons (s : ChainSync B) (hash : Hash) (headers : List Hash)
    (peer : Option PeerId) (now : Nat) :
    (s.queueHeadersInner (hash :: headers) peer now).cycle = s.cycle := by
  have hqueued : (s.enqueue (hash :: headers) peer).cycle = s.cycle :=
    (view_eq_of_blank cycle (s.sansQueue_enqueue (hash :: headers) peer)).trans rfl
  rw [queueHeadersInner_of_ne_nil s (cons_ne_nil hash headers)]
  split_ifs
  · exact hqueued
  · exact hqueued

/-- **A claim that is neither too far ahead nor behind rearms the cycle** of a node that has
settled. -/
theorem cycle_ite_rearmHeaders {far own claim : Nat} {low ahead : ChainSync B}
    (hlow : low.cycle = s.cycle) (hahead : ahead.cycle = s.cycle) (hstate : ahead.state = s.state) :
    (if far < claim then s else if claim ≤ own then low
      else if ahead.state.isSettled = true then ahead.rearmHeaders else ahead).cycle =
      s.cycle.take
        (if (own < claim ∧ claim ≤ far) ∧ s.state.isSettled = true then .rearm else .none) := by
  rw [hstate]
  split_ifs with hfar hevent hbehind hevent hsettled hevent hevent
  · exact absurd hevent.1.2 (by omega)
  · rfl
  · exact absurd hevent.1.1 (by omega)
  · exact hlow
  · exact congrArg (RequestCycle.take · .rearm) hahead
  · exact absurd ⟨⟨by omega, by omega⟩, hsettled⟩ hevent
  · exact absurd hevent.2 hsettled
  · exact hahead

theorem cycle_consumeHeaderNonce (s : ChainSync B) (nonce : Nat) (peer : PeerId) :
    (s.consumeHeaderNonce nonce peer).2.cycle = s.cycle.take (.consume nonce peer) := by
  simp only [RequestCycle.take, RequestCycle.honours, decide_eq_true_eq]
  unfold consumeHeaderNonce
  split_ifs with hmatch hhonours hhonours
  · rfl
  · exact absurd hmatch hhonours
  · exact absurd hhonours hmatch
  · rfl

variable {V : BlockView B} {op : SyncOp B}

/-- **Every operation acts on the cycle as its event says.** -/
theorem cycle_step (hstep : s.step V op = some s') : s'.cycle = s.cycle.take (s.cycleEvent op) := by
  cases op with
  | updatePeerHeightFor | updatePeerDifficultyFor =>
    cases hstep
    simp only [cycleEvent, rearms, Bool.and_eq_true, decide_eq_true_eq]
    exact cycle_ite_rearmHeaders rfl rfl rfl
  | queueHeaders headers now =>
    cases hstep
    cases headers with
    | nil => exact s.cycle_queueHeadersInner_nil none now
    | cons hash headers => exact s.cycle_queueHeadersInner_cons hash headers none now
  | queueHeadersFromPeer peer headers now =>
    cases hstep
    cases headers with
    | nil => exact s.cycle_queueHeadersInner_nil (some peer) now
    | cons hash headers => exact s.cycle_queueHeadersInner_cons hash headers (some peer) now
  | getBlocksToRetry now expired stuck =>
    obtain ⟨-, rfl⟩ := guarded_eq_some_iff.mp hstep
    exact s.cycle_getBlocksToRetry now expired stuck
  | triggerResync | armNearTipCatchup =>
    cases hstep
    simp only [cycleEvent, rearms, decide_eq_true_eq, triggerResync, armNearTipCatchup]
    split_ifs <;> rfl
  | beginHeadersRequest peer now =>
    cases hstep
    simp only [cycleEvent, RequestCycle.take]
    unfold beginHeadersRequest
    split_ifs with hpending hcycle hcycle
    · rfl
    · exact absurd hpending hcycle
    · exact absurd hcycle hpending
    · rfl
  | validateHeaderNonce nonce peer | cancelHeadersRequest nonce peer =>
    cases hstep
    exact s.cycle_consumeHeaderNonce nonce peer
  | setLocalTip | updatePeerHeight | onBlockProcessed | retainConnectedPeers
  | expireStaleWorkClaims =>
    cases hstep
    simp only [setLocalTip, updatePeerHeight, onBlockProcessed, retainConnectedPeers,
      expireStaleWorkClaims]
    split_ifs <;> rfl
  | getBlocksToRequest max now =>
    cases hstep
    exact view_eq_of_blank cycle (s.sansQueue_getBlocksToRequest max now)
  | recordRequest hash peer ts oldest =>
    obtain ⟨-, rfl⟩ := guarded_eq_some_iff.mp hstep
    exact view_eq_of_blank cycle (s.sansQueue_recordRequest hash peer ts oldest)
  | markBlockReceived hash =>
    cases hstep
    simp only [markBlockReceived]
    split <;> rfl
  | onTimeout hash now =>
    cases hstep
    simp only [onTimeout]
    split
    · rfl
    · split_ifs <;> rfl
  | requeueFailed hashes now =>
    cases hstep
    exact (cycle_leaveSynced _ now _).trans
      (view_eq_of_blank cycle (s.sansQueue_requeueAll hashes.reverse))
  | recoverStuckDownloads now order =>
    obtain ⟨-, rfl⟩ := guarded_eq_some_iff.mp hstep
    exact (cycle_leaveSynced _ now _).trans
      (view_eq_of_blank cycle (s.sansQueue_requeueDownloads order))
  | onPeerDisconnected peer now order =>
    obtain ⟨-, rfl⟩ := guarded_eq_some_iff.mp hstep
    exact (cycle_leaveSynced _ now _).trans
      ((view_eq_of_blank cycle (sansQueue_requeueAll _ order)).trans rfl)
  | cleanupExpiredOrphans now order =>
    obtain ⟨-, rfl⟩ := guarded_eq_some_iff.mp hstep
    exact view_eq_of_blank cycle (s.sansOrphans_cleanupExpiredOrphans V now order)
  | onBlockReceivedFrom block origin now expired evicted =>
    rcases s.sansOrphans_onBlockReceivedFrom hstep with hsans | hsans
    · refine (view_eq_of_blank cycle hsans).trans ?_
      cases origin with
      | none => rfl
      | some p => rfl
    · exact (view_eq_of_blank cycle hsans).trans rfl
  | markBlockOrphan block origin parent now evicted =>
    refine (view_eq_of_blank cycle (s.sansOrphans_markBlockOrphan hstep)).trans ?_
    simp only [queueParent]
    split_ifs <;> rfl
  | _ =>
    cases hstep
    rfl

/-! ## 3. One request at a time -/

/-- **The condition on an operation**: it rearms the cycle only if no request is pending. -/
def Patient (s : ChainSync B) (op : SyncOp B) : Prop :=
  s.rearms op = true → s.headersRequestTime = none

theorem cycleEvent_eq_rearm_iff : s.cycleEvent op = .rearm ↔ s.rearms op = true := by
  cases op with
  | beginHeadersRequest | validateHeaderNonce | cancelHeadersRequest | resetHeadersTimeout =>
    exact ⟨nofun, nofun⟩
  | _ =>
    simp only [cycleEvent]
    split_ifs with h
    · exact iff_of_true rfl h
    · exact iff_of_false nofun h

theorem single_step_iff (h : s.cycle.Single) (hstep : s.step V op = some s') :
    s'.cycle.Single ↔ s.Patient op := by
  rw [cycle_step hstep, RequestCycle.single_take_iff h, cycleEvent_eq_rearm_iff]
  exact Iff.rfl

variable {localHeight : Nat}

theorem patient_runs_single {tip : Hash}
    (hrun : Reaches (step V) Patient (new localHeight tip) s) : s.cycle.Single :=
  hrun.invariant (I := fun s => s.cycle.Single) (RequestCycle.single_of_eq_empty rfl rfl)
    fun _ _ _ hs hpatient hstep => (single_step_iff hs hstep).mpr hpatient

/-! ## 4. The log of a run -/

/-- What an operation adds to the log: the nonce it issued, or the one it accepted. -/
def entries (s : ChainSync B) : SyncOp B → List (TicketEntry Nat PeerId)
  | .beginHeadersRequest peer now =>
    (s.beginHeadersRequest peer now).1.toList.map fun n => .issued n peer
  | .validateHeaderNonce nonce peer =>
    if (s.validateHeaderNonce nonce peer).1 = true then [.accepted nonce peer] else []
  | _ => []

/-- The machine with its log, the newest entry first. -/
def logged (V : BlockView B) (x : ChainSync B × List (TicketEntry Nat PeerId)) (op : SyncOp B) :
    Option (ChainSync B × List (TicketEntry Nat PeerId)) :=
  (x.1.step V op).map fun s' => (s', x.1.entries op ++ x.2)

/-- **Every operation keeps the log's word.** -/
theorem vouched_step {log : List (TicketEntry Nat PeerId)} (h : s.cycle.Vouched log)
    (hstep : s.step V op = some s') : s'.cycle.Vouched (s.entries op ++ log) := by
  rw [cycle_step hstep]
  cases op with
  | beginHeadersRequest peer now =>
    cases hsince : s.headersRequestTime with
    | some t =>
      have hentries : s.entries (.beginHeadersRequest peer now) = [] := by
        simp [entries, beginHeadersRequest, hsince]
      have hcycle : s.cycle.take (.begin peer now) = s.cycle := by
        simp [RequestCycle.take, cycle, hsince]
      rw [hentries]
      exact hcycle.symm ▸ h
    | none =>
      have hentries : s.entries (.beginHeadersRequest peer now) =
          [.issued s.nextHeaderNonce peer] := by
        simp [entries, beginHeadersRequest, hsince]
      rw [hentries]
      exact h.begin hsince peer now
  | validateHeaderNonce nonce peer =>
    by_cases hmatch : s.pendingHeaderNonces.lookup nonce = some (peer, s.headerNonceGeneration)
    · have hentries : s.entries (.validateHeaderNonce nonce peer) = [.accepted nonce peer] := by
        simp [entries, validateHeaderNonce, consumeHeaderNonce, hmatch]
      rw [hentries]
      exact h.accept (decide_eq_true hmatch)
    · have hentries : s.entries (.validateHeaderNonce nonce peer) = [] := by
        simp [entries, validateHeaderNonce, consumeHeaderNonce, hmatch]
      rw [hentries]
      exact h.consume nonce peer
  | cancelHeadersRequest nonce peer => exact h.consume nonce peer
  | resetHeadersTimeout => exact h.take_of_ne_begin fun _ _ => by simp [cycleEvent]
  | _ =>
    refine h.take_of_ne_begin fun peer now => ?_
    simp only [cycleEvent]
    split_ifs
    · simp
    · simp

theorem runs_vouched {tip : Hash} {x : ChainSync B × List (TicketEntry Nat PeerId)}
    (hrun : Reaches (logged V) (fun _ _ => True) (new localHeight tip, []) x) :
    x.1.cycle.Vouched x.2 := by
  refine hrun.invariant (I := fun x => x.1.cycle.Vouched x.2) ⟨trivial, nofun, rfl, rfl⟩ ?_
  intro x op x' hx _ hstep
  obtain ⟨s', hs', rfl⟩ := map_eq_some_iff.mp hstep
  exact vouched_step hx hs'

/-- **One request at a time, one answer for each.** -/
theorem header_requests (V : BlockView B) (localHeight : Nat) (tip : Hash) :
    (∀ s, Reaches (step V) Patient (new localHeight tip) s →
      s.cycle.Single ∧ ∀ op s', s.step V op = some s' → (s'.cycle.Single ↔ s.Patient op)) ∧
    ∀ s log, Reaches (logged V) (fun _ _ => True) (new localHeight tip, []) (s, log) →
      (∀ newer older n p, log = newer ++ .accepted n p :: older →
        lastEntry n older = some (.issued n p)) ∧
      ((issues log).length ≤ 2 ^ 64 → (acceptances log).Nodup) := by
  refine ⟨fun s hrun => ?_, fun s log hrun => ?_⟩
  · have hsingle := patient_runs_single hrun
    exact ⟨hsingle, fun op s' hstep => single_step_iff hsingle hstep⟩
  · have hvouched : s.cycle.Vouched log := runs_vouched hrun
    refine ⟨fun newer older n p heq => ?_, fun hfew => ?_⟩
    · exact Honest.lastEntry_eq (heq ▸ hvouched.honest)
    · exact hvouched.honest.nodup_acceptances (hvouched.nodup_issues hfew)

namespace Rearmed

open SmallSync

def ops : List (SyncOp Unit) :=
  [.beginHeadersRequest (peer 1) 100, .validateHeaderNonce 1 (peer 1),
    .updatePeerHeightFor (peer 2) 7, .beginHeadersRequest (peer 2) 110]

/-- Each operation of the run is tested for patience. -/
def patientTest (s : ChainSync Unit) (op : SyncOp Unit) : Bool :=
  !s.rearms op || s.headersRequestTime.isNone

theorem patient_of_patientTest (s : ChainSync Unit) (op : SyncOp Unit)
    (h : patientTest s op = true) : s.Patient op := by
  intro hrearms
  rw [patientTest, hrearms] at h
  exact isNone_iff_eq_none.mp h

/-- After the patient run one nonce is outstanding. -/
theorem patient_run_single : ∃ s : ChainSync Unit,
    Reaches (step view) Patient (new 0 Hash.zero) s ∧
      s.pendingHeaderNonces.keys = {2} ∧ s.cycle.Single := by
  have hrun : (Lib.run (step view) patientTest (new 0 Hash.zero) ops).any
      (fun s => decide (s.pendingHeaderNonces.keys = {2})) = true := by
    decide +kernel
  obtain ⟨s, hreach, hends⟩ := Reaches.exists_of_run patient_of_patientTest hrun
  exact ⟨s, hreach, of_decide_eq_true hends, ((header_requests view 0 Hash.zero).1 s hreach).1⟩

/-- **Two requests at once.**  A height of peer 2 rearms the cycle while peer 1 has not answered: a
second nonce is issued, and peer 1 can still answer the first. -/
theorem two_requests_pending :
    (Lib.run (step view) (fun _ _ => true) (new 0 Hash.zero)
        [.beginHeadersRequest (peer 1) 100, .updatePeerHeightFor (peer 2) 7,
          .beginHeadersRequest (peer 2) 110]).any
      (fun s => decide (s.pendingHeaderNonces.keys = {1, 2} ∧ s.headersRequestTime = some 110 ∧
        (s.validateHeaderNonce 1 (peer 1)).1 = true)) = true ∧
    (Lib.run (step view) (fun _ _ => true) (new 0 Hash.zero)
        [.beginHeadersRequest (peer 1) 100, .updatePeerHeightFor (peer 2) 7]).any
      (fun s => decide (s.pendingHeaderNonces.keys = {1} ∧ s.headersRequestTime = none)) = true := by
  decide +kernel

end Rearmed

end ChainSync

end Coincync
