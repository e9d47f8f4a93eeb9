/-
# The claims of cumulative work

A node is behind on work when some peer claims more than it has.  `best_known_difficulty` caches the
largest claim, and `peer_difficulty_seen_at` dates the claims so that they can expire; both have to
follow the table of claims through every operation.
-/
import Coincync.Network.Frames

namespace Coincync

open Lib Finset Map

/-! ## 1. The four fields -/

/-- The claims of the peers, when they were made, the cached maximum and the node's own work. -/
structure WorkView where
  claims : Map PeerId Nat
  seenAt : Map PeerId Nat
  best : Nat
  ownWork : Nat

namespace WorkView

variable (w : WorkView)

/-- Derive the maximum again. -/
def recompute : WorkView := { w with best := max w.ownWork (Map.peak w.claims) }

/-- Keep the claims, and the dates, of some peers only. -/
def restrict (keep : PeerId → Bool) : WorkView :=
  { w with
    claims := Map.retain (fun p _ => keep p) w.claims
    seenAt := Map.retain (fun p _ => keep p) w.seenAt }

/-- Drop a claim with its date. -/
def drop (peer : PeerId) : WorkView :=
  { w with claims := w.claims.erase peer, seenAt := w.seenAt.erase peer }

/-- Record a claim with its date. -/
def claim (peer : PeerId) (d now : Nat) : WorkView :=
  { w with claims := w.claims.insert peer d, seenAt := w.seenAt.insert peer now }

/-- The node's own work changes; claims that are not above it go, and then dates without a claim. -/
def setOwn (d : Nat) : WorkView :=
  let live := Map.retain (fun _ d' => decide (d < d')) w.claims
  { w with
    ownWork := d
    claims := live
    seenAt := Map.retain (fun p _ => decide (p ∈ live.keys)) w.seenAt }

/-- **The table of claims is tracked**: the maximum is that of the table, and the dates are those of
the claims in it. -/
structure Tracked (w : WorkView) : Prop where
  best_eq : w.best = max w.ownWork (Map.peak w.claims)
  keys_eq : w.seenAt.keys = w.claims.keys

/-- Only claims above the node's own work are kept. -/
def Above (w : WorkView) : Prop := ∀ p d, w.claims.lookup p = some d → w.ownWork < d

variable {w} {keep : PeerId → Bool} {peer : PeerId} {d now : Nat}

theorem tracked_recompute_iff : w.recompute.Tracked ↔ w.seenAt.keys = w.claims.keys :=
  ⟨fun h => h.keys_eq, fun h => ⟨rfl, h⟩⟩

section

variable (h : w.seenAt.keys = w.claims.keys)

include h

theorem keys_restrict : (w.restrict keep).seenAt.keys = (w.restrict keep).claims.keys := by
  ext p
  have hp : p ∈ w.seenAt.keys ↔ p ∈ w.claims.keys := by rw [h]
  rw [mem_keys_iff, mem_keys_iff] at hp
  simp only [restrict, mem_keys_retain, exists_and_right, hp]

theorem keys_drop : (w.drop peer).seenAt.keys = (w.drop peer).claims.keys := by
  simp only [drop, keys_erase_eq, h]

theorem keys_setOwn : (w.setOwn d).seenAt.keys = (w.setOwn d).claims.keys := by
  ext p
  simp only [setOwn, mem_keys_retain, exists_and_right, decide_eq_true_eq]
  refine and_iff_right_of_imp ?_
  rintro ⟨d', hd', -⟩
  rw [← mem_keys_iff, h, mem_keys_iff]
  exact ⟨d', hd'⟩

end

theorem restrict_eq_self (h : ∀ p, keep p = true) : w.restrict keep = w := by
  rw [restrict, retain_eq_self fun p _ _ => h p, retain_eq_self fun p _ _ => h p]

theorem Above.restrict (h : w.Above) : (w.restrict keep).Above := by
  intro p d hd
  rw [WorkView.restrict, lookup_retain, Option.filter_eq_some_iff] at hd
  exact h p d hd.1

theorem Above.erase (h : w.Above) :
    ({ w with claims := w.claims.erase peer } : WorkView).Above := by
  intro p d hd
  rw [lookup_erase_ite] at hd
  split_ifs at hd
  exact h p d hd

theorem Above.claim (h : w.Above) (hd : w.ownWork < d) : (w.claim peer d now).Above := by
  intro p d' hd'
  rw [WorkView.claim, lookup_insert_ite] at hd'
  split_ifs at hd'
  · exact Option.some.inj hd' ▸ hd
  · exact h p d' hd'

theorem above_setOwn : (w.setOwn d).Above := by
  intro p d' hd'
  rw [setOwn, lookup_retain, Option.filter_eq_some_iff] at hd'
  exact of_decide_eq_true hd'.2

/-- **With no claim left the maximum is the node's own work**; a claim that was there kept it
above. -/
theorem Tracked.best_ne (h : w.Tracked) (habove : w.Above) (hne : w.claims.keys ≠ ∅) :
    w.best ≠ w.ownWork := by
  obtain ⟨p, hp⟩ := exists_peak hne
  have hlt := habove p _ hp
  rw [h.best_eq]
  omega

end WorkView

/-! ## 2. What the operations do to them -/

namespace ChainSync

variable {B : Type} (s : ChainSync B)

/-- The four fields of a state. -/
def work : WorkView :=
  ⟨s.peerDifficulties, s.peerDifficultySeenAt, s.bestKnownDifficulty, s.localTotalDifficulty⟩

/-- The four fields after an operation. -/
def workAfter : SyncOp B → WorkView
  | .updatePeerDifficultyFor peer d now =>
    if s.claimCap < d then s.work
    else if d ≤ s.localTotalDifficulty then (s.work.drop peer).recompute
    else (s.work.claim peer d now).recompute
  | .setLocalTotalDifficulty d => (s.work.setOwn d).recompute
  | .removePeerHeight peer => (s.work.drop peer).recompute
  | .retainConnectedPeers connected =>
    let w := s.work.restrict fun p => decide (p ∈ connected)
    if (∃ p ∈ s.peerHeights.keys, p ∉ connected) ∨ w.claims.keys ≠ ∅ then w.recompute else w
  | .expireStaleWorkClaims now ttl =>
    let stale := s.peerDifficultySeenAt.keys.filter fun p =>
      (s.peerDifficultySeenAt.lookup p).any fun seen => decide (seen < now - ttl)
    let w := s.work.restrict fun p => decide (p ∉ stale)
    if stale = ∅ then w else w.recompute
  | .onTimeout hash _ =>
    match s.pendingRequests.lookup hash with
    | none => s.work
    | some req =>
      if 3 ≤ (s.peerFailures.lookup req.requestedFrom).getD 0 + 1 then
        (s.work.drop req.requestedFrom).recompute
      else s.work
  | .onPeerDisconnected peer _ _ =>
    ({ s.work with claims := s.work.claims.erase peer } : WorkView).recompute
  | _ => s.work

theorem pruned_pos_iff (m : Map PeerId Nat) (connected : Finset PeerId) :
    0 < m.keys.card - (Map.retain (fun p _ => decide (p ∈ connected)) m).keys.card ↔
      ∃ p ∈ m.keys, p ∉ connected := by
  have hkeys : (Map.retain (fun p _ => decide (p ∈ connected)) m).keys =
      m.keys.filter fun p => p ∈ connected := by
    ext p
    simp only [mem_keys_retain, decide_eq_true_eq, exists_and_right, ← mem_keys_iff, mem_filter]
  rw [hkeys, ← card_filter_add_card_filter_not (s := m.keys) fun p => p ∈ connected,
    Nat.add_sub_cancel_left, card_pos]
  simp only [Finset.Nonempty, mem_filter]

theorem work_onTimeout (hash : Hash) (now : Nat) :
    (s.onTimeout hash now).work = s.workAfter (.onTimeout hash now) := by
  simp only [onTimeout, workAfter]
  cases s.pendingRequests.lookup hash with
  | none => rfl
  | some req =>
    simp only
    split_ifs
    · rfl
    · rfl

/-- **What an operation does to the four fields.** -/
theorem step_work (V : BlockView B) {s s' : ChainSync B} {op : SyncOp B}
    (h : s.step V op = some s') : s'.work = s.workAfter op := by
  cases op with
  | updatePeerDifficultyFor peer d now =>
    cases h
    simp only [updatePeerDifficultyFor, workAfter]
    split_ifs <;> rfl
  | setLocalTotalDifficulty | removePeerHeight | cleanupSyncBans =>
    cases h
    rfl
  | retainConnectedPeers connected =>
    cases h
    simp only [retainConnectedPeers, workAfter, pruned_pos_iff]
    split_ifs <;> first | rfl | contradiction
  | expireStaleWorkClaims now ttl =>
    cases h
    simp only [expireStaleWorkClaims, workAfter]
    split_ifs <;> rfl
  | onTimeout hash now =>
    cases h
    exact s.work_onTimeout hash now
  | onPeerDisconnected peer now order =>
    rw [← (guarded_eq_some_iff.mp h).2]
    exact (view_eq_of_blank work
      ((sansFetch_leaveSynced _ _ _).trans (sansFetch_requeueAll _ _))).trans rfl
  | _ => exact view_eq_of_blank work (step_standing rfl h)

/-! ## 3. Runs -/

/-- **The claims are tracked**: `best_known_difficulty` is the larger of the node's own work and the
largest recorded claim, and `peer_difficulty_seen_at` has the peers of `peer_difficulties`. -/
def TracksClaims (s : ChainSync B) : Prop :=
  s.bestKnownDifficulty = max s.localTotalDifficulty (Map.peak s.peerDifficulties) ∧
    s.peerDifficultySeenAt.keys = s.peerDifficulties.keys

/-- **The condition on an operation.**  A peer that is disconnected has no dated claim; and peers are
not retained in such a way that every claim is dropped and no height. -/
def Tidy (s : ChainSync B) : SyncOp B → Prop
  | .onPeerDisconnected peer _ _ => peer ∉ s.peerDifficultySeenAt.keys
  | .retainConnectedPeers connected =>
    s.peerDifficulties.keys = ∅ ∨ (∃ p ∈ s.peerHeights.keys, p ∉ connected) ∨
      ∃ p ∈ s.peerDifficulties.keys, p ∈ connected
  | _ => True

theorem tracksClaims_iff : s.TracksClaims ↔ s.work.Tracked :=
  ⟨fun h => ⟨h.1, h.2⟩, fun h => ⟨h.best_eq, h.keys_eq⟩⟩

variable {s} {connected : Finset PeerId}

theorem restrict_keys_ne_empty_iff :
    ((s.work.restrict fun p => decide (p ∈ connected)).claims.keys ≠ ∅) ↔
      ∃ p ∈ s.peerDifficulties.keys, p ∈ connected := by
  rw [← nonempty_iff_ne_empty, Finset.Nonempty]
  simp only [WorkView.restrict, work, mem_keys_retain, decide_eq_true_eq, exists_and_right,
    ← mem_keys_iff]

theorem tracked_restrict_iff (h : s.work.Tracked) (habove : s.work.Above) :
    (s.workAfter (.retainConnectedPeers connected)).Tracked ↔
      s.Tidy (.retainConnectedPeers connected) := by
  have hkeys : (s.work.restrict fun p => decide (p ∈ connected)).seenAt.keys =
      (s.work.restrict fun p => decide (p ∈ connected)).claims.keys :=
    WorkView.keys_restrict h.keys_eq
  simp only [workAfter, restrict_keys_ne_empty_iff, Tidy]
  by_cases hrecompute : (∃ p ∈ s.peerHeights.keys, p ∉ connected) ∨
      ∃ p ∈ s.peerDifficulties.keys, p ∈ connected
  · rw [if_pos hrecompute, WorkView.tracked_recompute_iff]
    exact ⟨fun _ => .inr hrecompute, fun _ => hkeys⟩
  · rw [if_neg hrecompute]
    have hgone : (s.work.restrict fun p => decide (p ∈ connected)).claims.keys = ∅ := by
      by_contra hne
      exact hrecompute (.inr (restrict_keys_ne_empty_iff.mp hne))
    constructor
    · intro htracked
      refine .inl (by_contra fun hne => h.best_ne habove hne ?_)
      have hbest := htracked.best_eq
      rw [peak_of_keys_eq_empty hgone, Nat.max_zero] at hbest
      exact hbest
    · intro htidy
      have hempty : s.work.claims.keys = ∅ := htidy.resolve_right hrecompute
      refine ⟨?_, hkeys⟩
      have hbest := h.best_eq
      rw [peak_of_keys_eq_empty hempty] at hbest
      rw [peak_of_keys_eq_empty hgone]
      exact hbest

theorem tracked_disconnect_iff (h : s.work.Tracked) {peer : PeerId} {now : Nat}
    {order : List Hash} :
    (s.workAfter (.onPeerDisconnected peer now order)).Tracked ↔
      s.Tidy (.onPeerDisconnected peer now order) := by
  simp only [workAfter, WorkView.tracked_recompute_iff, Tidy, keys_erase_eq, h.keys_eq]
  rw [show s.peerDifficultySeenAt.keys = s.work.claims.keys from h.keys_eq, eq_comm, erase_eq_self]

/-- **An operation keeps the claims tracked exactly if it is tidy.** -/
theorem tracked_workAfter_iff (h : s.work.Tracked) (habove : s.work.Above) (op : SyncOp B) :
    (s.workAfter op).Tracked ↔ s.Tidy op := by
  cases op with
  | onPeerDisconnected peer now order => exact tracked_disconnect_iff h
  | retainConnectedPeers connected => exact tracked_restrict_iff h habove
  | updatePeerDifficultyFor peer d now =>
    refine iff_of_true ?_ trivial
    simp only [workAfter]
    split_ifs
    · exact h
    · exact WorkView.tracked_recompute_iff.mpr (WorkView.keys_drop h.keys_eq)
    · exact WorkView.tracked_recompute_iff.mpr (by simp only [WorkView.claim,
        keys_insert_eq, h.keys_eq])
  | setLocalTotalDifficulty d =>
    exact iff_of_true (WorkView.tracked_recompute_iff.mpr (WorkView.keys_setOwn h.keys_eq)) trivial
  | removePeerHeight peer =>
    exact iff_of_true (WorkView.tracked_recompute_iff.mpr (WorkView.keys_drop h.keys_eq)) trivial
  | expireStaleWorkClaims now ttl =>
    refine iff_of_true ?_ trivial
    simp only [workAfter]
    split_ifs with hnone
    · rw [WorkView.restrict_eq_self fun p => by simp only [hnone, notMem_empty,
        not_false_eq_true, decide_true]]
      exact h
    · exact WorkView.tracked_recompute_iff.mpr (WorkView.keys_restrict h.keys_eq)
  | onTimeout hash now =>
    refine iff_of_true ?_ trivial
    simp only [workAfter]
    split
    · exact h
    · split_ifs
      · exact WorkView.tracked_recompute_iff.mpr (WorkView.keys_drop h.keys_eq)
      · exact h
  | _ => exact iff_of_true h trivial

/-- **Claims at or below the node's own work are dropped**, whatever the operation. -/
theorem above_workAfter (h : s.work.Above) (op : SyncOp B) : (s.workAfter op).Above := by
  cases op with
  | updatePeerDifficultyFor peer d now =>
    simp only [workAfter]
    split_ifs with hcap hown
    · exact h
    · exact h.erase
    · have hclaim : (s.work.claim peer d now).Above := h.claim (lt_of_not_ge hown)
      exact hclaim
  | setLocalTotalDifficulty d => exact WorkView.above_setOwn
  | removePeerHeight peer => exact h.erase
  | retainConnectedPeers connected =>
    simp only [workAfter]
    split_ifs
    · exact h.restrict
    · exact h.restrict
  | expireStaleWorkClaims now ttl =>
    simp only [workAfter]
    split_ifs
    · exact h.restrict
    · exact h.restrict
  | onTimeout hash now =>
    simp only [workAfter]
    split
    · exact h
    · split_ifs
      · exact h.erase
      · exact h
  | onPeerDisconnected peer now order => exact h.erase
  | _ => exact h

theorem tracked_of_reaches {V : BlockView B} {localHeight : Nat} {tip : Hash} {s : ChainSync B}
    (h : Reaches (step V) Tidy (new localHeight tip) s) : s.work.Tracked ∧ s.work.Above := by
  have hpeak : Map.peak (∅ : Map PeerId Nat) = 0 := peak_of_keys_eq_empty Finmap.keys_empty
  have hnone : ∀ (p : PeerId) (d : Nat), (∅ : Map PeerId Nat).lookup p ≠ some d := by
    intro p d hd
    rw [Finmap.lookup_empty] at hd
    cases hd
  have hstart : (new localHeight tip : ChainSync B).work.Tracked := by
    refine ⟨?_, rfl⟩
    change 0 = max 0 (Map.peak (∅ : Map PeerId Nat))
    rw [hpeak, Nat.max_zero]
  refine h.invariant (I := fun s => s.work.Tracked ∧ s.work.Above)
    ⟨hstart, fun p d hd => absurd hd (hnone p d)⟩ ?_
  rintro s op s' ⟨htracked, habove⟩ htidy hstep
  rw [step_work V hstep]
  exact ⟨(tracked_workAfter_iff htracked habove op).mpr htidy, above_workAfter habove op⟩

/-- **In every run of tidy operations the claims stay tracked**, so a node counts as behind on work
only while some recorded claim is above its own work; and the next operation keeps them tracked
exactly if it is tidy. -/
theorem tidy_runs_track (V : BlockView B) {localHeight : Nat} {tip : Hash} {s : ChainSync B}
    (hrun : Reaches (step V) Tidy (new localHeight tip) s) :
    s.TracksClaims ∧
      (s.localTotalDifficulty < s.bestKnownDifficulty ↔
        ∃ p d, s.peerDifficulties.lookup p = some d ∧ s.localTotalDifficulty < d) ∧
      ∀ op s', s.step V op = some s' → (s'.TracksClaims ↔ s.Tidy op) := by
  obtain ⟨htracked, habove⟩ := tracked_of_reaches hrun
  refine ⟨s.tracksClaims_iff.mpr htracked, ⟨fun hbehind => ?_, ?_⟩, ?_⟩
  · have hbest : s.bestKnownDifficulty = max s.localTotalDifficulty (Map.peak s.peerDifficulties) :=
      htracked.best_eq
    have hne : s.peerDifficulties.keys ≠ ∅ := by
      intro hempty
      rw [hbest, peak_of_keys_eq_empty hempty] at hbehind
      omega
    obtain ⟨p, hp⟩ := exists_peak hne
    exact ⟨p, _, hp, habove p _ hp⟩
  · rintro ⟨p, d, hd, hlt⟩
    rw [show s.bestKnownDifficulty = max s.localTotalDifficulty (Map.peak s.peerDifficulties) from
      htracked.best_eq]
    exact lt_max_of_lt_right (hlt.trans_le (le_peak hd))
  · intro op s' hstep
    rw [tracksClaims_iff, step_work V hstep]
    exact tracked_workAfter_iff htracked habove op

/-! ## 4. Departures -/

namespace Departure

open SmallSync

def tidyTest (s : ChainSync Unit) : SyncOp Unit → Bool
  | .setLocalTotalDifficulty _ => true
  | .updatePeerDifficultyFor _ _ _ => true
  | .expireStaleWorkClaims _ _ => true
  | .retainConnectedPeers connected =>
    decide ((s.peerDifficulties.keys.filter fun p => p ∈ connected).card ≠ 0)
  | _ => false

theorem tidy_of_tidyTest (s : ChainSync Unit) (op : SyncOp Unit) (h : tidyTest s op = true) :
    s.Tidy op := by
  cases op with
  | setLocalTotalDifficulty d => trivial
  | updatePeerDifficultyFor p d now => trivial
  | expireStaleWorkClaims now ttl => trivial
  | retainConnectedPeers connected =>
    obtain ⟨p, hp⟩ := card_ne_zero.mp (of_decide_eq_true h)
    exact .inr (.inr ⟨p, mem_filter.mp hp⟩)
  | _ => cases h

def ops : List (SyncOp Unit) :=
  [.setLocalTotalDifficulty 5, .updatePeerDifficultyFor (peer 1) 10 100,
    .updatePeerDifficultyFor (peer 2) 20 200, .retainConnectedPeers {peer 1},
    .expireStaleWorkClaims 1000 600]

/-- The node is level with its own work again and its claims are tracked. -/
theorem claims_expire : ∃ s : ChainSync Unit, Reaches (step view) Tidy (new 0 Hash.zero) s ∧
    s.bestKnownDifficulty = 5 ∧ s.TracksClaims := by
  have hrun : (Lib.run (step view) tidyTest (new 0 Hash.zero) ops).any
      (fun s => decide (s.bestKnownDifficulty = 5)) = true := by
    decide +kernel
  obtain ⟨s, hreach, hbest⟩ := Reaches.exists_of_run tidy_of_tidyTest hrun
  exact ⟨s, hreach, of_decide_eq_true hbest, (tidy_runs_track view hreach).1⟩

/-- **A claim outlives its peer.**  The only claim is dropped with its peer and the maximum stays;
and a peer that disconnects leaves the date of its claim behind. -/
theorem departed_claims_linger :
    (Lib.run (step view) (fun _ _ => true) (new 0 Hash.zero)
        [.updatePeerDifficultyFor (peer 1) 10 100, .retainConnectedPeers ∅]).any
      (fun s => decide (s.peerDifficulties.keys.card = 0 ∧ s.localTotalDifficulty = 0 ∧
        s.bestKnownDifficulty = 10)) = true ∧
    (Lib.run (step view) (fun _ _ => true) (new 0 Hash.zero)
        [.updatePeerDifficultyFor (peer 1) 10 100, .onPeerDisconnected (peer 1) 100 []]).any
      (fun s => decide (s.peerDifficulties.keys.card = 0 ∧
        s.peerDifficultySeenAt.keys.card = 1)) = true := by
  decide +kernel

end Departure

end ChainSync

end Coincync
