/-
# Bans from block sync

`on_timeout` bans a peer for five minutes at its third failure, `is_sync_banned` reads the ban, and
the maintenance tick sweeps the table with `cleanup_sync_bans`.
-/
import Coincync.Network.WorkClaims

namespace Coincync

open Lib

namespace ChainSync

variable {B : Type} (s : ChainSync B)

/-! ## 1. What the operations do to the bans -/

/-- A timeout of this request would be the third failure of the peer it went to. -/
def lastChance (hash : Hash) (peer : PeerId) : Bool :=
  (s.pendingRequests.lookup hash).any fun req =>
    decide (req.requestedFrom = peer ∧ 3 ≤ (s.peerFailures.lookup peer).getD 0 + 1)

theorem lookup_onTimeout (hash : Hash) (now : Nat) (peer : PeerId) :
    (s.onTimeout hash now).syncBannedPeers.lookup peer =
      if s.lastChance hash peer = true then some (now + 300)
      else s.syncBannedPeers.lookup peer := by
  cases hreq : s.pendingRequests.lookup hash with
  | none =>
    simp only [onTimeout, lastChance, hreq]
    rfl
  | some req =>
    simp only [onTimeout, lastChance, hreq, Option.any_some, decide_eq_true_eq]
    split_ifs with hthird hmeant hmeant
    · obtain ⟨rfl, -⟩ := hmeant
      exact Finmap.lookup_insert _
    · have hother : req.requestedFrom ≠ peer := by
        rintro rfl
        exact hmeant ⟨rfl, hthird⟩
      exact Finmap.lookup_insert_of_ne _ hother.symm
    · obtain ⟨rfl, hmeant⟩ := hmeant
      exact absurd hmeant hthird
    · rfl

theorem syncBannedPeers_step {V : BlockView B} {s s' : ChainSync B} {op : SyncOp B}
    (htimeout : ∀ hash now, op ≠ .onTimeout hash now) (hsweep : ∀ now, op ≠ .cleanupSyncBans now)
    (h : s.step V op = some s') : s'.syncBannedPeers = s.syncBannedPeers := by
  cases op with
  | onTimeout hash now => exact absurd rfl (htimeout hash now)
  | cleanupSyncBans now => exact absurd rfl (hsweep now)
  | updatePeerDifficultyFor | retainConnectedPeers | expireStaleWorkClaims =>
    cases h
    simp only [updatePeerDifficultyFor, retainConnectedPeers, expireStaleWorkClaims]
    split_ifs <;> rfl
  | setLocalTotalDifficulty | removePeerHeight =>
    cases h
    rfl
  | onPeerDisconnected peer now order =>
    rw [← (guarded_eq_some_iff.mp h).2]
    exact (view_eq_of_blank syncBannedPeers
      ((sansFetch_leaveSynced _ _ _).trans (sansFetch_requeueAll _ _))).trans rfl
  | _ => exact view_eq_of_blank syncBannedPeers (step_standing rfl h)

/-! ## 2. How long a ban lasts -/

/-- No sweep runs, and no timeout comes from a clock behind `t`. -/
def Unswept (t : Nat) (_ : ChainSync B) : SyncOp B → Prop
  | .cleanupSyncBans _ => False
  | .onTimeout _ now => t ≤ now
  | _ => True

/-- **A ban lasts its five minutes** under any operations but a sweep. -/
theorem ban_lasts_unswept (V : BlockView B) {s s₁ s₂ : ChainSync B} {hash : Hash} {peer : PeerId}
    {t : Nat} (hthird : s.lastChance hash peer = true)
    (hban : s.step V (.onTimeout hash t) = some s₁) (hrun : Reaches (step V) (Unswept t) s₁ s₂) :
    (∀ n, t ≤ n → n < t + 300 → s₂.isSyncBanned peer n = true) ∧
      (∀ now n, now ≤ n → ∀ p, (s₂.cleanupSyncBans now).isSyncBanned p n = false) ∧
      ∀ now, (∀ p e, (s₂.cleanupSyncBans now).syncBannedPeers.lookup p = some e → now < e) ↔
        ∀ p e, s₂.syncBannedPeers.lookup p = some e → now < e := by
  have hkept : ∀ now p e, (s₂.cleanupSyncBans now).syncBannedPeers.lookup p = some e ↔
      s₂.syncBannedPeers.lookup p = some e ∧ e ≤ now := by
    intro now p e
    simp [cleanupSyncBans, Map.lookup_retain, Option.filter_eq_some_iff]
  have hlasts : ∃ e, s₂.syncBannedPeers.lookup peer = some e ∧ t + 300 ≤ e := by
    refine hrun.invariant (I := fun s => ∃ e, s.syncBannedPeers.lookup peer = some e ∧ t + 300 ≤ e)
      ?_ ?_
    · cases hban
      exact ⟨t + 300, by rw [lookup_onTimeout, if_pos hthird], le_rfl⟩
    · rintro s op s' ⟨e, he, hlate⟩ hop hstep
      by_cases htimeout : ∃ hash now, op = .onTimeout hash now
      · obtain ⟨hash, now, rfl⟩ := htimeout
        cases hstep
        have hnow : t ≤ now := hop
        rw [lookup_onTimeout]
        split_ifs
        · exact ⟨now + 300, rfl, by omega⟩
        · exact ⟨e, he, hlate⟩
      · push Not at htimeout
        have hsweep : ∀ now, op ≠ .cleanupSyncBans now := by
          rintro now rfl
          exact hop
        exact ⟨e, by rw [syncBannedPeers_step htimeout hsweep hstep, he], hlate⟩
  refine ⟨fun n _ hn => ?_, fun now n hle p => ?_, fun now => forall₂_congr fun p e => ?_⟩
  · obtain ⟨e, he, hlate⟩ := hlasts
    simp only [isSyncBanned, he, Option.any_some, decide_eq_true_eq]
    omega
  · rw [isSyncBanned, Option.any_eq_false]
    intro e he
    have hexpired := ((hkept now p e).mp he).2
    exact decide_eq_false (by omega)
  · rw [hkept]
    refine ⟨fun hlive he => not_le.mp fun hle => ?_, fun hlive he => hlive he.1⟩
    exact absurd (hlive ⟨he, hle⟩) (not_lt.mpr hle)

namespace Sweep

open Departure SmallSync

/-- Three requests to one peer time out at 100. -/
def timeouts : List (SyncOp Unit) :=
  let hashes : List Hash := [1, 2, 3].map fun n => ⟨FixedBytes.replicate 32 n⟩
  hashes.map (.recordRequest · (peer 1) 0 Hash.zero) ++ hashes.map (.onTimeout · 100)

/-- The state before the last of them. -/
def failing : ChainSync Unit :=
  (Lib.run (step view) (fun _ _ => true) (new 0 Hash.zero) timeouts.dropLast).getD (new 0 Hash.zero)

/-- Just after the third timeout the ban is good for 300 seconds. -/
theorem third_timeout_bans :
    (failing.onTimeout ⟨FixedBytes.replicate 32 3⟩ 100).isSyncBanned (peer 1) 399 = true :=
  (ban_lasts_unswept view (by decide +kernel) rfl .start).1 399 (by decide) (by decide)

/-- **The sweep lifts the ban at once**, and one at its expiry keeps it. -/
theorem sweep_lifts_ban :
    (Lib.run (step view) (fun _ _ => true) (new 0 Hash.zero) timeouts).any
        (fun s => s.isSyncBanned (peer 1) 100 &&
          !(s.cleanupSyncBans 100).isSyncBanned (peer 1) 100 &&
          decide ((s.cleanupSyncBans 400).syncBannedPeers.lookup (peer 1) = some 400)) = true := by
  decide +kernel

end Sweep

end ChainSync

end Coincync
