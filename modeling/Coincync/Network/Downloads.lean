/-
# The header queue and the blocks in flight

Six collections of `ChainSync` say which blocks are still to be fetched.  Three are about the blocks
in flight (`Flight`): the requests, the downloads and when each download began.  Three are about the
queue (`Attribution`): its hashes, the peer that each hash is put down to, and how many are put down
to each peer, which is what the cap on a peer's share is tested against.
-/
import Coincync.Network.Frames

namespace Coincync

open Lib List Option Finset Map

variable {hash : Hash} {added : Nat}

/-! ## 1. Blocks in flight -/

/-- The requests, the downloads, and when each download began. -/
structure Flight where
  requests : Map Hash BlockRequest
  downloading : Finset Hash
  stamps : Map Hash Nat

namespace Flight

variable {f : Flight}

/-- **The three are in step**: every download has its time, every request is for a download. -/
structure InStep (f : Flight) : Prop where
  stamped : f.stamps.keys = f.downloading
  requested : f.requests.keys ⊆ f.downloading

/-- Forget a download. -/
def dropDownload (f : Flight) (hash : Hash) : Flight :=
  { f with downloading := f.downloading.erase hash, stamps := f.stamps.erase hash }

/-- Forget a request with its download. -/
def drop (f : Flight) (hash : Hash) : Flight :=
  { f.dropDownload hash with requests := f.requests.erase hash }

theorem InStep.dropDownload (h : f.InStep) (hnone : hash ∉ f.requests.keys) :
    (f.dropDownload hash).InStep := by
  refine ⟨?_, fun x hx => ?_⟩
  · simp only [Flight.dropDownload, keys_erase_eq, h.stamped]
  · have hne : x ≠ hash := by
      rintro rfl
      exact hnone hx
    exact mem_erase.mpr ⟨hne, h.requested hx⟩

theorem InStep.drop (h : f.InStep) (hash : Hash) : (f.drop hash).InStep := by
  refine ⟨?_, fun x hx => ?_⟩
  · simp only [Flight.drop, Flight.dropDownload, keys_erase_eq, h.stamped]
  · simp only [Flight.drop, keys_erase_eq, mem_erase] at hx
    exact mem_erase.mpr ⟨hx.1, h.requested hx.2⟩

theorem InStep.start (h : f.InStep) (hash : Hash) (now : Nat) :
    ({ f with downloading := insert hash f.downloading
              stamps := f.stamps.insert hash now } : Flight).InStep := by
  refine ⟨?_, fun x hx => Finset.mem_insert_of_mem (h.requested hx)⟩
  simp only [keys_insert_eq, h.stamped]

theorem InStep.record (h : f.InStep) (hash : Hash) (request : BlockRequest) (ts : Nat) :
    ({ requests := f.requests.insert hash request
       downloading := insert hash f.downloading
       stamps := Map.orInsert f.stamps hash ts } : Flight).InStep := by
  refine ⟨?_, ?_⟩
  · ext x
    have hx : x ∈ f.stamps.keys ↔ x ∈ f.downloading := by rw [h.stamped]
    rw [mem_keys_iff] at hx
    simp only [mem_keys_iff, lookup_orInsert, mem_insert, ← hx]
    by_cases heq : x = hash
    · simp [heq]
    · simp [heq]
  · simp only [keys_insert_eq]
    exact insert_subset_insert _ h.requested

end Flight

/-! ## 2. Whose headers are in the queue -/

/-- The queue, the peer each hash is put down to, and how many are put down to each peer. -/
structure Attribution where
  headers : List Hash
  peerOf : Map Hash PeerId
  counts : Map PeerId Nat

namespace Attribution

variable {a : Attribution} {p q : PeerId}

/-- The hashes that are put down to the peer. -/
def share (a : Attribution) (p : PeerId) : Nat := Map.count (fun q => decide (q = p)) a.peerOf

/-- The recorded number of them; no entry means none. -/
def recorded (a : Attribution) (p : PeerId) : Nat := (a.counts.lookup p).getD 0

/-- **The attribution is exact while `added` more of one peer's hashes are still to be recorded**:
the records are right and within the cap, and a hash that is put down to a peer is in the queue. -/
structure Owing (a : Attribution) (p : PeerId) (added : Nat) : Prop where
  counted : ∀ q, a.recorded q + (if q = p then added else 0) = a.share q
  capped : ∀ q, a.recorded q ≤ maxHeadersPerPeer
  queued : ∀ hash ∈ a.peerOf.keys, hash ∈ a.headers

/-- **The attribution is exact.** -/
structure Exact (a : Attribution) : Prop where
  counted : ∀ q, a.recorded q = a.share q
  capped : ∀ q, a.recorded q ≤ maxHeadersPerPeer
  queued : ∀ hash ∈ a.peerOf.keys, hash ∈ a.headers

theorem Exact.owing (h : a.Exact) (p : PeerId) : a.Owing p 0 := by
  refine ⟨fun q => ?_, h.capped, h.queued⟩
  rw [ite_self]
  exact h.counted q

theorem Owing.exact (h : a.Owing p 0) : a.Exact := by
  refine ⟨fun q => ?_, h.capped, h.queued⟩
  have hq := h.counted q
  rwa [ite_self] at hq

theorem Exact.mono (h : a.Exact) {headers : List Hash} (hsub : ∀ x ∈ a.headers, x ∈ headers) :
    ({ a with headers := headers } : Attribution).Exact :=
  ⟨h.counted, h.capped, fun hash hmem => hsub hash (h.queued hash hmem)⟩

theorem exact_nil : (⟨[], ∅, ∅⟩ : Attribution).Exact := by
  refine ⟨fun q => ?_, fun q => ?_, fun hash hmem => ?_⟩
  · simp only [recorded, share, count_empty, Finmap.lookup_empty, getD_none]
  · simp only [recorded, Finmap.lookup_empty, getD_none, zero_le]
  · rw [Finmap.keys_empty] at hmem
    cases hmem

theorem share_insert_of_new (hnew : hash ∉ a.peerOf.keys) :
    Map.count (fun r => decide (r = q)) (a.peerOf.insert hash p) =
      a.share q + if q = p then 1 else 0 := by
  have hnone : a.peerOf.lookup hash = none := by
    rw [mem_keys_iff, not_exists] at hnew
    exact eq_none_iff_forall_ne_some.mpr hnew
  rw [count_insert_of_new hnone]
  simp only [decide_eq_true_eq, share, eq_comm (a := p)]

theorem Owing.push (h : a.Owing p added) (hnew : hash ∉ a.peerOf.keys) :
    ({ a with headers := a.headers ++ [hash]
              peerOf := a.peerOf.insert hash p } : Attribution).Owing p (added + 1) := by
  refine ⟨fun q => ?_, h.capped, fun x hx => ?_⟩
  · have hq := h.counted q
    change a.recorded q + _ = Map.count _ (a.peerOf.insert hash p)
    rw [share_insert_of_new hnew, ← hq]
    split_ifs <;> omega
  · rw [keys_insert_eq, mem_insert] at hx
    rcases hx with rfl | hx
    · exact mem_append_right _ (.head _)
    · exact mem_append_left _ (h.queued x hx)

theorem Owing.settle (h : a.Owing p added) (hroom : added ≤ maxHeadersPerPeer - a.recorded p) :
    ({ a with counts := a.counts.insert p (a.recorded p + added) } : Attribution).Exact := by
  have hrecorded : ∀ q, ((a.counts.insert p (a.recorded p + added)).lookup q).getD 0 =
      a.recorded q + if q = p then added else 0 := by
    intro q
    rw [lookup_insert_ite]
    by_cases hq : q = p
    · simp [hq]
    · simp [hq, recorded]
  refine ⟨fun q => (hrecorded q).trans (h.counted q), fun q => ?_, h.queued⟩
  have hcap := h.capped q
  refine (hrecorded q).trans_le ?_
  split_ifs with hq
  · subst hq
    omega
  · exact hcap

end Attribution

/-! ## 3. Every operation keeps them in step -/

namespace ChainSync

variable {B : Type} {s s' : ChainSync B}

/-- The blocks in flight. -/
def flight (s : ChainSync B) : Flight := ⟨s.pendingRequests, s.downloading, s.downloadTimestamps⟩

/-- The queue and whose headers are in it. -/
def attribution (s : ChainSync B) : Attribution :=
  ⟨s.pendingHeaders, s.pendingHeaderPeer, s.headersPerPeer⟩

/-- **The six collections are in step.** -/
structure Accounted (s : ChainSync B) : Prop where
  inFlight : s.flight.InStep
  attributed : s.attribution.Exact

section

variable (h : s.Accounted)

include h

theorem Accounted.congr (hflight : s'.flight = s.flight)
    (hattribution : s'.attribution = s.attribution) : s'.Accounted := by
  refine ⟨?_, ?_⟩
  · rw [hflight]
    exact h.inFlight
  · rw [hattribution]
    exact h.attributed

theorem Accounted.of_sansOrphans (hsans : s'.sansOrphans = s.sansOrphans) : s'.Accounted :=
  h.congr (view_eq_of_blank flight hsans)
    (view_eq_of_blank attribution hsans)

theorem Accounted.pushFront (hflight : s'.flight.InStep)
    (hattribution : s'.attribution = (s.pushFront hash).attribution) : s'.Accounted := by
  refine ⟨hflight, ?_⟩
  rw [hattribution]
  exact h.attributed.mono fun x hx => .tail hash hx

theorem Accounted.requeueAll (hashes : List Hash) : (s.requeueAll hashes).Accounted := by
  induction hashes generalizing s with
  | nil => exact h
  | cons hash rest ih =>
    have hfirst : (s.requeue hash).Accounted := h.pushFront (h.inFlight.drop hash) rfl
    exact ih hfirst

theorem Accounted.requeueDownloads {hashes : List Hash}
    (hnone : ∀ hash ∈ hashes, hash ∉ s.pendingRequests.keys) :
    (s.requeueDownloads hashes).Accounted := by
  induction hashes generalizing s with
  | nil => exact h
  | cons hash rest ih =>
    have hfirst : ((s.dropDownload hash).pushFront hash).Accounted :=
      h.pushFront (h.inFlight.dropDownload (hnone hash (.head _))) rfl
    exact ih hfirst fun x hx => hnone x (.tail hash hx)

theorem Accounted.leaveSynced (now : Nat) (anyWork : Bool) :
    (s.leaveSynced now anyWork).Accounted := by
  unfold ChainSync.leaveSynced
  split
  · exact h.congr rfl rfl
  · exact h

end

theorem flight_untrackPendingHeader (s : ChainSync B) (hash : Hash) :
    (s.untrackPendingHeader hash).flight = s.flight := by
  unfold untrackPendingHeader
  split
  · rfl
  · simp only
    split
    · split <;> rfl
    · rfl

/-- **The head of the queue is taken off**, and with it what was put down to its peer. -/
theorem exact_untrackPendingHeader {rest : List Hash} (h : s.attribution.Exact)
    (hqueue : s.pendingHeaders = hash :: rest) :
    (({ s with pendingHeaders := rest } : ChainSync B).untrackPendingHeader
      hash).attribution.Exact := by
  -- every other hash is still in the queue
  have hrest : ∀ x ∈ s.pendingHeaderPeer.keys, x ≠ hash → x ∈ rest := by
    intro x hx hne
    have hmem : x ∈ s.pendingHeaders := h.queued x hx
    rw [hqueue, List.mem_cons] at hmem
    exact hmem.resolve_left hne
  cases hpeer : s.pendingHeaderPeer.lookup hash with
  | none =>
    have hnot : hash ∉ s.pendingHeaderPeer.keys := by
      rw [mem_keys_iff, hpeer]
      rintro ⟨peer, hsome⟩
      cases hsome
    simp only [untrackPendingHeader, hpeer]
    refine ⟨h.counted, h.capped, fun x hx => hrest x hx ?_⟩
    rintro rfl
    exact hnot hx
  | some peer =>
    have hone : 1 ≤ s.attribution.recorded peer := by
      rw [h.counted]
      exact Map.count_pos_iff.mpr ⟨hash, peer, hpeer, decide_eq_true rfl⟩
    have herase : ∀ x ∈ (s.pendingHeaderPeer.erase hash).keys, x ∈ rest := by
      intro x hx
      rw [keys_erase_eq, mem_erase] at hx
      exact hrest x hx.2 hx.1
    have hshare : ∀ q, Map.count (fun r => decide (r = q)) (s.pendingHeaderPeer.erase hash) +
        (if q = peer then 1 else 0) = s.attribution.recorded q := by
      intro q
      rw [h.counted]
      have hcount := count_erase_add (p := fun r => decide (r = q)) hpeer
      simp only [decide_eq_true_eq, eq_comm (a := peer)] at hcount
      exact hcount
    cases hcount : s.headersPerPeer.lookup peer with
    | none =>
      simp only [Attribution.recorded, attribution, hcount, getD_none] at hone
      omega
    | some count =>
      have hrecorded : s.attribution.recorded peer = count := by
        simp only [Attribution.recorded, attribution, hcount, getD_some]
      -- what is recorded afterwards, whichever way the entry is changed
      suffices hcounts : ∀ counts : Map PeerId Nat,
          (∀ q, (counts.lookup q).getD 0 + (if q = peer then 1 else 0) = s.attribution.recorded q) →
          (⟨rest, s.pendingHeaderPeer.erase hash, counts⟩ : Attribution).Exact by
        simp only [untrackPendingHeader, hpeer, hcount]
        split_ifs with hmany
        · refine hcounts _ fun q => ?_
          rw [lookup_insert_ite]
          by_cases hq : q = peer
          · subst hq
            simp only [if_true, getD_some]
            omega
          · simp only [hq, if_false, add_zero]
            rfl
        · refine hcounts _ fun q => ?_
          rw [lookup_erase_ite]
          by_cases hq : q = peer
          · subst hq
            simp only [if_true, getD_none]
            omega
          · simp only [hq, if_false, add_zero]
            rfl
      intro counts hq
      refine ⟨fun q => ?_, fun q => ?_, herase⟩
      · have hleft := hq q
        have hright := hshare q
        change (counts.lookup q).getD 0 = Map.count _ (s.pendingHeaderPeer.erase hash)
        omega
      · have hleft := hq q
        have hcap := h.capped q
        change (counts.lookup q).getD 0 ≤ _
        omega

theorem Accounted.requestLoop {now room : Nat} {queue out : List Hash} (h : s.Accounted)
    (hqueue : s.pendingHeaders = queue) : (requestLoop now queue room s out).2.Accounted := by
  induction queue generalizing room s out with
  | nil => exact h
  | cons hash rest ih =>
    cases room with
    | zero => exact h
    | succ room =>
      have huntracked : (({ s with pendingHeaders := rest } : ChainSync B).untrackPendingHeader
          hash).Accounted := by
        refine ⟨?_, exact_untrackPendingHeader h.attributed hqueue⟩
        rw [flight_untrackPendingHeader]
        exact h.inFlight
      have hleft : (({ s with pendingHeaders := rest } : ChainSync B).untrackPendingHeader
          hash).pendingHeaders = rest := by
        unfold untrackPendingHeader
        split
        · rfl
        · simp only
          split
          · split <;> rfl
          · rfl
      unfold ChainSync.requestLoop
      simp only
      split_ifs
      · exact ih huntracked hleft
      · exact ih ⟨huntracked.inFlight.start hash now, huntracked.attributed⟩ hleft

theorem exact_queueLoop_none {room : Option Nat} {headers : List Hash} (h : s.attribution.Exact) :
    (queueLoop none room headers s added).1.attribution.Exact := by
  induction headers generalizing s added with
  | nil => exact h
  | cons hash rest ih =>
    unfold queueLoop
    split_ifs
    · exact h
    · exact h
    · exact ih (h.mono fun x hx => mem_append_left _ hx)
    · exact ih h

theorem owing_queueLoop {p : PeerId} (room : Nat) (headers : List Hash)
    (h : s.attribution.Owing p added) (hroom : added ≤ room) :
    let r := queueLoop (some p) (some room) headers s added
    r.1.attribution.Owing p r.2 ∧ r.2 ≤ room ∧ r.1.headersPerPeer = s.headersPerPeer := by
  induction headers generalizing s added with
  | nil => exact ⟨h, hroom, rfl⟩
  | cons hash rest ih =>
    unfold queueLoop
    split_ifs with hfull hcap hfree
    · exact ⟨h, hroom, rfl⟩
    · exact ⟨h, hroom, rfl⟩
    · have hlt : added < room := by
        simp only [any_some, decide_eq_true_eq] at hcap
        omega
      exact ih (h.push hfree.2.2) hlt
    · exact ih h hroom

theorem flight_queueLoop (peer : Option PeerId) (room : Option Nat) (headers : List Hash)
    (s : ChainSync B) (added : Nat) : (queueLoop peer room headers s added).1.flight = s.flight := by
  induction headers generalizing s added with
  | nil => rfl
  | cons hash rest ih =>
    unfold queueLoop
    split_ifs
    · rfl
    · rfl
    · cases peer <;> exact ih _ _
    · exact ih _ _

section

variable (h : s.Accounted)

include h

theorem Accounted.enqueue (headers : List Hash) (peer : Option PeerId) :
    (s.enqueue headers peer).Accounted := by
  have hstart : ({ s with headersReceivedThisCycle := true } : ChainSync B).Accounted :=
    h.congr rfl rfl
  cases peer with
  | none =>
    refine ⟨?_, exact_queueLoop_none hstart.attributed⟩
    change (queueLoop none _ headers _ 0).1.flight.InStep
    rw [flight_queueLoop]
    exact hstart.inFlight
  | some p =>
    obtain ⟨howing, hroom, hcounts⟩ := owing_queueLoop
      (maxHeadersPerPeer - (s.headersPerPeer.lookup p).getD 0) headers
      (hstart.attributed.owing p) zero_le
    have hflight := flight_queueLoop (some p)
      (some (maxHeadersPerPeer - (s.headersPerPeer.lookup p).getD 0)) headers
      { s with headersReceivedThisCycle := true } 0
    unfold ChainSync.enqueue
    simp only [map_some]
    generalize queueLoop (some p) _ headers _ 0 = r at howing hroom hcounts hflight ⊢
    have hin : r.1.flight.InStep := by
      rw [hflight]
      exact hstart.inFlight
    split_ifs with hadded
    · refine ⟨hin, howing.settle ?_⟩
      rw [Attribution.recorded, attribution, hcounts]
      exact hroom
    · obtain hzero : r.2 = 0 := by omega
      rw [hzero] at howing
      exact ⟨hin, howing.exact⟩

theorem Accounted.queueHeadersInner (headers : List Hash) (peer : Option PeerId)
    (now : Nat) : (s.queueHeadersInner headers peer now).Accounted := by
  by_cases hnil : headers = []
  · simp only [ChainSync.queueHeadersInner, if_pos hnil]
    split_ifs <;> exact h.congr rfl rfl
  · rw [queueHeadersInner_of_ne_nil s hnil]
    split_ifs
    · exact h.enqueue headers peer
    · exact (h.enqueue headers peer).congr rfl rfl

theorem Accounted.dropRequest (hash : Hash) : (s.dropRequest hash).Accounted :=
  ⟨h.inFlight.drop hash, h.attributed⟩

theorem Accounted.recordRequest (hash : Hash) (peer : PeerId) (ts : Nat)
    (oldest : Hash) : (s.recordRequest hash peer ts oldest).Accounted := by
  unfold ChainSync.recordRequest
  simp only
  split_ifs
  · exact ⟨(h.dropRequest oldest).inFlight.record hash ⟨peer, ts⟩ ts, h.attributed⟩
  · exact ⟨h.inFlight.record hash ⟨peer, ts⟩ ts, h.attributed⟩

theorem Accounted.onTimeout (hash : Hash) (now : Nat) : (s.onTimeout hash now).Accounted := by
  unfold ChainSync.onTimeout
  cases hreq : s.pendingRequests.lookup hash with
  | none =>
    have hnone : hash ∉ s.flight.requests.keys := by
      rw [mem_keys_iff]
      rintro ⟨req, hsome⟩
      rw [show s.flight.requests.lookup hash = none from hreq] at hsome
      cases hsome
    exact h.pushFront (h.inFlight.dropDownload hnone) rfl
  | some req =>
    simp only
    split_ifs
    · exact h.pushFront (h.inFlight.drop hash) rfl
    · exact h.pushFront (h.inFlight.drop hash) rfl

end

theorem mem_of_walks {order : List Hash} {set : Finset Hash} (h : walks order set = true)
    (hmem : hash ∈ order) : hash ∈ set := by
  rw [← (of_decide_eq_true h).2]
  exact List.mem_toFinset.mpr hmem

variable {now : Nat}

section

variable (h : s.Accounted)
include h

theorem Accounted.getBlocksToRetry {expired stuck : List Hash}
    (hstuck : walks stuck ((s.requeueAll expired).stuckDownloads now) = true) :
    (s.getBlocksToRetry now expired stuck).2.Accounted := by
  have hnone : ∀ hash ∈ stuck, hash ∉ (s.requeueAll expired).pendingRequests.keys := by
    intro hash hmem
    have hin := mem_of_walks hstuck hmem
    rw [stuckDownloads, Finset.mem_filter, Bool.and_eq_true] at hin
    exact of_decide_eq_true hin.2.1
  have hback := ((h.requeueAll expired).requeueDownloads hnone).leaveSynced now
    (!expired.isEmpty || !stuck.isEmpty)
  unfold ChainSync.getBlocksToRetry
  simp only
  split_ifs
  · exact ⟨hback.inFlight, Attribution.exact_nil⟩
  · exact hback

theorem Accounted.queueParent (parent : Hash) : (s.queueParent parent).Accounted := by
  have hpush : (s.pushFront parent).Accounted := h.pushFront h.inFlight rfl
  unfold ChainSync.queueParent
  simp only
  split_ifs
  · exact h
  · exact hpush.congr rfl rfl
  · exact hpush
  · exact h

theorem Accounted.countFailure (origin : Option PeerId) :
    (s.countFailure origin).Accounted := by
  cases origin with
  | none => exact h
  | some p => exact h.congr rfl rfl

variable {V : BlockView B} {op : SyncOp B}

theorem Accounted.step_of_movesBlocks (hmoves : op.movesBlocks = true)
    (hstep : s.step V op = some s') : s'.Accounted := by
  cases op with
  | queueHeaders headers now =>
    cases hstep
    exact h.queueHeadersInner headers none now
  | queueHeadersFromPeer peer headers now =>
    cases hstep
    exact h.queueHeadersInner headers (some peer) now
  | getBlocksToRequest max now =>
    cases hstep
    exact h.requestLoop rfl
  | recordRequest hash peer ts oldest =>
    obtain ⟨-, rfl⟩ := guarded_eq_some_iff.mp hstep
    exact h.recordRequest hash peer ts oldest
  | markBlockReceived hash =>
    cases hstep
    unfold markBlockReceived
    simp only
    split
    · exact (h.dropRequest hash).congr rfl rfl
    · exact h.dropRequest hash
  | markBlockFailed hash =>
    cases hstep
    exact h.pushFront (h.inFlight.drop hash) rfl
  | onTimeout hash now =>
    cases hstep
    exact h.onTimeout hash now
  | requeueFailed hashes now =>
    cases hstep
    exact (h.requeueAll hashes.reverse).leaveSynced now _
  | getBlocksToRetry now expired stuck =>
    obtain ⟨hwalks, rfl⟩ := guarded_eq_some_iff.mp hstep
    exact h.getBlocksToRetry (Bool.and_eq_true_iff.mp hwalks).2
  | recoverStuckDownloads now order =>
    obtain ⟨hwalks, rfl⟩ := guarded_eq_some_iff.mp hstep
    refine (h.requeueDownloads fun hash hmem => ?_).leaveSynced now _
    exact (Finset.mem_filter.mp (mem_of_walks hwalks hmem)).2
  | onPeerDisconnected peer now order =>
    obtain ⟨-, rfl⟩ := guarded_eq_some_iff.mp hstep
    refine (Accounted.requeueAll ?_ order).leaveSynced now _
    exact h.congr rfl rfl
  | cleanupExpiredOrphans now order =>
    obtain ⟨-, rfl⟩ := guarded_eq_some_iff.mp hstep
    exact h.of_sansOrphans (s.sansOrphans_cleanupExpiredOrphans V now order)
  | onBlockReceivedFrom block origin now expired evicted =>
    rcases s.sansOrphans_onBlockReceivedFrom hstep with hsans | hsans
    · exact (h.countFailure origin).of_sansOrphans hsans
    · exact (h.dropRequest (V.hash block)).of_sansOrphans hsans
  | markBlockOrphan block origin parent now evicted =>
    have hqueued := (h.dropRequest (V.hash block)).queueParent parent
    exact hqueued.of_sansOrphans (s.sansOrphans_markBlockOrphan hstep)
  | clear =>
    cases hstep
    exact ⟨⟨rfl, Finset.Subset.refl _⟩, Attribution.exact_nil⟩
  | _ => cases hmoves

/-- **Every operation keeps the six collections in step.** -/
theorem Accounted.step (hstep : s.step V op = some s') : s'.Accounted := by
  cases hmoves : op.movesBlocks with
  | false =>
    have hstock := step_stock hmoves hstep
    exact h.congr (view_eq_of_blank ChainSync.flight hstock)
      (view_eq_of_blank ChainSync.attribution hstock)
  | true => exact h.step_of_movesBlocks hmoves hstep

end

/-- **In every run the six collections are in step**: downloads and their times have the same keys,
requests are for downloads, the number recorded for a peer is the number of hashes put down to it and
within the cap, and every hash that is put down to a peer is in the queue. -/
theorem runs_accounted (V : BlockView B) {localHeight : Nat} {tip : Hash} {s : ChainSync B}
    (hrun : Reaches (step V) (fun _ _ => True) (new localHeight tip) s) :
    s.downloading = s.downloadTimestamps.keys ∧
      s.pendingRequests.keys ⊆ s.downloading ∧
      (∀ p, (s.headersPerPeer.lookup p).getD 0 =
        (s.pendingHeaderPeer.keys.filter fun h => s.pendingHeaderPeer.lookup h = some p).card) ∧
      (∀ p, (s.headersPerPeer.lookup p).getD 0 ≤ maxHeadersPerPeer) ∧
      ∀ h ∈ s.pendingHeaderPeer.keys, h ∈ s.pendingHeaders := by
  have hnew : (new localHeight tip : ChainSync B).Accounted :=
    ⟨⟨rfl, Finset.Subset.refl _⟩, Attribution.exact_nil⟩
  have h : s.Accounted := hrun.invariant hnew fun _ _ _ hs _ hstep => hs.step hstep
  refine ⟨h.inFlight.stamped.symm, h.inFlight.requested, fun p => ?_, h.attributed.capped,
    h.attributed.queued⟩
  refine (h.attributed.counted p).trans (congrArg Finset.card (Finset.filter_congr fun x _ => ?_))
  change ((s.pendingHeaderPeer.lookup x).any fun q => decide (q = p)) = true ↔ _
  cases s.pendingHeaderPeer.lookup x with
  | none => simp
  | some q => simp

namespace Fetching

open SmallSync

def ops : List (SyncOp Unit) :=
  [.queueHeadersFromPeer (peer 1) [blockHash 1, blockHash 2, blockHash 3] 100, .getBlocksToRequest 2 100,
    .recordRequest (blockHash 1) (peer 1) 100 Hash.zero]

/-- Two downloads, one request, one hash put down to the peer. -/
theorem fetching_accounted : ∃ s : ChainSync Unit,
    Reaches (step view) (fun _ _ => True) (new 0 Hash.zero) s ∧
      (s.downloading.card = 2 ∧ s.pendingRequests.keys.card = 1 ∧
        s.headersPerPeer.lookup (peer 1) = some 1) ∧
      s.downloading = s.downloadTimestamps.keys := by
  have hrun : (Lib.run (step view) (fun _ _ => true) (new 0 Hash.zero) ops).any
      (fun s => decide (s.downloading.card = 2 ∧ s.pendingRequests.keys.card = 1 ∧
        s.headersPerPeer.lookup (peer 1) = some 1)) = true := by
    decide +kernel
  obtain ⟨s, hreach, hends⟩ := Reaches.exists_of_run (fun _ _ _ => trivial) hrun
  exact ⟨s, hreach, of_decide_eq_true hends, (runs_accounted view hreach).1⟩

end Fetching

/-! ## 4. Nothing is queued in a node that is `Synced` -/

/-- **A node that is `Synced` has nothing in its queue.** -/
def SyncedIsIdle (s : ChainSync B) : Prop := s.state = .synced → s.pendingHeaders = []

/-- **The condition on an operation.**  `mark_block_failed` and `on_timeout` are not called on a node
that is `Synced`, and no empty answer confirms `Synced` while something is queued. -/
def Calm (s : ChainSync B) : SyncOp B → Prop
  | .setState _ => False
  | .markBlockFailed _ | .onTimeout _ _ => s.state ≠ .synced
  | .queueHeaders [] _ | .queueHeadersFromPeer _ [] _ =>
    s.state = .confirmingSynced → 0 < s.localHeight → s.pendingHeaders = []
  | _ => True

/-- What the condition is about: the state and the queue. -/
def gate (s : ChainSync B) : SyncState × List Hash := (s.state, s.pendingHeaders)

theorem SyncedIsIdle.congr (h : s.SyncedIsIdle) (hgate : s'.gate = s.gate) : s'.SyncedIsIdle := by
  obtain ⟨hstate, hqueue⟩ := Prod.mk.inj hgate
  intro hsynced
  rw [hqueue]
  exact h (hstate ▸ hsynced)

theorem syncedIsIdle_of_ne (h : s.state ≠ .synced) : s.SyncedIsIdle := fun hsynced =>
  absurd hsynced h

theorem syncedIsIdle_leaveSynced {anyWork : Bool}
    (h : anyWork = false → s.SyncedIsIdle) : (s.leaveSynced now anyWork).SyncedIsIdle := by
  unfold leaveSynced
  split_ifs with hleave
  · exact syncedIsIdle_of_ne nofun
  · cases anyWork with
    | false => exact h rfl
    | true => exact syncedIsIdle_of_ne fun hsynced => hleave ⟨rfl, hsynced⟩

theorem syncedIsIdle_leaveSynced_of_nil {hashes : List Hash}
    (h : hashes = [] → s.SyncedIsIdle) : (s.leaveSynced now (!hashes.isEmpty)).SyncedIsIdle :=
  syncedIsIdle_leaveSynced fun hnone => h (by rwa [Bool.not_eq_false', List.isEmpty_iff] at hnone)

theorem syncedIsIdle_pushFront_iff : (s.pushFront hash).SyncedIsIdle ↔ s.state ≠ .synced :=
  ⟨fun h hsynced => cons_ne_nil _ _ (h hsynced), fun h hsynced => absurd hsynced h⟩

theorem state_onTimeout (s : ChainSync B) (hash : Hash) (now : Nat) :
    ∃ t : ChainSync B, s.onTimeout hash now = t.pushFront hash ∧ t.state = s.state := by
  refine ⟨_, rfl, ?_⟩
  cases s.pendingRequests.lookup hash with
  | none => rfl
  | some req =>
    simp only
    split_ifs
    · rfl
    · rfl

section

variable (h : s.SyncedIsIdle)

include h

theorem syncedIsIdle_queueHeadersInner_iff (headers : List Hash)
    (peer : Option PeerId) (now : Nat) :
    (s.queueHeadersInner headers peer now).SyncedIsIdle ↔ s.Calm (.queueHeaders headers now) := by
  cases headers with
  | nil =>
    unfold queueHeadersInner
    simp only [if_true]
    by_cases hconfirm : s.state = .confirmingSynced ∧ 0 < s.localHeight
    · rw [if_pos hconfirm, if_neg (by rintro ⟨h' | h', -⟩ <;> cases h')]
      exact ⟨fun hidle _ _ => hidle rfl, fun hqueue _ => hqueue hconfirm.1 hconfirm.2⟩
    · rw [if_neg hconfirm]
      refine iff_of_true ?_ fun hstate hheight => absurd ⟨hstate, hheight⟩ hconfirm
      split_ifs
      · exact syncedIsIdle_of_ne nofun
      · exact h
  | cons hash headers =>
    refine iff_of_true ?_ trivial
    rw [queueHeadersInner_of_ne_nil s (cons_ne_nil hash headers)]
    split_ifs with hempty
    · exact fun _ => hempty
    · exact syncedIsIdle_of_ne nofun

theorem SyncedIsIdle.getBlocksToRequest (max now : Nat) :
    (s.getBlocksToRequest max now).2.SyncedIsIdle := by
  intro hsynced
  have hstate : (s.getBlocksToRequest max now).2.state = s.state :=
    view_eq_of_blank state (s.sansQueue_getBlocksToRequest max now)
  have hempty := h (hstate ▸ hsynced)
  rw [ChainSync.getBlocksToRequest, hempty, requestLoop]
  exact hempty

theorem syncedIsIdle_getBlocksToRetry (now : Nat) (expired stuck : List Hash) :
    (s.getBlocksToRetry now expired stuck).2.SyncedIsIdle := by
  unfold getBlocksToRetry
  simp only
  split_ifs
  · exact syncedIsIdle_of_ne nofun
  · refine syncedIsIdle_leaveSynced fun hnone => ?_
    obtain ⟨hexpired, hstuck⟩ := Bool.or_eq_false_iff.mp hnone
    simp only [Bool.not_eq_false', List.isEmpty_iff] at hexpired hstuck
    rw [hexpired, hstuck]
    exact h

theorem syncedIsIdle_queueParent (parent : Hash) : (s.queueParent parent).SyncedIsIdle := by
  unfold queueParent
  simp only
  split_ifs with hhere hroom hsettled
  · exact h
  · exact syncedIsIdle_of_ne nofun
  · refine syncedIsIdle_pushFront_iff.mpr fun hsynced => hsettled ?_
    change s.state.isSettled = true
    rw [hsynced]
    rfl
  · exact h

theorem SyncedIsIdle.of_sansOrphans (hsans : s'.sansOrphans = s.sansOrphans) : s'.SyncedIsIdle :=
  h.congr (view_eq_of_blank gate hsans)

theorem SyncedIsIdle.dropRequest (hash : Hash) : (s.dropRequest hash).SyncedIsIdle := h.congr rfl

/-- **An operation keeps the queue of a `Synced` node empty exactly if it is calm.** -/
theorem syncedIsIdle_step_iff (hop : ∀ state, op ≠ .setState state)
    (hstep : s.step V op = some s') : s'.SyncedIsIdle ↔ s.Calm op := by
  cases op with
  | setState state => exact absurd rfl (hop state)
  | markBlockFailed hash =>
    cases hstep
    exact syncedIsIdle_pushFront_iff
  | onTimeout hash now =>
    cases hstep
    obtain ⟨t, heq, hstate⟩ := s.state_onTimeout hash now
    rw [heq, syncedIsIdle_pushFront_iff, hstate]
    exact Iff.rfl
  | queueHeaders headers now =>
    cases hstep
    exact syncedIsIdle_queueHeadersInner_iff h headers none now
  | queueHeadersFromPeer peer headers now =>
    cases hstep
    refine (syncedIsIdle_queueHeadersInner_iff h headers (some peer) now).trans ?_
    cases headers <;> exact Iff.rfl
  | setLocalTip height tip =>
    cases hstep
    refine iff_of_true ?_ trivial
    unfold setLocalTip
    simp only
    split_ifs with hdone
    · exact fun _ => hdone.2.1
    · exact h.congr rfl
  | updatePeerHeightFor | updatePeerDifficultyFor | updatePeerHeight | onBlockProcessed
  | retainConnectedPeers | expireStaleWorkClaims | beginHeadersRequest | validateHeaderNonce
  | cancelHeadersRequest | triggerResync | armNearTipCatchup =>
    cases hstep
    refine iff_of_true ?_ trivial
    simp only [updatePeerHeightFor, updatePeerDifficultyFor, updatePeerHeight, onBlockProcessed,
      retainConnectedPeers, expireStaleWorkClaims, beginHeadersRequest, validateHeaderNonce,
      cancelHeadersRequest, consumeHeaderNonce, triggerResync, armNearTipCatchup]
    -- a branch leaves state and queue alone, or goes to another state than `Synced`
    split_ifs
    all_goals first
      | exact h.congr rfl
      | exact syncedIsIdle_of_ne (by rintro ⟨⟩)
  | getBlocksToRequest max now =>
    cases hstep
    exact iff_of_true (h.getBlocksToRequest max now) trivial
  | recordRequest hash peer ts oldest =>
    obtain ⟨-, rfl⟩ := guarded_eq_some_iff.mp hstep
    refine iff_of_true ?_ trivial
    unfold recordRequest
    simp only
    split_ifs <;> exact h.congr rfl
  | markBlockReceived hash =>
    cases hstep
    refine iff_of_true ?_ trivial
    unfold markBlockReceived
    simp only
    split <;> exact h.congr rfl
  | requeueFailed hashes now =>
    cases hstep
    exact iff_of_true (syncedIsIdle_leaveSynced_of_nil fun hnil => hnil ▸ h) trivial
  | getBlocksToRetry now expired stuck =>
    obtain ⟨-, rfl⟩ := guarded_eq_some_iff.mp hstep
    exact iff_of_true (syncedIsIdle_getBlocksToRetry h now expired stuck) trivial
  | recoverStuckDownloads now order =>
    obtain ⟨-, rfl⟩ := guarded_eq_some_iff.mp hstep
    exact iff_of_true (syncedIsIdle_leaveSynced_of_nil fun hnil => hnil ▸ h) trivial
  | onPeerDisconnected peer now order =>
    obtain ⟨-, rfl⟩ := guarded_eq_some_iff.mp hstep
    refine iff_of_true (syncedIsIdle_leaveSynced_of_nil fun hnil => ?_) trivial
    rw [hnil]
    exact h.congr rfl
  | cleanupExpiredOrphans now order =>
    obtain ⟨-, rfl⟩ := guarded_eq_some_iff.mp hstep
    refine iff_of_true ?_ trivial
    exact h.of_sansOrphans (s.sansOrphans_cleanupExpiredOrphans V now order)
  | onBlockReceivedFrom block origin now expired evicted =>
    refine iff_of_true ?_ trivial
    rcases s.sansOrphans_onBlockReceivedFrom hstep with hsans | hsans
    · refine SyncedIsIdle.of_sansOrphans (h.congr ?_) hsans
      cases origin with
      | none => rfl
      | some p => rfl
    · exact (h.dropRequest _).of_sansOrphans hsans
  | markBlockOrphan block origin parent now evicted =>
    refine iff_of_true ?_ trivial
    exact (syncedIsIdle_queueParent (h.dropRequest _) parent).of_sansOrphans
      (s.sansOrphans_markBlockOrphan hstep)
  | clear =>
    cases hstep
    exact iff_of_true (syncedIsIdle_of_ne (by rintro ⟨⟩)) trivial
  | _ =>
    cases hstep
    exact iff_of_true (h.congr rfl) trivial

end

/-- **In every calm run a node that is `Synced` has nothing in its queue**, and the next operation
keeps it so exactly if it is calm. -/
theorem calm_runs_idle (V : BlockView B) {localHeight : Nat} {tip : Hash} {s : ChainSync B}
    (hrun : Reaches (step V) Calm (new localHeight tip) s) :
    (s.state = .synced → s.pendingHeaders = []) ∧
      ∀ op s', (∀ state, op ≠ .setState state) → s.step V op = some s' →
        ((s'.state = .synced → s'.pendingHeaders = []) ↔ s.Calm op) := by
  have hidle : s.SyncedIsIdle := by
    have hnew : (new localHeight tip : ChainSync B).SyncedIsIdle :=
      syncedIsIdle_of_ne (by rintro ⟨⟩)
    refine hrun.invariant hnew fun s op s' hs hcalm hstep => ?_
    refine (syncedIsIdle_step_iff hs ?_ hstep).mpr hcalm
    rintro state rfl
    exact hcalm
  exact ⟨hidle, fun op s' hop hstep => syncedIsIdle_step_iff hidle hop hstep⟩

namespace Relapse

open Fetching SmallSync

def calmTest (s : ChainSync Unit) : SyncOp Unit → Bool
  | .setLocalTip _ _ => true
  | .requeueFailed _ _ => true
  | .getBlocksToRequest _ _ => true
  | .onTimeout _ _ => decide (s.state ≠ .synced)
  | _ => false

theorem calm_of_calmTest (s : ChainSync Unit) (op : SyncOp Unit) (h : calmTest s op = true) :
    s.Calm op := by
  cases op with
  | setLocalTip height tip => trivial
  | requeueFailed hashes now => trivial
  | getBlocksToRequest max now => trivial
  | onTimeout hash now =>
    change s.state ≠ .synced
    exact of_decide_eq_true h
  | _ => cases h

def ops : List (SyncOp Unit) :=
  [.setLocalTip 5 (blockHash 5), .requeueFailed [blockHash 6] 100, .getBlocksToRequest 1 100,
    .onTimeout (blockHash 6) 200]

theorem calm_relapse : ∃ s : ChainSync Unit,
    Reaches (step view) Calm (new 5 (blockHash 5)) s ∧
      (s.state = .blocks ∧ s.pendingHeaders = [blockHash 6]) ∧
      (s.state = .synced → s.pendingHeaders = []) := by
  have hrun : (Lib.run (step view) calmTest (new 5 (blockHash 5)) ops).any
      (fun s => decide (s.state = .blocks ∧ s.pendingHeaders = [blockHash 6])) = true := by
    decide +kernel
  obtain ⟨s, hreach, hends⟩ := Reaches.exists_of_run calm_of_calmTest hrun
  exact ⟨s, hreach, of_decide_eq_true hends, (calm_runs_idle view hreach).1⟩

/-- **`Synced` with a block in the queue.**  A failed block of a node that is `Synced` goes back to
its queue; and an empty answer confirms `Synced` after a block has been queued again. -/
theorem synced_with_work :
    (Lib.run (step view) (fun _ _ => true) (new 5 (blockHash 5))
        [.setLocalTip 5 (blockHash 5), .markBlockFailed (blockHash 6)]).any
      (fun s => decide (s.state = .synced ∧ s.pendingHeaders = [blockHash 6])) = true ∧
    (Lib.run (step view) (fun _ _ => true) (new 5 (blockHash 5))
        [.onBlockProcessed (blockHash 5) 5, .requeueFailed [blockHash 6] 100, .queueHeaders [] 100]).any
      (fun s => decide (s.state = .synced ∧ s.pendingHeaders = [blockHash 6])) = true := by
  decide +kernel

end Relapse

end ChainSync

end Coincync
