/-
# What the operations of the synchroniser leave alone

The loops of `ChainSync` are of two kinds.  Those over the orphan pool touch the pool, its index and
its counters; those over the header queue touch the queue, the attribution of its headers and the
blocks in flight.  `sansOrphans` and `sansQueue` are a state with the one or the other blanked out,
and a loop of a kind leaves the blanked state as it was.  So whatever is read from fields of the
other kind is the same before and after, by one rewriting.  The operations that are about neither
leave both alone (`step_stock`), those that only fetch leave all but the queue alone (`step_fetch`),
and those that judge no peer leave the claims of work and the bans alone (`step_standing`).
-/
import Coincync.Network.Sync

namespace Coincync

open Lib

variable {β : Type}

namespace ChainSync

variable {B : Type} (s : ChainSync B) {s' : ChainSync B} {V : BlockView B}

theorem guarded_eq_some_iff {s : ChainSync B} {ok : Bool} :
    s.guarded ok = some s' ↔ ok = true ∧ s = s' := by
  unfold guarded
  split_ifs with hok
  · simp [hok]
  · simp [hok]

theorem foldl_frame {α : Type} {f : ChainSync B → α → ChainSync B} {view : ChainSync B → β}
    (hf : ∀ s a, view (f s a) = view s) : ∀ (l : List α) (s : ChainSync B),
    view (l.foldl f s) = view s
  | [], _ => rfl
  | a :: l, s => (foldl_frame hf l (f s a)).trans (hf s a)

/-- **What does not read the fields that are blanked out** is the same for states that differ in
them only. -/
theorem view_eq_of_blank {blank : ChainSync B → ChainSync B} (view : ChainSync B → β)
    {s : ChainSync B} (h : blank s' = blank s)
    (hview : ∀ s, view (blank s) = view s := by exact fun _ => rfl) : view s' = view s := by
  rw [← hview s', h, hview s]

/-! ## 1. Everything but the orphans -/

/-- The state with the orphan pool blanked out. -/
def sansOrphans : ChainSync B :=
  { s with orphanBlocks := ∅, orphanByParent := ∅, orphansPerPeer := ∅, lastOrphanCleanup := 0 }

@[simp] theorem sansOrphans_unlinkOrphan (parent hash : Hash) :
    (s.unlinkOrphan parent hash).sansOrphans = s.sansOrphans := by
  unfold unlinkOrphan
  split <;> rfl

@[simp] theorem sansOrphans_removeOrphan (V : BlockView B) (hash : Hash) :
    (s.removeOrphan V hash).sansOrphans = s.sansOrphans := by
  unfold removeOrphan
  split
  · rfl
  · rw [sansOrphans_unlinkOrphan]
    rfl

@[simp] theorem sansOrphans_cleanupExpiredOrphans (V : BlockView B) (now : Nat)
    (order : List Hash) : (s.cleanupExpiredOrphans V now order).sansOrphans = s.sansOrphans := by
  unfold cleanupExpiredOrphans
  split
  · exact foldl_frame (fun s h => sansOrphans_removeOrphan s V h) order _
  · rfl

theorem sansOrphans_evictOrphans {order : List Hash} {s : ChainSync B}
    (h : evictOrphans V order s = some s') : s'.sansOrphans = s.sansOrphans := by
  induction order generalizing s with
  | nil =>
    unfold evictOrphans at h
    split_ifs at h
    rw [Option.some.inj h]
  | cons hash rest ih =>
    unfold evictOrphans at h
    split_ifs at h
    rw [ih h, sansOrphans_removeOrphan]

@[simp] theorem sansOrphans_admitOrphan (origin : Option PeerId) :
    (s.admitOrphan origin).2.sansOrphans = s.sansOrphans := by
  unfold admitOrphan
  cases origin with
  | none => rfl
  | some p =>
    simp only
    split <;> rfl

/-- Admit an orphan and file it. -/
def poolOrphan (V : BlockView B) (block : B) (origin : Option PeerId) (now : Nat) : ChainSync B :=
  if (s.admitOrphan origin).1 = true then (s.admitOrphan origin).2.fileOrphan V block origin now
  else (s.admitOrphan origin).2

@[simp] theorem sansOrphans_poolOrphan (V : BlockView B) (block : B) (origin : Option PeerId)
    (now : Nat) : (s.poolOrphan V block origin now).sansOrphans = s.sansOrphans := by
  unfold poolOrphan
  split
  · exact s.sansOrphans_admitOrphan origin
  · exact s.sansOrphans_admitOrphan origin

@[simp] theorem sansOrphans_releaseOrphan (child : Hash) :
    (s.releaseOrphan child).2.sansOrphans = s.sansOrphans := by
  unfold releaseOrphan
  split
  · rfl
  · simp only
    split
    · rfl
    · split <;> rfl

theorem sansOrphans_releaseChildren (children : List Hash) (s : ChainSync B) (out : List B) :
    (releaseChildren children s out).2.sansOrphans = s.sansOrphans := by
  induction children generalizing s out with
  | nil => rfl
  | cons child rest ih =>
    unfold releaseChildren
    simp only
    rw [ih, sansOrphans_releaseOrphan]

/-- **What every release keeps, the walk keeps.** -/
theorem drainOrphans_keeps {P : ChainSync B → Prop}
    (hrelease : ∀ s parent children, s.orphanByParent.lookup parent = some children → P s →
      P (releaseChildren children { s with orphanByParent := s.orphanByParent.erase parent } []).2)
    (fuel : Nat) (queue : List Hash) (s : ChainSync B) (out : List B) (h : P s) :
    P (drainOrphans V fuel queue s out).2 := by
  induction fuel generalizing queue s out with
  | zero => exact h
  | succ fuel ih =>
    cases queue with
    | nil => exact h
    | cons parent queue =>
      unfold drainOrphans
      cases hlookup : s.orphanByParent.lookup parent with
      | none => exact ih queue s out h
      | some children => exact ih _ _ _ (hrelease s parent children hlookup h)

theorem sansOrphans_drainOrphans (V : BlockView B) (fuel : Nat) (queue : List Hash)
    (s : ChainSync B) (out : List B) :
    (drainOrphans V fuel queue s out).2.sansOrphans = s.sansOrphans :=
  drainOrphans_keeps (P := fun t => t.sansOrphans = s.sansOrphans)
    (fun _ _ children _ h => (sansOrphans_releaseChildren children _ []).trans h) fuel queue s out rfl

theorem sansOrphans_dropRequest (hash : Hash) :
    (s.dropRequest hash).sansOrphans = s.sansOrphans.dropRequest hash := rfl

variable {origin : Option PeerId}

/-- **A block that comes in** leaves a failure behind, or its request is gone; the rest is about
orphans. -/
theorem sansOrphans_onBlockReceivedFrom {block : B} {now : Nat} {expired evicted : List Hash}
    (h : s.step V (.onBlockReceivedFrom block origin now expired evicted) = some s') :
    s'.sansOrphans = (s.countFailure origin).sansOrphans ∨
      s'.sansOrphans = (s.dropRequest (V.hash block)).sansOrphans := by
  obtain ⟨t, ht, hok⟩ := Option.bind_eq_some_iff.mp h
  obtain ⟨r, hr, rfl⟩ := Option.map_eq_some_iff.mp ht
  obtain ⟨-, rfl⟩ := guarded_eq_some_iff.mp hok
  have hclean : ((s.cleanupExpiredOrphans V now expired).dropRequest (V.hash block)).sansOrphans =
      (s.dropRequest (V.hash block)).sansOrphans := by
    rw [sansOrphans_dropRequest, sansOrphans_cleanupExpiredOrphans, sansOrphans_dropRequest]
  unfold onBlockReceivedFrom at hr
  split_ifs at hr
  · cases hr
    exact .inl rfl
  · simp only at hr
    split_ifs at hr
    · cases hr
      exact .inr ((sansOrphans_drainOrphans V _ _ _ _).trans hclean)
    · obtain ⟨s', hs', rfl⟩ := Option.map_eq_some_iff.mp hr
      exact .inr ((s'.sansOrphans_poolOrphan V block origin now).trans
        ((sansOrphans_evictOrphans hs').trans hclean))

/-- The end of `mark_block_orphan`: the parent is fetched next, unless it is here or on its way. -/
def queueParent (parent : Hash) : ChainSync B :=
  if parent = s.localTip ∨ parent ∈ s.downloading ∨ parent ∈ s.pendingHeaders then s
  else if s.pendingHeaders.length < maxPendingHeaders then
    let s := s.pushFront parent
    if s.state.isSettled = true then { s with state := .blocks } else s
  else s

theorem sansOrphans_queueParent (parent : Hash) :
    (s.queueParent parent).sansOrphans = s.sansOrphans.queueParent parent := by
  unfold queueParent
  simp only [apply_ite sansOrphans]
  rfl

theorem markBlockOrphan_eq (V : BlockView B) (block : B) (origin : Option PeerId) (parent : Hash)
    (now : Nat) (evicted : List Hash) :
    s.markBlockOrphan V block origin parent now evicted =
      (if V.hash block ∈ s.orphanBlocks.keys then some (s.dropRequest (V.hash block))
        else (evictOrphans V evicted (s.dropRequest (V.hash block))).map fun s =>
          s.poolOrphan V block origin now).map fun s => s.queueParent parent := rfl

theorem sansOrphans_markBlockOrphan {block : B} {parent : Hash} {now : Nat} {evicted : List Hash}
    (h : s.markBlockOrphan V block origin parent now evicted = some s') :
    s'.sansOrphans = ((s.dropRequest (V.hash block)).queueParent parent).sansOrphans := by
  rw [markBlockOrphan_eq] at h
  obtain ⟨pooled, hpooled, rfl⟩ := Option.map_eq_some_iff.mp h
  have hsans : pooled.sansOrphans = (s.dropRequest (V.hash block)).sansOrphans := by
    split_ifs at hpooled
    · rw [Option.some.inj hpooled]
    · obtain ⟨s₁, hs₁, rfl⟩ := Option.map_eq_some_iff.mp hpooled
      rw [sansOrphans_poolOrphan, sansOrphans_evictOrphans hs₁]
  rw [sansOrphans_queueParent, sansOrphans_queueParent, hsans]

/-! ## 2. Everything but the queue -/

/-- The state with the header queue and the blocks in flight blanked out. -/
def sansQueue : ChainSync B :=
  { s with
    pendingRequests := ∅
    pendingHeaders := []
    pendingHeaderPeer := ∅
    headersPerPeer := ∅
    downloading := ∅
    downloadTimestamps := ∅ }

@[simp] theorem sansQueue_untrackPendingHeader (hash : Hash) :
    (s.untrackPendingHeader hash).sansQueue = s.sansQueue := by
  unfold untrackPendingHeader
  split
  · rfl
  · simp only
    split
    · split <;> rfl
    · rfl

@[simp] theorem sansQueue_requeueAll (hashes : List Hash) :
    (s.requeueAll hashes).sansQueue = s.sansQueue :=
  foldl_frame (f := requeue) (fun _ _ => rfl) hashes s

@[simp] theorem sansQueue_requeueDownloads (hashes : List Hash) :
    (s.requeueDownloads hashes).sansQueue = s.sansQueue :=
  foldl_frame (f := fun s h => (s.dropDownload h).pushFront h) (fun _ _ => rfl) hashes s

theorem sansQueue_queueLoop (peer : Option PeerId) (room : Option Nat) (headers : List Hash)
    (s : ChainSync B) (added : Nat) :
    (queueLoop peer room headers s added).1.sansQueue = s.sansQueue := by
  induction headers generalizing s added with
  | nil => rfl
  | cons hash rest ih =>
    unfold queueLoop
    split_ifs
    · rfl
    · rfl
    · cases peer <;> exact ih _ _
    · exact ih _ _

/-- The queue after the headers of an answer have been put into it. -/
def enqueue (headers : List Hash) (peer : Option PeerId) : ChainSync B :=
  let room := peer.map fun p => maxHeadersPerPeer - (s.headersPerPeer.lookup p).getD 0
  let r := queueLoop peer room headers { s with headersReceivedThisCycle := true } 0
  match peer with
  | some p =>
    if 0 < r.2 then
      { r.1 with
        headersPerPeer := r.1.headersPerPeer.insert p ((r.1.headersPerPeer.lookup p).getD 0 + r.2) }
    else r.1
  | none => r.1

theorem queueHeadersInner_of_ne_nil {headers : List Hash} (hne : headers ≠ [])
    (peer : Option PeerId) (now : Nat) :
    s.queueHeadersInner headers peer now =
      if (s.enqueue headers peer).pendingHeaders = [] then s.enqueue headers peer
      else (s.enqueue headers peer).enterBlocks now :=
  if_neg hne

theorem sansQueue_enqueue (headers : List Hash) (peer : Option PeerId) :
    (s.enqueue headers peer).sansQueue = { s with headersReceivedThisCycle := true }.sansQueue := by
  have hloop := sansQueue_queueLoop peer
    (peer.map fun p => maxHeadersPerPeer - (s.headersPerPeer.lookup p).getD 0) headers
    { s with headersReceivedThisCycle := true } 0
  unfold enqueue
  simp only
  generalize queueLoop peer _ headers _ 0 = r at hloop ⊢
  cases peer with
  | none => exact hloop
  | some p =>
    simp only
    split_ifs
    · exact hloop
    · exact hloop

theorem sansQueue_requestLoop (now : Nat) (queue : List Hash) (room : Nat) (s : ChainSync B)
    (out : List Hash) : (requestLoop now queue room s out).2.sansQueue = s.sansQueue := by
  induction queue generalizing room s out with
  | nil => rfl
  | cons hash rest ih =>
    cases room with
    | zero => rfl
    | succ room =>
      unfold requestLoop
      simp only
      split_ifs
      · rw [ih, sansQueue_untrackPendingHeader]
        rfl
      · rw [ih]
        exact sansQueue_untrackPendingHeader _ hash

@[simp] theorem sansQueue_getBlocksToRequest (max now : Nat) :
    (s.getBlocksToRequest max now).2.sansQueue = s.sansQueue :=
  sansQueue_requestLoop now _ _ s []

theorem sansQueue_recordRequest (hash : Hash) (peer : PeerId) (ts : Nat) (oldest : Hash) :
    (s.recordRequest hash peer ts oldest).sansQueue = s.sansQueue := by
  unfold recordRequest
  simp only
  split <;> rfl

end ChainSync

/-! ## 3. Operations that move no blocks -/

/-- Does the operation put anything into the queue, into flight or into the orphan pool, or take
anything out?  The others are about heights, claims of work and the cycle of header requests. -/
def SyncOp.movesBlocks {B : Type} : SyncOp B → Bool
  | .queueHeaders _ _ | .queueHeadersFromPeer _ _ _ | .getBlocksToRequest _ _ => true
  | .recordRequest _ _ _ _ | .markBlockReceived _ | .markBlockFailed _ | .onTimeout _ _ => true
  | .requeueFailed _ _ | .getBlocksToRetry _ _ _ | .recoverStuckDownloads _ _ => true
  | .onPeerDisconnected _ _ _ | .cleanupExpiredOrphans _ _ => true
  | .onBlockReceivedFrom _ _ _ _ _ | .markBlockOrphan _ _ _ _ _ | .clear => true
  | _ => false

namespace ChainSync

variable {B : Type} (s : ChainSync B)

/-- The queue, the blocks in flight and the orphan pool, with all else blanked out. -/
def stock : ChainSync B :=
  { (new 0 Hash.zero : ChainSync B) with
    pendingRequests := s.pendingRequests
    orphanBlocks := s.orphanBlocks
    orphanByParent := s.orphanByParent
    pendingHeaders := s.pendingHeaders
    pendingHeaderPeer := s.pendingHeaderPeer
    headersPerPeer := s.headersPerPeer
    downloading := s.downloading
    downloadTimestamps := s.downloadTimestamps
    orphansPerPeer := s.orphansPerPeer }

/-- **An operation that moves no blocks** leaves the stock alone. -/
theorem step_stock {V : BlockView B} {s s' : ChainSync B} {op : SyncOp B}
    (hquiet : op.movesBlocks = false) (h : s.step V op = some s') : s'.stock = s.stock := by
  cases op with
  | setLocalTip | updatePeerHeightFor | updatePeerHeight | onBlockProcessed | retainConnectedPeers
  | updatePeerDifficultyFor | expireStaleWorkClaims | beginHeadersRequest | validateHeaderNonce
  | cancelHeadersRequest | triggerResync | armNearTipCatchup =>
    cases h
    simp only [setLocalTip, updatePeerHeightFor, updatePeerHeight, onBlockProcessed,
      retainConnectedPeers, updatePeerDifficultyFor, expireStaleWorkClaims, beginHeadersRequest,
      validateHeaderNonce, cancelHeadersRequest, consumeHeaderNonce, triggerResync,
      armNearTipCatchup]
    split_ifs <;> rfl
  | setLocalHeight | setState | setLocalTotalDifficulty | removePeerHeight | onBlockSuccess
  | increaseTimeout | cleanupSyncBans | setLastSyncPeer | resetHeadersTimeout =>
    cases h
    rfl
  | _ => cases hquiet

end ChainSync

/-! ## 4. Operations that fetch, and operations that judge no peer -/

/-- Does the operation change the claims of work, their maximum or the bans? -/
def SyncOp.judgesPeers {B : Type} : SyncOp B → Bool
  | .updatePeerDifficultyFor _ _ _ | .setLocalTotalDifficulty _ | .removePeerHeight _ => true
  | .retainConnectedPeers _ | .expireStaleWorkClaims _ _ | .onPeerDisconnected _ _ _ => true
  | .onTimeout _ _ | .cleanupSyncBans _ => true
  | _ => false

/-- Is the operation about the queue and the blocks in flight alone? -/
def SyncOp.fetches {B : Type} : SyncOp B → Bool
  | .queueHeaders _ _ | .queueHeadersFromPeer _ _ _ | .getBlocksToRequest _ _ => true
  | .recordRequest _ _ _ _ | .markBlockReceived _ | .markBlockFailed _ => true
  | .requeueFailed _ _ | .getBlocksToRetry _ _ _ | .recoverStuckDownloads _ _ => true
  | _ => false

namespace ChainSync

variable {B : Type} (s : ChainSync B)

/-- The claims of work and the bans, with all else blanked out. -/
def standing : ChainSync B :=
  { (new 0 Hash.zero : ChainSync B) with
    peerDifficulties := s.peerDifficulties
    peerDifficultySeenAt := s.peerDifficultySeenAt
    bestKnownDifficulty := s.bestKnownDifficulty
    localTotalDifficulty := s.localTotalDifficulty
    syncBannedPeers := s.syncBannedPeers }

/-- The claims of work, the bans and the orphan pool, with all else blanked out. -/
def sansFetch : ChainSync B :=
  { s.standing with
    orphanBlocks := s.orphanBlocks
    orphanByParent := s.orphanByParent
    orphansPerPeer := s.orphansPerPeer }

@[simp] theorem sansFetch_leaveSynced (now : Nat) (anyWork : Bool) :
    (s.leaveSynced now anyWork).sansFetch = s.sansFetch := by
  unfold leaveSynced
  split <;> rfl

theorem sansFetch_of_sansQueue {s s' : ChainSync B} (h : s'.sansQueue = s.sansQueue) :
    s'.sansFetch = s.sansFetch :=
  view_eq_of_blank sansFetch h

@[simp] theorem sansFetch_requeueAll (hashes : List Hash) :
    (s.requeueAll hashes).sansFetch = s.sansFetch :=
  sansFetch_of_sansQueue (s.sansQueue_requeueAll hashes)

@[simp] theorem sansFetch_requeueDownloads (hashes : List Hash) :
    (s.requeueDownloads hashes).sansFetch = s.sansFetch :=
  sansFetch_of_sansQueue (s.sansQueue_requeueDownloads hashes)

theorem sansFetch_queueHeadersInner (headers : List Hash) (peer : Option PeerId) (now : Nat) :
    (s.queueHeadersInner headers peer now).sansFetch = s.sansFetch := by
  by_cases hnil : headers = []
  · simp only [queueHeadersInner, if_pos hnil]
    split_ifs <;> rfl
  · have hqueued : (s.enqueue headers peer).sansFetch = s.sansFetch :=
      (sansFetch_of_sansQueue (s.sansQueue_enqueue headers peer)).trans rfl
    rw [queueHeadersInner_of_ne_nil s hnil]
    split_ifs
    · exact hqueued
    · exact hqueued

theorem sansFetch_getBlocksToRetry (now : Nat) (expired stuck : List Hash) :
    (s.getBlocksToRetry now expired stuck).2.sansFetch = s.sansFetch := by
  have hrequeued : (((s.requeueAll expired).requeueDownloads stuck).leaveSynced now
      (!expired.isEmpty || !stuck.isEmpty)).sansFetch = s.sansFetch := by simp
  unfold getBlocksToRetry
  simp only
  split_ifs
  · exact hrequeued
  · exact hrequeued

theorem sansFetch_queueParent (parent : Hash) :
    (s.queueParent parent).sansFetch = s.sansFetch := by
  unfold queueParent
  simp only
  split_ifs <;> rfl

/-- **An operation that only fetches** leaves the standing and the orphan pool alone. -/
theorem step_fetch {V : BlockView B} {s s' : ChainSync B} {op : SyncOp B}
    (hfetch : op.fetches = true) (h : s.step V op = some s') : s'.sansFetch = s.sansFetch := by
  have hguarded : ∀ {t : ChainSync B} {ok : Bool}, t.guarded ok = some s' → s' = t :=
    fun hok => (guarded_eq_some_iff.mp hok).2.symm
  cases op with
  | queueHeaders headers now =>
    cases h
    exact s.sansFetch_queueHeadersInner headers none now
  | queueHeadersFromPeer peer headers now =>
    cases h
    exact s.sansFetch_queueHeadersInner headers (some peer) now
  | getBlocksToRequest max now =>
    cases h
    exact sansFetch_of_sansQueue (s.sansQueue_getBlocksToRequest max now)
  | recordRequest hash peer ts oldest =>
    rw [hguarded h]
    exact sansFetch_of_sansQueue (s.sansQueue_recordRequest hash peer ts oldest)
  | markBlockReceived hash =>
    cases h
    simp only [markBlockReceived]
    split <;> rfl
  | markBlockFailed hash =>
    cases h
    rfl
  | requeueFailed hashes now =>
    cases h
    exact (sansFetch_leaveSynced _ now _).trans (s.sansFetch_requeueAll hashes.reverse)
  | getBlocksToRetry now expired stuck =>
    rw [hguarded h]
    exact s.sansFetch_getBlocksToRetry now expired stuck
  | recoverStuckDownloads now order =>
    rw [hguarded h]
    exact (sansFetch_leaveSynced _ now _).trans (s.sansFetch_requeueDownloads order)
  | _ => cases hfetch

theorem standing_of_sansOrphans {s s' : ChainSync B} (h : s'.sansOrphans = s.sansOrphans) :
    s'.standing = s.standing :=
  view_eq_of_blank standing h

/-- **An operation that judges no peer** leaves the standing alone. -/
theorem step_standing {V : BlockView B} {s s' : ChainSync B} {op : SyncOp B}
    (hquiet : op.judgesPeers = false) (h : s.step V op = some s') : s'.standing = s.standing := by
  cases op with
  | setLocalTip | updatePeerHeightFor | updatePeerHeight | onBlockProcessed | beginHeadersRequest
  | validateHeaderNonce | cancelHeadersRequest | triggerResync | armNearTipCatchup =>
    cases h
    simp only [setLocalTip, updatePeerHeightFor, updatePeerHeight, onBlockProcessed,
      beginHeadersRequest, validateHeaderNonce, cancelHeadersRequest, consumeHeaderNonce,
      triggerResync, armNearTipCatchup]
    split_ifs <;> rfl
  | setLocalHeight | setState | onBlockSuccess | increaseTimeout
  | setLastSyncPeer | resetHeadersTimeout | clear =>
    cases h
    rfl
  | cleanupExpiredOrphans now order =>
    rw [← (guarded_eq_some_iff.mp h).2]
    exact standing_of_sansOrphans (s.sansOrphans_cleanupExpiredOrphans V now order)
  | onBlockReceivedFrom block origin now expired evicted =>
    rcases s.sansOrphans_onBlockReceivedFrom h with hsans | hsans
    · rw [standing_of_sansOrphans hsans]
      cases origin <;> rfl
    · exact (standing_of_sansOrphans hsans).trans rfl
  | markBlockOrphan block origin parent now evicted =>
    exact (standing_of_sansOrphans (s.sansOrphans_markBlockOrphan h)).trans
      (view_eq_of_blank standing (sansFetch_queueParent _ parent))
  | updatePeerDifficultyFor | setLocalTotalDifficulty | removePeerHeight | retainConnectedPeers
  | expireStaleWorkClaims | onPeerDisconnected | onTimeout | cleanupSyncBans => cases hquiet
  | _ => exact view_eq_of_blank standing (step_fetch rfl h)

end ChainSync

end Coincync
