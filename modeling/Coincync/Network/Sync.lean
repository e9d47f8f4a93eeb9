/-
# Chain synchronisation: the state machine

`ChainSync` of `src/network/sync.rs`: what a node knows of its peers' chains (heights and claims of
cumulative work), the headers it still has to fetch, the blocks in flight, the pool of orphans, and
the cycle of header requests.  Every operation that changes the state is here, each with everything
it writes.
-/
import Coincync.Primitives
import Coincync.Lib.Maps
import Coincync.Lib.Runs

namespace Coincync

open Lib

/-! ## 1. Data -/

structure PeerId where
  bytes : FixedBytes 32
  deriving DecidableEq

inductive SyncState
  | idle
  | headers
  | blocks
  | confirmingSynced
  | synced
  deriving DecidableEq

/-- `SyncState::Synced | SyncState::Idle | SyncState::ConfirmingSynced`. -/
def SyncState.isSettled : SyncState → Bool
  | .synced | .idle | .confirmingSynced => true
  | .headers | .blocks => false

structure BlockRequest where
  requestedFrom : PeerId
  requestedAt : Nat
  deriving DecidableEq

/-- `OrphanBlock`, with the peer it came from. -/
structure OrphanBlock (B : Type) where
  block : B
  receivedAt : Nat
  origin : Option PeerId

/-- What the synchroniser looks at in a block. -/
structure BlockView (B : Type) where
  hash : B → Hash
  height : B → Nat
  prevHash : B → Hash
  target : B → Hash

def maxOrphanBlocks : Nat := 1000

def maxPendingRequests : Nat := 10000

def orphanTtlSeconds : Nat := 30 * 60

def orphanCleanupInterval : Nat := 60

/-- `MAX_ORPHANS_PER_PEER`: `usize::MAX`. -/
def maxOrphansPerPeer : Nat := 2 ^ 64 - 1

def stuckDownloadTimeoutSecs : Nat := 8

def maxHeadersPerPeer : Nat := 5000

/-- `MAX_PH`, the capacity of the header queue. -/
def maxPendingHeaders : Nat := 50000

/-- How far above its own height a node believes a peer. -/
def maxHeightLead : Nat := 10000

structure ChainSync (B : Type) where
  localHeight : Nat
  localTip : Hash
  bestKnownHeight : Nat
  state : SyncState
  pendingRequests : Map Hash BlockRequest
  orphanBlocks : Map Hash (OrphanBlock B)
  orphanByParent : Map Hash (List Hash)
  pendingHeaders : List Hash
  pendingHeaderPeer : Map Hash PeerId
  headersPerPeer : Map PeerId Nat
  downloading : Finset Hash
  downloadTimestamps : Map Hash Nat
  maxConcurrent : Nat
  requestTimeout : Nat
  lastOrphanCleanup : Nat
  peerFailures : Map PeerId Nat
  syncBannedPeers : Map PeerId Nat
  lastSyncPeer : Option PeerId
  headersRequestTime : Option Nat
  headersReceivedThisCycle : Bool
  peerHeights : Map PeerId Nat
  pendingHeaderNonces : Map Nat (PeerId × Nat)
  headerNonceGeneration : Nat
  nextHeaderNonce : Nat
  orphansPerPeer : Map PeerId Nat
  blocksEnteredAt : Option Nat
  peerDifficulties : Map PeerId Nat
  bestKnownDifficulty : Nat
  localTotalDifficulty : Nat
  peerDifficultySeenAt : Map PeerId Nat

namespace ChainSync

variable {B : Type}

def new (localHeight : Nat) (localTip : Hash) : ChainSync B where
  localHeight := localHeight
  localTip := localTip
  bestKnownHeight := localHeight
  state := .idle
  pendingRequests := ∅
  orphanBlocks := ∅
  orphanByParent := ∅
  pendingHeaders := []
  pendingHeaderPeer := ∅
  headersPerPeer := ∅
  downloading := ∅
  downloadTimestamps := ∅
  maxConcurrent := 100
  requestTimeout := 30
  lastOrphanCleanup := 0
  peerFailures := ∅
  syncBannedPeers := ∅
  lastSyncPeer := none
  headersRequestTime := none
  headersReceivedThisCycle := false
  peerHeights := ∅
  pendingHeaderNonces := ∅
  headerNonceGeneration := 0
  nextHeaderNonce := 1
  orphansPerPeer := ∅
  blocksEnteredAt := none
  peerDifficulties := ∅
  bestKnownDifficulty := 0
  localTotalDifficulty := 0
  peerDifficultySeenAt := ∅

variable (s : ChainSync B)

/-! ## 2. Heights and the local tip -/

def refreshBestKnown : ChainSync B :=
  { s with bestKnownHeight := max s.localHeight (Map.peak s.peerHeights) }

def trueBestHeight : Nat := max s.bestKnownHeight (Map.peak s.peerHeights)

def isSynced : Bool := decide (s.trueBestHeight ≤ s.localHeight)

/-- Start the header cycle again: `Headers`, with no request in flight. -/
def rearmHeaders : ChainSync B :=
  { s with state := .headers, headersRequestTime := none, headersReceivedThisCycle := false }

def pruneStalePeerHeights : ChainSync B :=
  { s with peerHeights := Map.retain (fun _ h => decide (s.localHeight < h)) s.peerHeights }

def setLocalTip (height : Nat) (tip : Hash) : ChainSync B :=
  let s := ({ s with localHeight := height, localTip := tip } :
    ChainSync B).pruneStalePeerHeights.refreshBestKnown
  if s.bestKnownHeight ≤ s.localHeight ∧ s.pendingHeaders = [] ∧ s.downloading = ∅ then
    { s with state := .synced }
  else s

def setLocalHeight (height : Nat) : ChainSync B := { s with localHeight := height }

def updatePeerHeightFor (peer : PeerId) (height : Nat) : ChainSync B :=
  if s.localHeight + maxHeightLead < height then s
  else if height ≤ s.localHeight then
    ({ s with peerHeights := s.peerHeights.erase peer } : ChainSync B).refreshBestKnown
  else
    let s := ({ s with peerHeights := s.peerHeights.insert peer height } :
      ChainSync B).refreshBestKnown
    if s.state.isSettled then s.rearmHeaders else s

/-- `update_peer_height`: a height nobody is recorded for. -/
def updatePeerHeight (height : Nat) : ChainSync B :=
  if s.localHeight + maxHeightLead < height then s
  else { s with bestKnownHeight := max (max s.bestKnownHeight height) s.localHeight }

def onBlockProcessed (hash : Hash) (height : Nat) : ChainSync B :=
  let s := ({ s with localHeight := height, localTip := hash } : ChainSync B).refreshBestKnown
  if s.pendingHeaders = [] ∧ s.downloading = ∅ then
    let s := { s with blocksEnteredAt := none, headersReceivedThisCycle := false }
    if height < s.trueBestHeight - 1 then { s with state := .headers }
    else if height = 0 ∧ s.peerHeights.keys ≠ ∅ ∧ Map.peak s.peerHeights = 0 then
      { s with state := .headers }
    else { s with state := .confirmingSynced }
  else s

def setState (state : SyncState) : ChainSync B :=
  { s with
    blocksEnteredAt := if state = .blocks then s.blocksEnteredAt else none
    state := state }

/-! ## 3. Claims of cumulative work -/

def recomputeBestDifficulty : ChainSync B :=
  { s with bestKnownDifficulty := max s.localTotalDifficulty (Map.peak s.peerDifficulties) }

/-- Drop a peer's claim and the time it was made. -/
def dropClaim (peer : PeerId) : ChainSync B :=
  { s with
    peerDifficulties := s.peerDifficulties.erase peer
    peerDifficultySeenAt := s.peerDifficultySeenAt.erase peer }

/-- The most a peer may claim: twice what has been observed, and at least `2 ^ 60`. -/
def claimCap : Nat :=
  let observedMax :=
    if s.peerDifficulties.keys = ∅ then s.bestKnownDifficulty else Map.peak s.peerDifficulties
  max (min (observedMax * 2) (2 ^ 128 - 1)) (2 ^ 60)

def updatePeerDifficultyFor (peer : PeerId) (totalDifficulty now : Nat) : ChainSync B :=
  if s.claimCap < totalDifficulty then s
  else if totalDifficulty ≤ s.localTotalDifficulty then (s.dropClaim peer).recomputeBestDifficulty
  else
    let s := ({ s with
      peerDifficulties := s.peerDifficulties.insert peer totalDifficulty
      peerDifficultySeenAt := s.peerDifficultySeenAt.insert peer now } :
        ChainSync B).recomputeBestDifficulty
    if s.state.isSettled then s.rearmHeaders else s

def setLocalTotalDifficulty (totalDifficulty : Nat) : ChainSync B :=
  let live := Map.retain (fun _ d => decide (totalDifficulty < d)) s.peerDifficulties
  ({ s with
    localTotalDifficulty := totalDifficulty
    peerDifficulties := live
    peerDifficultySeenAt :=
      Map.retain (fun p _ => decide (p ∈ live.keys)) s.peerDifficultySeenAt } :
        ChainSync B).recomputeBestDifficulty

def removePeerHeight (peer : PeerId) : ChainSync B :=
  (({ s with peerHeights := s.peerHeights.erase peer } :
    ChainSync B).dropClaim peer).refreshBestKnown.recomputeBestDifficulty

/-- `retain_connected_peers`.  Whether the maxima are derived again depends on the heights that
were dropped and on the claims that are LEFT, not on the claims that were dropped. -/
def retainConnectedPeers (connected : Finset PeerId) : ChainSync B :=
  let before := s.peerHeights.keys.card
  let s := { s with
    peerHeights := Map.retain (fun p _ => decide (p ∈ connected)) s.peerHeights
    peerDifficulties := Map.retain (fun p _ => decide (p ∈ connected)) s.peerDifficulties
    peerDifficultySeenAt := Map.retain (fun p _ => decide (p ∈ connected)) s.peerDifficultySeenAt }
  let pruned := before - s.peerHeights.keys.card
  if 0 < pruned ∨ s.peerDifficulties.keys ≠ ∅ then s.refreshBestKnown.recomputeBestDifficulty else s

def expireStaleWorkClaims (now ttl : Nat) : ChainSync B :=
  let cutoff := now - ttl
  let stale := s.peerDifficultySeenAt.keys.filter fun p =>
    (s.peerDifficultySeenAt.lookup p).any fun seen => decide (seen < cutoff)
  let s' := { s with
    peerDifficulties := Map.retain (fun p _ => decide (p ∉ stale)) s.peerDifficulties
    peerDifficultySeenAt := Map.retain (fun p _ => decide (p ∉ stale)) s.peerDifficultySeenAt }
  if stale = ∅ then s' else s'.recomputeBestDifficulty

/-! ## 4. The header queue -/

/-- `Blocks`, with the time it was entered unless it is known. -/
def enterBlocks (now : Nat) : ChainSync B :=
  { s with state := .blocks, blocksEnteredAt := some (s.blocksEnteredAt.getD now) }

/-- A node that was `Synced` is not any more once there is work in the queue. -/
def leaveSynced (now : Nat) (anyWork : Bool) : ChainSync B :=
  if anyWork = true ∧ s.state = .synced then s.enterBlocks now else s

/-- The loop of `queue_headers_inner`, with the number of headers added for the peer. -/
def queueLoop (peer : Option PeerId) (room : Option Nat) :
    List Hash → ChainSync B → Nat → ChainSync B × Nat
  | [], s, added => (s, added)
  | hash :: rest, s, added =>
    if maxPendingHeaders ≤ s.pendingHeaders.length then (s, added)
    else if room.any (fun cap => decide (cap ≤ added)) = true then (s, added)
    else if hash ∉ s.downloading ∧ hash ∉ s.orphanBlocks.keys ∧ hash ∉ s.pendingHeaderPeer.keys then
      match peer with
      | some p =>
        queueLoop peer room rest
          { s with
            pendingHeaders := s.pendingHeaders ++ [hash]
            pendingHeaderPeer := s.pendingHeaderPeer.insert hash p } (added + 1)
      | none =>
        queueLoop peer room rest { s with pendingHeaders := s.pendingHeaders ++ [hash] } added
    else queueLoop peer room rest s added

/-- `queue_headers_inner`: `queue_headers` with no peer, `queue_headers_from_peer` with one. -/
def queueHeadersInner (headers : List Hash) (peer : Option PeerId) (now : Nat) : ChainSync B :=
  if headers = [] then
    let s := if s.state = .confirmingSynced ∧ 0 < s.localHeight then { s with state := .synced } else s
    if (s.state = .headers ∨ s.state = .confirmingSynced) ∧ s.localHeight + 2 < s.trueBestHeight then
      { s with state := .headers, headersRequestTime := none }
    else s
  else
    let room := peer.map fun p => maxHeadersPerPeer - (s.headersPerPeer.lookup p).getD 0
    let r := queueLoop peer room headers { s with headersReceivedThisCycle := true } 0
    let s := match peer with
      | some p =>
        if 0 < r.2 then
          { r.1 with
            headersPerPeer :=
              r.1.headersPerPeer.insert p ((r.1.headersPerPeer.lookup p).getD 0 + r.2) }
        else r.1
      | none => r.1
    if s.pendingHeaders = [] then s else s.enterBlocks now

def untrackPendingHeader (hash : Hash) : ChainSync B :=
  match s.pendingHeaderPeer.lookup hash with
  | none => s
  | some peer =>
    let s := { s with pendingHeaderPeer := s.pendingHeaderPeer.erase hash }
    match s.headersPerPeer.lookup peer with
    | some count =>
      if 1 < count then { s with headersPerPeer := s.headersPerPeer.insert peer (count - 1) }
      else { s with headersPerPeer := s.headersPerPeer.erase peer }
    | none => s

/-- The loop of `get_blocks_to_request` over the queue, with room for `room` more requests. -/
def requestLoop (now : Nat) : List Hash → Nat → ChainSync B → List Hash → List Hash × ChainSync B
  | [], _, s, out => (out, s)
  | _ :: _, 0, s, out => (out, s)
  | hash :: rest, room + 1, s, out =>
    let s := ({ s with pendingHeaders := rest } : ChainSync B).untrackPendingHeader hash
    if hash ∈ s.downloading then requestLoop now rest (room + 1) s out
    else
      requestLoop now rest room
        { s with
          downloading := insert hash s.downloading
          downloadTimestamps := s.downloadTimestamps.insert hash now } (out ++ [hash])

def getBlocksToRequest (max now : Nat) : List Hash × ChainSync B :=
  requestLoop now s.pendingHeaders (min max (s.maxConcurrent - s.downloading.card)) s []

/-! ## 5. Blocks in flight -/

/-- Forget a download that no request stands for any more. -/
def dropDownload (hash : Hash) : ChainSync B :=
  { s with
    downloading := s.downloading.erase hash
    downloadTimestamps := s.downloadTimestamps.erase hash }

/-- Put a hash at the head of the queue. -/
def pushFront (hash : Hash) : ChainSync B := { s with pendingHeaders := hash :: s.pendingHeaders }

/-- Forget a request and its download. -/
def dropRequest (hash : Hash) : ChainSync B :=
  ({ s with pendingRequests := s.pendingRequests.erase hash } : ChainSync B).dropDownload hash

/-- Take a request back and queue its hash again. -/
def requeue (hash : Hash) : ChainSync B := (s.dropRequest hash).pushFront hash

/-- `record_request` has to make room. -/
def requestsFull (hash : Hash) : Bool :=
  decide (maxPendingRequests ≤ s.pendingRequests.keys.card ∧ hash ∉ s.pendingRequests.keys)

/-- A request that no other is older than. -/
def isOldestRequest (hash : Hash) : Bool :=
  (s.pendingRequests.lookup hash).any fun r =>
    decide (∀ k ∈ s.pendingRequests.keys,
      (s.pendingRequests.lookup k).all fun r' => decide (r.requestedAt ≤ r'.requestedAt))

/-- `record_request`, which evicts `oldest` if it has to make room. -/
def recordRequest (hash : Hash) (peer : PeerId) (ts : Nat) (oldest : Hash) : ChainSync B :=
  let s := if s.requestsFull hash = true then s.dropRequest oldest else s
  { s with
    downloading := insert hash s.downloading
    downloadTimestamps := Map.orInsert s.downloadTimestamps hash ts
    pendingRequests := s.pendingRequests.insert hash ⟨peer, ts⟩ }

def onBlockSuccess (peer : PeerId) : ChainSync B :=
  { s with
    peerFailures := s.peerFailures.erase peer
    requestTimeout := max (s.requestTimeout * 85 / 100) 15 }

def markBlockReceived (hash : Hash) : ChainSync B :=
  let s' := s.dropRequest hash
  match s.pendingRequests.lookup hash with
  | some req => s'.onBlockSuccess req.requestedFrom
  | none => s'

def markBlockFailed (hash : Hash) : ChainSync B := s.requeue hash

def increaseTimeout : ChainSync B := { s with requestTimeout := min (s.requestTimeout * 2) 64 }

/-- The third failure of a peer: it is banned for five minutes and loses its claim. -/
def banPeer (peer : PeerId) (now : Nat) : ChainSync B :=
  (({ s with
    syncBannedPeers := s.syncBannedPeers.insert peer (now + 300)
    peerFailures := s.peerFailures.erase peer } :
      ChainSync B).dropClaim peer).recomputeBestDifficulty

def onTimeout (hash : Hash) (now : Nat) : ChainSync B :=
  let s' := match s.pendingRequests.lookup hash with
    | none => s
    | some req =>
      let s := { s with pendingRequests := s.pendingRequests.erase hash }
      let c := (s.peerFailures.lookup req.requestedFrom).getD 0 + 1
      if 3 ≤ c then s.banPeer req.requestedFrom now
      else { s with peerFailures := s.peerFailures.insert req.requestedFrom c }
  (s'.dropDownload hash).pushFront hash

def cleanupSyncBans (now : Nat) : ChainSync B :=
  { s with syncBannedPeers := Map.retain (fun _ t => decide (t ≤ now)) s.syncBannedPeers }

def isSyncBanned (peer : PeerId) (now : Nat) : Bool :=
  (s.syncBannedPeers.lookup peer).any fun t => decide (now < t)

/-- `requeue_failed`: the last hash goes to the queue first. -/
def requeueFailed (hashes : List Hash) (now : Nat) : ChainSync B :=
  (hashes.reverse.foldl requeue s).leaveSynced now (!hashes.isEmpty)

/-- The requests that have timed out. -/
def timedOut (now : Nat) : Finset Hash :=
  s.pendingRequests.keys.filter fun h =>
    (s.pendingRequests.lookup h).any fun r => decide (r.requestedAt + s.requestTimeout < now)

/-- The downloads that no request stands for and that have been there too long. -/
def stuckDownloads (now : Nat) : Finset Hash :=
  s.downloadTimestamps.keys.filter fun h =>
    decide (h ∉ s.pendingRequests.keys) &&
      (s.downloadTimestamps.lookup h).any fun entered =>
        decide (entered + stuckDownloadTimeoutSecs < now)

/-- The first loop of `get_blocks_to_retry`. -/
def requeueAll (hashes : List Hash) : ChainSync B := hashes.foldl requeue s

/-- The second one: these have no request. -/
def requeueDownloads (hashes : List Hash) : ChainSync B :=
  hashes.foldl (fun s h => (s.dropDownload h).pushFront h) s

/-- `get_blocks_to_retry`, walking the timed-out requests and the stuck downloads in these
orders. -/
def getBlocksToRetry (now : Nat) (expired stuck : List Hash) : List Hash × ChainSync B :=
  let s := ((s.requeueAll expired).requeueDownloads stuck).leaveSynced now
    (!expired.isEmpty || !stuck.isEmpty)
  let s :=
    if 5 ≤ stuck.length ∧ s.state = .blocks then
      { s.rearmHeaders with
        blocksEnteredAt := none
        pendingHeaders := []
        pendingHeaderPeer := ∅
        headersPerPeer := ∅ }
    else s
  (expired ++ stuck, s)

/-- The downloads without a request. -/
def unrequested : Finset Hash := s.downloading.filter fun h => h ∉ s.pendingRequests.keys

/-- `recover_stuck_downloads`, in this order. -/
def recoverStuckDownloads (now : Nat) (order : List Hash) : ChainSync B :=
  (s.requeueDownloads order).leaveSynced now (!order.isEmpty)

/-- The requests that went to a peer. -/
def requestsOf (peer : PeerId) : Finset Hash :=
  s.pendingRequests.keys.filter fun h =>
    (s.pendingRequests.lookup h).any fun r => decide (r.requestedFrom = peer)

/-- `on_peer_disconnected`, walking the peer's requests in this order. -/
def onPeerDisconnected (peer : PeerId) (now : Nat) (order : List Hash) : ChainSync B :=
  let s := ({ s with
    peerFailures := s.peerFailures.erase peer
    peerHeights := s.peerHeights.erase peer
    peerDifficulties := s.peerDifficulties.erase peer
    orphansPerPeer := s.orphansPerPeer.erase peer } :
      ChainSync B).refreshBestKnown.recomputeBestDifficulty
  (s.requeueAll order).leaveSynced now (!order.isEmpty)

/-! ## 6. The pool of orphans -/

/-- Take a hash off the list of a parent, and the list itself when that leaves it empty. -/
def unlinkOrphan (parent hash : Hash) : ChainSync B :=
  match s.orphanByParent.lookup parent with
  | none => s
  | some children =>
    let children := children.filter fun h => h ≠ hash
    { s with
      orphanByParent :=
        if children = [] then s.orphanByParent.erase parent
        else s.orphanByParent.insert parent children }

/-- Remove an orphan from the pool. -/
def removeOrphan (V : BlockView B) (hash : Hash) : ChainSync B :=
  match s.orphanBlocks.lookup hash with
  | none => s
  | some o =>
    ({ s with orphanBlocks := s.orphanBlocks.erase hash } :
      ChainSync B).unlinkOrphan (V.prevHash o.block) hash

/-- The orphans that are older than half an hour. -/
def expiredOrphans (now : Nat) : Finset Hash :=
  s.orphanBlocks.keys.filter fun h =>
    (s.orphanBlocks.lookup h).any fun o => decide (o.receivedAt ≤ now - orphanTtlSeconds)

/-- The clock of the clean-up runs at most once a minute, and follows a clock set back. -/
def cleanupDue (now : Nat) : Bool :=
  decide (min s.lastOrphanCleanup now + orphanCleanupInterval ≤ now)

/-- `cleanup_expired_orphans`, walking the expired orphans in this order. -/
def cleanupExpiredOrphans (V : BlockView B) (now : Nat) (order : List Hash) : ChainSync B :=
  if s.cleanupDue now = true then
    order.foldl (fun s h => s.removeOrphan V h) { s with lastOrphanCleanup := now }
  else { s with lastOrphanCleanup := min s.lastOrphanCleanup now }

/-- An orphan that no other is older than. -/
def isOldestOrphan (hash : Hash) : Bool :=
  (s.orphanBlocks.lookup hash).any fun o =>
    decide (∀ k ∈ s.orphanBlocks.keys,
      (s.orphanBlocks.lookup k).all fun o' => decide (o.receivedAt ≤ o'.receivedAt))

/-- The eviction loop: the oldest orphans go until there is room, in this order. -/
def evictOrphans (V : BlockView B) : List Hash → ChainSync B → Option (ChainSync B)
  | [], s => if s.orphanBlocks.keys.card < maxOrphanBlocks then some s else none
  | h :: rest, s =>
    if maxOrphanBlocks ≤ s.orphanBlocks.keys.card ∧ s.isOldestOrphan h = true then
      evictOrphans V rest (s.removeOrphan V h)
    else none

/-- Count an orphan for its peer, unless the peer's share is used up. -/
def admitOrphan : Option PeerId → Bool × ChainSync B
  | none => (true, s)
  | some p =>
    let c := (s.orphansPerPeer.lookup p).getD 0
    if maxOrphansPerPeer ≤ c then
      (false, { s with orphansPerPeer := s.orphansPerPeer.insert p c })
    else (true, { s with orphansPerPeer := s.orphansPerPeer.insert p (c + 1) })

/-- File an orphan under its hash and under its parent's. -/
def fileOrphan (V : BlockView B) (block : B) (origin : Option PeerId) (now : Nat) : ChainSync B :=
  let parent := V.prevHash block
  { s with
    orphanByParent :=
      s.orphanByParent.insert parent ((s.orphanByParent.lookup parent).getD [] ++ [V.hash block])
    orphanBlocks := s.orphanBlocks.insert (V.hash block) ⟨block, now, origin⟩ }

/-- Take one waiting child out of the pool; its origin is credited. -/
def releaseOrphan (child : Hash) : Option B × ChainSync B :=
  match s.orphanBlocks.lookup child with
  | none => (none, s)
  | some o =>
    let s := { s with orphanBlocks := s.orphanBlocks.erase child }
    let s := match o.origin with
      | none => s
      | some p =>
        match s.orphansPerPeer.lookup p with
        | none => s
        | some c => { s with orphansPerPeer := s.orphansPerPeer.insert p (c - 1) }
    (some o.block, s)

/-- The children of one parent, in the order they came. -/
def releaseChildren : List Hash → ChainSync B → List B → List B × ChainSync B
  | [], s, out => (out, s)
  | child :: rest, s, out =>
    let r := s.releaseOrphan child
    releaseChildren rest r.2 (out ++ r.1.toList)

/-- The walk of `on_block_received_from` from a block to the orphans that wait for it. -/
def drainOrphans (V : BlockView B) : Nat → List Hash → ChainSync B → List B → List B × ChainSync B
  | 0, _, s, out => (out, s)
  | _ + 1, [], s, out => (out, s)
  | fuel + 1, parent :: queue, s, out =>
    match s.orphanByParent.lookup parent with
    | none => drainOrphans V fuel queue s out
    | some children =>
      let r := releaseChildren children
        { s with orphanByParent := s.orphanByParent.erase parent } []
      drainOrphans V fuel (queue ++ r.1.map V.hash) r.2 (out ++ r.1)

def countFailure : Option PeerId → ChainSync B
  | none => s
  | some p => { s with peerFailures := s.peerFailures.insert p ((s.peerFailures.lookup p).getD 0 + 1) }

/-- The checks at the entry of `on_block_received_from`. -/
def passesEntryChecks (V : BlockView B) (block : B) : Bool :=
  decide (V.height block ≤ s.localHeight + maxHeightLead) &&
    !((V.target block).asSlice.all (· == 0xFF) || (V.target block).asSlice.all (· == 0)) &&
      (V.hash block).meetsDifficulty (V.target block)

/-- `on_block_received_from`, with the orders of the clean-up and of the eviction: the blocks that
can be processed now. -/
def onBlockReceivedFrom (V : BlockView B) (block : B) (origin : Option PeerId) (now : Nat)
    (expired evicted : List Hash) : Option (List B × ChainSync B) :=
  if s.passesEntryChecks V block = false then some ([], s.countFailure origin)
  else
    let hash := V.hash block
    let requested := decide (hash ∈ s.downloading)
    let s := (s.cleanupExpiredOrphans V now expired).dropRequest hash
    if V.prevHash block = s.localTip ∨ V.height block = 0 ∨ requested = true then
      some (drainOrphans V (s.orphanBlocks.keys.card + 1) [hash] s [block])
    else
      (evictOrphans V evicted s).map fun s =>
        let r := s.admitOrphan origin
        ([], if r.1 = true then r.2.fileOrphan V block origin now else r.2)

/-- `mark_block_orphan`, with the order of the eviction. -/
def markBlockOrphan (V : BlockView B) (block : B) (origin : Option PeerId) (parent : Hash)
    (now : Nat) (evicted : List Hash) : Option (ChainSync B) :=
  let hash := V.hash block
  let s := s.dropRequest hash
  let pooled :=
    if hash ∈ s.orphanBlocks.keys then some s
    else
      (evictOrphans V evicted s).map fun s =>
        let r := s.admitOrphan origin
        if r.1 = true then r.2.fileOrphan V block origin now else r.2
  pooled.map fun s =>
    if parent = s.localTip ∨ parent ∈ s.downloading ∨ parent ∈ s.pendingHeaders then s
    else if s.pendingHeaders.length < maxPendingHeaders then
      let s := s.pushFront parent
      if s.state.isSettled = true then { s with state := .blocks } else s
    else s

/-! ## 7. The cycle of header requests -/

def setLastSyncPeer (peer : PeerId) : ChainSync B := { s with lastSyncPeer := some peer }

def beginHeadersRequest (peer : PeerId) (now : Nat) : Option Nat × ChainSync B :=
  if s.headersRequestTime.isSome then (none, s)
  else
    (some s.nextHeaderNonce,
      { s with
        nextHeaderNonce := (s.nextHeaderNonce + 1) % 2 ^ 64
        pendingHeaderNonces :=
          s.pendingHeaderNonces.insert s.nextHeaderNonce (peer, s.headerNonceGeneration)
        headersRequestTime := some now })

/-- `validate_header_nonce` and `cancel_headers_request`: the nonce is outstanding, was issued to
this peer, and belongs to the current generation. -/
def consumeHeaderNonce (nonce : Nat) (peer : PeerId) : Bool × ChainSync B :=
  if s.pendingHeaderNonces.lookup nonce = some (peer, s.headerNonceGeneration) then
    (true,
      { s with
        pendingHeaderNonces := s.pendingHeaderNonces.erase nonce
        headersRequestTime := none })
  else (false, s)

def validateHeaderNonce (nonce : Nat) (peer : PeerId) : Bool × ChainSync B :=
  s.consumeHeaderNonce nonce peer

def cancelHeadersRequest (nonce : Nat) (peer : PeerId) : Bool × ChainSync B :=
  s.consumeHeaderNonce nonce peer

def resetHeadersTimeout : ChainSync B :=
  { s with
    headersRequestTime := none
    headerNonceGeneration := (s.headerNonceGeneration + 1) % 2 ^ 64
    pendingHeaderNonces := ∅ }

def triggerResync : Bool × ChainSync B :=
  if s.state = .synced ∨ s.state = .idle then (true, s.rearmHeaders) else (false, s)

def armNearTipCatchup : Bool × ChainSync B :=
  if (s.pendingHeaders = [] ∧ s.downloading = ∅ ∧ s.pendingRequests.keys = ∅) ∧ s.isSynced = false then
    (true, s.rearmHeaders)
  else (false, s)

def clear : ChainSync B :=
  { s with
    pendingRequests := ∅
    orphanBlocks := ∅
    orphanByParent := ∅
    orphansPerPeer := ∅
    pendingHeaders := []
    pendingHeaderPeer := ∅
    headersPerPeer := ∅
    downloading := ∅
    downloadTimestamps := ∅
    state := .idle
    blocksEnteredAt := none }

end ChainSync

/-! ## 8. Runs -/

/-- The operations of `ChainSync`, with the clock and the orders they walk in. -/
inductive SyncOp (B : Type)
  | setLocalTip (height : Nat) (tip : Hash)
  | setLocalHeight (height : Nat)
  | updatePeerHeightFor (peer : PeerId) (height : Nat)
  | updatePeerHeight (height : Nat)
  | onBlockProcessed (hash : Hash) (height : Nat)
  | setState (state : SyncState)
  | updatePeerDifficultyFor (peer : PeerId) (totalDifficulty now : Nat)
  | setLocalTotalDifficulty (totalDifficulty : Nat)
  | removePeerHeight (peer : PeerId)
  | retainConnectedPeers (connected : Finset PeerId)
  | expireStaleWorkClaims (now ttl : Nat)
  | queueHeaders (headers : List Hash) (now : Nat)
  | queueHeadersFromPeer (peer : PeerId) (headers : List Hash) (now : Nat)
  | getBlocksToRequest (max now : Nat)
  | recordRequest (hash : Hash) (peer : PeerId) (ts : Nat) (oldest : Hash)
  | onBlockSuccess (peer : PeerId)
  | markBlockReceived (hash : Hash)
  | markBlockFailed (hash : Hash)
  | increaseTimeout
  | onTimeout (hash : Hash) (now : Nat)
  | cleanupSyncBans (now : Nat)
  | requeueFailed (hashes : List Hash) (now : Nat)
  | getBlocksToRetry (now : Nat) (expired stuck : List Hash)
  | recoverStuckDownloads (now : Nat) (order : List Hash)
  | onPeerDisconnected (peer : PeerId) (now : Nat) (order : List Hash)
  | cleanupExpiredOrphans (now : Nat) (order : List Hash)
  | onBlockReceivedFrom (block : B) (origin : Option PeerId) (now : Nat)
      (expired evicted : List Hash)
  | markBlockOrphan (block : B) (origin : Option PeerId) (parent : Hash) (now : Nat)
      (evicted : List Hash)
  | setLastSyncPeer (peer : PeerId)
  | beginHeadersRequest (peer : PeerId) (now : Nat)
  | validateHeaderNonce (nonce : Nat) (peer : PeerId)
  | cancelHeadersRequest (nonce : Nat) (peer : PeerId)
  | resetHeadersTimeout
  | triggerResync
  | armNearTipCatchup
  | clear

namespace ChainSync

variable {B : Type}

/-- `order` walks `set`. -/
def walks (order : List Hash) (set : Finset Hash) : Bool :=
  decide (order.Nodup ∧ order.toFinset = set)

/-- The state if the orders are right. -/
def guarded (s : ChainSync B) (ok : Bool) : Option (ChainSync B) := if ok = true then some s else none

/-- One operation.  `none` is an order that no walk of the code has. -/
def step (V : BlockView B) (s : ChainSync B) : SyncOp B → Option (ChainSync B)
  | .setLocalTip height tip => some (s.setLocalTip height tip)
  | .setLocalHeight height => some (s.setLocalHeight height)
  | .updatePeerHeightFor peer height => some (s.updatePeerHeightFor peer height)
  | .updatePeerHeight height => some (s.updatePeerHeight height)
  | .onBlockProcessed hash height => some (s.onBlockProcessed hash height)
  | .setState state => some (s.setState state)
  | .updatePeerDifficultyFor peer d now => some (s.updatePeerDifficultyFor peer d now)
  | .setLocalTotalDifficulty d => some (s.setLocalTotalDifficulty d)
  | .removePeerHeight peer => some (s.removePeerHeight peer)
  | .retainConnectedPeers connected => some (s.retainConnectedPeers connected)
  | .expireStaleWorkClaims now ttl => some (s.expireStaleWorkClaims now ttl)
  | .queueHeaders headers now => some (s.queueHeadersInner headers none now)
  | .queueHeadersFromPeer peer headers now => some (s.queueHeadersInner headers (some peer) now)
  | .getBlocksToRequest max now => some (s.getBlocksToRequest max now).2
  | .recordRequest hash peer ts oldest =>
    (s.recordRequest hash peer ts oldest).guarded (!s.requestsFull hash || s.isOldestRequest oldest)
  | .onBlockSuccess peer => some (s.onBlockSuccess peer)
  | .markBlockReceived hash => some (s.markBlockReceived hash)
  | .markBlockFailed hash => some (s.markBlockFailed hash)
  | .increaseTimeout => some s.increaseTimeout
  | .onTimeout hash now => some (s.onTimeout hash now)
  | .cleanupSyncBans now => some (s.cleanupSyncBans now)
  | .requeueFailed hashes now => some (s.requeueFailed hashes now)
  | .getBlocksToRetry now expired stuck =>
    (s.getBlocksToRetry now expired stuck).2.guarded
      (walks expired (s.timedOut now) && walks stuck ((s.requeueAll expired).stuckDownloads now))
  | .recoverStuckDownloads now order =>
    (s.recoverStuckDownloads now order).guarded (walks order s.unrequested)
  | .onPeerDisconnected peer now order =>
    (s.onPeerDisconnected peer now order).guarded (walks order (s.requestsOf peer))
  | .cleanupExpiredOrphans now order =>
    (s.cleanupExpiredOrphans V now order).guarded (walks order (s.expiredOrphans now))
  | .onBlockReceivedFrom block origin now expired evicted =>
    ((s.onBlockReceivedFrom V block origin now expired evicted).map Prod.snd).bind fun s' =>
      s'.guarded (walks expired (s.expiredOrphans now))
  | .markBlockOrphan block origin parent now evicted =>
    s.markBlockOrphan V block origin parent now evicted
  | .setLastSyncPeer peer => some (s.setLastSyncPeer peer)
  | .beginHeadersRequest peer now => some (s.beginHeadersRequest peer now).2
  | .validateHeaderNonce nonce peer => some (s.validateHeaderNonce nonce peer).2
  | .cancelHeadersRequest nonce peer => some (s.cancelHeadersRequest nonce peer).2
  | .resetHeadersTimeout => some s.resetHeadersTimeout
  | .triggerResync => some s.triggerResync.2
  | .armNearTipCatchup => some s.armNearTipCatchup.2
  | .clear => some s.clear

end ChainSync

namespace SmallSync

/-- Blocks of which nothing is read. -/
def view : BlockView Unit := ⟨fun _ => Hash.zero, fun _ => 0, fun _ => Hash.zero, fun _ => Hash.zero⟩

def peer (n : UInt8) : PeerId := ⟨FixedBytes.replicate 32 n⟩

def blockHash (n : UInt8) : Hash := ⟨FixedBytes.replicate 32 n⟩

end SmallSync

end Coincync
