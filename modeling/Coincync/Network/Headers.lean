/-
# Headers first

A node that syncs asks a peer for headers and checks the whole batch before it downloads a block.
Three pieces of code: `build_locator` of `src/network/sync.rs` names places of the own chain, near
ones densely and far ones sparsely; `handle_get_headers` of `src/network/node/dispatch/headers.rs`
answers from the first place that the peer knows; and `validate_header_batch` there checks the answer
against the block rules, with an ancestor walk of its own (`header_history`) that looks in the batch
first and in the chain second.
-/
import Coincync.Chain.Feed

namespace Coincync

open Lib

/-! ## 1. Errors -/

/-- `MisbehaviorType`, as far as headers are charged with it. -/
inductive MisbehaviorType
  | invalidBlockPoW
  | protocolViolation
  | wrongNetwork
  deriving DecidableEq

/-- The reasons for which `validate_header_batch` refuses, with the values of their texts. -/
inductive HeaderReason
  /-- "wrong network magic" -/
  | wrongNetworkMagic
  /-- "first header does not connect to a known block" -/
  | firstDoesNotConnect
  /-- "header batch is not contiguous" -/
  | notContiguous
  /-- "parent height overflows u64" -/
  | parentHeightOverflow
  /-- "non-sequential height: expected .., got .." -/
  | nonSequentialHeight (expected got : UInt64)
  /-- "invalid header version" -/
  | invalidVersion
  /-- "timestamp does not advance" -/
  | timestampDoesNotAdvance
  /-- "checkpoint vote references a future height" -/
  | checkpointVoteFuture
  /-- "hardcoded checkpoint mismatch" -/
  | hardcodedCheckpoint
  /-- "missing ancestor .." -/
  | missingAncestor (hash : Hash)
  /-- "timestamp does not exceed median-time-past" -/
  | medianTimePast
  /-- "difficulty target mismatch: expected .., got .." -/
  | targetMismatch (expected got : Hash)
  /-- The text of the error of `verify_pow`. -/
  | pow (e : PowError)
  deriving DecidableEq

structure HeaderBatchError where
  index : Nat
  reason : HeaderReason
  offense : MisbehaviorType
  deriving DecidableEq

variable {F G : Type} [Field F] [AddCommGroup G] [Module F G] (S : Suite F G)

/-! ## 2. A batch of headers -/

namespace BlockHeader

/-- A header as `calculate_difficulty` sees it. -/
def difficultyBlock (h : BlockHeader) : DifficultyBlock :=
  ⟨h.height.toNat, h.timestamp.toNat, h.target⟩

/-- The loop of `header_history`: at most `n` headers on the way back, newest first. -/
def walk (look : Hash → Option BlockHeader) : Nat → Hash → Except Hash (List BlockHeader)
  | 0, _ => .ok []
  | n + 1, cursor =>
    match look cursor with
    | none => .error cursor
    | some header =>
      if header.height = 0 then .ok [header]
      else
        match walk look n header.prevHash with
        | .ok rest => .ok (header :: rest)
        | .error missing => .error missing

end BlockHeader

section

omit [AddCommGroup G]

/-- Where `header_history` looks: the accepted headers of the batch, then the chain. -/
def headerAt (st : Blockchain G) (accepted : Map Hash BlockHeader) (hash : Hash) :
    Option BlockHeader :=
  (accepted.lookup hash).or ((st.getBlock hash).map Block.header)

/-- `header_history`: the window below a header, oldest first. -/
def headerHistory (st : Blockchain G) (accepted : Map Hash BlockHeader) (parentHash : Hash) :
    Except HeaderReason (List DifficultyBlock) :=
  match BlockHeader.walk (headerAt st accepted) difficultyLongWindow parentHash with
  | .ok headers => .ok (headers.reverse.map BlockHeader.difficultyBlock)
  | .error missing => .error (.missingAncestor missing)

/-- The median over the last 11 blocks of a window. -/
def medianOf (history : List DifficultyBlock) : Option Nat :=
  let timestamps := (history.reverse.take mtpWindow).map DifficultyBlock.timestamp
  (timestamps.mergeSort fun a b => decide (a ≤ b))[timestamps.length / 2]?

/-- The parent of a header of the batch: a stored block for the first, the header before it for the
others. -/
def batchParent (st : Blockchain G) (previous : Option (BlockHeader × Hash)) (header : BlockHeader) :
    Except HeaderReason BlockHeader :=
  match previous with
  | none =>
    match st.getBlock header.prevHash with
    | some block => .ok block.header
    | none => .error .firstDoesNotConnect
  | some (previous, hash) =>
    if header.prevHash ≠ hash then .error .notContiguous else .ok previous

end

/-- The offence that each reason is charged as. -/
def HeaderReason.offense : HeaderReason → MisbehaviorType
  | .wrongNetworkMagic => .wrongNetwork
  | .hardcodedCheckpoint => .invalidBlockPoW
  | .targetMismatch _ _ => .invalidBlockPoW
  | .pow _ => .invalidBlockPoW
  | .firstDoesNotConnect | .notContiguous | .parentHeightOverflow | .nonSequentialHeight _ _
  | .invalidVersion | .timestampDoesNotAdvance | .checkpointVoteFuture | .missingAncestor _
  | .medianTimePast => .protocolViolation

/-- The rules that relate a header to its parent, and the hard-coded checkpoints. -/
def checkAgainstParent (network : NetworkType) (parent header : BlockHeader) :
    Except HeaderReason Unit := do
  require (parent.height.toNat + 1 < 2 ^ 64) .parentHeightOverflow
  require (header.height = parent.height + 1)
    (.nonSequentialHeight (parent.height + 1) header.height)
  require (¬(header.version < blockVersionAtHeight header.height.toNat ∨
    header.version < parent.version)) .invalidVersion
  require (¬header.timestamp ≤ parent.timestamp) .timestampDoesNotAdvance
  require (∀ vote ∈ header.checkpointVote, ¬header.height ≤ vote.1) .checkpointVoteFuture
  require (verifyCheckpoint network header.height.toNat (header.hash S) ≠ some false)
    .hardcodedCheckpoint

/-- The rules that relate a header to its window. -/
def checkAgainstHistory (history : List DifficultyBlock) (header : BlockHeader) :
    Except HeaderReason Unit := do
  checkIf (decide (mtpWindow ≤ history.length))
    (require (∀ median ∈ medianOf history, ¬header.timestamp.toNat ≤ median) .medianTimePast)
  checkIf (decide (2 ≤ history.length))
    (require (header.target = calculateDifficulty history header.height.toNat)
      (.targetMismatch (calculateDifficulty history header.height.toNat) header.target))

/-- The body of the loop of `validate_header_batch`, for one header. -/
def checkBatchHeader (cfg : NodeConfig) (randomxUp : Bool) (st : Blockchain G)
    (previous : Option (BlockHeader × Hash)) (accepted : Map Hash BlockHeader)
    (header : BlockHeader) : Except HeaderReason Unit := do
  require (header.networkMagic = st.network.magicBytes) .wrongNetworkMagic
  let parent ← batchParent st previous header
  checkAgainstParent S st.network parent header
  let history ← headerHistory st accepted header.prevHash
  checkAgainstHistory history header
  (verifyHeaderPow S cfg randomxUp header.prevHash header).mapError .pow

/-- The loop of `validate_header_batch`.  `randomxUp` says for each header whether the RandomX VM can
be had when it is checked. -/
def validateHeadersFrom (cfg : NodeConfig) (randomxUp : Nat → Bool) (st : Blockchain G) :
    Nat → Option (BlockHeader × Hash) → Map Hash BlockHeader → List BlockHeader →
      Except HeaderBatchError (List Hash)
  | _, _, _, [] => .ok []
  | index, previous, accepted, header :: rest =>
    match checkBatchHeader S cfg (randomxUp index) st previous accepted header with
    | .error reason => .error ⟨index, reason, reason.offense⟩
    | .ok () =>
      let hash := header.hash S
      match validateHeadersFrom cfg randomxUp st (index + 1) (some (header, hash))
        (accepted.insert hash header) rest with
      | .ok hashes => .ok (hash :: hashes)
      | .error e => .error e

def validateHeaderBatch (cfg : NodeConfig) (randomxUp : Nat → Bool) (st : Blockchain G)
    (headers : List BlockHeader) : Except HeaderBatchError (List Hash) :=
  validateHeadersFrom S cfg randomxUp st 0 none ∅ headers

/-! ## 3. Asking and answering -/

/-- The loop of `build_locator`.  The height sinks by at least 1 each time, so the tip is fuel
enough. -/
def locatorLoop (getHash : Nat → Option Hash) : Nat → Nat → Nat → List Hash → List Hash
  | 0, _, _, loc => loc
  | fuel + 1, h, step, loc =>
    if h = 0 then loc
    else
      let loc := loc ++ (getHash h).toList
      let step := if 10 ≤ loc.length then step * 2 else step
      if h < step then loc else locatorLoop getHash fuel (h - step) step loc

def buildLocator (tip : Nat) (getHash : Nat → Option Hash) : List Hash :=
  let loc := locatorLoop getHash tip tip 1 []
  match getHash 0 with
  | some g => if loc.getLast? ≠ some g then loc ++ [g] else loc
  | none => loc

def maxLocatorSize : Nat := 64

def maxHeadersResponse : Nat := 2000

namespace Blockchain

section

omit [AddCommGroup G]

variable (st : Blockchain G)

/-- The locator of a node: `build_locator` on its own chain. -/
def locator : List Hash := buildLocator st.tip.height st.getBlockHash

/-- The first block of a locator that the node knows: `get_block` finds blocks of side chains as
well. -/
def firstKnown (locator : List Hash) : Option (Block G) := locator.findSome? st.getBlock

/-- The height from which an answer starts. -/
def startHeight (locator : List Hash) : Nat :=
  match st.firstKnown locator with
  | some block => block.height + 1
  | none => 0

end

variable (st : Blockchain G)

/-- The headers of the main chain from a height on, at most `n`, up to the stop hash. -/
def headersFrom (stopHash : Hash) : Nat → Nat → List BlockHeader
  | 0, _ => []
  | n + 1, h =>
    match st.getBlockByHeight h with
    | none => []
    | some block =>
      block.header :: if block.hash S = stopHash then [] else headersFrom stopHash n (h + 1)

/-- `handle_get_headers`: the answer, or the offence that the request is charged as. -/
def handleGetHeaders (locator : List Hash) (stopHash : Hash) :
    Except MisbehaviorType (List BlockHeader) :=
  if maxLocatorSize < locator.length then .error .protocolViolation
  else .ok (st.headersFrom S stopHash maxHeadersResponse (st.startHeight locator))

end Blockchain

theorem locatorLoop_fuel (getHash : Nat → Option Hash) : ∀ (fuel h step : Nat) (loc : List Hash),
    0 < step → h ≤ fuel →
    locatorLoop getHash (fuel + 1) h step loc = locatorLoop getHash fuel h step loc
  | 0, h, step, loc, _, hle => by
    obtain rfl : h = 0 := by omega
    rfl
  | fuel + 1, h, step, loc, hpos, hle => by
    rw [locatorLoop, locatorLoop]
    split_ifs with h0
    · rfl
    · dsimp only
      split_ifs with h10 hlast
      · rfl
      · exact locatorLoop_fuel getHash fuel _ _ _ (by omega) (by omega)
      · rfl
      · exact locatorLoop_fuel getHash fuel _ _ _ hpos (by omega)

end Coincync
