import Mathlib.Data.List.DropRight
import EezRollup.Lib.Faulty
import EezRollup.Scan.Logs

/-! One poll cycle reads one L1 chain through requests that may fail. The scan of a range is taken
as reading the posts its blocks have. -/
namespace Eez.Watcher
open Octets Faulty Scan

/-- An L1 block with the posts that list us; its number is its place. -/
structure L1Block where
  hash : B256
  parentHash : B256
  timestamp : UInt64
  posts : List Post
  deriving DecidableEq

/-- The chain an endpoint serves during one cycle. -/
structure Source where
  chain : List L1Block
  finalized : Option Nat

inductive Tag where
  | latest
  | finalized
  | number (n : Nat)

def Tag.debug : Tag → String
  | .latest => "latest"
  | .finalized => "finalized"
  | .number n => "0x" ++ String.ofList (Nat.toDigits 16 n)

structure BlockSnapshot where
  number : Nat
  hash : B256
  parentHash : B256
  timestamp : UInt64

namespace Source
variable (src : Source)

def snapshot (n : Nat) : Option BlockSnapshot :=
  src.chain[n]?.map fun b => ⟨n, b.hash, b.parentHash, b.timestamp⟩

def byTag : Tag → Option BlockSnapshot
  | .latest => src.snapshot (src.chain.length - 1)
  | .finalized => src.finalized.bind src.snapshot
  | .number n => src.snapshot n

def byHash (hash : B256) : Option BlockSnapshot :=
  (src.chain.findIdx? (·.hash = hash)).bind src.snapshot

/-- What a scan of the range reads. -/
def posts (low high : Nat) : List Post := ((src.chain.take (high + 1)).drop low).flatMap L1Block.posts

end Source

inductive L1Event where
  | newHead (blockNumber : Nat) (blockHash : B256) (timestamp : UInt64)
  | reorg (commonAncestorNumber : Nat) (commonAncestorHash oldHeadHash : B256) (newHeadNumber : Nat)
    (newHeadHash : B256)
  | batchPosted (post : Post) (lastInL1Block : Bool)
  | finalized (blockNumber : Nat) (blockHash : B256)
  deriving DecidableEq

/-- `recent` is a ring of canonical blocks, oldest first. -/
structure WatcherState where
  recent : List (Nat × B256)
  reorgMaxDepth : Nat
  lastFinalizedHash : Option B256
  deriving DecidableEq

namespace WatcherState

def new (reorgMaxDepth : Nat) : WatcherState := ⟨[], max reorgMaxDepth 1, none⟩

variable (s : WatcherState)

def tip : Option (Nat × B256) := s.recent.getLast?

def pushCanonical (number : Nat) (hash : B256) : WatcherState :=
  let recent := s.recent ++ [(number, hash)]
  { s with recent := recent.drop (recent.length - s.reorgMaxDepth) }

def rewindTo (keepUpToNumber : Nat) : WatcherState :=
  { s with recent := s.recent.rdropWhile fun e => keepUpToNumber < e.1 }

def lookupHash (hash : B256) : Option Nat := (s.recent.find? fun e => e.2 = hash).map Prod.fst

end WatcherState

/-- `answers` are the failures of the requests still to come. -/
structure Cycle where
  state : WatcherState
  emitted : List L1Event
  answers : List (Option String)
  deriving DecidableEq

abbrev M := Prog Halt Cycle

def emit (event : L1Event) : M Unit := modify fun c => { c with emitted := c.emitted ++ [event] }

def ask : M (Option String) := do
  let c ← get
  match c.answers with
  | [] => return none
  | answer :: answers =>
    modify fun c => { c with answers }
    return answer

def request (failed : String → L1Error) : M Unit := do
  match ← ask with
  | none => pure ()
  | some reason => throw (.failed (failed reason))

section
variable (src : Source)

def fetchBlockByTag (tag : Tag) : M BlockSnapshot := do
  request fun e => .provider s!"get_block({tag.debug}): {e}"
  match src.byTag tag with
  | some block => return block
  | none => throw (.failed (.provider s!"block({tag.debug}) returned None"))

def fetchBlockByHash (hash : B256) : M BlockSnapshot := do
  request fun e => .provider s!"get_block_by_hash({hexB256 hash}): {e}"
  match src.byHash hash with
  | some block => return block
  | none => throw (.failed (.provider s!"block({hexB256 hash}) returned None"))

def getLogsError (low high : Nat) (reason : String) : L1Error := .provider s!"get_logs({low}..={high}): {reason}"

def readPosts (low high : Nat) : M (List Post) := do
  request .provider
  return src.posts low high

def scanRange (low high : Nat) : M (List Post) := do
  request (getLogsError low high)
  readPosts src low high

def caps : List String :=
  ["exceeds max results", "query returned more than", "more than 10000 results", "response size exceeded",
    "query timeout exceeded", "range is too large", "block range too large", "too many results"]

def contains (text part : String) : Bool := decide (1 < (text.splitOn part).length)

/-- The request matched too much, rather than being wrong. -/
def isRangeTooWide : L1Error → Bool
  | .provider message => caps.any fun cap => contains message.toLower cap
  | _ => false

/-- Halves the range until the logs are served; the upper end that was. -/
def fetchNarrowed (low high : Nat) : M Nat := do
  match ← ask with
  | none => return high
  | some reason =>
    if isRangeTooWide (getLogsError low high reason) = true ∧ low < high then
      fetchNarrowed low (low + (high - low) / 2)
    else throw (.failed (getLogsError low high reason))
termination_by high - low
decreasing_by omega

def scanBatchLogsRangeAdaptive (low high : Nat) : M (List Post × Nat) := do
  let reached ← fetchNarrowed low high
  let posts ← readPosts src low reached
  return (posts, reached)

structure CommonAncestor where
  number : Nat
  hash : B256

/-- Back along the parents, for at most as many blocks as the ring may have. -/
def walkBackToCommon (s : WatcherState) : Nat → B256 → Nat → M (Option CommonAncestor)
  | 0, _, _ => return none
  | hops + 1, cursorHash, cursorNumber =>
    if (s.lookupHash cursorHash).isSome then return some ⟨cursorNumber, cursorHash⟩
    else if cursorNumber = 0 then return none
    else do
      let block ← fetchBlockByHash src cursorHash
      walkBackToCommon s hops block.parentHash (block.number - 1)

def ancestorsOf : Nat → B256 → Nat → M (List (Nat × B256))
  | 0, _, _ => return []
  | room + 1, parentHash, number =>
    if number = 0 then return []
    else do
      let block ← fetchBlockByHash src parentHash
      let older ← ancestorsOf room block.parentHash block.number
      return older ++ [(block.number, block.hash)]

def fetchAncestorWindow (boundary : BlockSnapshot) (depth : Nat) : M (List (Nat × B256)) := do
  let older ← ancestorsOf src (depth - 1) boundary.parentHash boundary.number
  return older ++ [(boundary.number, boundary.hash)]

/-- The newest entry that the chain has at its height. -/
def findCommonAncestorByHeight : List (Nat × B256) → M (Option CommonAncestor)
  | [] => return none
  | (number, hash) :: older => do
    let canonical ← fetchBlockByTag src (.number number)
    if canonical.hash = hash then return some ⟨number, hash⟩ else findCommonAncestorByHeight older

def collectBack (low : Nat) : Nat → B256 → Nat → M (List (Nat × B256 × UInt64))
  | 0, _, _ => return []
  | span + 1, cursorHash, cursorNumber => do
    let block ← fetchBlockByHash src cursorHash
    let here := (cursorNumber, cursorHash, block.timestamp)
    if cursorNumber = low then return [here]
    else do
      let older ← collectBack low span block.parentHash (block.number - 1)
      return older ++ [here]

def pushHeads : List (Nat × B256 × UInt64) → M Unit
  | [] => pure ()
  | (number, hash, timestamp) :: rest => do
    modify fun c => { c with state := c.state.pushCanonical number hash }
    emit (.newHead number hash timestamp)
    pushHeads rest

def fillForward (low high : Nat) (highHash : B256) : M Unit := do
  if high < low then pure ()
  else
    let collected ← collectBack src low (high - low + 1) highHash high
    pushHeads collected

/-- A post is the last of its block when the next one is of another. -/
def emitScannedBatches : List Post → M Unit
  | [] => pure ()
  | post :: rest => do
    emit (.batchPosted post (rest.head?.all fun next => next.id.l1Block ≠ post.id.l1Block))
    emitScannedBatches rest

def refreshFinalized : M Unit := do
  match ← ask with
  | some reason =>
    let message := s!"get_block({Tag.finalized.debug}): {reason}"
    if contains message "returned None" then pure () else throw (.failed (.provider message))
  | none =>
    match src.byTag .finalized with
    | none => pure ()
    | some finalized =>
      let c ← get
      if c.state.lastFinalizedHash = some finalized.hash then pure ()
      else
        modify fun c => { c with state := { c.state with lastFinalizedHash := some finalized.hash } }
        emit (.finalized finalized.number finalized.hash)

def logScanChunkBlocks : Nat := 100000

/-- The old tip was dropped while we were far behind. -/
def catchUpReorg (latest : BlockSnapshot) (oldTipHash : B256) : M Unit := do
  let c ← get
  match ← findCommonAncestorByHeight src c.state.recent.reverse with
  | none => throw (.failed (.reorgTooDeep c.state.reorgMaxDepth c.state.reorgMaxDepth))
  | some common =>
    emit (.reorg common.number common.hash oldTipHash latest.number latest.hash)
    modify fun c => { c with state := c.state.rewindTo common.number }

/-- The block a chunk ends at; the latest one is known. -/
def chunkBoundary (latest : BlockSnapshot) (number : Nat) : M BlockSnapshot :=
  if number = latest.number then pure latest else fetchBlockByTag src (.number number)

/-- Narrowing may have covered less than the chunk. -/
def reachedBoundary (boundary : BlockSnapshot) (chunkTo reached : Nat) : M BlockSnapshot :=
  if reached = chunkTo then pure boundary else fetchBlockByTag src (.number reached)

/-- A lone entry within reorg reach of the tip could not be walked back. -/
def catchUpWindow (latest boundary : BlockSnapshot) (depth : Nat) : M (List (Nat × B256)) :=
  if latest.number - boundary.number < depth then fetchAncestorWindow src boundary depth
  else pure [(boundary.number, boundary.hash)]

def pushAll (window : List (Nat × B256)) (s : WatcherState) : WatcherState :=
  window.foldl (fun s e => s.pushCanonical e.1 e.2) s

/-- One chunk while we are far behind: the ring is seeded anew where it ends. -/
def catchUpChunk (latest : BlockSnapshot) (oldTipNumber : Nat) : M Unit := do
  let scanFrom := oldTipNumber + 1
  let chunkTo := min (scanFrom + (logScanChunkBlocks - 1)) latest.number
  let boundary ← chunkBoundary src latest chunkTo
  let (scanned, reached) ← scanBatchLogsRangeAdaptive src scanFrom chunkTo
  let boundary ← reachedBoundary src boundary chunkTo reached
  let c ← get
  let window ← catchUpWindow src latest boundary c.state.reorgMaxDepth
  modify fun c => { c with state := pushAll window (c.state.rewindTo 0) }
  emit (.newHead boundary.number boundary.hash boundary.timestamp)
  emitScannedBatches scanned

/-- The ring goes back only after the event that says so. -/
def retreat (latest : BlockSnapshot) (oldTipNumber : Nat) (oldTipHash : B256) (common : CommonAncestor) : M Unit :=
  if common.number < oldTipNumber ∨ oldTipHash ≠ common.hash then do
    emit (.reorg common.number common.hash oldTipHash latest.number latest.hash)
    modify fun c => { c with state := c.state.rewindTo common.number }
  else pure ()

/-- Every block above the ancestor that the scan reached. -/
def scanAndFill (latest : BlockSnapshot) (common : CommonAncestor) : M Unit := do
  let scanFrom := common.number + 1
  let (scanned, reached) ← scanBatchLogsRangeAdaptive src scanFrom latest.number
  let boundary ← chunkBoundary src latest reached
  fillForward src scanFrom reached boundary.hash
  emitScannedBatches scanned

/-- A reorg or a gap within the ring's reach. -/
def walkAndFill (latest : BlockSnapshot) (oldTipNumber : Nat) (oldTipHash : B256) : M Unit := do
  let c ← get
  match ← walkBackToCommon src c.state c.state.reorgMaxDepth latest.parentHash (latest.number - 1) with
  | none => throw (.failed (.reorgTooDeep c.state.reorgMaxDepth c.state.reorgMaxDepth))
  | some common =>
    retreat latest oldTipNumber oldTipHash common
    scanAndFill src latest common

def extendByOne (latest : BlockSnapshot) : M Unit := do
  let scanned ← scanRange src latest.number latest.number
  modify fun c => { c with state := c.state.pushCanonical latest.number latest.hash }
  emit (.newHead latest.number latest.hash latest.timestamp)
  emitScannedBatches scanned

def finalizedRefreshTicks : Nat := 6

def maybeRefresh (tickCount : Nat) : M Unit :=
  if tickCount % finalizedRefreshTicks = 0 then refreshFinalized src else pure ()

def pollCycle (tickCount : Nat) : M Unit := do
  let latest ← fetchBlockByTag src .latest
  let c ← get
  match c.state.tip with
  | none => throw .panicked
  | some (tipNumber, tipHash) =>
    if tipHash = latest.hash then maybeRefresh src tickCount
    else if tipHash = latest.parentHash ∧ latest.number = tipNumber + 1 then do
      extendByOne src latest
      maybeRefresh src tickCount
    else if tipNumber + c.state.reorgMaxDepth < latest.number then do
      let atOldHeight ← fetchBlockByTag src (.number tipNumber)
      if atOldHeight.hash ≠ tipHash then catchUpReorg src latest tipHash else catchUpChunk src latest tipNumber
    else do
      walkAndFill src latest tipNumber tipHash
      maybeRefresh src tickCount

/-- The seed and its ancestors fill the ring before the first cycle. -/
def seedRing (reorgMaxDepth seedNumber : Nat) (seedHash : B256) : M Unit := do
  let seed ← fetchBlockByHash src seedHash
  let window ← fetchAncestorWindow src seed reorgMaxDepth
  modify fun c => { c with state := pushAll window c.state }
  emit (.newHead seedNumber seedHash seed.timestamp)

end

end Eez.Watcher
