import EezRollup.Deriver.CanonicalHead
import EezRollup.Deriver.Reconcile
import EezRollup.Lib.Faulty

/-! Every read of the node and every call of the committer may fail; the answers come from a list,
and a call past its end succeeds. Blocks are numbered by their place in the chain. -/
namespace Eez.Deriver
open Octets Outcome Codec Scan Faulty

structure L2Block where
  hash : B256
  parentHash : B256
  txs : List Bytes
  inputs : BlockHeaderInputs
  deriving DecidableEq

/-- What the deriver is configured with and runs on: `execute` builds the block
of some transactions on a parent, `systemNonce` is the system account's nonce in
a block's state, `outboundGate` checks outbound entries against the receipts of a
block. -/
structure Node where
  keccak : Bytes → B256
  systemTxCfg : Option SystemTxContext
  execute : L2Block → List Bytes → BlockHeaderInputs → Except DeriverError L2Block
  systemNonce : B256 → UInt64
  outboundGate : B256 → List ExecutionEntrySol → Except String Unit

/-- `sent` has the heights of the safe and finalized blocks of each forkchoice
call, `rewritten` the heights a resumed batch replaced with the finalized height
at that time, `faults` the answers still to come. -/
structure Inner where
  head : L1CanonicalHead
  safeL2Block : Nat
  chain : List L2Block
  sent : List (Nat × Nat)
  rewritten : List (Nat × Nat)
  faults : List Bool

abbrev M := Prog DeriverError Inner

def call (e : DeriverError) : M Unit := do
  let d ← get
  match d.faults with
  | [] => pure ()
  | true :: faults => do
    modify fun d => { d with faults }
    throw e
  | false :: faults => modify fun d => { d with faults }

def blockByNumber (l2Block : Nat) : M (Option L2Block) := do
  call (.l2Provider "read failed")
  let d ← get
  return d.chain[l2Block]?

def l2BlockAt (l2Block : Nat) : M L2Block := do
  match ← blockByNumber l2Block with
  | some b => pure b
  | none => throw (.l2Provider s!"local L2 header at {l2Block} missing")

def l2HashAt (l2Block : Nat) : M B256 := do
  let b ← l2BlockAt l2Block
  return b.hash

/-- Height of the canonical block with hash `commitment`, if we hold one. -/
def blockAt (commitment : B256) : M (Option Nat) := do
  call (.l2Provider "read failed")
  let d ← get
  return d.chain.findIdx? (·.hash = commitment)

def advanceSafeFinalized (safe finalized : Nat) : M Unit := do
  modify fun d => { d with sent := d.sent ++ [(safe, finalized)] }
  call (.invalidForkchoice "engine rejected forkchoice update")

def reorgTo (l2Block : Nat) : M Unit := do
  call (.invalidForkchoice "engine rejected forkchoice update")
  modify fun d => { d with chain := d.chain.take (l2Block + 1) }

def commitDerived (parent : Nat) (block : L2Block) : M Unit := do
  call (.invalidForkchoice "driver")
  modify fun d => { d with chain := d.chain.take (parent + 1) ++ [block] }

section
variable (node : Node)

def replayBlock (parent : Nat) (txs : List Bytes) (inputs : BlockHeaderInputs) : M B256 := do
  let parentBlock ← l2BlockAt parent
  let block ← lift (node.execute parentBlock txs inputs)
  commitDerived parent block
  return block.hash

def inSettleableRange (found : Option Nat) (low high : Nat) : Option Nat :=
  found.filter fun block => low ≤ block ∧ block ≤ high

/-- The heights the settled part of a batch covers: a resumed batch reuses the
Sync block at the cursor. -/
def batchL2Range (cumulativeL2 : Nat) (resumed : Bool) (claimedBlockCount : Nat) : Nat × Nat :=
  if resumed then (cumulativeL2, cumulativeL2) else (cumulativeL2 + 1, cumulativeL2 + claimedBlockCount)

def cursorRootAccepted (localRoot entryState : B256) (finalState : Option B256) : Prop :=
  localRoot = entryState ∨ finalState = some localRoot

instance (l e : B256) (f : Option B256) : Decidable (cursorRootAccepted l e f) :=
  inferInstanceAs (Decidable (_ ∨ _))

/-- The block whose hash is `entryState`, where the batch's run starts. -/
def batchAnchor (cursor : Nat) (entryState : B256) (window : Nat) : M (Option Nat) := do
  let found ← blockAt entryState
  return inSettleableRange found (cursor - window) cursor

/-- A payload of another rollup is skipped. -/
def decodeOurPayload (callData : Bytes) : Except DeriverError (Option DecodedContainer) := do
  let container ← (decodeContainer callData).mapError .codec
  match node.systemTxCfg with
  | some cfg => return if container.rollupId = cfg.thisRollupId then some container else none
  | none => return some container

/-- The first block of the range is there and sits on the local parent. -/
def localBatchBoundaryMatches (fromBlock : Nat) : M Bool := do
  match ← blockByNumber fromBlock with
  | none => return false
  | some block =>
    if fromBlock = 0 then throw (.l2Provider "cannot reconcile a batch starting at genesis block")
    else
      let parent ← l2BlockAt (fromBlock - 1)
      return block.parentHash = parent.hash

def rangeAlreadyDerived (staleBoundary : Bool) (localTerminal settled : Option B256) : Bool :=
  match staleBoundary, localTerminal, settled with
  | false, some terminal, some settled => terminal = settled
  | _, _, _ => false

/-- The rebuilt Sync block and the outbound entries L1 paid, or neither without
cross-chain configuration. -/
def syncContent (container : DecodedContainer) (ref : BatchRef) (fromBlock : Nat) (settlement : Settlement) :
    M (Option (List Bytes) × List ExecutionEntrySol) := do
  match node.systemTxCfg with
  | none => return (none, [])
  | some cfg =>
    let (outbound, inbound) ← lift (rebuiltDirections node.keccak cfg ref container.actions)
    let parent ← l2BlockAt (fromBlock - 1)
    let users := syncUserTxs container.span
    let txs ← lift (rebuildSyncBlock node.keccak cfg ref outbound inbound users settlement.applied
      (node.systemNonce parent.hash))
    let slots ← lift ((selectAppliedSlots settlement.applied outbound inbound users).mapError
      fun e => .localDiverged ref.fromBlock (some e))
    return (some txs, slots.outboundPaired.map Prod.fst)

/-- The blocks of a fresh range from the `i`-th on. Once one is replayed every
later one is. -/
def reconcileRange (span : DecodedSpan) (syncBlockTxs : Option (List Bytes)) (fromBlock : Nat) :
    List (List Bytes) → Nat → Bool → Nat → M (Nat × Option B256)
  | [], _, _, replayed => return (replayed, none)
  | userTxs :: rest, i, active, replayed => do
    let blockTxs := match rest, syncBlockTxs with
      | [], some full => full
      | _, _ => userTxs
    let inputs ← lift (BlockHeaderInputs.fromSpan span i)
    let held ← blockByNumber (fromBlock + i)
    let localMatches := held.any fun b => b.txs = blockTxs ∧ b.inputs = inputs
    if active || !localMatches then
      let hash ← replayBlock node (fromBlock + i - 1) blockTxs inputs
      if rest = [] then return (replayed + 1, some hash)
      else reconcileRange span syncBlockTxs fromBlock rest (i + 1) true (replayed + 1)
    else reconcileRange span syncBlockTxs fromBlock rest (i + 1) false replayed

/-- A range whose last block is L1's settled commitment is there already. -/
def reconcileFresh (span : DecodedSpan) (syncBlockTxs : Option (List Bytes)) (settlement : Settlement)
    (fromBlock : Nat) (staleBoundary : Bool) : M (Nat × Option B256) := do
  let terminal ← blockByNumber (fromBlock + (span.blockTxCounts.length - 1))
  if rangeAlreadyDerived staleBoundary (terminal.map L2Block.hash) settlement.finalState then return (0, none)
  else
    reconcileRange node span syncBlockTxs fromBlock (blockSlices span.blockTxCounts span.transactions) 0
      staleBoundary 0

/-- Safe steps back before a height at or below it is replaced; a finalized
height is not. -/
def retreatForResume (fromBlock : Nat) : M Unit := do
  let d ← get
  if fromBlock ≤ d.safeL2Block then
    let finalizedL2 := d.head.finalizedL2
    if fromBlock ≤ finalizedL2 then throw (.finalizedResume fromBlock finalizedL2)
    else
      let _parent ← l2BlockAt (fromBlock - 1)
      let _finalized ← l2BlockAt finalizedL2
      advanceSafeFinalized (fromBlock - 1) finalizedL2
      modify fun d => { d with safeL2Block := fromBlock - 1 }
  else pure ()

/-- Appends what a resumed batch settled to the Sync block that is there. -/
def reconcileResumed (span : DecodedSpan) (newContent : List Bytes) (settlement : Settlement) (ref : BatchRef)
    (fromBlock : Nat) (staleBoundary : Bool) : M (Nat × Option B256) := do
  if staleBoundary then
    throw (.localDiverged ref.fromBlock (some ("resumed batch's Sync block is missing or reorged; " ++
      "cannot append its settled entries without the existing content")))
  else
    let existing ← l2BlockAt fromBlock
    let localHash ← l2HashAt fromBlock
    match resumeReplayTxs localHash settlement.finalState existing.txs newContent with
    | none => return (0, none)
    | some blockTxs =>
      retreatForResume fromBlock
      let inputs ← lift (BlockHeaderInputs.fromSpan span (span.blockTxCounts.length - 1))
      modify fun d => { d with rewritten := d.rewritten ++ [(fromBlock, d.head.finalizedL2)] }
      let hash ← replayBlock node (fromBlock - 1) blockTxs inputs
      return (1, some hash)

/-- The hash replayed this pass, or what the number reads as. -/
def hashOr (hash : Option B256) (l2Block : Nat) : M B256 :=
  match hash with
  | some hash => pure hash
  | none => l2HashAt l2Block

/-- The outbound entries L1 paid against the calls the Sync block made. -/
def checkOutbound (gateOutbound : List ExecutionEntrySol) (ref : BatchRef) (toBlock : Nat)
    (syncBlockHash : Option B256) : M Unit := do
  if gateOutbound = [] then pure ()
  else
    let hash ← hashOr syncBlockHash toBlock
    lift ((node.outboundGate hash gateOutbound).mapError fun e => .localDiverged ref.fromBlock
      (some s!"outbound authorization gate failed (tx={hexB256 ref.txHash}): {e}"))

def reconcileBatchBlocks (fromBlock : Nat) (container : DecodedContainer) (txHash : B256)
    (settlement : Settlement) : M (Nat × Option B256) := do
  let ref : BatchRef := ⟨.ofNat fromBlock, txHash⟩
  let (syncBlockTxs, gateOutbound) ← syncContent node container ref fromBlock settlement
  let boundary ← localBatchBoundaryMatches fromBlock
  let lastIndex := container.span.blockTxCounts.length - 1
  let (replayed, syncBlockHash) ←
    if settlement.resumed then
      reconcileResumed node container.span (syncBlockTxs.getD []) settlement ref fromBlock (!boundary)
    else reconcileFresh node container.span syncBlockTxs settlement fromBlock (!boundary)
  checkOutbound node gateOutbound ref (if settlement.resumed then fromBlock else fromBlock + lastIndex) syncBlockHash
  return (replayed, syncBlockHash)

def checkEntryRoot (entryRoot : Option B256) (fromBlock : Nat) : M Unit := do
  match entryRoot with
  | none => pure ()
  | some claimed =>
    let before ← l2HashAt (fromBlock - 1)
    if before = claimed then pure () else throw (.localDiverged (.ofNat (fromBlock - 1)) none)

def checkClaimedState (entryRoot claimedNewRoot : Option B256) (anchor fromBlock toBlock : Nat)
    (toBlockHash : Option B256) : M (Option Nat) := do
  checkEntryRoot entryRoot fromBlock
  match claimedNewRoot with
  | none => return none
  | some claimed =>
    let d ← get
    if d.chain.length - 1 < toBlock then throw (.localDiverged (.ofNat toBlock) none)
    else
      let found ← blockAt claimed
      match inSettleableRange found anchor toBlock with
      | some settledEnd => return some settledEnd
      | none =>
        let after ← hashOr toBlockHash toBlock
        if after = claimed then return some toBlock else throw (.localDiverged (.ofNat toBlock) none)

/-- Where the batch's run starts: its own start if we hold it, else the cursor. -/
def batchStart (cursor : Nat) (entryState : Option B256) (window : Nat) : M Nat := do
  match entryState with
  | some entryState =>
    let anchor ← batchAnchor cursor entryState window
    return anchor.getD cursor
  | none => return cursor

/-- The root at the start is one the batch can have left there. -/
def checkCursorRoot (anchor fromBlock : Nat) (settlement : Settlement) : M Unit := do
  match settlement.entryState with
  | none => pure ()
  | some entryState =>
    let localRoot ← l2HashAt anchor
    if cursorRootAccepted localRoot entryState settlement.finalState then pure ()
    else throw (.localDiverged (.ofNat fromBlock) none)

/-- One settled batch on top of a cursor: how many blocks were replayed, and the
height it ends at. -/
def deriveBatch (cursor : Nat) (post : Post) (container : DecodedContainer) : M (Nat × Nat) := do
  let settlement := post.settlement
  let count := container.span.blockCount
  let anchor ← batchStart cursor settlement.entryState count
  let (fromBlock, toBlock) := batchL2Range anchor settlement.resumed count
  checkCursorRoot anchor fromBlock settlement
  let (replayed, syncBlockHash) ← reconcileBatchBlocks node fromBlock container post.txHash settlement
  let settledEnd ← checkClaimedState (if settlement.resumed then none else settlement.entryState)
    settlement.finalState anchor fromBlock toBlock syncBlockHash
  return (replayed, settledEnd.getD toBlock)

/-- Moves safe up to the cursor. Only L1 finality moves finalized. -/
def syncSafeToCursor : M Unit := do
  let d ← get
  let cursor := d.head.lastIndexedL2
  if cursor ≤ d.safeL2Block then pure ()
  else
    let _safe ← l2BlockAt cursor
    let _finalized ← l2BlockAt d.head.finalizedL2
    advanceSafeFinalized cursor d.head.finalizedL2
    modify fun d => { d with safeL2Block := cursor }

def flushDeferredSafe (lastInL1Block : Bool) : M Unit :=
  if lastInL1Block then syncSafeToCursor else pure ()

def onBatchPosted (post : Post) (lastInL1Block : Bool) : M Unit := do
  let d ← get
  if d.head.isProcessed post.id then flushDeferredSafe lastInL1Block
  else if post.settlement.applied = [] then flushDeferredSafe lastInL1Block
  else
    match ← lift (decodeOurPayload node post.batch.callData) with
    | none => flushDeferredSafe lastInL1Block
    | some container =>
      if container.span.blockCount = 0 then flushDeferredSafe lastInL1Block
      else
        let (_, last) ← deriveBatch node d.head.lastIndexedL2 post container
        modify fun d => { d with head := d.head.append ⟨post.id, post.txHash, last⟩ }
        flushDeferredSafe lastInL1Block

/-- The index alone; the L2 chain follows. -/
def retreatIndex (commonAncestor : UInt64) : M Unit := do
  let d ← get
  match d.head.retreatOnL1Reorg commonAncestor with
  | .ok head => modify fun d => { d with head }
  | .error floor => throw (.belowSeedFloor commonAncestor floor.l1Block)

/-- Safe and finalized first, while the old head is still canonical. -/
def retreatL2ToCursor (cursor : Nat) : M Unit := do
  let _safe ← l2BlockAt cursor
  let d ← get
  let _finalized ← l2BlockAt d.head.finalizedL2
  advanceSafeFinalized cursor d.head.finalizedL2
  reorgTo cursor
  modify fun d => { d with safeL2Block := cursor }

def onL1Reorg (commonAncestor : UInt64) : M Unit := do
  let before ← get
  retreatIndex commonAncestor
  let after ← get
  if before.head.cursor ≤ after.head.cursor then pure () else retreatL2ToCursor after.head.cursor

/-- Finalized is bounded by safe. -/
def onL1Finalized (l1FinalizedBlock : UInt64) : M Unit := do
  let d ← get
  let newFinalized := (d.head.highestL2AtOrBelowL1 l1FinalizedBlock).getD 0
  if newFinalized ≤ d.head.finalizedL2 then pure ()
  else
    let bounded := min newFinalized d.safeL2Block
    if bounded ≤ d.head.finalizedL2 then pure ()
    else
      let _safe ← l2BlockAt d.safeL2Block
      let _finalized ← l2BlockAt bounded
      advanceSafeFinalized d.safeL2Block bounded
      modify fun d => { d with head := d.head.setFinalizedL2 bounded }

/-- The loop over a chunk: the posts reconciled, their records and the height
reached. The index does not move here. -/
def reconcileScanned : List Post → Nat → List BatchRecord → Nat → M (List BatchRecord × Nat × Nat)
  | [], cumulativeL2, newBatches, replayed => return (newBatches, cumulativeL2, replayed)
  | post :: rest, cumulativeL2, newBatches, replayed => do
    let d ← get
    if d.head.isProcessed post.id then reconcileScanned rest cumulativeL2 newBatches replayed
    else if post.settlement.applied = [] then reconcileScanned rest cumulativeL2 newBatches replayed
    else
      match ← lift (decodeOurPayload node post.batch.callData) with
      | none => reconcileScanned rest cumulativeL2 newBatches replayed
      | some container =>
        let (here, last) ← deriveBatch node cumulativeL2 post container
        reconcileScanned rest last (newBatches ++ [⟨post.id, post.txHash, last⟩]) (replayed + here)

/-- One chunk: the posts, then the index, then safe. -/
def reconcileScannedBatches (scannedBatches : List Post) (cumulativeL2 : Nat) : M (Nat × Nat) := do
  let (newBatches, cumulativeL2, totalReplayed) ← reconcileScanned node scannedBatches cumulativeL2 [] 0
  modify fun d => { d with head := d.head.appendMany newBatches }
  let d ← get
  if cumulativeL2 ≤ d.safeL2Block then return (totalReplayed, cumulativeL2)
  else
    let _safe ← l2BlockAt cumulativeL2
    let _finalized ← l2BlockAt d.head.finalizedL2
    advanceSafeFinalized cumulativeL2 d.head.finalizedL2
    modify fun d => { d with safeL2Block := cumulativeL2 }
    return (totalReplayed, cumulativeL2)

/-- The chunks of the scan, in order, until one cannot be read. -/
def syncBatches : List (Except L1Error (List Post)) → Nat → M Nat
  | [], cumulativeL2 => return cumulativeL2
  | chunk :: rest, cumulativeL2 => do
    let posts ← lift (chunk.mapError .l1Scan)
    let (_, cumulativeL2) ← reconcileScannedBatches node posts cumulativeL2
    syncBatches rest cumulativeL2

end

structure CatchUpView where
  canonicalL1Hash : UInt64 → Except L1Error (Option B256)
  peers : Bool
  checkpoint : Option (BatchRecord × B256)
  finalizedBlockNumber : Option Nat
  chunks : List (Except L1Error (List Post))

/-- Drops the records at the tail whose L1 block is no longer canonical. Each
turn drops one at least, so `fuel` for one more than there are is enough. -/
def revalidateIndexTail (view : CatchUpView) : Nat → M (Option UInt64)
  | 0 => throw (.l1Scan (.provider "index tail does not move"))
  | fuel + 1 => do
    let d ← get
    match d.head.lastIndexed with
    | none => return none
    | some tail =>
      match ← lift ((view.canonicalL1Hash tail.post.l1Block).mapError .l1Scan) with
      | none => throw (.l1Scan (.sourceIncomplete tail.post.l1Block "indexed batch's L1 block not served"))
      | some canonical =>
        if canonical = tail.post.l1BlockHash then return some tail.post.l1Block
        else
          retreatIndex (tail.post.l1Block - min tail.post.l1Block 1)
          revalidateIndexTail view fuel

/-- The record of the boot checkpoint, when L1 and the local chain still bear it
out. -/
def checkpointSeed (view : CatchUpView) (chain : List L2Block) : Option BatchRecord :=
  match view.checkpoint with
  | none => none
  | some (record, l2BlockHash) =>
    if view.canonicalL1Hash record.post.l1Block = .ok (some record.post.l1BlockHash) ∧
        chain[record.lastL2Block]?.map L2Block.hash = some l2BlockHash then some record
    else none

/-- The index is brought back onto the canonical L1 chain, and L2 with it. -/
def revalidate (view : CatchUpView) : M (Option UInt64) := do
  let before ← get
  let anchor ← revalidateIndexTail view (before.head.batches.length + 1)
  let after ← get
  if after.head.cursor < before.head.cursor then
    retreatL2ToCursor after.head.cursor
    return anchor
  else return anchor

/-- The scan from the anchor; an empty index starts at the checkpoint or at the
deploy block. -/
def catchUpFrom (node : Node) (view : CatchUpView) (anchor : Option UInt64) : M Nat := do
  let d ← get
  match anchor with
  | some _ => syncBatches node view.chunks d.head.cursor
  | none =>
    if view.peers then throw .unseeded
    else
      match checkpointSeed view d.chain with
      | some record =>
        modify fun d => { d with head := d.head.append record }
        call (.l2Provider "read failed")
        let finalized := min (view.finalizedBlockNumber.getD 0) record.lastL2Block
        modify fun d => { d with head := d.head.setFinalizedL2 finalized }
        syncBatches node view.chunks record.lastL2Block
      | none => syncBatches node view.chunks 0

def catchUpInner (node : Node) (view : CatchUpView) : M Nat := do
  let anchor ← revalidate view
  catchUpFrom node view anchor

end Eez.Deriver
