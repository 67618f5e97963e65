import EezRollup.Protocol.SystemTx
import EezRollup.Scan.Logs

/-! The deriver's reading of a decoded payload. Only the block contents are modelled, not the engine
that replays them. -/
namespace Eez.Deriver
open Octets Outcome Codec

inductive DeriverError where
  | l2Provider (reason : String)
  | codec (e : CodecError)
  | l1Scan (e : Scan.L1Error)
  | committerClosed
  | invalidForkchoice (reason : String)
  | localDiverged (l2Block : UInt64) (detail : Option String)
  | belowSeedFloor (l1Block floorL1Block : UInt64)
  | unseeded
  | finalizedResume (l2Block finalizedL2 : Nat)
  deriving DecidableEq

structure BatchRef where
  fromBlock : UInt64
  txHash : B256

structure BlockHeaderInputs where
  beneficiary : Address
  extraData : Bytes
  deriving DecidableEq

def BlockHeaderInputs.fromSpan (span : DecodedSpan) (index : Nat) :
    Except DeriverError BlockHeaderInputs :=
  match span.beneficiaries[index]?, span.extraData[index]? with
  | some beneficiary, some extraData => .ok ⟨beneficiary, extraData⟩
  | _, _ => .error (.l2Provider
      s!"DA span has no header inputs for block index {index} (span covers {span.blockCount} blocks)")

/-- The DA slots L1 applied, addressed by role rather than by offset. -/
structure AppliedSlots where
  outboundPaired : List (ExecutionEntrySol × Bytes)
  inbound : List ExecutionEntrySol

def selectAppliedSlots (applied : List AppliedEntry) (outbound inbound : List ExecutionEntrySol)
    (syncUserTxs : List Bytes) : Except String AppliedSlots :=
  match applied with
  | [] => .ok ⟨[], []⟩
  | a :: rest =>
    match a.role with
    | .anchor => selectAppliedSlots rest outbound inbound syncUserTxs
    | .outbound ordinal =>
      match outbound[ordinal]?, syncUserTxs[ordinal]? with
      | some entry, some userTx => do
        let slots ← selectAppliedSlots rest outbound inbound syncUserTxs
        return { slots with outboundPaired := (entry, userTx) :: slots.outboundPaired }
      | _, _ => .error (s!"L1 applied outbound entry {a.entryIndex} (ordinal {ordinal}) but the DA carries " ++
          s!"{outbound.length} outbound entries and {syncUserTxs.length} Sync-block user txs")
    | .inbound ordinal =>
      match inbound[ordinal]? with
      | some entry => do
        let slots ← selectAppliedSlots rest outbound inbound syncUserTxs
        return { slots with inbound := entry :: slots.inbound }
      | none => .error (s!"L1 applied inbound entry {a.entryIndex} (ordinal {ordinal}) but the DA carries " ++
          s!"{inbound.length} inbound entries")

/-- How many outbound and inbound effects a rival settled before the first
applied role. Every outbound entry precedes every inbound one. -/
def skippedPrefix (first : Option EntryRole) (outboundLen : Nat) : Nat × Nat :=
  match first with
  | some (.outbound ordinal) => (ordinal, 0)
  | some (.inbound ordinal) => (outboundLen, ordinal)
  | _ => (0, 0)

section
variable (keccak : Bytes → B256) (cfg : SystemTxContext) (ref : BatchRef)

def resumedNonce (outbound inbound : List ExecutionEntrySol) (syncUserTxs : List Bytes)
    (first : Option EntryRole) (startingNonce : UInt64) : Except DeriverError UInt64 :=
  let (outboundSkip, inboundSkip) := skippedPrefix first outbound.length
  if outboundSkip > 0 ∨ inboundSkip > 0 then do
    let skippedPaired := (outbound.take outboundSkip).zip (syncUserTxs.take outboundSkip)
    let prefixPairs ← (buildCrossChainSyncPairs keccak cfg skippedPaired (inbound.take inboundSkip)
      startingNonce).mapError fun e => .l2Provider
        s!"build_cross_chain_sync_pairs(skipped prefix, tx={hexB256 ref.txHash}): {e}"
    require (checkedAdd startingNonce (UInt64.ofNat prefixPairs.length)) (.l2Provider
      s!"SYSTEM_ADDRESS nonce overflow over the skipped prefix (tx={hexB256 ref.txHash})")
  else .ok startingNonce

/-- The Sync block's transactions from the claimed entries of both directions:
what L1 applied of them, interleaved, then the span's remaining transactions. -/
def rebuildSyncBlock (outbound inbound : List ExecutionEntrySol) (syncUserTxs : List Bytes)
    (applied : List AppliedEntry) (startingNonce : UInt64) : Except DeriverError (List Bytes) := do
  ensure (outbound.length ≤ syncUserTxs.length) (.localDiverged ref.fromBlock
    (some s!"outbound entries ({outbound.length}) exceed Sync-block user txs ({syncUserTxs.length})"))
  let slots ← (selectAppliedSlots applied outbound inbound syncUserTxs).mapError
    (fun e => .localDiverged ref.fromBlock (some e))
  let nonce ← resumedNonce keccak cfg ref outbound inbound syncUserTxs (applied.head?.map AppliedEntry.role)
    startingNonce
  let pairs ← (buildCrossChainSyncPairs keccak cfg slots.outboundPaired slots.inbound nonce).mapError
    fun e => .l2Provider s!"build_cross_chain_sync_pairs(tx={hexB256 ref.txHash}): {e}"
  return interleaveSyncBlockTxs pairs ++ syncUserTxs.drop outbound.length

def rebuildEntriesFrom : Nat → List Action → Except DeriverError (List ExecutionEntrySol)
  | _, [] => .ok []
  | i, action :: actions => do
    let entry ← (entryFromAction keccak action cfg.thisRollupId).mapError fun e => .l2Provider
      s!"rebuild entry from DA action[{i}] for tx {hexB256 ref.txHash}: {e.message}"
    let entries ← rebuildEntriesFrom (i + 1) actions
    return entry :: entries

/-- Entries rebuilt from the manifest, split by direction. -/
def rebuiltDirections (actions : List Action) :
    Except DeriverError (List ExecutionEntrySol × List ExecutionEntrySol) := do
  let entries ← rebuildEntriesFrom keccak cfg ref 0 actions
  return (entries.filter fun e => e.l2ToL1Calls ≠ []).partition fun e => e.proxyEntryHash = 0

def syncUserTxs (span : DecodedSpan) : List Bytes :=
  let lastCount := (span.blockTxCounts.getLast?.map UInt32.toNat).getD 0
  span.transactions.drop (span.transactions.length - lastCount)

def syncBlockTxs (span : DecodedSpan) (actions : List Action) (settlement : Settlement)
    (startingNonce : UInt64) : Except DeriverError (List Bytes) := do
  let (outbound, inbound) ← rebuiltDirections keccak cfg ref actions
  rebuildSyncBlock keccak cfg ref outbound inbound (syncUserTxs span) settlement.applied startingNonce

def blockSlices : List UInt32 → List RawTx → List (List RawTx)
  | [], _ => []
  | count :: counts, txs => txs.take count.toNat :: blockSlices counts (txs.drop count.toNat)

/-- Every block of a fresh range: its transactions and its header inputs. -/
def rangeBlocks (span : DecodedSpan) (syncBlock : List Bytes) :
    Except DeriverError (List (List Bytes × BlockHeaderInputs)) :=
  let slices := (blockSlices span.blockTxCounts span.transactions).dropLast ++ [syncBlock]
  (slices.zipIdx).mapM fun (txs, i) => do
    let header ← BlockHeaderInputs.fromSpan span i
    return (txs, header)

end

def stripSuffix (l suffix : List Bytes) : Option (List Bytes) :=
  if suffix <:+ l then some (l.take (l.length - suffix.length)) else none

/-- Transactions to replay a resumed batch's Sync block with, or `none` when the
local block already is L1's settled endpoint. -/
def resumeReplayTxs (localHash : B256) (settled : Option B256) (existingTxs newContent : List Bytes) :
    Option (List Bytes) :=
  if settled = some localHash then none
  else
    let base := if newContent = [] then existingTxs else (stripSuffix existingTxs newContent).getD existingTxs
    some (base ++ newContent)

end Eez.Deriver
