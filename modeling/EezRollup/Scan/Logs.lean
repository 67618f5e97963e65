import EezRollup.Scan.Types

/-! The logs of one L1 block, from a `get_logs` answer to the items they parse into, and the
committed post calls of a transaction. -/
namespace Eez.Scan
open Octets Outcome

inductive L1Error where
  | provider (reason : String)
  | decode (reason : String)
  | sourceIncomplete (block : UInt64) (detail : String)
  | unsupported (block logIndex : UInt64) (detail : String)
  | traceUnavailable (block : UInt64) (detail : String)
  | submission (reason : String)
  | bundleRpcUnsupported
  | reorgTooDeep (walked max : Nat)
  deriving DecidableEq

/-- Reading again cannot help. -/
def L1Error.isTerminal : L1Error → Bool
  | .decode _ | .unsupported _ _ _ | .traceUnavailable _ _ | .reorgTooDeep _ _ => true
  | .provider _ | .sourceIncomplete _ _ | .submission _ | .bundleRpcUnsupported => false

inductive Halt where
  | failed (error : L1Error)
  | panicked
  deriving DecidableEq

/-- The logs contradict the contract or the post's bytes. -/
def Halt.decode (reason : String) : Halt := .failed (.decode reason)

def index {α : Type} (l : List α) (i : Nat) : Except Halt α := require l[i]? .panicked

@[simp] theorem index_eq_ok {α : Type} {l : List α} {i : Nat} {a : α} : index l i = .ok a ↔ l[i]? = some a :=
  require_eq_ok

structure LogData where
  topics : List B256
  data : Bytes

/-- A log as the endpoint answers it; a pending log has no position. -/
structure RawLog where
  blockNumber : Option UInt64
  blockHash : Option B256
  transactionIndex : Option UInt64
  transactionHash : Option B256
  logIndex : Option UInt64
  data : LogData

/-- The hash and the validating ABI decoders of the libraries the scan is built
on, and the debug rendering of a log. -/
structure Externals where
  keccak256 : Bytes → B256
  decodePostAndVerifyBatch : Bytes → Except String EvmBatch
  /-- `(sharedPublicInput, rollupIds)` -/
  decodeBatchPosted : LogData → Except String (B256 × List UInt64)
  /-- `(crossChainCallHash, rollupId, entryQueueIndex)` -/
  decodeExecutionConsumed : LogData → Except String (B256 × UInt64 × U256)
  /-- `(rollupId, newRoot, etherBalance)` -/
  decodeL2ExecutionPerformed : LogData → Except String (UInt64 × B256 × U256)
  /-- `(entryIndex, rollingHash)` -/
  decodeEntryExecuted : LogData → Except String (U256 × B256)
  /-- `(entryIndex, revertData)` -/
  decodeL2TxSkipped : LogData → Except String (U256 × Bytes)
  debugLog : RawLog → String

def batchPostedSignature : B256 := 0x70159c08b708a43c8e97ba2da7378cf59ee0b44dab6d764121b8079183ea477f#256

def executionConsumedSignature : B256 := 0xa17dc82da628b280737819918ee433b966773121ff974c081d8cbac4c6199d7d#256

def l2ExecutionPerformedSignature : B256 := 0x8945ae7d1ab7f670bc04e5b87613a2ac6904a559769517d220308f4f22cd1b66#256

def entryExecutedSignature : B256 := 0x2e1562030784fdfac2cf8bb062751bb5c6d19b8e45cc3ba103a8728fb3c4281d#256

def l2TxSkippedSignature : B256 := 0x31dea3928d6f7bb415eb371434f719dfc337c078c82d58146f2b8a4726002e40#256

def scannedTopics : List B256 :=
  [batchPostedSignature, executionConsumedSignature, l2ExecutionPerformedSignature, entryExecutedSignature,
    l2TxSkippedSignature]

example : ["BatchPosted(bytes32,uint64[])", "ExecutionConsumed(bytes32,uint64,uint256)",
    "L2ExecutionPerformed(uint64,bytes32,uint256)", "EntryExecuted(uint256,bytes32)", "L2TxSkipped(uint256,bytes)"].map
    (fun s => Keccak.keccak256 (s.toList.map fun c => UInt8.ofNat c.toNat)) = scannedTopics := by
  decide +kernel

/-- Slot `index` of a queue or of the meta-hook table. -/
structure Consumed where
  hash : B256
  queue : UInt64
  index : UInt64
  deriving DecidableEq

inductive Event where
  | posted (spi : B256) (ids : List UInt64)
  | consumed (consumed : Consumed)
  | root (rollup : UInt64) (root : B256)
  | executed (index : UInt64) (rollingHash : B256)
  | skipped (index : UInt64)
  deriving DecidableEq

def Event.debug : Event → String
  | .posted spi ids => s!"Posted({hexB256 spi}, {ids})"
  | .consumed c => s!"Consumed(Consumed \x7b hash: {hexB256 c.hash}, queue: {c.queue}, index: {c.index} \x7d)"
  | .root rollup newRoot => s!"Root({rollup}, {hexB256 newRoot})"
  | .executed index rollingHash => s!"Executed({index}, {hexB256 rollingHash})"
  | .skipped index => s!"Skipped({index})"

structure ScannedLog where
  txIndex : UInt64
  txHash : B256
  logIndex : UInt64
  event : Event
  deriving DecidableEq

structure Block where
  number : UInt64
  hash : B256
  logs : List ScannedLog

def atLog (block : UInt64) (log : ScannedLog) : String :=
  s!"block {block} tx {hexB256 log.txHash} log {log.logIndex}"

structure Placed where
  logIndex : UInt64
  txIndex : UInt64
  txHash : B256
  log : RawLog

abbrev BlockGroup := UInt64 × B256 × List Placed

def insertPlaced (block : UInt64) (hash : B256) (placed : Placed) : List BlockGroup → Except Halt (List BlockGroup)
  | [] => .ok [(block, hash, [placed])]
  | (number, firstHash, logs) :: rest =>
    if block = number then do
      ensure (firstHash = hash) (.failed (.sourceIncomplete block
        s!"logs carry block hashes {hexB256 firstHash} and {hexB256 hash}"))
      return (number, firstHash, logs ++ [placed]) :: rest
    else if block < number then .ok ((block, hash, [placed]) :: (number, firstHash, logs) :: rest)
    else do
      let rest ← insertPlaced block hash placed rest
      return (number, firstHash, logs) :: rest

section
variable (ext : Externals)

def groupLogs : List RawLog → List BlockGroup → Except Halt (List BlockGroup)
  | [], groups => .ok groups
  | log :: rest, groups =>
    match log.blockNumber, log.blockHash, log.transactionIndex, log.transactionHash, log.logIndex with
    | some block, some hash, some txIndex, some txHash, some logIndex => do
      let groups ← insertPlaced block hash ⟨logIndex, txIndex, txHash, log⟩ groups
      groupLogs rest groups
    | _, _, _, _, _ => .error (.failed (.provider s!"EEZ log without its position: {ext.debugLog log}"))

def decodeIndex (place : String) (v : U256) : Except Halt UInt64 := do
  ensure (v.toNat < 2 ^ 64) (.decode s!"{place}: index {v.toNat} overflows")
  return UInt64.ofNat v.toNat

def undecodable (place : String) (reason : String) : Halt := .decode s!"{place}: undecodable log: {reason}"

def decode (log : LogData) (place : String) : Except Halt Event :=
  match log.topics.head? with
  | some topic =>
    if topic = batchPostedSignature then do
      let (spi, ids) ← (ext.decodeBatchPosted log).mapError (undecodable place)
      return .posted spi ids
    else if topic = executionConsumedSignature then do
      let (hash, queue, slot) ← (ext.decodeExecutionConsumed log).mapError (undecodable place)
      let slot ← decodeIndex place slot
      return .consumed ⟨hash, queue, slot⟩
    else if topic = l2ExecutionPerformedSignature then do
      let (rollup, root, _) ← (ext.decodeL2ExecutionPerformed log).mapError (undecodable place)
      return .root rollup root
    else if topic = entryExecutedSignature then do
      let (entryIndex, rollingHash) ← (ext.decodeEntryExecuted log).mapError (undecodable place)
      let entryIndex ← decodeIndex place entryIndex
      return .executed entryIndex rollingHash
    else if topic = l2TxSkippedSignature then do
      let (entryIndex, _) ← (ext.decodeL2TxSkipped log).mapError (undecodable place)
      let entryIndex ← decodeIndex place entryIndex
      return .skipped entryIndex
    else .error (.failed (.provider
      s!"{place}: get_logs answered topic Some({hexB256 topic}), outside the filter"))
  | none => .error (.failed (.provider s!"{place}: get_logs answered topic None, outside the filter"))

def decodePlaced (number : UInt64) (placed : Placed) : Except Halt ScannedLog := do
  let event ← decode ext placed.log.data
    s!"block {number} tx {hexB256 placed.txHash} log {placed.logIndex}"
  return ⟨placed.txIndex, placed.txHash, placed.logIndex, event⟩

/-- The unstable sort of the source may reorder equal keys; a block has none. -/
def decodeGroup (group : BlockGroup) : Except Halt Block := do
  let placed := group.2.2.mergeSort fun a b => a.logIndex ≤ b.logIndex
  let logs ← placed.mapM (decodePlaced ext group.1)
  return ⟨group.1, group.2.1, logs⟩

def groupBlocks (raw : List RawLog) : Except Halt (List Block) := do
  let groups ← groupLogs ext raw []
  groups.mapM (decodeGroup ext)

end

structure Record where
  consumed : Option Consumed
  roots : List (UInt64 × B256)
  rollingHash : B256
  deriving DecidableEq

inductive Kind where
  | posted (spi : B256) (ids : List UInt64)
  | skipped (index : UInt64)
  | record (record : Record)
  deriving DecidableEq

/-- An item and the positions of its first and last log among its transaction's. -/
structure Item where
  first : Nat
  last : Nat
  kind : Kind
  deriving DecidableEq

structure Tx where
  logs : List ScannedLog
  items : List Item
  deriving DecidableEq

structure Opened where
  first : Nat
  consumed : Option Consumed
  roots : List (UInt64 × B256)

def parseStep (block : UInt64) (position : Nat) (log : ScannedLog) (opened : Option Opened) :
    Except Halt (Option Opened × Option Item) :=
  match log.event, opened with
  | .root rollup root, opened => do
    let entry := opened.getD ⟨position, none, []⟩
    let after := (entry.roots.getLast?.map Prod.fst).getD 0
    ensure (after < rollup) (.decode s!"{atLog block log}: root for {rollup} after {after}")
    return (some { entry with roots := entry.roots ++ [(rollup, root)] }, none)
  | .consumed consumed, none => .ok (some ⟨position, some consumed, []⟩, none)
  | .executed index rollingHash, some entry => do
    ensure (entry.roots ≠ []) (.decode s!"{atLog block log}: entry applied no rollup update")
    let slot := (entry.consumed.map Consumed.index).getD 0
    ensure (index = slot) (.decode s!"{atLog block log}: EntryExecuted({index}) for slot {slot}")
    return (none, some ⟨entry.first, position, .record ⟨entry.consumed, entry.roots, rollingHash⟩⟩)
  | .posted spi ids, none => .ok (none, some ⟨position, position, .posted spi ids⟩)
  | .skipped index, none => .ok (none, some ⟨position, position, .skipped index⟩)
  | event, none => .error (.decode s!"{atLog block log}: {event.debug} with no entry open")
  | event, some _ => .error (.decode s!"{atLog block log}: {event.debug} inside an open entry")

def parseLogs (block : UInt64) :
    Nat → List ScannedLog → Option Opened → Except Halt (List Item × Option Opened)
  | _, [], opened => .ok ([], opened)
  | position, log :: logs, opened => do
    let (opened, item) ← parseStep block position log opened
    let (items, opened) ← parseLogs block (position + 1) logs opened
    return (item.toList ++ items, opened)

/-- A transaction's logs as `Posted | Skipped | Consumed? Root+ Executed`. -/
def parseTx (block : UInt64) (logs : List ScannedLog) : Except Halt Tx := do
  let (items, opened) ← parseLogs block 0 logs none
  match opened with
  | some entry => do
    let log ← index logs entry.first
    throw (.decode s!"{atLog block log}: entry never closes")
  | none => return ⟨logs, items⟩

/-- A committed post call: the bytes, the sender, and the scanned logs of its
committed subtree. -/
structure Call where
  input : Bytes
  sender : Address
  logs : Nat

structure Transaction where
  toAddress : Option Address
  input : Bytes
  signer : Address

def directCall (tx : Transaction) (eez : Address) (logs : Nat) : Option Call :=
  if tx.toAddress = some eez ∧ postAndVerifyBatchSelector.isPrefixOf tx.input = true then
    some ⟨tx.input, tx.signer, logs⟩
  else none

structure CallLogFrame where
  address : Option Address
  topics : Option (List B256)

structure FrameData where
  typ : String
  sender : Address
  toAddress : Option Address
  input : Bytes
  error : Option String
  revertReason : Option String
  logs : List CallLogFrame

inductive CallFrame where
  | mk (frame : FrameData) (calls : List CallFrame)

namespace FrameData
variable (eez : Address) (frame : FrameData)

/-- A failed frame and everything under it rolled back. -/
def failed : Bool := frame.error.isSome || frame.revertReason.isSome

/-- Only a `CALL` posts. -/
def isPost : Bool :=
  frame.typ == "CALL" && frame.toAddress == some eez && postAndVerifyBatchSelector.isPrefixOf frame.input

def scanned : Nat :=
  (frame.logs.filter fun log => log.address == some eez &&
    ((log.topics.bind List.head?).any fun topic => scannedTopics.contains topic)).length

end FrameData

abbrev Walked := List Call × Nat

def Walked.count (out : Walked) (inside : Option Nat) (scanned : Nat) : Walked :=
  (match inside with
    | some k => out.1.modify k fun call => { call with logs := call.logs + scanned }
    | none => out.1, out.2 + scanned)

mutual
/-- Nothing, when a committed post nests in another. -/
def walk (eez : Address) (inside : Option Nat) : CallFrame → Walked → Option Walked
  | .mk frame calls, out =>
    if frame.failed then some out
    else if frame.isPost eez && inside.isSome then none
    else
      let post := frame.isPost eez
      let within := if post then some out.1.length else inside
      let out : Walked := if post then (out.1 ++ [⟨frame.input, frame.sender, 0⟩], out.2) else out
      walkAll eez within calls (out.count within (frame.scanned eez))

def walkAll (eez : Address) (inside : Option Nat) : List CallFrame → Walked → Option Walked
  | [], out => some out
  | call :: calls, out =>
    match walk eez inside call out with
    | some out => walkAll eez inside calls out
    | none => none
end

/-- A traced transaction's committed post calls in execution order, and its
committed scanned-log count. -/
def callsInTx (root : CallFrame) (eez : Address) (place : String) : Except Halt Walked :=
  require (walk eez none root ([], 0)) (.decode s!"{place}: trace nests a committed post")

end Eez.Scan
