import EezRollup.Scan.Types
import EezRollup.Sessions.Session
import EezRollup.Signer.PostBatch

/-! The assembler checks the shape of a stream and the quotas as chunks arrive; hashes, bodies and
witnesses stay untrusted. -/
namespace Eez.Window
open Octets Outcome Signer
open Sessions (Status)

/-- The collections are in memory, so their sizes add up within a machine word. -/
structure WireExecutionWitness where
  state : List Bytes
  codes : List Bytes
  keys : List Bytes
  headers : List Bytes
  fits : state.length + codes.length + keys.length + headers.length < 2 ^ 64

structure BlockWitness where
  number : UInt64
  hash : Bytes
  parentHash : Bytes
  rlp : Bytes
  witness : Option WireExecutionWitness

structure PostBatch where
  abiCalldata : Bytes
  publicInputsHash : Bytes
  l1BlockHash : Bytes

structure ProveHeader where
  rollupId : UInt64
  fromBlock : UInt64
  toBlock : UInt64
  postBatch : Option PostBatch

inductive Kind where
  | header (header : ProveHeader)
  | block (block : BlockWitness)

structure ProveChunk where
  kind : Option Kind

/-- Sizes are canonical: every tag is one byte, scalar fields at their default are
left out, nested messages carry their length. -/
def varintLen (n : Nat) : Nat := n.log2 / 7 + 1

def delimitedLen (n : Nat) : Nat := 1 + varintLen n + n

def uint64Len (n : UInt64) : Nat := if n = 0 then 0 else 1 + varintLen n.toNat

def bytesLen (b : Bytes) : Nat := if b = [] then 0 else delimitedLen b.length

def repeatedLen (l : List Bytes) : Nat := (l.map fun b => delimitedLen b.length).sum

def WireExecutionWitness.encodedLen (w : WireExecutionWitness) : Nat :=
  repeatedLen w.state + repeatedLen w.codes + repeatedLen w.keys + repeatedLen w.headers

def BlockWitness.encodedLen (b : BlockWitness) : Nat :=
  uint64Len b.number + bytesLen b.hash + bytesLen b.parentHash + bytesLen b.rlp +
    (b.witness.map fun w => delimitedLen w.encodedLen).getD 0

def PostBatch.encodedLen (p : PostBatch) : Nat :=
  bytesLen p.abiCalldata + bytesLen p.publicInputsHash + bytesLen p.l1BlockHash

def ProveHeader.encodedLen (h : ProveHeader) : Nat :=
  uint64Len h.rollupId + uint64Len h.fromBlock + uint64Len h.toBlock +
    (h.postBatch.map fun p => delimitedLen p.encodedLen).getD 0

def ProveChunk.encodedLen (c : ProveChunk) : Nat :=
  match c.kind with
  | some (.header h) => delimitedLen h.encodedLen
  | some (.block b) => delimitedLen b.encodedLen
  | none => 0

structure ExecutionWitness where
  state : List Bytes
  codes : List Bytes
  keys : List Bytes
  headers : List Bytes

def intoExecutionWitness (w : WireExecutionWitness) : ExecutionWitness := ⟨w.state, w.codes, w.keys, w.headers⟩

def saturatingAdd (a b : Nat) : Nat := min (a + b) (2 ^ 64 - 1)

def wireWitnessItemCount (w : WireExecutionWitness) : Nat :=
  saturatingAdd (saturatingAdd (saturatingAdd w.state.length w.codes.length) w.keys.length) w.headers.length

structure AdmittedBlock where
  declaredNumber : UInt64
  claimedHash : B256
  claimedParentHash : B256
  rlp : Bytes
  witness : ExecutionWitness

structure AdmittedHeader where
  declaredFromBlock : UInt64
  declaredToBlock : UInt64
  submittedPostBatchCalldata : Bytes

structure AdmittedWindow where
  header : AdmittedHeader
  blocks : List AdmittedBlock

structure WindowLimits where
  blocks : UInt64
  payloadBytes : UInt64
  witnessItems : UInt64

structure ParsedHeader where
  claimedRollupId : UInt64
  admitted : AdmittedHeader
  declaredBlockCount : Nat

structure RollupIdentityMismatch where
  claimed : UInt64
  expected : UInt64

inductive WindowError where
  | emptyStream
  | blockBeforeHeader (number : UInt64)
  | missingKind (chunkIndex : Nat)
  | duplicateHeader
  | missingPostBatch
  | nonemptyL1BlockHash (actual : Nat)
  | invalidBounds (first last : UInt64)
  | blockLimit (first last span max : UInt64)
  | payloadLimit (attempted : Nat) (max : UInt64)
  | witnessItemLimit (attempted : Nat) (max : UInt64)
  | storageLimit (attemptedBlocks : Nat)
  | extraBlock (expected : Nat)
  | wrongBlockNumber (blockIndex : Nat) (expected actual : UInt64)
  | blockHashLength (number : UInt64) (actual : Nat)
  | parentHashLength (number : UInt64) (actual : Nat)
  | missingWitness (number : UInt64)
  | chainBreak (number previous : UInt64) (expected actual : B256)
  | incomplete (first last : UInt64) (expected actual : Nat)

namespace WindowError

def message : WindowError → String
  | emptyStream => "empty Prove stream"
  | blockBeforeHeader number => s!"first chunk must be the window header, got block {number}"
  | missingKind chunkIndex => s!"chunk at index {chunkIndex} carries no kind"
  | duplicateHeader => "duplicate header chunk"
  | missingPostBatch => "header carries no post_batch"
  | nonemptyL1BlockHash actual => s!"header post_batch carries a {actual}-byte l1_block_hash; it must be empty"
  | invalidBounds first last => s!"invalid window bounds {first}..={last}"
  | blockLimit first last span max => s!"window {first}..={last} spans {span} blocks, limit is {max}"
  | payloadLimit attempted max => s!"window payload reached {attempted} bytes, limit is {max}"
  | witnessItemLimit attempted max => s!"window witness reached {attempted} items, limit is {max}"
  | storageLimit attemptedBlocks => s!"unable to reserve storage for {attemptedBlocks} streamed blocks"
  | extraBlock expected => s!"window already carries its declared {expected} blocks"
  | wrongBlockNumber blockIndex expected actual =>
    s!"expected block {expected} at block index {blockIndex}, got {actual}"
  | blockHashLength number actual => s!"block {number} has a {actual}-byte block hash"
  | parentHashLength number actual => s!"block {number} has a {actual}-byte parent hash"
  | missingWitness number => s!"block {number} carries no execution witness"
  | chainBreak number previous expected actual =>
    s!"hash-chain break at block {number}: expected parent {hexB256 expected} " ++
      s!"from block {previous}, got {hexB256 actual}"
  | incomplete first last expected actual =>
    s!"window {first}..={last} expects {expected} blocks, stream ended after {actual}"

/-- Exhausted capacity rather than malformed input. -/
def isResourceExhausted : WindowError → Bool
  | blockLimit .. | payloadLimit .. | witnessItemLimit .. | storageLimit .. => true
  | _ => false

end WindowError

/-- Only an assembler whose rollup claim was verified takes blocks. -/
structure WindowAssembler (identityChecked : Bool) where
  limits : WindowLimits
  accountedPayloadBytes : Nat
  accountedWitnessItems : Nat
  claimedRollupId : UInt64
  header : AdmittedHeader
  declaredBlockCount : Nat
  blocks : List AdmittedBlock

def charge (current add : Nat) (max : UInt64) (exceeded : Nat → UInt64 → WindowError) : Except WindowError Nat := do
  ensure (current + add < 2 ^ 64) (exceeded (2 ^ 64 - 1) max)
  ensure (current + add ≤ max.toNat) (exceeded (current + add) max)
  return current + add

def checkHeader (header : ProveHeader) (limits : WindowLimits) : Except WindowError ParsedHeader := do
  let submitted ← require header.postBatch .missingPostBatch
  ensure (submitted.l1BlockHash.length = 0) (.nonemptyL1BlockHash submitted.l1BlockHash.length)
  ensure (¬(header.fromBlock = 0 ∨ header.fromBlock > header.toBlock)) (.invalidBounds header.fromBlock header.toBlock)
  let span := header.toBlock - header.fromBlock + 1
  ensure (span ≤ limits.blocks) (.blockLimit header.fromBlock header.toBlock span limits.blocks)
  return ⟨header.rollupId, ⟨header.fromBlock, header.toBlock, submitted.abiCalldata⟩, span.toNat⟩

def forwardChecked (start : UInt64) (n : Nat) : Option UInt64 :=
  if start.toNat + n < 2 ^ 64 then some (start + UInt64.ofNat n) else none

def nthInclusive (start last : UInt64) (n : Nat) : Option UInt64 :=
  if start ≤ last then (forwardChecked start n).filter fun m => m ≤ last else none

def b256TryFrom (bytes : Bytes) : Option B256 :=
  if bytes.length = 32 then some (BitVec.ofNat 256 (ofLe bytes.reverse)) else none

namespace WindowAssembler

def start (limits : WindowLimits) (first : ProveChunk) : Except WindowError (WindowAssembler false) := do
  let accounted ← charge 0 first.encodedLen limits.payloadBytes .payloadLimit
  match first.kind with
  | some (.header header) => do
    let parsed ← checkHeader header limits
    return ⟨limits, accounted, 0, parsed.claimedRollupId, parsed.admitted, parsed.declaredBlockCount, []⟩
  | some (.block block) => throw (.blockBeforeHeader block.number)
  | none => throw (.missingKind 0)

def verifyRollupIdentity (a : WindowAssembler false) (expected : NonZeroU64) :
    Except RollupIdentityMismatch (WindowAssembler true) := do
  ensure (a.claimedRollupId = expected.val) ⟨a.claimedRollupId, expected.val⟩
  return ⟨a.limits, a.accountedPayloadBytes, a.accountedWitnessItems, expected.val, a.header,
    a.declaredBlockCount, a.blocks⟩

def checkAdjacency (last : Option AdmittedBlock) (number : UInt64) (claimedParentHash : B256) :
    Except WindowError Unit :=
  match last with
  | some previous =>
    ensure (claimedParentHash = previous.claimedHash)
      (.chainBreak number previous.declaredNumber previous.claimedHash claimedParentHash)
  | none => pure ()

section
-- Whether the allocator finds room for one more block when so many are held.
variable (storage : Nat → Bool)

def pushBlock (a : WindowAssembler true) (block : BlockWitness) : Except WindowError (WindowAssembler true) := do
  let blockIndex := a.blocks.length
  let expected ← require (nthInclusive a.header.declaredFromBlock a.header.declaredToBlock blockIndex)
    (.extraBlock a.declaredBlockCount)
  ensure (block.number = expected) (.wrongBlockNumber blockIndex expected block.number)
  let claimedHash ← require (b256TryFrom block.hash) (.blockHashLength block.number block.hash.length)
  let claimedParentHash ← require (b256TryFrom block.parentHash)
    (.parentHashLength block.number block.parentHash.length)
  let wireWitness ← require block.witness (.missingWitness block.number)
  let accounted ← charge a.accountedWitnessItems (wireWitnessItemCount wireWitness) a.limits.witnessItems
    .witnessItemLimit
  checkAdjacency a.blocks.getLast? block.number claimedParentHash
  ensure (storage blockIndex = true) (.storageLimit (saturatingAdd blockIndex 1))
  return { a with
    accountedWitnessItems := accounted
    blocks := a.blocks ++ [⟨block.number, claimedHash, claimedParentHash, block.rlp,
      intoExecutionWitness wireWitness⟩] }

/-- Every refusal is terminal: the caller drops the assembler. -/
def push (a : WindowAssembler true) (chunk : ProveChunk) : Except WindowError (WindowAssembler true) := do
  let accounted ← charge a.accountedPayloadBytes chunk.encodedLen a.limits.payloadBytes .payloadLimit
  match chunk.kind with
  | some (.header _) => throw .duplicateHeader
  | some (.block block) => pushBlock storage { a with accountedPayloadBytes := accounted } block
  | none => throw (.missingKind (1 + a.blocks.length))

end

def finish (a : WindowAssembler true) : Except WindowError AdmittedWindow := do
  ensure (a.blocks.length = a.declaredBlockCount)
    (.incomplete a.header.declaredFromBlock a.header.declaredToBlock a.declaredBlockCount a.blocks.length)
  return ⟨a.header, a.blocks⟩

end WindowAssembler

def windowStatus (error : WindowError) : Status :=
  if error.isResourceExhausted then ⟨.resourceExhausted, "window quota: " ++ error.message⟩
  else ⟨.invalidArgument, "window: " ++ error.message⟩

/-- The chunks as they arrive before any idle timeout, until the end of the stream. -/
def readWindow (storage : Nat → Bool) (expected : NonZeroU64) (limits : WindowLimits) :
    List ProveChunk → Except Status AdmittedWindow
  | [] => .error (windowStatus .emptyStream)
  | first :: rest => do
    let assembler ← (WindowAssembler.start limits first).mapError windowStatus
    let assembler ← (assembler.verifyRollupIdentity expected).mapError fun _ =>
      ⟨.failedPrecondition, "window rollup identity rejected"⟩
    let assembler ← (rest.foldlM (WindowAssembler.push storage) assembler).mapError windowStatus
    assembler.finish.mapError windowStatus

end Eez.Window
