import EezRollup.Protocol.Hashes
import EezRollup.Protocol.PublicInputs

/-! Canonical decoding of the post-batch call, the public-input profile the signer supports, and
continuity of the claimed state updates. -/
namespace Eez.Signer
open Octets Outcome

abbrev NonZeroU64 := { n : UInt64 // n ≠ 0 }

abbrev NonZeroProofSystemVkey := { key : B256 // key ≠ 0 }

/-- The hash and the ABI decoders of the libraries the signer is built on. A
decoder may accept more than canonical encodings; every caller re-encodes. -/
structure Externals where
  keccak256 : Bytes → B256
  decodePostAndVerifyBatch : Bytes → Except String EvmBatch
  decodeExecuteIncoming : Bytes → Except String ExecutionTableCall
  decodeLoadExecutionTable : Bytes → Except String ExecutionTableCall

inductive PostBatchDecodeError where
  | invalidAbi (reason : String)
  | nonCanonical

/-- Canonically decoded input; none of its claims is verified. -/
structure CanonicalPostBatch where
  batch : EvmBatch

def CanonicalPostBatch.entryHashAt (keccak : Bytes → B256) (b : CanonicalPostBatch) (index : Nat) : Option B256 :=
  (b.batch.entries[index]?).map fun entry => keccak entry.abiEncode

def decodeCanonicalPostBatch (ext : Externals) (calldata : Bytes) :
    Except PostBatchDecodeError CanonicalPostBatch := do
  let batch ← (ext.decodePostAndVerifyBatch calldata).mapError .invalidAbi
  ensure (4 ≤ calldata.length ∧ calldata.drop 4 = batch.canonicalArguments) .nonCanonical
  return ⟨batch⟩

inductive PublicInputError where
  | invalidStructure (reason : String)
  | computation (reason : String)
  | hashCount (actual : Nat)

def hexDigit (n : Nat) : Char := if n < 10 then Char.ofNat (48 + n) else Char.ofNat (87 + n)

def nibbles (b : Bytes) : List Nat := b.flatMap fun x => [x.toNat / 16, x.toNat % 16]

/-- Mixed-case address text: a letter is capital where the hash of the plain text
has a large digit. -/
def checksummed (keccak : Bytes → B256) (a : Address) : String :=
  let digits := (nibbles (addressBytes a)).map hexDigit
  let marks := nibbles (b256Bytes (keccak (digits.map fun c => UInt8.ofNat c.toNat)))
  "0x" ++ String.ofList ((digits.zip marks).map fun (c, mark) => if 8 ≤ mark then c.toUpper else c)

def checkDestinations (expectedRollup : UInt64) : Nat → List ExecutionEntrySol → Except PublicInputError Unit
  | _, [] => .ok ()
  | i, entry :: entries => do
    ensure (entry.destinationRollupId = expectedRollup) (.invalidStructure
      (s!"entry {i} destination rollup {entry.destinationRollupId} does not match expected rollup id " ++
        s!"{expectedRollup}"))
    checkDestinations expectedRollup (i + 1) entries

/-- Entries before the first with a proxy entry hash. -/
def leadingImmediateEntries (entries : List ExecutionEntrySol) : Nat :=
  (entries.takeWhile fun e => e.proxyEntryHash = 0).length

def checkProofSystem (keccak : Bytes → B256) (batch : EvmBatch) (expectedProofSystem : Address) :
    Except PublicInputError Unit :=
  match batch.proofSystems with
  | [proofSystem] => ensure (proofSystem = expectedProofSystem) (.invalidStructure
      (s!"proof system address {checksummed keccak proofSystem} does not match expected proof system " ++
        s!"{checksummed keccak expectedProofSystem}"))
  | other => .error (.invalidStructure s!"expected exactly one proof system, got {other.length}")

def checkRollupAssignment (batch : EvmBatch) (expectedRollup : UInt64) : Except PublicInputError Unit :=
  match batch.rollupIdsWithProofSystems with
  | [assignment] => do
    ensure (assignment.rollupId = expectedRollup) (.invalidStructure
      s!"rollup assignment id {assignment.rollupId} does not match expected rollup id {expectedRollup}")
    ensure (assignment.proofSystemIndexes = [0])
      (.invalidStructure "rollup assignment proof-system indices must be exactly [0]")
  | other => .error (.invalidStructure s!"expected exactly one rollup assignment, got {other.length}")

def validatePublicInputStructure (keccak : Bytes → B256) (batch : EvmBatch) (expectedRollupId : NonZeroU64)
    (expectedProofSystem : Address) : Except PublicInputError Unit := do
  checkProofSystem keccak batch expectedProofSystem
  checkRollupAssignment batch expectedRollupId
  ensure (batch.expectedRootPerRollup = [])
    (.invalidStructure "expectedRootPerRollup must be empty in the supported profile")
  checkDestinations expectedRollupId 0 batch.entries
  ensure (batch.staticEntries = []) (.invalidStructure
    s!"staticEntries must be empty in the supported profile, got {batch.staticEntries.length}")
  ensure (batch.immediateStaticEntryCount = 0) (.invalidStructure
    s!"immediateStaticEntryCount must be zero, got {batch.immediateStaticEntryCount.toNat}")
  ensure (batch.immediateEntryCount.toNat < 2 ^ 64) (.invalidStructure
    s!"immediateEntryCount {batch.immediateEntryCount.toNat} does not fit in usize")
  ensure (batch.immediateEntryCount.toNat = leadingImmediateEntries batch.entries) (.invalidStructure
    (s!"immediateEntryCount {batch.immediateEntryCount.toNat} does not match the " ++
      s!"{leadingImmediateEntries batch.entries} leading entries with proxyEntryHash == 0"))
  ensure (batch.blockNumber = 0) (.invalidStructure s!"blockNumber must be zero, got {batch.blockNumber}")
  ensure (batch.blobIndices = []) (.invalidStructure s!"blobIndices must be empty, got {batch.blobIndices.length}")
  ensure (batch.bindMsgSenderInPublicInput = false)
    (.invalidStructure "bindMsgSenderInPublicInput must be false in the supported profile")

def recomputePublicInputsHash (keccak : Bytes → B256) (batch : EvmBatch) (vkey : NonZeroProofSystemVkey) :
    Except PublicInputError B256 := do
  let hashes ← (publicInputsHashes keccak batch vkey).mapError fun e => .computation e.message
  match hashes with
  | [hash] => return hash
  | other => throw (.hashCount other.length)

inductive RollupUpdateChainError where
  | noEntries
  | updateCount (entryIndex actual : Nat)
  | expectedRollupMismatch (expected claimed : UInt64)
  | rollupMismatch (entryIndex : Nat) (expected claimed : UInt64)
  | initialBlockMismatch (validated claimed : B256)
  | chainBreak (entryIndex : Nat) (previousClaimedCandidate nextClaimedPredecessor : B256)
  | finalMismatch (validated claimed : B256)

structure VerifiedRollupUpdateEntry where
  claimedEntry : ExecutionEntrySol
  claimedUpdate : RollupUpdateSol
  sole : claimedEntry.rollupUpdates = [claimedUpdate]

structure VerifiedRollupUpdateChain where
  expectedRollup : UInt64
  leading : VerifiedRollupUpdateEntry
  trailing : List VerifiedRollupUpdateEntry

def soleUpdate (entry : ExecutionEntrySol) (entryIndex : Nat) :
    Except RollupUpdateChainError VerifiedRollupUpdateEntry :=
  match h : entry.rollupUpdates with
  | [update] => .ok ⟨entry, update, h⟩
  | other => .error (.updateCount entryIndex other.length)

/-- The trailing entries and the last claimed root. -/
def verifyTrailing (claimedRollup : UInt64) : Nat → B256 → List ExecutionEntrySol →
    Except RollupUpdateChainError (List VerifiedRollupUpdateEntry × B256)
  | _, previous, [] => .ok ([], previous)
  | i, previous, entry :: entries => do
    let verified ← soleUpdate entry i
    let update := verified.claimedUpdate
    ensure (update.rollupId = claimedRollup) (.rollupMismatch i claimedRollup update.rollupId)
    ensure (update.currentRoot = previous) (.chainBreak i previous update.currentRoot)
    let (rest, final) ← verifyTrailing claimedRollup (i + 1) update.newRoot entries
    return (verified :: rest, final)

def verifyStateUpdateChain (batch : CanonicalPostBatch) (expectedRollupId : NonZeroU64)
    (preBlockHash postBlockHash : B256) : Except RollupUpdateChainError VerifiedRollupUpdateChain :=
  match batch.batch.entries with
  | [] => .error .noEntries
  | entry :: entries => do
    let leading ← soleUpdate entry 0
    let update := leading.claimedUpdate
    ensure (update.rollupId = expectedRollupId) (.expectedRollupMismatch expectedRollupId update.rollupId)
    ensure (update.currentRoot = preBlockHash) (.initialBlockMismatch preBlockHash update.currentRoot)
    let (trailing, final) ← verifyTrailing update.rollupId 1 update.newRoot entries
    ensure (final = postBlockHash) (.finalMismatch postBlockHash final)
    return ⟨expectedRollupId, leading, trailing⟩

end Eez.Signer
