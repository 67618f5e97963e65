import EezRollup.Lib.Outcome
import EezRollup.Protocol.AbiTypes

/-! The hash every proof system attests: a shared part, then one fold per proof system over the
rollups it proves. -/
namespace Eez
open Octets Abi Outcome

structure RollupProofAssignment where
  rollupId : UInt64
  proofSystemIndexes : List UInt64

structure ProofPlan where
  proofSystems : List Address
  rollupAssignments : List RollupProofAssignment
  customData : List Bytes
  vkMatrix : List (List B256)

inductive ProofPlanInvariantError where
  | emptyProofSystems
  | emptyRollupAssignments
  | proofSystemsNotSorted (index : Nat)
  | rollupAssignmentsNotSorted (index : Nat)
  | emptyProofSystemIndex (rollupIdx : Nat)
  | proofSystemIndexNotSorted (rollupIdx index : Nat)
  | proofSystemIndexOutOfBounds (rollupIdx index : Nat) (value : UInt64) (psLen : Nat)
  | vkMatrixOuterLength (expected got : Nat)
  | vkMatrixRowLength (rollupIdx expected got : Nat)
  | customDataLength (expected got : Nat)

def ProofPlanInvariantError.message : ProofPlanInvariantError → String
  | emptyProofSystems => "proof_systems is empty"
  | emptyRollupAssignments => "rollup_assignments is empty"
  | proofSystemsNotSorted index => s!"proof_systems not strictly increasing at index {index}"
  | rollupAssignmentsNotSorted index =>
    s!"rollup_assignments not strictly increasing at index {index} (sentinel = MAINNET_ROLLUP_ID = 0)"
  | emptyProofSystemIndex rollupIdx => s!"rollup_assignments[{rollupIdx}].proof_system_indexes is empty"
  | proofSystemIndexNotSorted rollupIdx index =>
    s!"rollup_assignments[{rollupIdx}].proof_system_indexes not strictly increasing at {index}"
  | proofSystemIndexOutOfBounds rollupIdx index value psLen =>
    s!"rollup_assignments[{rollupIdx}].proof_system_indexes[{index}]={value} >= proof_systems.len()={psLen}"
  | vkMatrixOuterLength expected got =>
    s!"vk_matrix outer length mismatch: expected {expected} rows (rollup_assignments.len()), got {got}"
  | vkMatrixRowLength rollupIdx expected got =>
    s!"vk_matrix[{rollupIdx}] row width mismatch: expected {expected} (proof_system_indexes.len()), got {got}"
  | customDataLength expected got => s!"custom_data length {got} != rollup_assignments length {expected}"

/-- The first place where a list stops increasing is the error's index. -/
def checkIncreasing {α ε : Type} (lt : α → α → Bool) (err : Nat → ε) : Nat → List α → Except ε Unit
  | i, a :: b :: rest => do
    ensure (lt a b = true) (err (i + 1))
    checkIncreasing lt err (i + 1) (b :: rest)
  | _, _ => .ok ()

def checkIndexBounds (rollupIdx psLen : Nat) : Nat → List UInt64 → Except ProofPlanInvariantError Unit
  | _, [] => .ok ()
  | j, idx :: rest => do
    ensure (idx.toNat < psLen) (.proofSystemIndexOutOfBounds rollupIdx j idx psLen)
    checkIndexBounds rollupIdx psLen (j + 1) rest

/-- Each assignment with its row of the matrix. -/
def checkAssignments (psLen : Nat) :
    Nat → List RollupProofAssignment → List (List B256) → Except ProofPlanInvariantError Unit
  | r, assignment :: assignments, row :: rows => do
    ensure (assignment.proofSystemIndexes ≠ []) (.emptyProofSystemIndex r)
    checkIncreasing (fun a b => a < b) (.proofSystemIndexNotSorted r) 0 assignment.proofSystemIndexes
    checkIndexBounds r psLen 0 assignment.proofSystemIndexes
    ensure (assignment.proofSystemIndexes.length = row.length)
      (.vkMatrixRowLength r assignment.proofSystemIndexes.length row.length)
    checkAssignments psLen (r + 1) assignments rows
  | _, _, _ => .ok ()

def ProofPlan.checkInvariants (plan : ProofPlan) : Except ProofPlanInvariantError Unit := do
  ensure (plan.proofSystems ≠ []) .emptyProofSystems
  ensure (plan.rollupAssignments ≠ []) .emptyRollupAssignments
  -- the ordering check is seeded with the zero address, and with rollup zero
  ensure (plan.proofSystems.head? ≠ some 0) (.proofSystemsNotSorted 0)
  checkIncreasing (fun a b => a < b) .proofSystemsNotSorted 0 plan.proofSystems
  ensure (plan.rollupAssignments.head?.map RollupProofAssignment.rollupId ≠ some 0)
    (.rollupAssignmentsNotSorted 0)
  checkIncreasing (fun a b => a.rollupId < b.rollupId) .rollupAssignmentsNotSorted 0 plan.rollupAssignments
  ensure (plan.customData.length = plan.rollupAssignments.length)
    (.customDataLength plan.rollupAssignments.length plan.customData.length)
  ensure (plan.vkMatrix.length = plan.rollupAssignments.length)
    (.vkMatrixOuterLength plan.rollupAssignments.length plan.vkMatrix.length)
  checkAssignments plan.proofSystems.length 0 plan.rollupAssignments plan.vkMatrix

inductive PublicInputsError where
  | invalidPlan (error : ProofPlanInvariantError)
  | unsupportedBlockNumber (blockNumber : UInt64)
  | unsupportedSenderBinding
  | unsupportedBlobIndices (count : Nat)

def PublicInputsError.message : PublicInputsError → String
  | invalidPlan error => error.message
  | unsupportedBlockNumber blockNumber =>
    s!"public-input hashing currently requires blockNumber == 0, got {blockNumber}"
  | unsupportedSenderBinding => "public-input hashing currently requires bindMsgSenderInPublicInput == false"
  | unsupportedBlobIndices count =>
    s!"public-input hashing currently requires empty blobIndices, got {count}"

section
variable (keccak : Bytes → B256)

def entryHash (entry : ExecutionEntrySol) : B256 := keccak entry.abiEncode

def staticEntryHash (entry : StaticExecutionEntrySol) : B256 := keccak (abiEncode entry.encode)

def encodeHashes (hashes : List B256) : Bytes := abiEncode (encodeStaticArray u256Word hashes)

/-- Each hash array is wrapped by its own encoding; the sender is packed. -/
def sharedPublicInput (entryHashes staticEntryHashes blobHashes : List B256) (callData : Bytes)
    (customDataHashes : List B256) (boundSender : Address) : B256 :=
  keccak (encodeHashes entryHashes ++ encodeHashes staticEntryHashes ++ encodeHashes blobHashes ++
    b256Bytes (keccak callData) ++ encodeHashes customDataHashes ++ addressBytes boundSender)

def customDataHash (rollupId : UInt64) (customData : Bytes) : B256 :=
  keccak (encodeSequence [.static (u64Word rollupId), .dynamic (encodeBytes customData)])

/-- The lookup is a binary search over a strictly increasing row. -/
def positionOf (k : UInt64) (indices : List UInt64) : Option Nat := indices.idxOf? k

def perPsFold (psIndex : UInt64) : List RollupProofAssignment → List (List B256) → B256 → B256
  | assignment :: assignments, row :: rows, acc =>
    match positionOf psIndex assignment.proofSystemIndexes with
    | none => perPsFold psIndex assignments rows acc
    | some j =>
      -- the checked plan has a key at every position
      let vkey := (row[j]?).getD 0
      perPsFold psIndex assignments rows
        (keccak (u256Word acc ++ u64Word assignment.rollupId ++ u256Word vkey))
  | _, _, acc => acc

def perPsPublicInputsHash (shared : B256) (plan : ProofPlan) (psIndexInGlobal : UInt64) : B256 :=
  keccak (b256Bytes shared ++ b256Bytes (perPsFold keccak psIndexInGlobal plan.rollupAssignments plan.vkMatrix 0))

def perPsHashes (plan : ProofPlan) (shared : B256) : List B256 :=
  (List.range plan.proofSystems.length).map fun k => perPsPublicInputsHash keccak shared plan (UInt64.ofNat k)

/-- `sharedPublicInput` as the contract computes it for `batch` sent by `sender`. -/
def batchSharedPublicInput (batch : EvmBatch) (sender : Address) : Except PublicInputsError B256 := do
  ensure (batch.blockNumber = 0) (.unsupportedBlockNumber batch.blockNumber)
  ensure (batch.blobIndices = []) (.unsupportedBlobIndices batch.blobIndices.length)
  return sharedPublicInput keccak (batch.entries.map (entryHash keccak))
    (batch.staticEntries.map (staticEntryHash keccak)) [] batch.callData
    (batch.rollupIdsWithProofSystems.map fun rollup => customDataHash keccak rollup.rollupId [])
    (if batch.bindMsgSenderInPublicInput then sender else 0)

/-- The plan of a batch whose rollups all use one verification key. -/
def batchPlan (batch : EvmBatch) (vkey : B256) : ProofPlan :=
  let rollupAssignments := batch.rollupIdsWithProofSystems.map fun r =>
    (⟨r.rollupId, r.proofSystemIndexes⟩ : RollupProofAssignment)
  { proofSystems := batch.proofSystems
    rollupAssignments
    customData := List.replicate rollupAssignments.length []
    vkMatrix := rollupAssignments.map fun a => List.replicate a.proofSystemIndexes.length vkey }

def publicInputsHashes (batch : EvmBatch) (vkey : B256) : Except PublicInputsError (List B256) := do
  ensure (batch.bindMsgSenderInPublicInput = false) .unsupportedSenderBinding
  let shared ← batchSharedPublicInput keccak batch 0
  let plan := batchPlan batch vkey
  (plan.checkInvariants).mapError PublicInputsError.invalidPlan
  return perPsHashes keccak plan shared

end

end Eez
