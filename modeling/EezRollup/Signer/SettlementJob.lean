import EezRollup.Signer.Da

/-! The gates in the order the signer runs them, stopping at the first failure. -/
namespace Eez.Signer
open Octets Outcome

/-- The target is fixed to the manager predeploy. -/
def systemTransactionReconstructor (l2ChainId : UInt64) (expectedRollupId : NonZeroU64) : SystemTxContext :=
  ⟨eezl2Address, l2ChainId, expectedRollupId⟩

/-- The service builds its reconstructor once, for its own chain and rollup. The
cancellation token is read twice. -/
structure SettlementInput where
  submittedPostBatchCalldata : Bytes
  validatedWindow : ValidatedWindow
  expectedRollupId : NonZeroU64
  expectedL2SystemAddress : Address
  proofSystemVkey : NonZeroProofSystemVkey
  expectedProofSystem : Address
  l2ChainId : UInt64
  cancelledAtStart : Bool
  cancelledBeforeDa : Bool

inductive ProveFailure where
  | outbound (transactionIndex : UInt32) (transactionHash : Bytes)
  | inbound (entryIndex : UInt32) (entryHash : Bytes)

inductive SettlementPipelineError where
  | actionable (source : SettlementPipelineError) (failure : ProveFailure)
  | postBatchCalldata (error : PostBatchDecodeError)
  | publicInputs (error : PublicInputError)
  | blockInspection (error : BlockInspectionError)
  | rollupUpdateChain (error : RollupUpdateChainError)
  | effectPrefix (error : EffectPrefixError)
  | inboundEffects (error : InboundEffectError)
  | outboundEffects (error : OutboundEffectError)
  | daPayload (error : DaPayloadError)
  | cancelled

def SettlementPipelineError.withActionable (error : SettlementPipelineError) :
    Option ProveFailure → SettlementPipelineError
  | some failure => .actionable error failure
  | none => error

def toU32 (n : Nat) : Option UInt32 := if n < 2 ^ 32 then some (UInt32.ofNat n) else none

def outboundFailure (transactionIndex : Nat) (transactionHash : B256) : Option ProveFailure :=
  (toU32 transactionIndex).map fun i => .outbound i (b256Bytes transactionHash)

def actionableBlockInspectionFailure (ext : Externals) (error : BlockInspectionError) (block : ValidatedBlock) :
    Option ProveFailure :=
  match error with
  | .revertedSystemTransaction index => do
    let (transactionIndex, transactionHash) ← pairedOutboundTransaction ext block index
    outboundFailure transactionIndex transactionHash
  | _ => none

def actionableOutboundFailure (keccak : Bytes → B256) (error : OutboundEffectError) (block : ValidatedBlock) :
    Option ProveFailure := do
  let transactionIndex ← error.poisonedTransactionIndex
  let transactionHash ← transactionHashAt keccak block transactionIndex
  outboundFailure transactionIndex transactionHash

def actionableInboundFailure (keccak : Bytes → B256) (error : InboundEffectError) (batch : CanonicalPostBatch) :
    Option ProveFailure := do
  let entryIndex ← error.poisonedEntryIndex
  let entryHash ← batch.entryHashAt keccak entryIndex
  let i ← toU32 entryIndex
  return .inbound i (b256Bytes entryHash)

def runSettlement (ext : Externals) (input : SettlementInput) : Except SettlementPipelineError B256 := do
  let settling := input.validatedWindow.settlingBlock
  let keccak := ext.keccak256
  let rollup := input.expectedRollupId
  ensure (input.cancelledAtStart = false) .cancelled
  let batch ← (decodeCanonicalPostBatch ext input.submittedPostBatchCalldata).mapError .postBatchCalldata
  (validatePublicInputStructure keccak batch.batch rollup input.expectedProofSystem).mapError .publicInputs
  let chain ← (verifyStateUpdateChain batch rollup input.validatedWindow.windowPreBlockHash
    input.validatedWindow.windowPostBlockHash).mapError .rollupUpdateChain
  let observations ← (inspectValidatedSettlingBlock ext settling rollup).mapError fun e =>
    (SettlementPipelineError.blockInspection e).withActionable (actionableBlockInspectionFailure ext e settling)
  (verifyValidatedIntermediateBlocks input.validatedWindow.precedingBlocks).mapError .blockInspection
  let effects ← (bindEffectsToExecution keccak chain settling.transactionStateCheckpoints
    observations).mapError .effectPrefix
  let inbound ← (authorizeInboundEffects keccak rollup effects observations.inboundCandidates).mapError fun e =>
    (SettlementPipelineError.inboundEffects e).withActionable (actionableInboundFailure keccak e batch)
  let outbound ← (authorizeOutboundEffects keccak rollup input.expectedL2SystemAddress
    observations.systemSenderFlags effects observations.outboundEventCandidates).mapError fun e =>
      (SettlementPipelineError.outboundEffects e).withActionable (actionableOutboundFailure keccak e settling)
  ensure (input.cancelledBeforeDa = false) .cancelled
  (verifyEncodedDaPayload keccak (systemTransactionReconstructor input.l2ChainId rollup) batch.batch.callData
    input.validatedWindow.precedingBlocks settling outbound inbound rollup).mapError .daPayload
  (recomputePublicInputsHash keccak batch.batch input.proofSystemVkey).mapError .publicInputs

end Eez.Signer
