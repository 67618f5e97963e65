import EezRollup.Protocol.SystemTx
import EezRollup.Signer.EffectBinding

/-! The published payload is decoded and bound to the validated blocks. -/
namespace Eez.Signer
open Octets Outcome Codec

inductive DaPayloadError where
  | decode (reason : String)
  | trailingBytes (trailing : Nat)
  | blockCount (expected actual : Nat)
  | unexpectedItems (field : String) (expected : Nat)
  | projectedTransactionCount (blockNumber : UInt64) (submitted expected : Nat)
  | transactionMismatch (blockNumber : UInt64) (transactionIndex : Nat)
  | missingAction (entryIndex transactionIndex : Nat)
  | actionMismatch (entryIndex transactionIndex : Nat)
  | rollingHashMismatch (entryIndex transactionIndex : Nat) (recomputed : B256)
  | unrebuildableAction (entryIndex : Nat) (rollupId : UInt64) (reason : String)
  | headerInputMismatch (field : String) (blockNumber : UInt64)
  | systemTransactionReconstruction (reason : String)
  | syncBlockTransactionMismatch (transactionIndex : Nat)
  | syncBlockTransactionCount (expected actual : Nat)
  | invalidEffectTransactionLayout

structure DaPayload where
  span : DecodedSpan
  actions : List Action
  nextTransaction : Nat

namespace DaPayload

def ofCodecError : CodecError → DaPayloadError
  | .trailingBytes trailing => .trailingBytes trailing
  | other => .decode other.message

def decode (encodedPayload : Bytes) (expectedRollupId : UInt64) : Except DaPayloadError DaPayload := do
  let container ← (decodeContainer encodedPayload).mapError ofCodecError
  ensure (container.rollupId = expectedRollupId) (.decode
    s!"DA payload carries rollup {container.rollupId} operations, expected {expectedRollupId}")
  return ⟨container.span, container.actions, 0⟩

def blockCount (p : DaPayload) (expectedBlocks index : Nat) : Except DaPayloadError Nat := do
  ensure (p.span.blockCount = expectedBlocks) (.blockCount expectedBlocks p.span.blockCount)
  let count ← require (p.span.blockTxCounts[index]?) (.blockCount expectedBlocks p.span.blockCount)
  return count.toNat

def expectTransaction (p : DaPayload) (blockNumber : UInt64) (transactionIndex : Nat) (expected : Bytes) :
    Except DaPayloadError DaPayload := do
  ensure (p.span.transactions[p.nextTransaction]? = some expected)
    (.transactionMismatch blockNumber transactionIndex)
  return { p with nextTransaction := p.nextTransaction + 1 }

def transactionsExhausted (p : DaPayload) (retained : Nat) : Except DaPayloadError Unit :=
  ensure (p.nextTransaction = p.span.transactions.length) (.unexpectedItems "transactions" retained)

end DaPayload

def verifyHeaderInputs (p : DaPayload) (blockIndex : Nat) (block : ValidatedBlock) :
    Except DaPayloadError Unit := do
  let beneficiary ← require (p.span.beneficiaries[blockIndex]?) (.headerInputMismatch "beneficiary" block.number)
  ensure (beneficiary = block.decoded.header.beneficiary) (.headerInputMismatch "beneficiary" block.number)
  let extraData ← require (p.span.extraData[blockIndex]?) (.headerInputMismatch "extraData" block.number)
  ensure (extraData = block.decoded.header.extraData) (.headerInputMismatch "extraData" block.number)

def expectTransactions (blockNumber : UInt64) : Nat → List Bytes → DaPayload → Except DaPayloadError DaPayload
  | _, [], p => .ok p
  | i, tx :: txs, p => do
    let p ← p.expectTransaction blockNumber i tx
    expectTransactions blockNumber (i + 1) txs p

/-- Every preceding block transaction for transaction; the count only feeds a
diagnostic. -/
def verifyPrecedingBlockTransactions (expectedBlocks : Nat) :
    Nat → List ValidatedBlock → DaPayload → Except DaPayloadError (DaPayload × Nat)
  | _, [], p => .ok (p, 0)
  | i, block :: blocks, p => do
    let submitted ← p.blockCount expectedBlocks i
    verifyHeaderInputs p i block
    let validated := block.decoded.transactions.length
    ensure (submitted = validated) (.projectedTransactionCount block.number submitted validated)
    let p ← expectTransactions block.number 0 block.decoded.encodedTransactions p
    let (p, retained) ← verifyPrecedingBlockTransactions expectedBlocks (i + 1) blocks p
    return (p, validated + retained)

/-- The settling block's transactions, those at omitted positions skipped. -/
def expectRetained (blockNumber : UInt64) :
    Nat → List Bytes → List Nat → DaPayload → Except DaPayloadError DaPayload
  | _, [], [], p => .ok p
  | _, [], _ :: _, _ => .error .invalidEffectTransactionLayout
  | i, tx :: txs, omitted, p =>
    if omitted.head? = some i then expectRetained blockNumber (i + 1) txs omitted.tail p
    else do
      let p ← p.expectTransaction blockNumber i tx
      expectRetained blockNumber (i + 1) txs omitted p

def omittedPositions (outbound : List AuthorizedOutboundEffect) (inbound : List AuthorizedInboundEffect) :
    List Nat :=
  outbound.map AuthorizedOutboundEffect.loadTransactionIndex ++ inbound.map AuthorizedInboundEffect.transactionIndex

/-- The cursor past the settling block and the count of its retained transactions. -/
def verifySettlingBlockTransactions (p : DaPayload) (block : ValidatedBlock) (expectedBlocks : Nat)
    (outbound : List AuthorizedOutboundEffect) (inbound : List AuthorizedInboundEffect) :
    Except DaPayloadError (DaPayload × Nat) := do
  let submitted ← p.blockCount expectedBlocks (expectedBlocks - 1)
  verifyHeaderInputs p (expectedBlocks - 1) block
  let validated := block.decoded.transactions.length
  let omitted := outbound.length + inbound.length
  ensure (omitted ≤ validated) .invalidEffectTransactionLayout
  ensure (submitted = validated - omitted) (.projectedTransactionCount block.number submitted (validated - omitted))
  let p ← expectRetained block.number 0 block.decoded.encodedTransactions (omittedPositions outbound inbound) p
  return (p, validated - omitted)

section
variable (keccak : Bytes → B256) (expectedRollupId : UInt64)

def rebuildAction (actions : List Action) (entryIndex transactionIndex : Nat) :
    Except DaPayloadError ExecutionEntrySol := do
  let action ← require (actions[entryIndex]?) (.missingAction entryIndex transactionIndex)
  (entryFromAction keccak action expectedRollupId).mapError fun e =>
    .unrebuildableAction entryIndex expectedRollupId e.message

/-- The completed outbound entries, for the reconstruction of the block. -/
def verifyOutboundSidecars (actions : List Action) :
    Nat → List AuthorizedOutboundEffect → Except DaPayloadError (List ExecutionEntrySol)
  | _, [] => .ok []
  | i, effect :: effects => do
    let rebuilt ← rebuildAction keccak expectedRollupId actions i effect.transactionIndex
    let expected := effect.derivedDaEntry rebuilt.returnData
    ensure (rebuilt.abiEncode = expected.abiEncode) (.actionMismatch i effect.transactionIndex)
    (effect.bindReturnData keccak rebuilt.returnData).mapError
      (.rollingHashMismatch i effect.transactionIndex)
    let entries ← verifyOutboundSidecars actions (i + 1) effects
    return expected :: entries

def verifyInboundSidecars (actions : List Action) :
    Nat → List AuthorizedInboundEffect → Except DaPayloadError Unit
  | _, [] => .ok ()
  | i, effect :: effects => do
    let rebuilt ← rebuildAction keccak expectedRollupId actions i effect.transactionIndex
    ensure (rebuilt.abiEncode = effect.observation.derivedDaEntry.encoded)
      (.actionMismatch i effect.transactionIndex)
    verifyInboundSidecars actions (i + 1) effects

def verifyEffectSidecars (p : DaPayload) (outbound : List AuthorizedOutboundEffect)
    (inbound : List AuthorizedInboundEffect) : Except DaPayloadError (List ExecutionEntrySol) := do
  let entries ← verifyOutboundSidecars keccak expectedRollupId p.actions 0 outbound
  verifyInboundSidecars keccak expectedRollupId p.actions entries.length inbound
  ensure (p.actions.length = outbound.length + inbound.length)
    (.unexpectedItems "actions" (outbound.length + inbound.length))
  return entries

end

/-- Byte comparison of two lists of one length, the first mismatch reported. -/
def compareTransactions : Nat → List Bytes → List Bytes → Except DaPayloadError Unit
  | i, a :: as, b :: bs => do
    ensure (a = b) (.syncBlockTransactionMismatch i)
    compareTransactions (i + 1) as bs
  | _, _, _ => .ok ()

/-- The first system transaction belongs to the first effect of the block. -/
def firstSystemPosition (outbound : List AuthorizedOutboundEffect) (inbound : List AuthorizedInboundEffect) :
    Option Nat :=
  (outbound.head?.map AuthorizedOutboundEffect.loadTransactionIndex).or
    (inbound.head?.map AuthorizedInboundEffect.transactionIndex)

def outboundReconstructionInputs (validated : List Bytes) (outbound : List AuthorizedOutboundEffect)
    (entries : List ExecutionEntrySol) : Except DaPayloadError (List (ExecutionEntrySol × Bytes)) :=
  (outbound.zip entries).mapM fun (binding, entry) => do
    let userTx ← require (validated[binding.transactionIndex]?) .invalidEffectTransactionLayout
    return (entry, userTx)

def verifyReconstructedSyncBlock (keccak : Bytes → B256) (context : SystemTxContext) (block : ValidatedBlock)
    (outbound : List AuthorizedOutboundEffect) (entries : List ExecutionEntrySol)
    (inbound : List AuthorizedInboundEffect) : Except DaPayloadError Unit := do
  let validated := block.decoded.encodedTransactions
  let position ← require (firstSystemPosition outbound inbound) .invalidEffectTransactionLayout
  let first ← require (block.decoded.transactions[position]?) .invalidEffectTransactionLayout
  let outboundInputs ← outboundReconstructionInputs validated outbound entries
  let inboundEntries := inbound.map fun binding => binding.observation.derivedDaEntry.abiEntry
  let pairs ← (buildCrossChainSyncPairs keccak context outboundInputs inboundEntries first.nonce).mapError
    .systemTransactionReconstruction
  let reconstructed := interleaveSyncBlockTxs pairs
  ensure (reconstructed.length = validated.length)
    (.syncBlockTransactionCount reconstructed.length validated.length)
  compareTransactions 0 validated reconstructed

/-- With no effects nothing was omitted and there is nothing to rebuild. -/
def verifyEncodedDaPayload (keccak : Bytes → B256) (context : SystemTxContext) (encodedPayload : Bytes)
    (preceding : List ValidatedBlock) (settling : ValidatedBlock) (outbound : List AuthorizedOutboundEffect)
    (inbound : List AuthorizedInboundEffect) (expectedRollupId : UInt64) : Except DaPayloadError Unit := do
  let p ← DaPayload.decode encodedPayload expectedRollupId
  let expectedBlocks := preceding.length + 1
  let (p, precedingCount) ← verifyPrecedingBlockTransactions expectedBlocks 0 preceding p
  let (p, settlingCount) ← verifySettlingBlockTransactions p settling expectedBlocks outbound inbound
  p.transactionsExhausted (precedingCount + settlingCount)
  let entries ← verifyEffectSidecars keccak expectedRollupId p outbound inbound
  if outbound.length + inbound.length ≠ 0 then
    verifyReconstructedSyncBlock keccak context settling outbound entries inbound

end Eez.Signer
