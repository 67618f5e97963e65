import EezRollup.Lib.Outcome
import EezRollup.Protocol.Primitives

/-! A validated block carries what the shared check of the backend's evidence establishes, so the
settlement gates need not look again. -/
namespace Eez.Signer
open Octets Outcome

structure Header where
  number : UInt64
  parentHash : B256
  beneficiary : Address
  extraData : Bytes

structure Block where
  header : Header
  transactions : List EezTxEnvelope

def Block.encodedTransactions (block : Block) : List Bytes := block.transactions.map EezTxEnvelope.encoded2718

inductive CheckpointAt where
  | preExecution
  | transaction (index : Nat)
  deriving DecidableEq

def CheckpointAt.before : CheckpointAt → CheckpointAt → Bool
  | .preExecution, .transaction _ => true
  | .transaction i, .transaction j => i < j
  | _, .preExecution => false

structure StateCheckpoint where
  position : CheckpointAt
  stateRoot : B256
  /-- The candidate block holding exactly this prefix. -/
  blockHash : B256

structure DecodedOutboundEvent where
  callHash : B256
  callGas : UInt64

/-- One outbound-event candidate; malformed ones keep their place. -/
structure OutboundEventObservation where
  transactionIndex : Nat
  receiptLogIndex : Nat
  decodedEvent : Option DecodedOutboundEvent

def OutboundEventObservation.before (a b : OutboundEventObservation) : Bool :=
  a.transactionIndex < b.transactionIndex ||
    (a.transactionIndex == b.transactionIndex && a.receiptLogIndex < b.receiptLogIndex)

structure SettlementBlockEvidence where
  systemSenderFlags : List Bool
  observedOutboundEvents : List OutboundEventObservation

structure BackendBlockOutput where
  computedHash : B256
  receiptSuccesses : List Bool
  transactionStateCheckpoints : List StateCheckpoint
  settlementEvidence : SettlementBlockEvidence

inductive BackendOutputError where
  | computedHash (computed expected : B256)
  | receiptCount (actual expected : Nat)
  | flagCount (actual expected : Nat)
  | eventOutOfBounds (transactionIndex transactionCount : Nat)
  | eventOrder (previous current : Nat × Nat)
  | unexpectedCheckpoints
  | checkpointOrder (previous current : CheckpointAt)
  | checkpointOutOfBounds (index transactionCount : Nat)

/-- Adjacent elements in order, the first offending pair reported. -/
def checkAdjacent {α ε : Type} (before : α → α → Bool) (err : α → α → ε) : List α → Except ε Unit
  | a :: b :: rest => do
    ensure (before a b = true) (err a b)
    checkAdjacent before err (b :: rest)
  | _ => .ok ()

theorem checkAdjacent_eq_ok {α ε : Type} {before : α → α → Bool} {err : α → α → ε} {l : List α} :
    checkAdjacent before err l = .ok u ↔ l.IsChain fun a b => before a b = true := by
  fun_induction checkAdjacent before err l with
  | case1 a b rest ih => simp [ih]
  | case2 l short =>
    cases l with
    | nil => simp
    | cons a l =>
      cases l with
      | nil => simp
      | cons b l => exact absurd rfl (short a b l)

def checkEach {α ε : Type} (bad : α → Option ε) : List α → Except ε Unit
  | [] => .ok ()
  | a :: rest =>
    match bad a with
    | some e => .error e
    | none => checkEach bad rest

theorem checkEach_eq_ok {α ε : Type} {bad : α → Option ε} {l : List α} :
    checkEach bad l = .ok u ↔ ∀ a ∈ l, bad a = none := by
  induction l with
  | nil => simp [checkEach]
  | cons a l ih =>
    rw [checkEach]
    cases h : bad a with
    | some e => simp [h]
    | none => simp [h, ih]

def eventOutOfBounds (count : Nat) (o : OutboundEventObservation) : Option BackendOutputError :=
  if o.transactionIndex < count then none else some (.eventOutOfBounds o.transactionIndex count)

def checkpointOutOfBounds (count : Nat) (c : StateCheckpoint) : Option BackendOutputError :=
  match c.position with
  | .preExecution => none
  | .transaction index => if index < count then none else some (.checkpointOutOfBounds index count)

def checkBackendBlockOutput (expectedHash : B256) (decoded : Block) (output : BackendBlockOutput)
    (allowCheckpoints : Bool) : Except BackendOutputError Unit := do
  ensure (output.computedHash = expectedHash) (.computedHash output.computedHash expectedHash)
  let count := decoded.transactions.length
  ensure (output.receiptSuccesses.length = count) (.receiptCount output.receiptSuccesses.length count)
  let evidence := output.settlementEvidence
  ensure (evidence.systemSenderFlags.length = count) (.flagCount evidence.systemSenderFlags.length count)
  checkEach (eventOutOfBounds count) evidence.observedOutboundEvents
  checkAdjacent OutboundEventObservation.before
    (fun a b => .eventOrder (a.transactionIndex, a.receiptLogIndex) (b.transactionIndex, b.receiptLogIndex))
    evidence.observedOutboundEvents
  ensure (allowCheckpoints = true ∨ output.transactionStateCheckpoints = []) .unexpectedCheckpoints
  checkAdjacent (fun a b => a.position.before b.position) (fun a b => .checkpointOrder a.position b.position)
    output.transactionStateCheckpoints
  checkEach (checkpointOutOfBounds count) output.transactionStateCheckpoints

/-- A block and its evidence, checked once. -/
structure ValidatedBlock where
  hash : B256
  decoded : Block
  receiptSuccesses : List Bool
  transactionStateCheckpoints : List StateCheckpoint
  settlementEvidence : SettlementBlockEvidence
  receipts_length : receiptSuccesses.length = decoded.transactions.length
  flags_length : settlementEvidence.systemSenderFlags.length = decoded.transactions.length
  events_bounded : ∀ o ∈ settlementEvidence.observedOutboundEvents, o.transactionIndex < decoded.transactions.length
  events_ordered : settlementEvidence.observedOutboundEvents.IsChain fun a b => a.before b = true
  checkpoints_ordered : transactionStateCheckpoints.IsChain fun a b => a.position.before b.position = true
  checkpoints_bounded : ∀ c ∈ transactionStateCheckpoints,
    ∀ i, c.position = .transaction i → i < decoded.transactions.length

namespace ValidatedBlock

def number (block : ValidatedBlock) : UInt64 := block.decoded.header.number

def parentHash (block : ValidatedBlock) : B256 := block.decoded.header.parentHash

def flags (block : ValidatedBlock) : List Bool := block.settlementEvidence.systemSenderFlags

def events (block : ValidatedBlock) : List OutboundEventObservation :=
  block.settlementEvidence.observedOutboundEvents

end ValidatedBlock

theorem checkBackendBlockOutput_eq_ok {hash : B256} {allow : Bool} :
    checkBackendBlockOutput hash decoded output allow = .ok u ↔
      output.computedHash = hash ∧ output.receiptSuccesses.length = decoded.transactions.length ∧
      output.settlementEvidence.systemSenderFlags.length = decoded.transactions.length ∧
      (∀ o ∈ output.settlementEvidence.observedOutboundEvents, o.transactionIndex < decoded.transactions.length) ∧
      (output.settlementEvidence.observedOutboundEvents.IsChain fun a b => a.before b = true) ∧
      (allow = true ∨ output.transactionStateCheckpoints = []) ∧
      (output.transactionStateCheckpoints.IsChain fun a b => a.position.before b.position = true) ∧
      ∀ c ∈ output.transactionStateCheckpoints, ∀ i, c.position = .transaction i → i < decoded.transactions.length := by
  have bounded : ∀ c : StateCheckpoint, checkpointOutOfBounds decoded.transactions.length c = none ↔
      ∀ i, c.position = .transaction i → i < decoded.transactions.length := by
    intro c
    unfold checkpointOutOfBounds
    cases c.position <;> simp
  simp [checkBackendBlockOutput, checkEach_eq_ok, checkAdjacent_eq_ok, eventOutOfBounds, bounded]

/-- The only constructor of a validated block the backends have. -/
def finish (hash : B256) (decoded : Block) (output : BackendBlockOutput) (allowCheckpoints : Bool) :
    Except BackendOutputError ValidatedBlock :=
  match h : checkBackendBlockOutput hash decoded output allowCheckpoints with
  | .error e => .error e
  | .ok _ => .ok {
      hash := output.computedHash
      decoded
      receiptSuccesses := output.receiptSuccesses
      transactionStateCheckpoints := output.transactionStateCheckpoints
      settlementEvidence := output.settlementEvidence
      receipts_length := (checkBackendBlockOutput_eq_ok.mp h).2.1
      flags_length := (checkBackendBlockOutput_eq_ok.mp h).2.2.1
      events_bounded := (checkBackendBlockOutput_eq_ok.mp h).2.2.2.1
      events_ordered := (checkBackendBlockOutput_eq_ok.mp h).2.2.2.2.1
      checkpoints_ordered := (checkBackendBlockOutput_eq_ok.mp h).2.2.2.2.2.2.1
      checkpoints_bounded := (checkBackendBlockOutput_eq_ok.mp h).2.2.2.2.2.2.2 }

structure ValidatedWindow where
  windowPreBlockHash : B256
  precedingBlocks : List ValidatedBlock
  settlingBlock : ValidatedBlock

def ValidatedWindow.windowPostBlockHash (window : ValidatedWindow) : B256 := window.settlingBlock.hash

def ValidatedWindow.blocks (window : ValidatedWindow) : List ValidatedBlock :=
  window.precedingBlocks ++ [window.settlingBlock]

/-- Positions ending a pair: every user transaction, and every system one that a
system transaction or the end of the block follows. -/
def pairEndPositions (isSystem : List Bool) : List Nat :=
  (List.range isSystem.length).filter fun i =>
    !(isSystem.getD i false) || (isSystem[i + 1]?).getD true

/-- Checkpoints a Sync candidate needs; ordinary nonempty blocks need none. -/
def checkpointPlan (block : Block) : List CheckpointAt :=
  let flags := block.transactions.map isSystemTx
  if block.transactions.length = 0 ∨ true ∈ flags then
    .preExecution :: (pairEndPositions flags).map .transaction
  else []

end Eez.Signer
