import Mathlib.Data.List.Perm.Basic
import Mathlib.Data.List.Perm.Lattice
import Mathlib.Data.List.Nodup
import EezRollup.Composer.HeldPool
import EezRollup.Protocol.Header

/-! Batches whose Sync block committed before their bundle settled, by the height of that block, in
ascending order. -/
namespace Eez.Composer
open Octets

inductive Resolution where
  | pending
  | settled
  | failed
  | settledPartial
  deriving DecidableEq

structure InFlight where
  txs : List HeldTx
  postBatchHash : B256
  parent : SealedHeader
  resolution : Resolution
  cursorConfirmed : Bool
  slotSkipped : Bool

structure FailedBatch where
  syncHeight : Nat
  postBatchHash : B256
  parent : SealedHeader
  txs : List HeldTx
  slotSkipped : Bool

abbrev OptimisticallyIncluded := List (Nat × InFlight)

namespace OptimisticallyIncluded

def insert (height : Nat) (entry : InFlight) : OptimisticallyIncluded → OptimisticallyIncluded
  | [] => [(height, entry)]
  | (k, x) :: rest =>
    if height < k then (height, entry) :: (k, x) :: rest
    else if height = k then (height, entry) :: rest
    else (k, x) :: insert height entry rest

variable (map : OptimisticallyIncluded)

def modifyAt (height : Nat) (f : InFlight → InFlight) : OptimisticallyIncluded :=
  map.map fun p => if p.1 = height then (p.1, f p.2) else p

def «begin» (syncHeight : Nat) (postBatchHash : B256) (parent : SealedHeader) (txs : List HeldTx) :
    OptimisticallyIncluded :=
  insert syncHeight ⟨txs, postBatchHash, parent, .pending, false, false⟩ map

def blockingHeight (cursor : Nat) : Option Nat := (map.find? fun p => cursor < p.1).map Prod.fst

/-- The cursor confirms a height, not which transactions ran: it releases those
of a full settlement and sends every other entry to disposition. -/
def resolveEntry (entry : InFlight) : List HeldTx × InFlight :=
  let entry :=
    if entry.resolution = .pending ∨ entry.resolution = .failed then { entry with resolution := .settledPartial }
    else entry
  if entry.resolution = .settled ∧ entry.cursorConfirmed = false then
    (entry.txs, { entry with cursorConfirmed := true })
  else ([], entry)

def resolveBelowCursor (cursor : Nat) : List HeldTx × OptimisticallyIncluded :=
  (map.flatMap fun p => if p.1 ≤ cursor then (resolveEntry p.2).1 else [],
    map.map fun p => if p.1 ≤ cursor then (p.1, (resolveEntry p.2).2) else p)

def confirms (cursor : Nat) (p : Nat × InFlight) : Bool :=
  p.1 ≤ cursor ∧ p.2.resolution = .settled ∧ p.2.cursorConfirmed = false

def markSettledPartial (syncHeight : Nat) (postBatchHash : B256) : OptimisticallyIncluded :=
  map.modifyAt syncHeight fun entry =>
    if entry.postBatchHash = postBatchHash ∧ entry.resolution = .pending then
      { entry with resolution := .settledPartial }
    else entry

/-- Copied, not drained: the entry stays until it is claimed. -/
def partialToDispose (cursor : Nat) : Option FailedBatch :=
  (map.find? fun p => p.1 ≤ cursor ∧ p.2.resolution = .settledPartial).map fun p =>
    ⟨p.1, p.2.postBatchHash, p.2.parent, p.2.txs, false⟩

/-- False when a reorg or a rebuild took the batch first. -/
def claimPartial (syncHeight : Nat) (postBatchHash : B256) (spent : List HeldTx) : Bool × OptimisticallyIncluded :=
  if (map.any fun p => p.1 = syncHeight ∧ p.2.postBatchHash = postBatchHash) = true then
    (true, map.modifyAt syncHeight fun entry => { entry with
      txs := spent, resolution := .settled, cursorConfirmed := true })
  else (false, map)

def markSettled (syncHeight : Nat) (postBatchHash : B256) : OptimisticallyIncluded :=
  map.modifyAt syncHeight fun entry =>
    if entry.postBatchHash = postBatchHash then { entry with resolution := .settled } else entry

def markFailed (syncHeight : Nat) (postBatchHash : B256) (slotSkipped : Bool) : OptimisticallyIncluded :=
  map.modifyAt syncHeight fun entry =>
    if entry.postBatchHash = postBatchHash ∧ entry.resolution = .pending then
      { entry with resolution := .failed, slotSkipped }
    else entry

/-- Extract the first failed entry above the cursor. -/
def takeFailedForRecovery (cursor : Nat) : Option (FailedBatch × OptimisticallyIncluded) :=
  (map.find? fun p => cursor < p.1 ∧ p.2.resolution = .failed).map fun p =>
    (⟨p.1, p.2.postBatchHash, p.2.parent, p.2.txs, p.2.slotSkipped⟩, map.filter fun q => q.1 ≠ p.1)

def reinsertFailed (batch : FailedBatch) : OptimisticallyIncluded :=
  insert batch.syncHeight ⟨batch.txs, batch.postBatchHash, batch.parent, .failed, false, batch.slotSkipped⟩ map

/-- Settled entries above the retreated cursor lost their L1 backing. -/
def rollsOut (newCursor : Nat) (p : Nat × InFlight) : Bool :=
  newCursor < p.1 ∧ (p.2.resolution = .settled ∨ p.2.resolution = .settledPartial)

def takeRolledOut (newCursor : Nat) : List HeldTx × OptimisticallyIncluded :=
  ((map.filter (rollsOut newCursor)).flatMap fun p => p.2.txs, map.filter fun p => !rollsOut newCursor p)

def finalizes (finalizedL2 : Nat) (p : Nat × InFlight) : Bool := p.1 ≤ finalizedL2 ∧ p.2.resolution = .settled

def takeFinalized (finalizedL2 : Nat) : List (Nat × B256 × List HeldTx) × OptimisticallyIncluded :=
  ((map.filter (finalizes finalizedL2)).map fun p => (p.1, p.2.postBatchHash, p.2.txs),
    map.filter fun p => !finalizes finalizedL2 p)

end OptimisticallyIncluded

inductive Slot where
  | idle
  /-- Reading nonces for a copied partial settlement. -/
  | disposing (batch : FailedBatch)
  /-- Recovering an extracted failed batch. -/
  | recovering (batch : FailedBatch)
  /-- Nothing was above this cursor. -/
  | gateOpen (cursor : Nat)

inductive Disposal where
  | resolved (postBatchHash : B256) (txs : List HeldTx)
  | handedBack (postBatchHash : B256) (txs : List HeldTx)
  | finalized (postBatchHash : B256) (txs : List HeldTx)

structure LedgerRun where
  ledger : OptimisticallyIncluded
  slot : Slot
  begun : List (B256 × List HeldTx)
  log : List Disposal

inductive LedgerAction where
  | resolve (cursor : Nat)
  | dispose (cursor : Nat)
  | claim (spent unspent : List HeldTx)
  | keepPartial
  | recover (cursor : Nat)
  | reinsert
  | requeue
  | gate (cursor : Nat)
  | «begin» (syncHeight : Nat) (postBatchHash : B256) (parent : SealedHeader) (txs : List HeldTx)
  | leaveGate
  | markSettled (syncHeight : Nat) (postBatchHash : B256)
  | markSettledPartial (syncHeight : Nat) (postBatchHash : B256)
  | markFailed (syncHeight : Nat) (postBatchHash : B256) (slotSkipped : Bool)
  | rollOut (newCursor : Nat)
  | finalize (finalizedL2 : Nat)

namespace LedgerRun

def new : LedgerRun := ⟨[], .idle, [], []⟩

variable (r : LedgerRun)

/-- The cursor is an argument of every step that reads it: it moves freely
between them. -/
def step : LedgerAction → LedgerRun
  | .resolve cursor => { r with
      ledger := (r.ledger.resolveBelowCursor cursor).2
      log := r.log ++ (r.ledger.filter (OptimisticallyIncluded.confirms cursor)).map fun p =>
        .resolved p.2.postBatchHash p.2.txs }
  | .dispose cursor =>
    match r.ledger.partialToDispose cursor with
    | some batch => { r with slot := .disposing batch }
    | none => r
  | .claim spent unspent =>
    match r.slot with
    | .disposing batch =>
      let claimed := r.ledger.claimPartial batch.syncHeight batch.postBatchHash spent
      if claimed.1 then
        { r with ledger := claimed.2, slot := .idle, log := r.log ++ [.handedBack batch.postBatchHash unspent] }
      else { r with slot := .idle }
    | _ => r
  | .keepPartial => { r with slot := .idle }
  | .recover cursor =>
    match r.ledger.takeFailedForRecovery cursor with
    | some (batch, ledger) => { r with ledger, slot := .recovering batch }
    | none => r
  | .reinsert =>
    match r.slot with
    | .recovering batch => { r with ledger := r.ledger.reinsertFailed batch, slot := .idle }
    | _ => r
  | .requeue =>
    match r.slot with
    | .recovering batch => { r with slot := .idle, log := r.log ++ [.handedBack batch.postBatchHash batch.txs] }
    | _ => r
  | .gate cursor =>
    match r.ledger.blockingHeight cursor with
    | none => { r with slot := .gateOpen cursor }
    | some _ => r
  | .begin syncHeight postBatchHash parent txs => { r with
      ledger := r.ledger.begin syncHeight postBatchHash parent txs
      slot := .idle
      begun := r.begun ++ [(postBatchHash, txs)] }
  | .leaveGate => { r with slot := .idle }
  | .markSettled syncHeight postBatchHash => { r with ledger := r.ledger.markSettled syncHeight postBatchHash }
  | .markSettledPartial syncHeight postBatchHash =>
    { r with ledger := r.ledger.markSettledPartial syncHeight postBatchHash }
  | .markFailed syncHeight postBatchHash slotSkipped =>
    { r with ledger := r.ledger.markFailed syncHeight postBatchHash slotSkipped }
  | .rollOut newCursor => { r with
      ledger := (r.ledger.takeRolledOut newCursor).2
      log := r.log ++ (r.ledger.filter (OptimisticallyIncluded.rollsOut newCursor)).map fun p =>
        .handedBack p.2.postBatchHash p.2.txs }
  | .finalize finalizedL2 => { r with
      ledger := (r.ledger.takeFinalized finalizedL2).2
      log := r.log ++ (r.ledger.takeFinalized finalizedL2).1.map fun p => .finalized p.2.1 p.2.2 }

/-- The slot context runs one operation at a time; the other actors are free. A
claim splits the copied transactions, and a batch hash is never used twice. -/
def Takes : LedgerAction → Prop
  | .resolve _ | .dispose _ | .recover _ | .gate _ => r.slot = .idle
  | .claim spent unspent => ∃ batch, r.slot = .disposing batch ∧ (spent ++ unspent).Perm batch.txs
  | .keepPartial => ∃ batch, r.slot = .disposing batch
  | .reinsert | .requeue => ∃ batch, r.slot = .recovering batch
  | .begin syncHeight postBatchHash _ _ =>
    ∃ cursor, r.slot = .gateOpen cursor ∧ cursor < syncHeight ∧ postBatchHash ∉ r.begun.map Prod.fst
  | .leaveGate => ∃ cursor, r.slot = .gateOpen cursor
  | _ => True

end LedgerRun

end Eez.Composer
