import EezRollup.Lib.Runs
import EezRollup.Protocol.Primitives

/-! Cross-chain transactions between submission and the Sync slot that takes them. -/
namespace Eez.Composer
open Octets

abbrev U128 := BitVec 128

inductive Direction where
  | inbound
  | outbound
  deriving DecidableEq

structure HeldTx where
  rawTx : Bytes
  hash : B256
  attempts : UInt32
  sender : Address
  nonce : UInt64
  direction : Direction
  maxFeePerGas : U128
  priorityFeePerGas : U128
  deriving DecidableEq

def HeldTx.chain (tx : HeldTx) : Address × Direction := (tx.sender, tx.direction)

inductive AdmissionError where
  | nonce (expected onChain : UInt64)
  | underpricedReplacement (offeredMaxFee requiredMaxFee offeredPriorityFee requiredPriorityFee : U128)

def replacementTxCostPercent : Nat := 10

def u128Max : Nat := 2 ^ 128 - 1

/-- At least ten percent more, and at least one more; both operations saturate. -/
def minReplacementFee (replaced : U128) : U128 :=
  let increase := max (min (replaced.toNat * replacementTxCostPercent) u128Max / 100) 1
  BitVec.ofNat 128 (min (replaced.toNat + increase) u128Max)

/-- What a drained transaction keeps reserved. -/
structure Reservation where
  sender : Address
  direction : Direction
  nonce : UInt64

/-- The queue, the set of its hashes, and the reservations by hash. -/
structure PoolState where
  txs : List HeldTx
  byHash : List B256
  inFlight : List (B256 × Reservation)

namespace PoolState

def new : PoolState := ⟨[], [], []⟩

variable (s : PoolState)

def reserved (chain : Address × Direction) (onChain : UInt64) : List UInt64 :=
  ((s.txs.filter fun tx => tx.chain = chain).map HeldTx.nonce ++
    (s.inFlight.filter fun r => (r.2.sender, r.2.direction) = chain).map fun r => r.2.nonce).filter (onChain ≤ ·)

/-- One past the highest reservation; nothing when that overflows. -/
def nextExpectedNonce (chain : Address × Direction) (onChain : UInt64) : Option UInt64 :=
  match ((s.reserved chain onChain).map UInt64.toNat).max? with
  | some nonce => if nonce + 1 < 2 ^ 64 then some (UInt64.ofNat (nonce + 1)) else none
  | none => some onChain

def markInFlight (tx : HeldTx) : PoolState :=
  if s.inFlight.any fun r => r.1 = tx.hash then s
  else { s with inFlight := s.inFlight ++ [(tx.hash, ⟨tx.sender, tx.direction, tx.nonce⟩)] }

def releaseInFlight (tx : HeldTx) : PoolState :=
  { s with inFlight := s.inFlight.filter fun r => r.1 ≠ tx.hash }

def dropHash (hash : B256) : PoolState := { s with byHash := s.byHash.filter fun h => h ≠ hash }

/-- Back to the front, unless the hash is queued already. -/
def pushFrontRecovered (tx : HeldTx) : PoolState :=
  let s := s.releaseInFlight tx
  if tx.hash ∈ s.byHash then s else { s with byHash := tx.hash :: s.byHash, txs := tx :: s.txs }

/-- Admission: a duplicate is ignored, a queued nonce is replaced in place by a
better offer, and otherwise only the next nonce of the chain is appended. -/
def pushContiguous (tx : HeldTx) (onChain : UInt64) : Except AdmissionError PoolState :=
  if tx.hash ∈ s.byHash ∨ (s.inFlight.any fun r => r.1 = tx.hash) = true then .ok s
  else if tx.nonce < onChain then
    .error (.nonce ((s.nextExpectedNonce tx.chain onChain).getD (UInt64.ofNat (2 ^ 64 - 1))) onChain)
  else
    match s.txs.findIdx? fun queued => queued.chain = tx.chain ∧ queued.nonce = tx.nonce with
    | some i =>
      match s.txs[i]? with
      | none => .ok s
      | some replaced =>
        let requiredMaxFee := minReplacementFee replaced.maxFeePerGas
        let requiredPriorityFee := minReplacementFee replaced.priorityFeePerGas
        if tx.maxFeePerGas < requiredMaxFee ∨ tx.priorityFeePerGas < requiredPriorityFee then
          .error (.underpricedReplacement tx.maxFeePerGas requiredMaxFee tx.priorityFeePerGas requiredPriorityFee)
        else
          let s := { s with txs := s.txs.set i tx }
          let s := s.dropHash replaced.hash
          .ok { s with byHash := tx.hash :: s.byHash }
    | none =>
      if (s.inFlight.any fun r => (r.2.sender, r.2.direction) = tx.chain ∧ r.2.nonce = tx.nonce) = true then
        .error (.nonce ((s.nextExpectedNonce tx.chain onChain).getD (UInt64.ofNat (2 ^ 64 - 1))) onChain)
      else
        match s.nextExpectedNonce tx.chain onChain with
        | none => .error (.nonce (UInt64.ofNat (2 ^ 64 - 1)) onChain)
        | some expected =>
          if tx.nonce ≠ expected then .error (.nonce expected onChain)
          else .ok { s with byHash := tx.hash :: s.byHash, txs := s.txs ++ [tx] }

/-- The lowest recovered nonce of each chain that a newer queued transaction
holds, with the hash of that transaction. -/
abbrev Roots := Address × Direction → Option (UInt64 × B256)

def replacement (tx : HeldTx) : Option HeldTx :=
  s.txs.find? fun queued => queued.chain = tx.chain ∧ queued.nonce = tx.nonce ∧ queued.hash ≠ tx.hash

def noteReplacement (roots : Roots) (tx : HeldTx) : Roots :=
  match s.replacement tx with
  | none => roots
  | some replacement => fun chain =>
    if chain = tx.chain then
      match roots chain with
      | none => some (tx.nonce, replacement.hash)
      | some (nonce, hash) => if tx.nonce < nonce then some (tx.nonce, replacement.hash) else some (nonce, hash)
    else roots chain

def replacementRoots (recovered : List HeldTx) : Roots := recovered.foldl s.noteReplacement fun _ => none

/-- A newer queued replacement discards the recovered nonce and those above it. -/
def discards (roots : Roots) (tx : HeldTx) : Bool :=
  match roots tx.chain with
  | some (conflict, _) => conflict ≤ tx.nonce
  | none => false

def recover (roots : Roots) (tx : HeldTx) (s : PoolState) : PoolState :=
  if discards roots tx then s.releaseInFlight tx else s.pushFrontRecovered tx

/-- Re-queue at the front, the last transaction first. -/
def pushFrontBatch (recovered : List HeldTx) : PoolState :=
  recovered.foldr (recover (s.replacementRoots recovered)) s

def returned (s : PoolState) (roots : Roots) (recovered : List HeldTx) : List HeldTx :=
  recovered.filter fun tx => !discards roots tx && !decide (tx.hash ∈ s.byHash)

def releaseInFlightBatch (txs : List HeldTx) : PoolState := txs.foldl releaseInFlight s

/-- The queued transactions at or above a nonce of one chain leave with every
such reservation. -/
def evictChainAtOrAbove (sender : Address) (direction : Direction) (nonce : UInt64) : List HeldTx × PoolState :=
  let evicts := fun tx : HeldTx => decide (tx.chain = (sender, direction) ∧ nonce ≤ tx.nonce)
  let evicted := s.txs.filter evicts
  let s := evicted.foldl (fun s tx => s.dropHash tx.hash) s
  (evicted, { s with
    txs := s.txs.filter fun tx => !evicts tx
    inFlight := s.inFlight.filter fun r => !decide
      ((r.2.sender, r.2.direction) = (sender, direction) ∧ nonce ≤ r.2.nonce) })

def popN (n : Nat) : List HeldTx × PoolState :=
  let drained := s.txs.take (min n s.txs.length)
  let s := { s with txs := s.txs.drop (min n s.txs.length) }
  (drained, drained.foldl (fun s tx => (s.dropHash tx.hash).markInFlight tx) s)

end PoolState

end Eez.Composer
