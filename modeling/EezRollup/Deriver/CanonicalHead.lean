import EezRollup.Scan.Types

/-! Cursor, finalized height and the index of the posts that moved them, in L1 order. L2 heights are
`Nat`. -/
namespace Eez.Deriver

structure BatchRecord where
  post : PostId
  txHash : B256
  lastL2Block : Nat
  deriving DecidableEq

structure L1CanonicalHead where
  cursor : Nat
  finalizedL2 : Nat
  batches : List BatchRecord
  floor : Option PostId

/-- `a` is at or before `b` in L1 order: block, then log. -/
def PostId.positionLe (a b : PostId) : Prop :=
  a.l1Block < b.l1Block ∨ (a.l1Block = b.l1Block ∧ a.logIndex ≤ b.logIndex)

/-- At or before `tail` on its chain; the tail's height on another fork is a
different block. -/
def atOrBefore (id tail : PostId) : Prop :=
  PostId.positionLe id tail ∧ (id.l1Block < tail.l1Block ∨ id.l1BlockHash = tail.l1BlockHash)

instance (a b : PostId) : Decidable (PostId.positionLe a b) := inferInstanceAs (Decidable (_ ∨ _))

instance (id tail : PostId) : Decidable (atOrBefore id tail) := inferInstanceAs (Decidable (_ ∧ _))

namespace L1CanonicalHead

def empty : L1CanonicalHead := ⟨0, 0, [], none⟩

/-- An empty index started at a record, whose post becomes the floor. -/
def seed (record : BatchRecord) : L1CanonicalHead :=
  ⟨record.lastL2Block, record.lastL2Block, [record], some record.post⟩

variable (h : L1CanonicalHead)

def lastIndexed : Option BatchRecord := h.batches.getLast?

def lastIndexedL2 : Nat :=
  match h.lastIndexed with
  | some b => b.lastL2Block
  | none => 0

def isProcessed (id : PostId) : Prop :=
  match h.lastIndexed with
  | some tail => atOrBefore id tail.post
  | none => False

instance (id : PostId) : Decidable (h.isProcessed id) := by
  unfold isProcessed
  split <;> infer_instance

/-- A record at or before the tail is ignored. -/
def append (record : BatchRecord) : L1CanonicalHead :=
  if h.isProcessed record.post then h
  else { h with batches := h.batches ++ [record], cursor := max h.cursor record.lastL2Block }

/-- One store of the highest block at the end comes to the same. -/
def appendMany (records : List BatchRecord) : L1CanonicalHead := records.foldl append h

/-- Drops the records above the ancestor and moves the cursor, and finalized if
it would cross it; the floor is never crossed. -/
def retreatOnL1Reorg (commonAncestor : UInt64) : Except PostId L1CanonicalHead :=
  let retreated : L1CanonicalHead :=
    let batches := h.batches.filter (·.post.l1Block ≤ commonAncestor)
    let cursor := match batches.getLast? with
      | some b => b.lastL2Block
      | none => 0
    { h with batches, cursor, finalizedL2 := min h.finalizedL2 cursor }
  match h.floor with
  | some floor => if commonAncestor < floor.l1Block then .error floor else .ok retreated
  | none => .ok retreated

def highestL2AtOrBelowL1 (bound : UInt64) : Option Nat :=
  (h.batches.reverse.find? (·.post.l1Block ≤ bound)).map BatchRecord.lastL2Block

def setFinalizedL2 (l2Block : Nat) : L1CanonicalHead := { h with finalizedL2 := l2Block }

end L1CanonicalHead

end Eez.Deriver
