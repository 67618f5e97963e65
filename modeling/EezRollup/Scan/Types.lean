import EezRollup.Protocol.Entries

/-! What the batch scan reports downstream. -/
namespace Eez
open Octets Codec

def hexB256 (h : B256) : String := "0x" ++ String.join ((b256Bytes h).map hexByte)

structure AppliedEntry where
  entryIndex : Nat
  role : EntryRole
  deriving DecidableEq

/-- Which of a post's entries L1 applied for a rollup, in application order. -/
structure Settlement where
  applied : List AppliedEntry
  finalState : Option B256
  entryState : Option B256
  resumed : Bool
  deriving DecidableEq

namespace Settlement

def none : Settlement := ⟨[], .none, .none, false⟩

/-- The constructor; in debug builds it asserts `distinct`. -/
def new (applied : List AppliedEntry) (finalState entryState : Option B256) (resumed : Bool) : Settlement :=
  ⟨applied, finalState, entryState, resumed⟩

/-- The asserted loop: every index is new to the set of those before it. -/
def distinct : List Nat → List AppliedEntry → Bool
  | _, [] => true
  | seen, a :: rest => !seen.contains a.entryIndex && distinct (a.entryIndex :: seen) rest

end Settlement

structure PostId where
  l1Block : UInt64
  l1BlockHash : B256
  logIndex : UInt64
  deriving DecidableEq

/-- One `postAndVerifyBatch` call that listed our rollup, read from L1. -/
structure Post where
  id : PostId
  txHash : B256
  sender : Address
  batch : EvmBatch
  settlement : Settlement
  deriving DecidableEq

end Eez
