import EezRollup.Protocol.Primitives

/-! The fields of a block header that the node reads, with the hash it seals to. -/
namespace Eez
open Octets

structure SealedHeader where
  hash : B256
  parentHash : B256
  number : UInt64
  timestamp : UInt64
  beneficiary : Address
  extraData : Bytes
  deriving DecidableEq

end Eez
