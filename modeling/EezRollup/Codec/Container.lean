import EezRollup.Codec.Span

/-! The message stream in `batch.callData`. Lengths of byte fields use a varint that, unlike the
span's, may be padded. -/
namespace Eez.Codec
open Octets Outcome

def streamVersion : UInt8 := 0x00

def msgChainOperation : UInt8 := 2
def msgInitiate : UInt8 := 3
def msgCall : UInt8 := 4
def msgReturnSuccess : UInt8 := 6
def msgReturnFail : UInt8 := 7
def msgFinish : UInt8 := 10

/-- One cross-chain action. `value` and the addresses are read as numbers. -/
structure Action where
  sourceRollupId : UInt64
  targetRollupId : UInt64
  sourceAddress : BitVec 160
  targetAddress : BitVec 160
  value : BitVec 256
  gas : UInt64
  data : Bytes
  success : Bool
  returnData : Bytes
  deriving DecidableEq

structure DecodedContainer where
  rollupId : UInt64
  span : DecodedSpan
  actions : List Action
  deriving DecidableEq

def validateTargetRollup (rollupId targetRollupId : UInt64) : Except CodecError Unit :=
  ensure (targetRollupId = 0 ∨ targetRollupId = rollupId) (.invalidTargetRollup rollupId targetRollupId)

def putBytes (value : Bytes) : Except CodecError Bytes := do
  ensure (value.length < 2 ^ 32) (.valueTooLarge "bytes length" value.length)
  return putVarint value.length ++ value

def encodeAction (a : Action) : Except CodecError Bytes := do
  let txData ← putBytes []
  let data ← putBytes a.data
  let returnData ← putBytes a.returnData
  return msgInitiate :: (leBytes 8 a.sourceRollupId.toNat ++ txData ++
    msgCall :: (leBytes 8 a.targetRollupId.toNat ++ beBytes 20 a.sourceAddress.toNat ++
      beBytes 20 a.targetAddress.toNat ++ leBytes 32 a.value.toNat ++ leBytes 8 a.gas.toNat ++ data ++
    (if a.success then msgReturnSuccess else msgReturnFail) :: (returnData ++ [msgFinish])))

def encodeContainer (rollupId : UInt64) (blocks : List SpanBlock) (actions : List Action) :
    Except CodecError Bytes := do
  let operations ← encode blocks
  let _ ← actions.mapM fun a => validateTargetRollup rollupId a.targetRollupId
  let operations ← putBytes operations
  let brackets ← actions.mapM encodeAction
  return streamVersion :: msgChainOperation :: (leBytes 8 rollupId.toNat ++ operations ++ brackets.flatten)

/-- A byte-field length: as `uvarint32`, but padding is accepted. -/
def varintLoop (what : String) : Nat → Nat → Nat → Reader UInt32
  | 0, _, _, _ => .error (.nonCanonicalVarint what)
  | left+1, i, value, cur => do
    let (b, cur) ← byte what cur
    let group := (b &&& 0x7f).toNat
    ensure (¬(i = maxUvarint32Bytes - 1 ∧ group > 0x0f)) (.nonCanonicalVarint what)
    let value := value ||| group <<< (7 * i)
    if b &&& 0x80 = 0 then do
      ensure (value < 2 ^ 32) (.nonCanonicalVarint what)
      return (UInt32.ofNat value, cur)
    else varintLoop what left (i + 1) value cur

def varint (what : String) : Reader UInt32 := varintLoop what maxUvarint32Bytes 0 0

def takeBytes (what : String) : Reader Bytes := fun cur => do
  let (len, cur) ← varint what cur
  take what len.toNat cur

def expectMessage (expected : UInt8) (cur : Bytes) : Except CodecError Bytes := do
  let (message, cur) ← byte "message type" cur
  ensure (message = expected) (.unexpectedMessage expected)
  return cur

def takeU64 (what : String) : Reader UInt64 := fun cur => do
  let (bytes, cur) ← take what 8 cur
  return (UInt64.ofNat (ofLe bytes), cur)

def takeAddress (what : String) : Reader (BitVec 160) := fun cur => do
  let (bytes, cur) ← take what 20 cur
  return (BitVec.ofNat 160 (ofLe bytes.reverse), cur)

def readReturnMessage : Reader Bool := fun cur => do
  let (message, cur) ← byte "return message" cur
  if message = msgReturnSuccess then return (true, cur)
  else if message = msgReturnFail then return (false, cur)
  else throw (.unknownMessage message)

def decodeAction (rollupId : UInt64) : Reader Action := fun cur => do
  let cur ← expectMessage msgInitiate cur
  let (sourceRollupId, cur) ← takeU64 "initiate chain_id" cur
  let (txData, cur) ← takeBytes "tx_data" cur
  ensure (txData = []) .nonEmptyTransactionData
  let cur ← expectMessage msgCall cur
  let (targetRollupId, cur) ← takeU64 "to_chain" cur
  validateTargetRollup rollupId targetRollupId
  let (sourceAddress, cur) ← takeAddress "from_address" cur
  let (targetAddress, cur) ← takeAddress "to_address" cur
  let (value, cur) ← take "value" 32 cur
  let (gas, cur) ← takeU64 "gas" cur
  let (data, cur) ← takeBytes "data" cur
  let (success, cur) ← readReturnMessage cur
  let (returnData, cur) ← takeBytes "return_data" cur
  let cur ← expectMessage msgFinish cur
  return (⟨sourceRollupId, targetRollupId, sourceAddress, targetAddress,
    BitVec.ofNat 256 (ofLe value), gas, data, success, returnData⟩, cur)

/-- Read brackets until the stream ends. An action is never shorter than its
message bytes, so the number of unread bytes bounds the loop. -/
def decodeActions (rollupId : UInt64) : Nat → Bytes → Except CodecError (List Action)
  | _, [] => .ok []
  | 0, _ :: _ => .error (.truncated "message type")
  | fuel+1, cur => do
    let (action, cur) ← decodeAction rollupId cur
    let actions ← decodeActions rollupId fuel cur
    return action :: actions

def decodeContainer : Bytes → Except CodecError DecodedContainer
  | [] => .error .empty
  | version :: body => do
    ensure (version = streamVersion) (.unsupportedVersion version)
    let cur ← expectMessage msgChainOperation body
    let (rollupId, cur) ← takeU64 "chain_id" cur
    let (operations, cur) ← takeBytes "operations" cur
    let span ← decode operations
    let actions ← decodeActions rollupId cur.length cur
    return ⟨rollupId, span, actions⟩

end Eez.Codec
