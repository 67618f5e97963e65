import EezRollup.Lib.Bytes
import EezRollup.Lib.Outcome
import EezRollup.Lib.RunLength

/-! `native_block_span_v0`: one column per block field and one flat column of transactions, cut into
blocks by the count column. -/
namespace Eez.Codec
open Octets Outcome

abbrev RawTx := Bytes

def payloadVersionV0 : UInt8 := 0x00

def maxExtraData : Nat := 32

def maxUvarint32Bytes : Nat := 5

structure SpanBlock where
  beneficiary : BitVec 160
  extraData : Bytes
  transactions : List RawTx

inductive CodecError where
  | empty
  | unsupportedVersion (version : UInt8)
  | truncated (what : String)
  | nonCanonicalVarint (what : String)
  | emptySpan
  | implausibleCount (what : String) (value remaining : Nat)
  | runCoverage (what : String)
  | nonMaximalRun (what : String)
  | extraDataTooLong (length : UInt8)
  | emptyTransaction (index : Nat)
  | txByteMismatch (expected got : Nat)
  | trailingBytes (count : Nat)
  | unexpectedMessage (expected : UInt8)
  | unknownMessage (message : UInt8)
  | nonEmptyTransactionData
  | invalidTargetRollup (rollupId actual : UInt64)
  | valueTooLarge (what : String) (value : Nat)
  deriving DecidableEq

def hexByte (b : UInt8) : String :=
  let digits := "0123456789abcdef".toList
  String.ofList [digits.getD (b.toNat / 16) '0', digits.getD (b.toNat % 16) '0']

def CodecError.message : CodecError → String
  | empty => "payload is empty"
  | unsupportedVersion v => s!"unsupported version byte 0x{hexByte v}"
  | truncated what => s!"payload truncated while reading {what}"
  | nonCanonicalVarint what => s!"non-canonical uvarint32 while reading {what}"
  | emptySpan => "block_count is zero"
  | implausibleCount what value remaining =>
    s!"{what} = {value} exceeds the {remaining} body bytes left to encode it"
  | runCoverage what => s!"{what} runs do not cover exactly block_count"
  | nonMaximalRun what => s!"adjacent {what} runs repeat a value; runs must be maximal"
  | extraDataTooLong length => s!"extra_data length {length} exceeds 32"
  | emptyTransaction index => s!"transaction {index} has zero length"
  | txByteMismatch expected got => s!"transaction bytes: {expected} declared, {got} remain"
  | trailingBytes count => s!"{count} trailing bytes after the span"
  | unexpectedMessage expected => s!"expected message type {expected} at this position"
  | unknownMessage message => s!"unknown message type {message}"
  | nonEmptyTransactionData => "action bracket has non-empty tx_data"
  | invalidTargetRollup rollupId actual => s!"action targets rollup {actual}, expected 0 or {rollupId}"
  | valueTooLarge what value => s!"{what} = {value} exceeds u32"

/-- A decoded span, kept columnar. -/
structure DecodedSpan where
  blockTxCounts : List UInt32
  beneficiaries : List (BitVec 160)
  extraData : List Bytes
  transactions : List RawTx
  deriving DecidableEq

def DecodedSpan.blockCount (span : DecodedSpan) : Nat := span.blockTxCounts.length

abbrev Reader (α : Type) := Bytes → Except CodecError (α × Bytes)

def take (what : String) (len : Nat) : Reader Bytes := fun cur =>
  if len ≤ cur.length then .ok (cur.take len, cur.drop len) else .error (.truncated what)

def byte (what : String) : Reader UInt8
  | [] => .error (.truncated what)
  | b :: cur => .ok (b, cur)

/-- Five groups at most; the last may hold four bits; a multi-byte form may not
end in an empty group. -/
def uvarint32Loop (what : String) : Nat → Nat → Nat → Reader UInt32
  | 0, _, _, _ => .error (.nonCanonicalVarint what)
  | left+1, i, value, cur => do
    let (b, cur) ← byte what cur
    let group := (b &&& 0x7f).toNat
    ensure (¬(i = maxUvarint32Bytes - 1 ∧ group > 0x0f)) (.nonCanonicalVarint what)
    let value := value ||| group <<< (7 * i)
    if b &&& 0x80 = 0 then do
      ensure (¬(i > 0 ∧ group = 0)) (.nonCanonicalVarint what)
      ensure (value < 2 ^ 32) (.nonCanonicalVarint what)
      return (UInt32.ofNat value, cur)
    else uvarint32Loop what left (i + 1) value cur

def uvarint32 (what : String) : Reader UInt32 := uvarint32Loop what maxUvarint32Bytes 0 0

def checkPlausible (what : String) (value perElement : Nat) (cur : Bytes) : Except CodecError Unit :=
  ensure (value ≤ cur.length / perElement) (.implausibleCount what value cur.length)

def readCounts : Nat → Nat → Bytes → Except CodecError (List UInt32 × Nat × Bytes)
  | 0, total, cur => .ok ([], total, cur)
  | blocks+1, total, cur => do
    let (count, cur) ← uvarint32 "pure_transaction_counts" cur
    ensure (total + count.toNat < 2 ^ 64)
      (.implausibleCount "pure_transaction_counts" count.toNat cur.length)
    let (counts, total, cur) ← readCounts blocks (total + count.toNat) cur
    return (count :: counts, total, cur)

/-- Expand a run column into one value per block: positive lengths, exact
coverage of `blockCount`, no two adjacent runs of one value. -/
def decodeRunsLoop {α : Type} [DecidableEq α] (blockCount : Nat) (what : String) (value : Reader α)
    (out : List α) (previous : Option α) (cur : Bytes) : Except CodecError (List α × Bytes) :=
  if out.length < blockCount then
    match uvarint32 what cur with
    | .error e => .error e
    | .ok (runLength, cur) =>
      if runLength.toNat = 0 then .error (.runCoverage what)
      else
        match value cur with
        | .error e => .error e
        | .ok (v, cur) =>
          if previous = some v then .error (.nonMaximalRun what)
          else if out.length + runLength.toNat > blockCount then .error (.runCoverage what)
          else decodeRunsLoop blockCount what value (out ++ List.replicate runLength.toNat v) (some v) cur
  else .ok (out, cur)
termination_by blockCount - out.length
decreasing_by
  rw [List.length_append, List.length_replicate]
  omega

def decodeRuns {α : Type} [DecidableEq α] (blockCount : Nat) (what : String) (value : Reader α) :
    Reader (List α) := decodeRunsLoop blockCount what value [] none

def readBeneficiary : Reader (BitVec 160) := fun cur => do
  let (bytes, cur) ← take "beneficiary" 20 cur
  return (BitVec.ofNat 160 (ofLe bytes.reverse), cur)

def readExtraData : Reader Bytes := fun cur => do
  let (len, cur) ← byte "extra_data_length" cur
  ensure (len.toNat ≤ maxExtraData) (.extraDataTooLong len)
  take "extra_data" len.toNat cur

def readLengths : Nat → Nat → Nat → Bytes → Except CodecError (List Nat × Nat × Bytes)
  | 0, _, total, cur => .ok ([], total, cur)
  | left+1, i, total, cur => do
    let (len, cur) ← uvarint32 "pure_transaction_lengths" cur
    ensure (len.toNat ≠ 0) (.emptyTransaction i)
    ensure (total + len.toNat < 2 ^ 64) (.txByteMismatch (2 ^ 64 - 1) cur.length)
    let (lengths, total, cur) ← readLengths left (i + 1) (total + len.toNat) cur
    return (len.toNat :: lengths, total, cur)

def readTransactions : List Nat → Bytes → Except CodecError (List RawTx × Bytes)
  | [], cur => .ok ([], cur)
  | len :: lengths, cur => do
    let (tx, cur) ← take "pure_transaction_bytes" len cur
    let (txs, cur) ← readTransactions lengths cur
    return (tx :: txs, cur)

def decodeBody (cur : Bytes) : Except CodecError DecodedSpan := do
  let (blockCount, cur) ← uvarint32 "block_count" cur
  ensure (blockCount.toNat ≠ 0) .emptySpan
  checkPlausible "block_count" blockCount.toNat 1 cur
  let (counts, totalTxs, cur) ← readCounts blockCount.toNat 0 cur
  let (beneficiaries, cur) ← decodeRuns blockCount.toNat "beneficiary" readBeneficiary cur
  let (extraData, cur) ← decodeRuns blockCount.toNat "extra_data" readExtraData cur
  checkPlausible "pure_transaction_counts" totalTxs 2 cur
  let (lengths, totalBytes, cur) ← readLengths totalTxs 0 0 cur
  ensure (totalBytes = cur.length) (.txByteMismatch totalBytes cur.length)
  let (transactions, cur) ← readTransactions lengths cur
  ensure (cur.length = 0) (.trailingBytes cur.length)
  return ⟨counts, beneficiaries, extraData, transactions⟩

def decode : Bytes → Except CodecError DecodedSpan
  | [] => .error .empty
  | version :: body => do
    ensure (version = payloadVersionV0) (.unsupportedVersion version)
    decodeBody body

/-- Base-128 groups, low first, a continuation bit on all but the last. -/
def putVarint (value : Nat) : Bytes :=
  if value < 0x80 then [UInt8.ofNat value]
  else (UInt8.ofNat value ||| 0x80) :: putVarint (value / 128)
termination_by value

def countU32 (what : String) (value : Nat) : Except CodecError Nat := do
  ensure (value < 2 ^ 32) (.valueTooLarge what value)
  return value

def putBeneficiaryRun (run : Nat × SpanBlock) : Bytes :=
  putVarint run.1 ++ beBytes 20 run.2.beneficiary.toNat

def putExtraDataRun (run : Nat × SpanBlock) : Except CodecError Bytes := do
  ensure (run.2.extraData.length ≤ 255) (.extraDataTooLong 255)
  ensure (run.2.extraData.length ≤ maxExtraData) (.extraDataTooLong (UInt8.ofNat run.2.extraData.length))
  return putVarint run.1 ++ UInt8.ofNat run.2.extraData.length :: run.2.extraData

def encode (blocks : List SpanBlock) : Except CodecError Bytes := do
  ensure (blocks ≠ []) .emptySpan
  let blockCount ← countU32 "block_count" blocks.length
  let counts ← blocks.mapM fun b => countU32 "pure_transaction_counts" b.transactions.length
  let extraData ← (RunLength.runs SpanBlock.extraData blocks).mapM putExtraDataRun
  let transactions := blocks.flatMap SpanBlock.transactions
  let lengths ← transactions.mapM fun tx => countU32 "pure_transaction_lengths" tx.length
  return payloadVersionV0 :: (putVarint blockCount ++ counts.flatMap putVarint ++
    (RunLength.runs SpanBlock.beneficiary blocks).flatMap putBeneficiaryRun ++ extraData.flatten ++
    lengths.flatMap putVarint ++ transactions.flatten)

end Eez.Codec
