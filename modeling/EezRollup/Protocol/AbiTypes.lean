import EezRollup.Lib.Abi
import EezRollup.Protocol.Primitives

/-! The batch accepted by the L1 contract, the execution tables of the L2 manager, and their
canonical encodings. -/
namespace Eez
open Octets Abi SameStatics

def u16Word (n : UInt16) : Bytes := word n.toNat
def u64Word (n : UInt64) : Bytes := word n.toNat
def boolWord (b : Bool) : Bytes := word b.toNat
def addressWord (a : Address) : Bytes := word a.toNat
def u256Word (v : U256) : Bytes := word v.toNat
def i192Word (v : I192) : Bytes := word (v.signExtend 256).toNat

@[simp] theorem u16Word_length (n : UInt16) : (u16Word n).length = 32 := word_length _
@[simp] theorem u64Word_length (n : UInt64) : (u64Word n).length = 32 := word_length _
@[simp] theorem boolWord_length (b : Bool) : (boolWord b).length = 32 := word_length _
@[simp] theorem addressWord_length (a : Address) : (addressWord a).length = 32 := word_length _
@[simp] theorem u256Word_length (v : U256) : (u256Word v).length = 32 := word_length _
@[simp] theorem i192Word_length (v : I192) : (i192Word v).length = 32 := word_length _

@[simp] theorem u16Word_inj : u16Word a = u16Word b ↔ a = b := by
  refine ⟨fun h => UInt16.toNat_inj.mp (word_injective ?_ ?_ h), congrArg _⟩
  · have := a.toNat_lt; omega
  · have := b.toNat_lt; omega

@[simp] theorem u64Word_inj : u64Word a = u64Word b ↔ a = b := by
  refine ⟨fun h => UInt64.toNat_inj.mp (word_injective ?_ ?_ h), congrArg _⟩
  · have := a.toNat_lt; omega
  · have := b.toNat_lt; omega

@[simp] theorem boolWord_inj : boolWord a = boolWord b ↔ a = b := by
  refine ⟨fun h => ?_, congrArg _⟩
  have same : a.toNat = b.toNat := by
    refine word_injective ?_ ?_ h
    · have := Bool.toNat_le a; omega
    · have := Bool.toNat_le b; omega
  cases a <;> cases b <;> first | rfl | cases same

@[simp] theorem addressWord_inj : addressWord a = addressWord b ↔ a = b := by
  refine ⟨fun h => BitVec.eq_of_toNat_eq (word_injective ?_ ?_ h), congrArg _⟩
  · have := a.isLt; omega
  · have := b.isLt; omega

@[simp] theorem u256Word_inj : u256Word a = u256Word b ↔ a = b :=
  ⟨fun h => BitVec.eq_of_toNat_eq (word_injective a.isLt b.isLt h), congrArg _⟩

@[simp] theorem i192Word_inj : i192Word a = i192Word b ↔ a = b := by
  refine ⟨fun h => BitVec.eq_of_toInt_eq ?_, congrArg _⟩
  have same : a.signExtend 256 = b.signExtend 256 :=
    BitVec.eq_of_toNat_eq (word_injective (BitVec.isLt _) (BitVec.isLt _) h)
  have wide := congrArg BitVec.toInt same
  rwa [BitVec.toInt_signExtend_of_le (by decide), BitVec.toInt_signExtend_of_le (by decide)] at wide

/-- Unsigned value to a signed balance delta, without truncation. -/
def u256ToI192 (value : U256) : Option I192 :=
  if value.toNat / 2 ^ 192 ≠ 0 then none
  else
    let magnitude := BitVec.ofNat 192 value.toNat
    if magnitude.msb then none else some magnitude

theorem u256ToI192_eq_some (h : u256ToI192 value = some delta) : delta.toInt = value.toNat ∧ value.toNat < 2 ^ 191 := by
  unfold u256ToI192 at h
  split at h
  · cases h
  · rename_i high
    have small : value.toNat < 2 ^ 192 := by omega
    simp only [Option.ite_none_left_eq_some, Option.some.injEq, Bool.not_eq_true] at h
    obtain ⟨positive, rfl⟩ := h
    have low : value.toNat < 2 ^ 191 := by
      have twice := BitVec.msb_eq_false_iff_two_mul_lt.mp positive
      rw [BitVec.toNat_ofNat, Nat.mod_eq_of_lt small] at twice
      omega
    refine ⟨?_, low⟩
    rw [BitVec.toInt_eq_toNat_of_msb positive, BitVec.toNat_ofNat, Nat.mod_eq_of_lt small]

structure RollupUpdateSol where
  rollupId : UInt64
  etherDelta : I192
  currentRoot : B256
  newRoot : B256
  deriving DecidableEq, Inhabited

structure ExpectedRootPerRollupSol where
  rollupId : UInt64
  root : B256
  deriving DecidableEq

structure L2ToL1CallSol where
  revertNextNCalls : UInt16
  isStatic : Bool
  gas : UInt64
  sourceAddress : Address
  sourceRollupId : UInt64
  targetAddress : Address
  value : U256
  data : Bytes
  deriving DecidableEq

structure ExpectedL1ToL2CallSol where
  expectedL1toL2Hash : B256
  l2ToL1Calls : List L2ToL1CallSol
  revertedOrStaticRollingHash : B256
  success : Bool
  returnData : Bytes
  deriving DecidableEq

structure ExecutionEntrySol where
  rollupUpdates : List RollupUpdateSol
  proxyEntryHash : B256
  l2ToL1Calls : List L2ToL1CallSol
  expectedL1ToL2Calls : List ExpectedL1ToL2CallSol
  rollingHash : B256
  destinationRollupId : UInt64
  success : Bool
  returnData : Bytes
  deriving DecidableEq

structure StaticExecutionEntrySol where
  expectedRoots : List ExpectedRootPerRollupSol
  proxyEntryHash : B256
  l2ToL1Calls : List L2ToL1CallSol
  rollingHash : B256
  destinationRollupId : UInt64
  success : Bool
  returnData : Bytes
  deriving DecidableEq

structure RollupIdWithProofSystemsSol where
  rollupId : UInt64
  proofSystemIndexes : List UInt64
  deriving DecidableEq

structure EvmBatch where
  expectedRootPerRollup : List ExpectedRootPerRollupSol
  entries : List ExecutionEntrySol
  staticEntries : List StaticExecutionEntrySol
  immediateEntryCount : U256
  immediateStaticEntryCount : U256
  proofSystems : List Address
  rollupIdsWithProofSystems : List RollupIdWithProofSystemsSol
  blobIndices : List U256
  callData : Bytes
  proofs : List Bytes
  blockNumber : UInt64
  bindMsgSenderInPublicInput : Bool
  deriving DecidableEq

/-- The L2 family names the same fields in the same order. -/
abbrev CrossChainCallSol := L2ToL1CallSol

/-- The expected result of a reentrant call leaving the L2; same layout again. -/
abbrev ExpectedOutgoingCrossChainCallSol := ExpectedL1ToL2CallSol

structure L2ExecutionEntrySol where
  proxyEntryHash : B256
  incomingCalls : List CrossChainCallSol
  expectedOutgoingCalls : List ExpectedOutgoingCrossChainCallSol
  rollingHash : B256
  success : Bool
  returnData : Bytes

structure L2StaticExecutionEntrySol where
  expectedEntryIndex : U256
  proxyEntryHash : B256
  incomingCalls : List CrossChainCallSol
  rollingHash : B256
  success : Bool
  returnData : Bytes

/-- The arguments of `loadExecutionTable` and of `executeIncomingCrossChainCall`. -/
structure ExecutionTableCall where
  entries : List L2ExecutionEntrySol
  staticEntries : List L2StaticExecutionEntrySol

def RollupUpdateSol.encode (u : RollupUpdateSol) : Bytes :=
  u64Word u.rollupId ++ i192Word u.etherDelta ++ u256Word u.currentRoot ++ u256Word u.newRoot

def ExpectedRootPerRollupSol.encode (e : ExpectedRootPerRollupSol) : Bytes :=
  u64Word e.rollupId ++ u256Word e.root

def L2ToL1CallSol.encode (c : L2ToL1CallSol) : Bytes :=
  encodeSequence [.static (u16Word c.revertNextNCalls), .static (boolWord c.isStatic),
    .static (u64Word c.gas), .static (addressWord c.sourceAddress),
    .static (u64Word c.sourceRollupId), .static (addressWord c.targetAddress),
    .static (u256Word c.value), .dynamic (encodeBytes c.data)]

def ExpectedL1ToL2CallSol.encode (e : ExpectedL1ToL2CallSol) : Bytes :=
  encodeSequence [.static (u256Word e.expectedL1toL2Hash), .dynamic (encodeArray L2ToL1CallSol.encode e.l2ToL1Calls),
    .static (u256Word e.revertedOrStaticRollingHash), .static (boolWord e.success),
    .dynamic (encodeBytes e.returnData)]

def ExecutionEntrySol.encode (e : ExecutionEntrySol) : Bytes :=
  encodeSequence [.dynamic (encodeStaticArray RollupUpdateSol.encode e.rollupUpdates),
    .static (u256Word e.proxyEntryHash), .dynamic (encodeArray L2ToL1CallSol.encode e.l2ToL1Calls),
    .dynamic (encodeArray ExpectedL1ToL2CallSol.encode e.expectedL1ToL2Calls),
    .static (u256Word e.rollingHash), .static (u64Word e.destinationRollupId),
    .static (boolWord e.success), .dynamic (encodeBytes e.returnData)]

def StaticExecutionEntrySol.encode (e : StaticExecutionEntrySol) : Bytes :=
  encodeSequence [.dynamic (encodeStaticArray ExpectedRootPerRollupSol.encode e.expectedRoots),
    .static (u256Word e.proxyEntryHash), .dynamic (encodeArray L2ToL1CallSol.encode e.l2ToL1Calls),
    .static (u256Word e.rollingHash), .static (u64Word e.destinationRollupId),
    .static (boolWord e.success), .dynamic (encodeBytes e.returnData)]

def RollupIdWithProofSystemsSol.encode (r : RollupIdWithProofSystemsSol) : Bytes :=
  encodeSequence [.static (u64Word r.rollupId), .dynamic (encodeStaticArray u64Word r.proofSystemIndexes)]

def EvmBatch.encode (b : EvmBatch) : Bytes :=
  encodeSequence [
    .dynamic (encodeStaticArray ExpectedRootPerRollupSol.encode b.expectedRootPerRollup),
    .dynamic (encodeArray ExecutionEntrySol.encode b.entries),
    .dynamic (encodeArray StaticExecutionEntrySol.encode b.staticEntries),
    .static (u256Word b.immediateEntryCount), .static (u256Word b.immediateStaticEntryCount),
    .dynamic (encodeStaticArray addressWord b.proofSystems),
    .dynamic (encodeArray RollupIdWithProofSystemsSol.encode b.rollupIdsWithProofSystems),
    .dynamic (encodeStaticArray u256Word b.blobIndices), .dynamic (encodeBytes b.callData),
    .dynamic (encodeArray encodeBytes b.proofs), .static (u64Word b.blockNumber),
    .static (boolWord b.bindMsgSenderInPublicInput)]

def L2ExecutionEntrySol.encode (e : L2ExecutionEntrySol) : Bytes :=
  encodeSequence [.static (u256Word e.proxyEntryHash), .dynamic (encodeArray L2ToL1CallSol.encode e.incomingCalls),
    .dynamic (encodeArray ExpectedL1ToL2CallSol.encode e.expectedOutgoingCalls),
    .static (u256Word e.rollingHash), .static (boolWord e.success),
    .dynamic (encodeBytes e.returnData)]

def L2StaticExecutionEntrySol.encode (e : L2StaticExecutionEntrySol) : Bytes :=
  encodeSequence [.static (u256Word e.expectedEntryIndex), .static (u256Word e.proxyEntryHash),
    .dynamic (encodeArray L2ToL1CallSol.encode e.incomingCalls),
    .static (u256Word e.rollingHash), .static (boolWord e.success),
    .dynamic (encodeBytes e.returnData)]

def ExecutionTableCall.encodeArguments (c : ExecutionTableCall) : Bytes :=
  encodeSequence [.dynamic (encodeArray L2ExecutionEntrySol.encode c.entries),
    .dynamic (encodeArray L2StaticExecutionEntrySol.encode c.staticEntries)]

def loadExecutionTableSelector : Bytes := [0xbf, 0x2e, 0xeb, 0xd3]

def executeIncomingSelector : Bytes := [0xc3, 0xfb, 0x5f, 0x3d]

def postAndVerifyBatchSelector : Bytes := [0xe4, 0xa4, 0x80, 0xe4]

def encodeLoadExecutionTable (c : ExecutionTableCall) : Bytes :=
  loadExecutionTableSelector ++ c.encodeArguments

def encodeExecuteIncomingCall (c : ExecutionTableCall) : Bytes :=
  executeIncomingSelector ++ c.encodeArguments

def abiEncode (body : Bytes) : Bytes := encodeSequence [.dynamic body]

def ExecutionEntrySol.abiEncode (e : ExecutionEntrySol) : Bytes := Eez.abiEncode e.encode

/-- `abi::encode_sequence` over the single batch argument. -/
def EvmBatch.canonicalArguments (b : EvmBatch) : Bytes := Eez.abiEncode b.encode

def encodePostbatch (b : EvmBatch) : Bytes := postAndVerifyBatchSelector ++ b.canonicalArguments

@[simp] theorem u64Word_selfDelimiting : SelfDelimiting u64Word :=
  .of_fixed u64Word_length fun _ _ => u64Word_inj.mp

@[simp] theorem addressWord_selfDelimiting : SelfDelimiting addressWord :=
  .of_fixed addressWord_length fun _ _ => addressWord_inj.mp

@[simp] theorem u256Word_selfDelimiting : SelfDelimiting u256Word :=
  .of_fixed u256Word_length fun _ _ => u256Word_inj.mp

theorem RollupUpdateSol.encode_length (u : RollupUpdateSol) : u.encode.length = 128 := by
  simp [encode]

@[simp] theorem RollupUpdateSol.encode_selfDelimiting : SelfDelimiting RollupUpdateSol.encode := by
  refine .of_fixed encode_length fun a b h => ?_
  simp only [encode, List.append_assoc] at h
  obtain ⟨hid, h⟩ := List.append_inj h (by simp)
  obtain ⟨hdelta, h⟩ := List.append_inj h (by simp)
  obtain ⟨hcur, hnew⟩ := List.append_inj h (by simp)
  cases a; cases b
  simp_all

theorem ExpectedRootPerRollupSol.encode_length (e : ExpectedRootPerRollupSol) : e.encode.length = 64 := by
  simp [encode]

@[simp] theorem ExpectedRootPerRollupSol.encode_selfDelimiting : SelfDelimiting ExpectedRootPerRollupSol.encode := by
  refine .of_fixed encode_length fun a b h => ?_
  obtain ⟨hid, hroot⟩ := List.append_inj h (by simp)
  cases a; cases b
  simp_all

@[simp] theorem L2ToL1CallSol.encode_selfDelimiting : SelfDelimiting L2ToL1CallSol.encode := by
  intro a b x y h
  obtain ⟨statics, rest⟩ := encodeSequence_inj (by simp) h
  cases a; cases b
  simp_all [tails]

@[simp] theorem ExpectedL1ToL2CallSol.encode_selfDelimiting : SelfDelimiting ExpectedL1ToL2CallSol.encode := by
  intro a b x y h
  obtain ⟨statics, rest⟩ := encodeSequence_inj (by simp) h
  cases a; cases b
  simp_all [tails]

@[simp] theorem ExecutionEntrySol.encode_selfDelimiting : SelfDelimiting ExecutionEntrySol.encode := by
  intro a b x y h
  obtain ⟨statics, rest⟩ := encodeSequence_inj (by simp) h
  cases a; cases b
  simp_all [tails]

@[simp] theorem StaticExecutionEntrySol.encode_selfDelimiting : SelfDelimiting StaticExecutionEntrySol.encode := by
  intro a b x y h
  obtain ⟨statics, rest⟩ := encodeSequence_inj (by simp) h
  cases a; cases b
  simp_all [tails]

@[simp] theorem RollupIdWithProofSystemsSol.encode_selfDelimiting :
    SelfDelimiting RollupIdWithProofSystemsSol.encode := by
  intro a b x y h
  obtain ⟨statics, rest⟩ := encodeSequence_inj (by simp) h
  cases a; cases b
  simp_all [tails]

@[simp] theorem EvmBatch.encode_selfDelimiting : SelfDelimiting EvmBatch.encode := by
  intro a b x y h
  obtain ⟨statics, rest⟩ := encodeSequence_inj (by simp) h
  cases a; cases b
  simp_all [tails]

@[simp] theorem L2ExecutionEntrySol.encode_selfDelimiting : SelfDelimiting L2ExecutionEntrySol.encode := by
  intro a b x y h
  obtain ⟨statics, rest⟩ := encodeSequence_inj (by simp) h
  cases a; cases b
  simp_all [tails]

@[simp] theorem L2StaticExecutionEntrySol.encode_selfDelimiting : SelfDelimiting L2StaticExecutionEntrySol.encode := by
  intro a b x y h
  obtain ⟨statics, rest⟩ := encodeSequence_inj (by simp) h
  cases a; cases b
  simp_all [tails]

theorem ExecutionTableCall.encodeArguments_injective : Function.Injective ExecutionTableCall.encodeArguments := by
  intro a b h
  obtain ⟨_, rest⟩ := encodeSequence_inj (by simp) (congrArg (· ++ []) h)
  have static := (encodeArray_selfDelimiting L2StaticExecutionEntrySol.encode_selfDelimiting).injective
  cases a; cases b
  simp_all [tails, static.eq_iff]

theorem abiEncode_injective : Function.Injective abiEncode := by
  intro a b h
  obtain ⟨_, rest⟩ := encodeSequence_inj (by simp) (congrArg (· ++ []) h)
  simpa only [tails, List.append_nil] using rest

theorem ExecutionEntrySol.abiEncode_injective : Function.Injective ExecutionEntrySol.abiEncode :=
  Eez.abiEncode_injective.comp ExecutionEntrySol.encode_selfDelimiting.injective

theorem EvmBatch.canonicalArguments_injective : Function.Injective EvmBatch.canonicalArguments :=
  Eez.abiEncode_injective.comp EvmBatch.encode_selfDelimiting.injective

theorem encodePostbatch_injective : Function.Injective encodePostbatch := by
  intro a b h
  exact EvmBatch.canonicalArguments_injective (List.append_cancel_left h)

theorem encodeExecuteIncomingCall_injective : Function.Injective encodeExecuteIncomingCall := by
  intro a b h
  exact ExecutionTableCall.encodeArguments_injective (List.append_cancel_left h)

end Eez
