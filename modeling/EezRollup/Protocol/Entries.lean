import EezRollup.Codec.Container
import EezRollup.Protocol.Hashes

/-! The L2 tables and the inbound sidecar, roles of batch entries, L1 rolling hashes, and the
projection between an entry and the action that describes it. -/
namespace Eez
open Octets Outcome Codec

inductive ProtocolError where
  | invalidEncoding (reason : String)
  | unsupported (reason : String)
  deriving DecidableEq

def ProtocolError.message : ProtocolError → String
  | invalidEncoding reason => s!"invalid encoding: {reason}"
  | unsupported reason => s!"unsupported protocol operation: {reason}"

def unsuccessfulCall : String := "unsuccessful cross-chain calls are not supported"
def staticCall : String := "static cross-chain calls are not supported"
def revertSpan : String := "cross-chain call revert spans are not supported"
def nestedCall : String := "nested cross-chain calls are not supported"

structure IncomingEntry where
  target : Address
  source : Address
  value : U256
  data : Bytes
  sourceRollupId : UInt64
  l2RollupId : UInt64
  returnData : Bytes
  success : Bool

structure OutboundEntry where
  target : Address
  source : Address
  value : U256
  data : Bytes
  l2RollupId : UInt64
  returnData : Bytes
  success : Bool

section
variable (keccak : Bytes → B256)

def buildL2IncomingEntry (entry : IncomingEntry) : Except ProtocolError L2ExecutionEntrySol := do
  ensure (entry.success = true) (.unsupported unsuccessfulCall)
  let callHash := commonCrossChainCallHash keccak
    ⟨.mutable, entry.source, entry.sourceRollupId, entry.target, entry.l2RollupId, entry.value, entry.data⟩
  return {
    proxyEntryHash := callHash
    incomingCalls := [⟨0, false, 0, entry.source, entry.sourceRollupId, entry.target, entry.value, entry.data⟩]
    expectedOutgoingCalls := []
    rollingHash := l2RollingHash keccak callHash true entry.returnData
    success := true
    returnData := entry.returnData }

def buildL2OutboundEntry (entry : OutboundEntry) : Except ProtocolError L2ExecutionEntrySol := do
  ensure (entry.success = true) (.unsupported unsuccessfulCall)
  let proxyEntryHash := l2OutboundCallHash keccak
    ⟨.mutable, entry.source, entry.l2RollupId, entry.target, mainnet, entry.value, entry.data⟩ 0
  return {
    proxyEntryHash
    incomingCalls := []
    expectedOutgoingCalls := []
    rollingHash := seedForL2 keccak proxyEntryHash
    success := true
    returnData := entry.returnData }

def IncomingEntry.callHash (entry : IncomingEntry) : B256 :=
  commonCrossChainCallHash keccak
    ⟨.mutable, entry.source, entry.sourceRollupId, entry.target, entry.l2RollupId, entry.value, entry.data⟩

def IncomingEntry.lowered (entry : IncomingEntry) : L2ExecutionEntrySol where
  proxyEntryHash := entry.callHash keccak
  incomingCalls := [⟨0, false, 0, entry.source, entry.sourceRollupId, entry.target, entry.value, entry.data⟩]
  expectedOutgoingCalls := []
  rollingHash := l2RollingHash keccak (entry.callHash keccak) true entry.returnData
  success := true
  returnData := entry.returnData

variable {entry : IncomingEntry}

theorem buildL2IncomingEntry_eq_ok :
    buildL2IncomingEntry keccak entry = .ok l2Entry ↔ entry.success = true ∧ l2Entry = entry.lowered keccak := by
  simp only [buildL2IncomingEntry, bind_eq_ok, ensure_eq_ok, exists_const, pure_eq_ok]
  exact and_congr_right fun _ => eq_comm

/-- Canonical inbound reconstruction data. The one call of the entry is the
incoming call; the constructor below is the only way the source makes one. -/
structure InboundSidecar where
  abiEntry : ExecutionEntrySol
  call : L2ToL1CallSol
  sole : abiEntry.l2ToL1Calls = [call]

def InboundSidecar.encoded (sidecar : InboundSidecar) : Bytes := sidecar.abiEntry.abiEncode

def InboundSidecar.incomingEntry (sidecar : InboundSidecar) : IncomingEntry :=
  ⟨sidecar.call.targetAddress, sidecar.call.sourceAddress, sidecar.call.value, sidecar.call.data,
    sidecar.call.sourceRollupId, sidecar.abiEntry.destinationRollupId, sidecar.abiEntry.returnData, true⟩

/-- The sidecar entry around a lowered call. -/
def InboundSidecar.ofLowered (destination : UInt64) (l2Entry : L2ExecutionEntrySol)
    (call : CrossChainCallSol) : InboundSidecar where
  abiEntry := {
    rollupUpdates := []
    proxyEntryHash := l2Entry.proxyEntryHash
    l2ToL1Calls := [⟨0, false, 0, call.sourceAddress, call.sourceRollupId, call.targetAddress, call.value, call.data⟩]
    expectedL1ToL2Calls := []
    rollingHash := l2Entry.rollingHash
    destinationRollupId := destination
    success := true
    returnData := l2Entry.returnData }
  call := ⟨0, false, 0, call.sourceAddress, call.sourceRollupId, call.targetAddress, call.value, call.data⟩
  sole := rfl

def InboundSidecar.new (entry : IncomingEntry) : Except ProtocolError InboundSidecar := do
  ensure (¬(entry.l2RollupId = mainnet ∨ entry.sourceRollupId = entry.l2RollupId))
    (.unsupported "inbound sidecars require a different, non-L1 destination rollup")
  let l2Entry ← buildL2IncomingEntry keccak entry
  match l2Entry.incomingCalls with
  | call :: _ => return .ofLowered entry.l2RollupId l2Entry call
  -- the lowering always carries its one call
  | [] => throw (.invalidEncoding "no incoming call")

def InboundSidecar.tryFrom (entry : ExecutionEntrySol) : Except ProtocolError InboundSidecar :=
  match entry.l2ToL1Calls with
  | [call] => do
    let sidecar ← InboundSidecar.new keccak ⟨call.targetAddress, call.sourceAddress, call.value, call.data,
      call.sourceRollupId, entry.destinationRollupId, entry.returnData, entry.success⟩
    ensure (sidecar.encoded = entry.abiEncode)
      (.invalidEncoding "noncanonical inbound sidecar (shape or L2 hashes differ)")
    return sidecar
  | _ => .error (.invalidEncoding "inbound sidecar must contain exactly one incoming call")

def sidecarEntry (entry : IncomingEntry) : ExecutionEntrySol where
  rollupUpdates := []
  proxyEntryHash := entry.callHash keccak
  l2ToL1Calls := [⟨0, false, 0, entry.source, entry.sourceRollupId, entry.target, entry.value, entry.data⟩]
  expectedL1ToL2Calls := []
  rollingHash := l2RollingHash keccak (entry.callHash keccak) true entry.returnData
  destinationRollupId := entry.l2RollupId
  success := true
  returnData := entry.returnData

def IncomingEntry.Deliverable (entry : IncomingEntry) : Prop :=
  entry.l2RollupId ≠ mainnet ∧ entry.sourceRollupId ≠ entry.l2RollupId ∧ entry.success = true

variable {sidecar : InboundSidecar}

theorem InboundSidecar.new_eq_ok : InboundSidecar.new keccak entry = .ok sidecar ↔
      entry.Deliverable ∧ sidecar.abiEntry = sidecarEntry keccak entry := by
  simp only [InboundSidecar.new, bind_eq_ok, ensure_eq_ok, exists_const, buildL2IncomingEntry_eq_ok,
    IncomingEntry.Deliverable, not_or]
  constructor
  · rintro ⟨⟨hl1, hself⟩, _, ⟨hsuccess, rfl⟩, hok⟩
    cases hok
    exact ⟨⟨hl1, hself, hsuccess⟩, rfl⟩
  · rintro ⟨⟨hl1, hself, hsuccess⟩, hentry⟩
    refine ⟨⟨hl1, hself⟩, _, ⟨hsuccess, rfl⟩, ?_⟩
    obtain ⟨abiEntry, call, sole⟩ := sidecar
    simp only at hentry
    subst hentry
    obtain rfl := List.singleton_inj.mp sole
    rfl

theorem InboundSidecar.incomingEntry_of_new
    (h : InboundSidecar.new keccak entry = .ok sidecar) : sidecar.incomingEntry = entry := by
  obtain ⟨⟨_, _, hsuccess⟩, hentry⟩ := (InboundSidecar.new_eq_ok keccak).mp h
  obtain ⟨abiEntry, call, sole⟩ := sidecar
  simp only at hentry
  subst hentry
  obtain rfl := List.singleton_inj.mp sole
  simp only [incomingEntry, sidecarEntry, ← hsuccess]

theorem InboundSidecar.tryFrom_eq_ok {entry} : InboundSidecar.tryFrom keccak entry = .ok sidecar ↔
      sidecar.abiEntry = entry ∧ InboundSidecar.new keccak sidecar.incomingEntry = .ok sidecar := by
  constructor
  · intro h
    unfold InboundSidecar.tryFrom at h
    split at h
    · simp only [bind_eq_ok, ensure_eq_ok, pure_eq_ok] at h
      obtain ⟨s, hnew, _, same, rfl⟩ := h
      refine ⟨ExecutionEntrySol.abiEncode_injective same, ?_⟩
      rwa [InboundSidecar.incomingEntry_of_new keccak hnew]
    · cases h
  · rintro ⟨rfl, hnew⟩
    have shape := ((InboundSidecar.new_eq_ok keccak).mp hnew).2
    have success : sidecar.abiEntry.success = true := by rw [shape]; rfl
    simp only [InboundSidecar.tryFrom, sidecar.sole, success, bind_eq_ok, ensure_eq_ok, pure_eq_ok]
    exact ⟨sidecar, hnew, (), rfl, rfl⟩

end

inductive EntryRole where
  | anchor
  | outbound (ordinal : Nat)
  | inbound (ordinal : Nat)
  deriving DecidableEq

def updatesRollup (rollupId : UInt64) (entry : ExecutionEntrySol) : Bool :=
  entry.rollupUpdates.any fun u => u.rollupId == rollupId

/-- Roles from the counters of outbound and inbound entries seen so far. -/
def entryRolesFrom (rollupId : UInt64) : Nat → Nat → List ExecutionEntrySol → List (Option EntryRole)
  | _, _, [] => []
  | outbound, inbound, entry :: entries =>
    if updatesRollup rollupId entry = false then
      none :: entryRolesFrom rollupId outbound inbound entries
    else if entry.proxyEntryHash ≠ 0 then
      some (.inbound inbound) :: entryRolesFrom rollupId outbound (inbound + 1) entries
    else if entry.l2ToL1Calls = [] then
      some .anchor :: entryRolesFrom rollupId outbound inbound entries
    else some (.outbound outbound) :: entryRolesFrom rollupId (outbound + 1) inbound entries

def entryRoles (entries : List ExecutionEntrySol) (rollupId : UInt64) : List (Option EntryRole) :=
  entryRolesFrom rollupId 0 0 entries

def actionFromEntry (entry : ExecutionEntrySol) (localId : UInt64) : Except ProtocolError Action :=
  match entry.l2ToL1Calls with
  | [call] => do
    ensure (entry.expectedL1ToL2Calls = [])
      (.invalidEncoding "a DA action cannot carry nested expected calls")
    ensure (¬(call.isStatic = true ∨ call.revertNextNCalls ≠ 0))
      (.invalidEncoding "a DA action needs a flat, mutable call: no static call, no revert span")
    ensure (call.sourceRollupId = localId ∨ entry.destinationRollupId = localId)
      (.invalidEncoding s!"a DA action's inbound entry targets rollup {entry.destinationRollupId}, not {localId}")
    return {
      sourceRollupId := call.sourceRollupId
      targetRollupId := if call.sourceRollupId = localId then mainnet else localId
      sourceAddress := call.sourceAddress
      targetAddress := call.targetAddress
      value := call.value
      gas := call.gas
      data := call.data
      success := entry.success
      returnData := entry.returnData }
  | _ => .error (.invalidEncoding "a DA action needs exactly one call on its entry")

def entryFromAction (keccak : Bytes → B256) (action : Action) (localId : UInt64) :
    Except ProtocolError ExecutionEntrySol := do
  let outbound := action.sourceRollupId = localId ∧ action.targetRollupId = mainnet
  let inbound := action.targetRollupId = localId
  ensure (outbound ∨ inbound)
    (.invalidEncoding "a DA action must have this rollup as its source or its target")
  let call : L2ToL1CallSol := ⟨0, false, action.gas, action.sourceAddress, action.sourceRollupId,
    action.targetAddress, action.value, action.data⟩
  let callHash := commonCrossChainCallHash keccak ⟨.mutable, call.sourceAddress, action.sourceRollupId,
    call.targetAddress, action.targetRollupId, action.value, action.data⟩
  let hashes : B256 × B256 :=
    if outbound then (0, 0) else (callHash, l2RollingHash keccak callHash action.success action.returnData)
  return {
    rollupUpdates := []
    proxyEntryHash := hashes.1
    l2ToL1Calls := [call]
    expectedL1ToL2Calls := []
    rollingHash := hashes.2
    destinationRollupId := localId
    success := action.success
    returnData := action.returnData }

def batchWithEntries (entries : List ExecutionEntrySol) (immediateCount : Nat) : EvmBatch where
  expectedRootPerRollup := []
  entries := entries
  staticEntries := []
  immediateEntryCount := BitVec.ofNat 256 immediateCount
  immediateStaticEntryCount := 0
  proofSystems := []
  rollupIdsWithProofSystems := []
  blobIndices := []
  callData := []
  proofs := []
  blockNumber := 0
  bindMsgSenderInPublicInput := false

inductive ExecutionOutcome where
  | pending
  | resolved (returnData : Bytes) (success : Bool)
  deriving DecidableEq

structure ExecutedAction where
  callMode : CallMode
  targetAddress : Address
  targetRollupId : UInt64
  sourceRollupId : UInt64
  sourceAddress : Address
  data : Bytes
  value : U256
  outcome : ExecutionOutcome
  revertSpan : Option UInt32

def supportedReturnData (call : ExecutedAction) : Except ProtocolError Bytes := do
  ensure (call.outcome ≠ .pending)
    (.invalidEncoding "recorded cross-chain call still has a pending outcome")
  ensure (call.callMode ≠ .static) (.unsupported staticCall)
  ensure (call.revertSpan = none) (.unsupported revertSpan)
  match call.outcome with
  | .resolved returnData true => return returnData
  | _ => throw (.unsupported unsuccessfulCall)

def supportedTopLevelReturnData (call : ExecutedAction) (sourceRollupId : UInt64) :
    Except ProtocolError Bytes := do
  let returnData ← supportedReturnData call
  ensure (call.sourceRollupId = sourceRollupId) (.unsupported nestedCall)
  return returnData

def l1CallFromAction (call : ExecutedAction) : L2ToL1CallSol :=
  ⟨0, false, 0, call.sourceAddress, call.sourceRollupId, call.targetAddress, call.value, call.data⟩

/-- One immediate entry per L2-to-L1 call, unfinished until updates are attached. -/
def buildL1PostbatchEntry (sourceRollupId : UInt64) (call : ExecutedAction) :
    Except ProtocolError ExecutionEntrySol := do
  let returnData ← supportedTopLevelReturnData call sourceRollupId
  ensure (call.targetRollupId = mainnet) (.unsupported "L1 post-batch entries only support L2-to-L1 calls")
  return {
    rollupUpdates := []
    proxyEntryHash := 0
    l2ToL1Calls := [l1CallFromAction call]
    expectedL1ToL2Calls := []
    rollingHash := 0
    destinationRollupId := sourceRollupId
    success := true
    returnData }

def buildL1Postbatch (calls : List ExecutedAction) (sourceRollupId : UInt64) :
    Except ProtocolError EvmBatch := do
  let entries ← calls.mapM (buildL1PostbatchEntry sourceRollupId)
  return batchWithEntries entries entries.length

/-- One deferred entry for an L1-to-L2 call, unfinished likewise. -/
def buildL1InboundEntry (keccak : Bytes → B256) (target : Address) (value : U256) (data : Bytes)
    (source : Address) (destinationRollupId : UInt64) (returnData : Bytes) : EvmBatch :=
  batchWithEntries [{
    rollupUpdates := []
    proxyEntryHash := commonCrossChainCallHash keccak
      ⟨.mutable, source, mainnet, target, destinationRollupId, value, data⟩
    l2ToL1Calls := []
    expectedL1ToL2Calls := []
    rollingHash := 0
    destinationRollupId := destinationRollupId
    success := true
    returnData := returnData }] 0

def buildInboundTargetEntry (keccak : Bytes → B256) (targetRollupId : UInt64) (call : ExecutedAction) :
    Except ProtocolError ExecutionEntrySol := do
  let returnData ← supportedReturnData call
  ensure (¬(call.targetRollupId ≠ targetRollupId ∨ call.sourceRollupId = targetRollupId))
    (.unsupported "inbound sidecars only support top-level calls from another rollup")
  let sidecar ← InboundSidecar.new keccak ⟨call.targetAddress, call.sourceAddress, call.value, call.data,
    call.sourceRollupId, targetRollupId, returnData, true⟩
  return sidecar.abiEntry

def buildInboundTargetEntries (keccak : Bytes → B256) (calls : List ExecutedAction)
    (targetRollupId : UInt64) : Except ProtocolError EvmBatch := do
  let entries ← calls.mapM (buildInboundTargetEntry keccak targetRollupId)
  return batchWithEntries entries 0

/-- The call-free immediate entry that opens a settlement. -/
def buildL1SettlementOnly (rollupId : UInt64) : EvmBatch :=
  batchWithEntries [{
    rollupUpdates := []
    proxyEntryHash := 0
    l2ToL1Calls := []
    expectedL1ToL2Calls := []
    rollingHash := 0
    destinationRollupId := rollupId
    success := true
    returnData := [] }] 1

def ensureSupportedFlatCall (call : L2ToL1CallSol) : Except ProtocolError Unit := do
  ensure (call.revertNextNCalls = 0) (.unsupported revertSpan)
  ensure (call.isStatic = false) (.unsupported staticCall)
  ensure (call.gas = 0) (.unsupported "explicit cross-chain call gas limits are not supported")

/-- The call identity a flat L1 call is committed under. -/
def flatCallHash (keccak : Bytes → B256) (call : L2ToL1CallSol) : B256 :=
  commonCrossChainCallHash keccak
    ⟨.mutable, call.sourceAddress, call.sourceRollupId, call.targetAddress, mainnet, call.value, call.data⟩

def l1Seed (keccak : Bytes → B256) (entry : ExecutionEntrySol) : B256 :=
  seedForL1 keccak (entry.rollupUpdates.map fun u => (u.rollupId, u.currentRoot)) entry.proxyEntryHash

def finalizeEntry (keccak : Bytes → B256) (entryIndex : Nat) (entry : ExecutionEntrySol) :
    Except ProtocolError ExecutionEntrySol := do
  ensure (entry.rollupUpdates ≠ []) (.invalidEncoding s!"L1 entry {entryIndex} has no RollupUpdates")
  ensure (entry.success = true) (.unsupported unsuccessfulCall)
  ensure (entry.expectedL1ToL2Calls = []) (.unsupported nestedCall)
  ensure (entry.l2ToL1Calls.length ≤ 1)
    (.unsupported "multiple flat calls in one L1 entry are not supported")
  let rollingHash ← match entry.l2ToL1Calls with
    | call :: _ => do
      ensureSupportedFlatCall call
      pure (callEnd keccak (callBegin keccak (l1Seed keccak entry) (flatCallHash keccak call))
        entry.success entry.returnData)
    | [] => pure (l1Seed keccak entry)
  return { entry with
    rollingHash
    -- an immediate entry keeps its simulated result only until it is folded in
    returnData := if entry.proxyEntryHash = 0 then [] else entry.returnData }

def finalizeEntries (keccak : Bytes → B256) : Nat → List ExecutionEntrySol →
    Except ProtocolError (List ExecutionEntrySol)
  | _, [] => .ok []
  | i, entry :: entries => do
    let entry ← finalizeEntry keccak i entry
    let entries ← finalizeEntries keccak (i + 1) entries
    return entry :: entries

def finalizeL1RollingHashes (keccak : Bytes → B256) (batch : EvmBatch) : Except ProtocolError EvmBatch := do
  ensure (batch.staticEntries = []) (.unsupported staticCall)
  let entries ← finalizeEntries keccak 0 batch.entries
  return { batch with entries }

end Eez
