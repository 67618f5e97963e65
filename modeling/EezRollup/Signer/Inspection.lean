import EezRollup.Protocol.Entries
import EezRollup.Signer.PostBatch
import EezRollup.Signer.Window

/-! The settling block's inbound candidates and outbound events, and the absence of both before it.
-/
namespace Eez.Signer
open List Octets Outcome

structure InboundObservation where
  recomputedCallHash : B256
  value : U256
  returnData : Bytes
  derivedDaEntry : InboundSidecar

inductive InboundObservationError where
  | revertedTransaction
  | invalidAbi (reason : String)
  | nonCanonicalAbi
  | nativeValueMismatch (expected actual : U256)
  | sourceRollup (actual : UInt64)
  | entryCount (actual : Nat)
  | staticEntryCount (actual : Nat)
  | invalidEntryShape (field : String)
  | callHashMismatch (recomputed claimed : B256)
  | zeroCallHash

/-- A selector-level candidate; an invalid one keeps its place. -/
structure InboundCandidate where
  transactionIndex : Nat
  inspection : Except InboundObservationError InboundObservation

section
variable (ext : Externals)

/-- The checks on the only entry of an inbound table and its only call. -/
def inspectInboundEntry (transactionValue : U256) (entry : L2ExecutionEntrySol) (inner : CrossChainCallSol)
    (expectedRollupId : NonZeroU64) : Except InboundObservationError InboundObservation := do
  ensure (transactionValue = inner.value) (.nativeValueMismatch inner.value transactionValue)
  ensure (inner.sourceRollupId = mainnet) (.sourceRollup inner.sourceRollupId)
  ensure (entry.success = true) (.invalidEntryShape "success")
  ensure (entry.expectedOutgoingCalls = []) (.invalidEntryShape "expectedOutgoingCalls")
  ensure (inner.revertNextNCalls = 0) (.invalidEntryShape "revertNextNCalls")
  ensure (inner.isStatic = false) (.invalidEntryShape "isStatic")
  ensure (inner.gas = 0) (.invalidEntryShape "gas")
  let recomputed := commonCrossChainCallHash ext.keccak256
    ⟨.mutable, inner.sourceAddress, mainnet, inner.targetAddress, expectedRollupId, inner.value, inner.data⟩
  ensure (recomputed ≠ 0) .zeroCallHash
  ensure (entry.proxyEntryHash = recomputed) (.callHashMismatch recomputed entry.proxyEntryHash)
  ensure (entry.rollingHash = l2RollingHash ext.keccak256 entry.proxyEntryHash entry.success entry.returnData)
    (.invalidEntryShape "rollingHash")
  let derived ← (InboundSidecar.new ext.keccak256 ⟨inner.targetAddress, inner.sourceAddress, inner.value, inner.data,
    inner.sourceRollupId, expectedRollupId, entry.returnData, entry.success⟩).mapError
      fun _ => .invalidEntryShape "sidecar"
  return ⟨recomputed, inner.value, entry.returnData, derived⟩

def inspectInboundCandidate (transactionValue : U256) (calldata : Bytes) (transactionSucceeded : Bool)
    (expectedRollupId : NonZeroU64) : Except InboundObservationError InboundObservation := do
  ensure (transactionSucceeded = true) .revertedTransaction
  let call ← (ext.decodeExecuteIncoming calldata).mapError .invalidAbi
  ensure (encodeExecuteIncomingCall call = calldata) .nonCanonicalAbi
  match call.entries with
  | [entry] =>
    ensure (call.staticEntries = []) (.staticEntryCount call.staticEntries.length)
    match entry.incomingCalls with
    | [inner] => inspectInboundEntry ext transactionValue entry inner expectedRollupId
    | _ => throw (.invalidEntryShape "incomingCalls")
  | entries => throw (.entryCount entries.length)

inductive BlockInspectionError where
  | intermediateSystemTransaction (blockNumber : UInt64) (transactionIndex : Nat)
  | intermediateOutboundEvent (blockNumber : UInt64) (transactionIndex : Nat)
  | revertedSystemTransaction (index : Nat)
  | reservedSystemSender (index : Nat)

structure SettlingBlockObservations where
  systemSenderFlags : List Bool
  inboundCandidates : List InboundCandidate
  outboundEventCandidates : List OutboundEventObservation

def SettlingBlockObservations.effectCandidatePositions (o : SettlingBlockObservations) : List Nat :=
  pairEndPositions o.systemSenderFlags

def isInboundCandidate (isSystemSender : Bool) (tx : EezTxEnvelope) : Bool :=
  isSystemSender && executeIncomingSelector.isPrefixOf tx.input

structure InspectedTransaction where
  tx : EezTxEnvelope
  isSystemSender : Bool
  succeeded : Bool

def inspectTransactions (expectedRollupId : NonZeroU64) :
    Nat → List InspectedTransaction → Except BlockInspectionError (List InboundCandidate)
  | _, [] => .ok []
  | i, t :: rest => do
    -- only the native type may use the reserved sender
    ensure (t.isSystemSender = true → isSystemTx t.tx = true ∧ t.tx.toAddress = some eezl2Address)
      (.reservedSystemSender i)
    -- a reverted delivery stays attributable, any other system transaction is a load
    ensure (t.isSystemSender = true → t.succeeded = true ∨ isInboundCandidate t.isSystemSender t.tx = true)
      (.revertedSystemTransaction i)
    let candidates ← inspectTransactions expectedRollupId (i + 1) rest
    if isInboundCandidate t.isSystemSender t.tx then
      return ⟨i, inspectInboundCandidate ext t.tx.value t.tx.input t.succeeded expectedRollupId⟩ :: candidates
    else return candidates

/-- The source zips three lists of one length. -/
def ValidatedBlock.inspected (block : ValidatedBlock) : List InspectedTransaction :=
  ((block.decoded.transactions.zip block.flags).zip block.receiptSuccesses).map fun ((tx, flag), succeeded) =>
    ⟨tx, flag, succeeded⟩

def inspectValidatedSettlingBlock (block : ValidatedBlock) (expectedRollupId : NonZeroU64) :
    Except BlockInspectionError SettlingBlockObservations := do
  let inboundCandidates ← inspectTransactions ext expectedRollupId 0 block.inspected
  return ⟨block.flags, inboundCandidates, block.events⟩

end

def firstPrivileged (block : ValidatedBlock) : Option Nat :=
  (block.decoded.transactions.zip block.flags).findIdx? fun (tx, flag) => tx.ty == systemTxType || flag

def verifyValidatedIntermediateBlocks : List ValidatedBlock → Except BlockInspectionError Unit
  | [] => .ok ()
  | block :: blocks =>
    match firstPrivileged block, block.events with
    | some i, _ => .error (.intermediateSystemTransaction block.number i)
    | none, event :: _ => .error (.intermediateOutboundEvent block.number event.transactionIndex)
    | none, [] => verifyValidatedIntermediateBlocks blocks

def transactionHashAt (keccak : Bytes → B256) (block : ValidatedBlock) (index : Nat) : Option B256 :=
  (block.decoded.transactions[index]?).map fun tx => keccak tx.encoded2718

/-- The user transaction a reverted outbound load frames. -/
def pairedOutboundTransaction (ext : Externals) (block : ValidatedBlock) (loadIndex : Nat) :
    Option (Nat × B256) := do
  let userIndex := loadIndex + 1
  guard (block.flags[loadIndex]? = some true ∧ block.flags[userIndex]? = some false)
  let load ← block.decoded.transactions[loadIndex]?
  let loadCall ← (ext.decodeLoadExecutionTable load.input).toOption
  guard (encodeLoadExecutionTable loadCall = load.input ∧ loadCall.entries.length = 1 ∧
    loadCall.staticEntries = [] ∧ load.value = 0)
  let userHash ← transactionHashAt ext.keccak256 block userIndex
  return (userIndex, userHash)

/-- A successful call from L1 to the rollup `r`, identified by a usable hash. -/
structure IncomingFor (keccak : Bytes → B256) (r : NonZeroU64) (incoming : IncomingEntry) : Prop where
  source : incoming.sourceRollupId = mainnet
  rollup : incoming.l2RollupId = r
  success : incoming.success = true
  callHash_ne_zero : incoming.callHash keccak ≠ 0

theorem IncomingFor.deliverable (h : IncomingFor keccak r incoming) : incoming.Deliverable := by
  refine ⟨?_, ?_, h.success⟩
  · rw [h.rollup]
    exact r.2
  · rw [h.source, h.rollup]
    exact r.2.symm

/-- The observation a delivery of `incoming` leaves. -/
structure Observes (keccak : Bytes → B256) (incoming : IncomingEntry) (observation : InboundObservation) :
    Prop where
  callHash : observation.recomputedCallHash = incoming.callHash keccak
  value : observation.value = incoming.value
  returnData : observation.returnData = incoming.returnData
  sidecar : observation.derivedDaEntry.abiEntry = sidecarEntry keccak incoming

section
variable {ext : Externals} {r : NonZeroU64}

variable {observation : InboundObservation}

theorem inspectInboundEntry_sound {entry : L2ExecutionEntrySol} {inner : CrossChainCallSol}
    (sole : entry.incomingCalls = [inner]) (h : inspectInboundEntry ext value entry inner r = .ok observation) :
    ∃ incoming, IncomingFor ext.keccak256 r incoming ∧ incoming.value = value ∧
      entry = incoming.lowered ext.keccak256 ∧ Observes ext.keccak256 incoming observation := by
  simp only [inspectInboundEntry, bind_eq_ok, ensure_eq_ok, exists_const, mapError_eq_ok, pure_eq_ok] at h
  obtain ⟨hvalue, hsource, hsuccess, houtgoing, hrevert, hstatic, hgas, nonzero, hproxy, hrolling, derived,
    hderived, rfl⟩ := h
  obtain ⟨proxyEntryHash, incomingCalls, expectedOutgoingCalls, rollingHash, success, returnData⟩ := entry
  obtain ⟨revert, isStatic, gas, source, sourceRollup, target, callValue, data⟩ := inner
  simp only at sole hvalue hsource hsuccess houtgoing hrevert hstatic hgas nonzero hproxy hrolling hderived
  subst sole hvalue hsource hsuccess houtgoing hrevert hstatic hgas hproxy hrolling
  exact ⟨⟨target, source, value, data, mainnet, r, returnData, true⟩, ⟨rfl, rfl, rfl, nonzero⟩, rfl, rfl,
    rfl, rfl, rfl, ((InboundSidecar.new_eq_ok ext.keccak256).mp hderived).2⟩

theorem inspectInboundEntry_complete (hin : IncomingFor ext.keccak256 r incoming)
    (hobs : Observes ext.keccak256 incoming observation) :
    inspectInboundEntry ext incoming.value (incoming.lowered ext.keccak256)
      ⟨0, false, 0, incoming.source, incoming.sourceRollupId, incoming.target, incoming.value, incoming.data⟩ r =
      .ok observation := by
  obtain ⟨target, source, value, data, sourceRollup, rollup, returnData, success⟩ := incoming
  have deliverable := hin.deliverable
  obtain ⟨hsource, hrollup, hsuccess, nonzero⟩ := hin
  simp only at hsource hrollup hsuccess
  subst hsource hrollup hsuccess
  obtain ⟨recomputed, observed, returned, derived⟩ := observation
  obtain ⟨hhash, hvalue, hreturn, hsidecar⟩ := hobs
  simp only at hhash hvalue hreturn
  subst hhash hvalue hreturn
  simp only [inspectInboundEntry, bind_eq_ok, ensure_eq_ok, exists_const, mapError_eq_ok, pure_eq_ok, true_and]
  exact ⟨rfl, rfl, nonzero, rfl, rfl, derived,
    (InboundSidecar.new_eq_ok ext.keccak256).mpr ⟨deliverable, hsidecar⟩, rfl⟩

/-- The calldata of a delivery is determined by the call it delivers. -/
theorem inspectInboundCandidate_eq_ok : inspectInboundCandidate ext value calldata succeeded r = .ok observation ↔
      succeeded = true ∧ ∃ incoming, IncomingFor ext.keccak256 r incoming ∧ incoming.value = value ∧
        calldata = encodeExecuteIncomingCall ⟨[incoming.lowered ext.keccak256], []⟩ ∧
        ext.decodeExecuteIncoming calldata = .ok ⟨[incoming.lowered ext.keccak256], []⟩ ∧
        Observes ext.keccak256 incoming observation := by
  simp only [inspectInboundCandidate, bind_eq_ok, ensure_eq_ok, exists_const, mapError_eq_ok]
  refine and_congr_right fun _ => ?_
  constructor
  · rintro ⟨⟨entries, staticEntries⟩, hdecode, canonical, h⟩
    split at h
    · rename_i entry single
      simp only [bind_eq_ok, ensure_eq_ok, exists_const] at h
      obtain ⟨noStatic, h⟩ := h
      simp only at single noStatic
      subst single noStatic
      split at h
      · rename_i inner sole
        obtain ⟨incoming, hin, hvalue, rfl, hobs⟩ := inspectInboundEntry_sound sole h
        exact ⟨incoming, hin, hvalue, canonical.symm, hdecode, hobs⟩
      · cases h
    · cases h
  · rintro ⟨incoming, hin, rfl, rfl, hdecode, hobs⟩
    refine ⟨_, hdecode, rfl, ?_⟩
    simp only [bind_eq_ok, ensure_eq_ok, exists_const, true_and]
    exact inspectInboundEntry_complete hin hobs

theorem ValidatedBlock.inspected_pairs (block : ValidatedBlock) :
    (block.inspected.map fun t => (t.tx, t.isSystemSender)) = block.decoded.transactions.zip block.flags := by
  have zipped : (block.decoded.transactions.zip block.flags).length = block.receiptSuccesses.length := by
    rw [length_zip, block.receipts_length]
    exact Nat.min_eq_left (Nat.le_of_eq block.flags_length.symm)
  rw [ValidatedBlock.inspected, map_map]
  exact map_fst_zip (Nat.le_of_eq zipped)

theorem ValidatedBlock.inspected_tx (block : ValidatedBlock) :
    block.inspected.map InspectedTransaction.tx = block.decoded.transactions := by
  have pairs := congrArg (List.map Prod.fst) block.inspected_pairs
  rw [map_map] at pairs
  exact pairs.trans (map_fst_zip (Nat.le_of_eq block.flags_length.symm))

theorem ValidatedBlock.inspected_flag (block : ValidatedBlock) :
    block.inspected.map InspectedTransaction.isSystemSender = block.flags := by
  have pairs := congrArg (List.map Prod.snd) block.inspected_pairs
  rw [map_map] at pairs
  exact pairs.trans (map_snd_zip (Nat.le_of_eq block.flags_length))

/-- Only native transactions to the manager use the reserved sender, and only
deliveries among them may have reverted. -/
structure InspectedTransaction.Regular (t : InspectedTransaction) : Prop where
  native : t.isSystemSender = true → isSystemTx t.tx = true ∧ t.tx.toAddress = some eezl2Address
  succeeded : t.isSystemSender = true → t.succeeded = true ∨ isInboundCandidate t.isSystemSender t.tx = true

/-- Every transaction that looks like a delivery, at its position. -/
def candidatesFrom (ext : Externals) (r : NonZeroU64) (i : Nat) (ts : List InspectedTransaction) :
    List InboundCandidate :=
  (ts.zipIdx i).filterMap fun (t, j) =>
    if isInboundCandidate t.isSystemSender t.tx then
      some ⟨j, inspectInboundCandidate ext t.tx.value t.tx.input t.succeeded r⟩
    else none

theorem inspectTransactions_eq_ok : inspectTransactions ext r i ts = .ok candidates ↔
      (∀ t ∈ ts, t.Regular) ∧ candidates = candidatesFrom ext r i ts := by
  induction ts generalizing i candidates with
  | nil =>
    constructor
    · intro h
      cases h
      exact ⟨by simp, rfl⟩
    · rintro ⟨_, rfl⟩
      rfl
  | cons t ts ih =>
    simp only [inspectTransactions, bind_eq_ok, ensure_eq_ok, exists_const, ih, forall_mem_cons]
    have cons : candidatesFrom ext r i (t :: ts) = if isInboundCandidate t.isSystemSender t.tx then
          ⟨i, inspectInboundCandidate ext t.tx.value t.tx.input t.succeeded r⟩ :: candidatesFrom ext r (i + 1) ts
        else candidatesFrom ext r (i + 1) ts := by
      rw [candidatesFrom, zipIdx_cons, filterMap_cons]
      split <;> simp_all [candidatesFrom]
    rw [cons]
    constructor
    · rintro ⟨native, succeeded, rest, ⟨regular, rfl⟩, h⟩
      refine ⟨⟨⟨native, succeeded⟩, regular⟩, ?_⟩
      split at h <;> rename_i candidate <;> simp only [pure_eq_ok] at h
      · rw [if_pos candidate, h]
      · rw [if_neg candidate, h]
    · rintro ⟨⟨⟨native, succeeded⟩, regular⟩, rfl⟩
      refine ⟨native, succeeded, _, ⟨regular, rfl⟩, ?_⟩
      split <;> rfl

end

theorem verifyValidatedIntermediateBlocks_eq_ok : verifyValidatedIntermediateBlocks blocks = .ok u ↔
      ∀ block ∈ blocks, firstPrivileged block = none ∧ block.events = [] := by
  induction blocks with
  | nil => simp [verifyValidatedIntermediateBlocks]
  | cons block blocks ih =>
    simp only [verifyValidatedIntermediateBlocks, forall_mem_cons]
    cases firstPrivileged block with
    | some i => simp
    | none =>
      cases block.events with
      | nil => simpa using ih
      | cons event events => simp

theorem firstPrivileged_eq_none : firstPrivileged block = none ↔
      (∀ tx ∈ block.decoded.transactions, isSystemTx tx = false) ∧ ∀ flag ∈ block.flags, flag = false := by
  have lengths : block.decoded.transactions.length = block.flags.length := block.flags_length.symm
  simp only [firstPrivileged, findIdx?_eq_none_iff, Prod.forall, Bool.or_eq_false_iff, beq_eq_false_iff_ne,
    ne_eq, ty_eq_systemTxType_iff, Bool.not_eq_true]
  constructor
  · intro h
    constructor
    · intro tx htx
      rw [← map_fst_zip (Nat.le_of_eq lengths)] at htx
      obtain ⟨⟨tx', flag⟩, hmem, rfl⟩ := mem_map.mp htx
      exact (h tx' flag hmem).1
    · intro flag hflag
      rw [← map_snd_zip (Nat.le_of_eq lengths.symm)] at hflag
      obtain ⟨⟨tx, flag'⟩, hmem, rfl⟩ := mem_map.mp hflag
      exact (h tx flag' hmem).2
  · rintro ⟨txs, flags⟩ tx flag hmem
    obtain ⟨htx, hflag⟩ := of_mem_zip hmem
    exact ⟨txs tx htx, flags flag hflag⟩

end Eez.Signer
