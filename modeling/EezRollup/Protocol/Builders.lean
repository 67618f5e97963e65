import EezRollup.Protocol.Entries

/-! Each builder and the finalization of a batch, written as the entries they produce. -/
namespace Eez
open List Octets Outcome Codec ExecutionEntrySol

/-- A mutable call that resolved successfully, outside any revert span. -/
structure ExecutedAction.Returned (call : ExecutedAction) (returnData : Bytes) : Prop where
  outcome : call.outcome = .resolved returnData true
  callMode : call.callMode = .mutable
  revertSpan : call.revertSpan = none

variable {call : ExecutedAction} {entry : ExecutionEntrySol} {r : UInt64} {keccak : Bytes → B256}

theorem supportedReturnData_eq_ok {returnData} :
    supportedReturnData call = .ok returnData ↔ call.Returned returnData := by
  simp only [supportedReturnData, bind_eq_ok, ensure_eq_ok, exists_const]
  constructor
  · rintro ⟨_, mode, span, h⟩
    split at h
    · rename_i outcome
      cases h
      refine ⟨outcome, ?_, span⟩
      cases hmode : call.callMode with
      | mutable => rfl
      | static => exact absurd hmode mode
    · cases h
  · rintro ⟨outcome, mode, span⟩
    simp [outcome, mode, span]

def outboundEntry (r : UInt64) (call : ExecutedAction) (returnData : Bytes) : ExecutionEntrySol where
  rollupUpdates := []
  proxyEntryHash := 0
  l2ToL1Calls := [l1CallFromAction call]
  expectedL1ToL2Calls := []
  rollingHash := 0
  destinationRollupId := r
  success := true
  returnData := returnData

theorem buildL1PostbatchEntry_eq_ok : buildL1PostbatchEntry r call = .ok entry ↔
      ∃ returnData, call.Returned returnData ∧ call.sourceRollupId = r ∧ call.targetRollupId = mainnet ∧
        entry = outboundEntry r call returnData := by
  simp only [buildL1PostbatchEntry, supportedTopLevelReturnData, bind_eq_ok, supportedReturnData_eq_ok, ensure_eq_ok,
    exists_const, pure_eq_ok]
  constructor
  · rintro ⟨returnData, ⟨_, returned, source, rfl⟩, target, rfl⟩
    exact ⟨_, returned, source, target, rfl⟩
  · rintro ⟨returnData, returned, source, target, rfl⟩
    exact ⟨returnData, ⟨_, returned, source, rfl⟩, target, rfl⟩

def ExecutedAction.incoming (r : UInt64) (call : ExecutedAction) (returnData : Bytes) : IncomingEntry :=
  ⟨call.targetAddress, call.sourceAddress, call.value, call.data, call.sourceRollupId, r, returnData, true⟩

theorem buildInboundTargetEntry_eq_ok : buildInboundTargetEntry keccak r call = .ok entry ↔
      ∃ returnData, call.Returned returnData ∧ call.targetRollupId = r ∧
        (call.incoming r returnData).Deliverable ∧ entry = sidecarEntry keccak (call.incoming r returnData) := by
  simp only [buildInboundTargetEntry, bind_eq_ok, supportedReturnData_eq_ok, ensure_eq_ok, exists_const, not_or,
    ne_eq, not_not, InboundSidecar.new_eq_ok, pure_eq_ok]
  constructor
  · rintro ⟨returnData, returned, ⟨target, _⟩, sidecar, ⟨deliverable, hentry⟩, rfl⟩
    exact ⟨returnData, returned, target, deliverable, hentry⟩
  · rintro ⟨returnData, returned, target, deliverable, rfl⟩
    refine ⟨returnData, returned, ⟨target, deliverable.2.1⟩, ⟨_, _, rfl⟩, ⟨deliverable, rfl⟩, rfl⟩

def deferredEntry (keccak : Bytes → B256) (incoming : IncomingEntry) : ExecutionEntrySol where
  rollupUpdates := []
  proxyEntryHash := incoming.callHash keccak
  l2ToL1Calls := []
  expectedL1ToL2Calls := []
  rollingHash := 0
  destinationRollupId := incoming.l2RollupId
  success := true
  returnData := incoming.returnData

theorem buildL1InboundEntry_entries (incoming : IncomingEntry) (source : incoming.sourceRollupId = mainnet) :
    (buildL1InboundEntry keccak incoming.target incoming.value incoming.data incoming.source incoming.l2RollupId
      incoming.returnData).entries = [deferredEntry keccak incoming] := by
  simp only [buildL1InboundEntry, batchWithEntries, deferredEntry, IncomingEntry.callHash, source]

def anchorEntry (r : UInt64) : ExecutionEntrySol where
  rollupUpdates := []
  proxyEntryHash := 0
  l2ToL1Calls := []
  expectedL1ToL2Calls := []
  rollingHash := 0
  destinationRollupId := r
  success := true
  returnData := []

theorem buildL1SettlementOnly_entries (r : UInt64) : (buildL1SettlementOnly r).entries = [anchorEntry r] := rfl

def ExecutionEntrySol.finalized (keccak : Bytes → B256) (entry : ExecutionEntrySol) : ExecutionEntrySol :=
  { entry with
    rollingHash := match entry.l2ToL1Calls with
      | call :: _ => callEnd keccak (callBegin keccak (l1Seed keccak entry) (flatCallHash keccak call))
          entry.success entry.returnData
      | [] => l1Seed keccak entry
    returnData := if entry.proxyEntryHash = 0 then [] else entry.returnData }

/-- An updated, successful entry with at most one flat call. -/
structure ExecutionEntrySol.Finalizable (entry : ExecutionEntrySol) : Prop where
  updated : entry.rollupUpdates ≠ []
  success : entry.success = true
  expected : entry.expectedL1ToL2Calls = []
  short : entry.l2ToL1Calls.length ≤ 1
  flat : ∀ call ∈ entry.l2ToL1Calls, call.revertNextNCalls = 0 ∧ call.isStatic = false ∧ call.gas = 0

theorem ensureSupportedFlatCall_eq_ok {call u} : ensureSupportedFlatCall call = .ok u ↔
      call.revertNextNCalls = 0 ∧ call.isStatic = false ∧ call.gas = 0 := by
  simp only [ensureSupportedFlatCall, bind_eq_ok, ensure_eq_ok, exists_const]

theorem finalizeEntry_eq_ok {i final} :
    finalizeEntry keccak i entry = .ok final ↔ entry.Finalizable ∧ final = entry.finalized keccak := by
  simp only [finalizeEntry, bind_eq_ok, ensure_eq_ok, exists_const]
  cases calls : entry.l2ToL1Calls with
  | nil =>
    simp only [bind_eq_ok, pure_eq_ok, exists_eq_left']
    constructor
    · rintro ⟨updated, success, expected, short, rfl⟩
      refine ⟨⟨updated, success, expected, by rw [calls]; exact short, by simp [calls]⟩, ?_⟩
      simp only [finalized, calls]
    · rintro ⟨final, rfl⟩
      refine ⟨final.updated, final.success, final.expected, Nat.zero_le 1, ?_⟩
      simp only [finalized, calls]
  | cons call rest =>
    simp only [bind_eq_ok, ensureSupportedFlatCall_eq_ok, exists_const, pure_eq_ok]
    constructor
    · rintro ⟨updated, success, expected, short, flat, _, rfl, rfl⟩
      obtain rfl : rest = [] := length_eq_zero_iff.mp (by simpa using short)
      refine ⟨⟨updated, success, expected, by rw [calls]; exact short, by simpa [calls] using flat⟩, ?_⟩
      simp only [finalized, calls]
    · rintro ⟨final, rfl⟩
      refine ⟨final.updated, final.success, final.expected, calls ▸ final.short,
        final.flat call (by rw [calls]; exact mem_cons_self), _, rfl, ?_⟩
      simp only [finalized, calls]

theorem finalizeEntries_eq_ok : finalizeEntries keccak i entries = .ok finals ↔
      (∀ e ∈ entries, e.Finalizable) ∧ finals = entries.map (finalized keccak) := by
  induction entries generalizing i finals with
  | nil =>
    simp only [finalizeEntries, Except.ok.injEq, not_mem_nil, false_imp_iff, implies_true, true_and, map_nil]
    exact eq_comm
  | cons entry entries ih =>
    simp only [finalizeEntries, bind_eq_ok, finalizeEntry_eq_ok, ih, pure_eq_ok, forall_mem_cons, map_cons]
    constructor
    · rintro ⟨_, ⟨first, rfl⟩, _, ⟨others, rfl⟩, rfl⟩
      exact ⟨⟨first, others⟩, rfl⟩
    · rintro ⟨⟨first, others⟩, rfl⟩
      exact ⟨_, ⟨first, rfl⟩, _, ⟨others, rfl⟩, rfl⟩

theorem finalizeL1RollingHashes_eq_ok : finalizeL1RollingHashes keccak batch = .ok final ↔
      batch.staticEntries = [] ∧ (∀ e ∈ batch.entries, e.Finalizable) ∧
        final = { batch with entries := batch.entries.map (finalized keccak) } := by
  simp only [finalizeL1RollingHashes, bind_eq_ok, ensure_eq_ok, exists_const, finalizeEntries_eq_ok, pure_eq_ok]
  constructor
  · rintro ⟨static, _, ⟨finals, rfl⟩, rfl⟩
    exact ⟨static, finals, rfl⟩
  · rintro ⟨static, finals, rfl⟩
    exact ⟨static, _, ⟨finals, rfl⟩, rfl⟩

theorem entryFromAction_outbound {returnData action} (source : call.sourceRollupId = r)
    (h : actionFromEntry (outboundEntry r call returnData) r = .ok action) :
    entryFromAction keccak action r = .ok (outboundEntry r call returnData) := by
  simp only [actionFromEntry, outboundEntry, l1CallFromAction, bind_eq_ok, ensure_eq_ok, exists_const, pure_eq_ok,
    source, if_true] at h
  obtain ⟨_, _, _, rfl⟩ := h
  simp [entryFromAction, ensure, outboundEntry, l1CallFromAction, source]

theorem entryFromAction_inbound {incoming : IncomingEntry} (rollup : incoming.l2RollupId = r)
    (source : incoming.sourceRollupId ≠ r) (h : actionFromEntry (sidecarEntry keccak incoming) r = .ok action) :
    entryFromAction keccak action r = .ok (sidecarEntry keccak incoming) := by
  have sole : (sidecarEntry keccak incoming).l2ToL1Calls = [⟨0, false, 0, incoming.source, incoming.sourceRollupId,
    incoming.target, incoming.value, incoming.data⟩] := rfl
  simp only [actionFromEntry, sole, bind_eq_ok, ensure_eq_ok, exists_const, pure_eq_ok, if_neg source] at h
  obtain ⟨_, _, _, rfl⟩ := h
  simp [entryFromAction, ensure, sidecarEntry, IncomingEntry.callHash, source, rollup]

def callHashInputOf (action : Action) : CallHashInput :=
  ⟨.mutable, action.sourceAddress, action.sourceRollupId, action.targetAddress, action.targetRollupId, action.value,
    action.data⟩

section
variable {keccak : Bytes → B256} {r : UInt64} {a b : Action} {entry : ExecutionEntrySol}

/-- Rebuilding keeps the call, the status and the return data. -/
structure Carries (a : Action) (entry : ExecutionEntrySol) : Prop where
  call : entry.l2ToL1Calls = [⟨0, false, a.gas, a.sourceAddress, a.sourceRollupId, a.targetAddress, a.value, a.data⟩]
  success : entry.success = a.success
  returnData : entry.returnData = a.returnData

theorem entryFromAction_eq_ok : entryFromAction keccak a r = .ok entry ↔
      ((a.sourceRollupId = r ∧ a.targetRollupId = mainnet) ∨ a.targetRollupId = r) ∧
      Carries a entry ∧ entry.rollupUpdates = [] ∧ entry.expectedL1ToL2Calls = [] ∧ entry.destinationRollupId = r ∧
      (entry.proxyEntryHash, entry.rollingHash) = if a.sourceRollupId = r ∧ a.targetRollupId = mainnet then (0, 0)
        else (commonCrossChainCallHash keccak (callHashInputOf a),
          l2RollingHash keccak (commonCrossChainCallHash keccak (callHashInputOf a)) a.success a.returnData) := by
  simp only [entryFromAction, bind_eq_ok, ensure_eq_ok, exists_const, pure_eq_ok]
  refine and_congr_right fun _ => ?_
  constructor
  · rintro rfl
    exact ⟨⟨rfl, rfl, rfl⟩, rfl, rfl, rfl, rfl⟩
  · obtain ⟨updates, proxy, calls, expected, rolling, destination, success, returnData⟩ := entry
    rintro ⟨⟨hcall, hsuccess, hreturn⟩, hupdates, hexpected, hdestination, hashes⟩
    simp only at hcall hsuccess hreturn hupdates hexpected hdestination hashes
    subst hcall hsuccess hreturn hupdates hexpected hdestination
    obtain ⟨rfl, rfl⟩ := Prod.mk.inj hashes
    rfl

theorem Carries.eq (ha : Carries a entry) (hb : Carries b entry) (target : a.targetRollupId = b.targetRollupId) :
    a = b := by
  have calls := singleton_inj.mp (ha.call.symm.trans hb.call)
  have success := ha.success.symm.trans hb.success
  have returnData := ha.returnData.symm.trans hb.returnData
  obtain ⟨⟩ := a
  obtain ⟨⟩ := b
  simp only [L2ToL1CallSol.mk.injEq] at calls
  simp_all

theorem entryFromAction_inj_inbound (ha : entryFromAction keccak a r = .ok entry)
    (hb : entryFromAction keccak b r = .ok entry) (identified : entry.proxyEntryHash ≠ 0) : a = b := by
  have target : ∀ {c}, entryFromAction keccak c r = .ok entry → Carries c entry ∧ c.targetRollupId = r := by
    intro c hc
    obtain ⟨direction, carries, _, _, _, hashes⟩ := entryFromAction_eq_ok.mp hc
    refine ⟨carries, direction.resolve_left fun outward => identified ?_⟩
    rw [if_pos outward] at hashes
    exact (Prod.mk.inj hashes).1
  exact (target ha).1.eq (target hb).1 ((target ha).2.trans (target hb).2.symm)

end

end Eez
