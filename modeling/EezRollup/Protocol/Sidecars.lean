import EezRollup.Protocol.SyncBlock

/-! A sidecar is accepted by rebuilding it from its own fields and comparing encodings. -/
namespace Eez
open Octets Outcome InboundSidecar IncomingEntry Keccak

structure DecodedInbound where
  target : Address
  value : U256
  data : Bytes
  source : Address
  returnData : Bytes
  success : Bool

section
variable (keccak : Bytes → B256) (abiDecode : Bytes → Except String ExecutionTableCall)

def decodeInbound (calldata : Bytes) : Option DecodedInbound := do
  let call ← (abiDecode calldata).toOption
  guard (¬(call.entries.length ≠ 1 ∨ call.staticEntries ≠ []))
  let entry ← call.entries.head?
  guard (¬(entry.success = false ∨ entry.proxyEntryHash = 0 ∨ entry.incomingCalls.length ≠ 1 ∨
    entry.expectedOutgoingCalls ≠ []))
  let incoming ← entry.incomingCalls.head?
  guard (¬(incoming.revertNextNCalls ≠ 0 ∨ incoming.isStatic = true ∨ incoming.gas ≠ 0))
  guard (l2RollingHash keccak entry.proxyEntryHash entry.success entry.returnData = entry.rollingHash)
  return {
    target := incoming.targetAddress
    value := incoming.value
    data := incoming.data
    source := incoming.sourceAddress
    returnData := entry.returnData
    success := entry.success }

def IncomingEntry.decoded (incoming : IncomingEntry) : DecodedInbound where
  target := incoming.target
  value := incoming.value
  data := incoming.data
  source := incoming.source
  returnData := incoming.returnData
  success := true

theorem decodeInbound_lowered (decodes : ∀ call, abiDecode (encodeExecuteIncomingCall call) = .ok call)
    (incoming : IncomingEntry) :
    decodeInbound keccak abiDecode (encodeExecuteIncoming (incoming.lowered keccak)) =
      if incoming.callHash keccak = 0 then none else some incoming.decoded := by
  unfold decodeInbound encodeExecuteIncoming
  rw [decodes]
  by_cases zero : incoming.callHash keccak = 0
  · rw [if_pos zero]
    simp [Except.toOption, lowered, guard, zero]
  · have marked : incoming.callHash keccak ≠ 0#256 := zero
    rw [if_neg zero]
    simp [Except.toOption, lowered, decoded, guard, marked]

end

section
variable {keccak : Bytes → B256}

theorem InboundSidecar.incomingEntry_deliverable (h : tryFrom keccak e = .ok s) : s.incomingEntry.Deliverable := by
  obtain ⟨_, made⟩ := (tryFrom_eq_ok keccak).mp h
  exact ((new_eq_ok keccak).mp made).1

theorem InboundSidecar.tryFrom_of_new (made : new keccak incoming = .ok s) : tryFrom keccak s.abiEntry = .ok s := by
  refine (tryFrom_eq_ok keccak).mpr ⟨rfl, ?_⟩
  rwa [incomingEntry_of_new keccak made]

theorem InboundSidecar.made_unique (h : tryFrom keccak e = .ok s)
    (made : new keccak incoming = .ok s') (entry : e = s'.abiEntry) : incoming = s.incomingEntry := by
  have again := tryFrom_of_new made
  rw [← entry, h] at again
  rw [Except.ok.inj again]
  exact (incomingEntry_of_new keccak made).symm

end

/-- Accepted entries are the constructor's; the call of one is determined by it,
and the calldata lowered from that call reads it back, unless its hash is zero. -/
theorem sidecars_canonical (keccak : Bytes → B256) (abiDecode : Bytes → Except String ExecutionTableCall)
    (decodes : ∀ call, abiDecode (encodeExecuteIncomingCall call) = .ok call) (e : ExecutionEntrySol) :
    ((∃ s, tryFrom keccak e = .ok s) ↔ ∃ incoming s, new keccak incoming = .ok s ∧ e = s.abiEntry) ∧
    ∀ s, tryFrom keccak e = .ok s → (new keccak s.incomingEntry = .ok s ∧ e = s.abiEntry) ∧
      (∀ incoming s', new keccak incoming = .ok s' → e = s'.abiEntry → incoming = s.incomingEntry) ∧
      ∃ l2Entry, buildL2IncomingEntry keccak s.incomingEntry = .ok l2Entry ∧
        decodeInbound keccak abiDecode (encodeExecuteIncoming l2Entry) =
          if s.incomingEntry.callHash keccak = 0 then none else some s.incomingEntry.decoded := by
  constructor
  · constructor
    · rintro ⟨s, h⟩
      obtain ⟨entry, made⟩ := (tryFrom_eq_ok keccak).mp h
      exact ⟨s.incomingEntry, s, made, entry.symm⟩
    · rintro ⟨incoming, s, made, rfl⟩
      exact ⟨s, tryFrom_of_new made⟩
  · intro s h
    obtain ⟨entry, made⟩ := (tryFrom_eq_ok keccak).mp h
    refine ⟨⟨made, entry.symm⟩, fun incoming s' made' same => made_unique h made' same, ?_⟩
    have success := (incomingEntry_deliverable h).2.2
    refine ⟨_, (buildL2IncomingEntry_eq_ok keccak).mpr ⟨success, rfl⟩, ?_⟩
    exact decodeInbound_lowered keccak abiDecode decodes s.incomingEntry

def sampleIncoming : IncomingEntry where
  target := 6
  source := 5
  value := 9
  data := [1, 2]
  sourceRollupId := 0
  l2RollupId := 7
  returnData := [3]
  success := true

theorem sampleIncoming_deliverable : sampleIncoming.Deliverable := by
  refine ⟨?_, ?_, ?_⟩ <;> decide

theorem sidecars_canonical_one : tryFrom keccak256 (sidecarEntry keccak256 sampleIncoming) =
        .ok (sampleIncoming.sidecar keccak256) ∧
      ∃ l2Entry, buildL2IncomingEntry keccak256 sampleIncoming = .ok l2Entry ∧
        decodeInbound keccak256 (canonicalDecoder encodeExecuteIncomingCall) (encodeExecuteIncoming l2Entry) =
          some sampleIncoming.decoded := by
  have made : new keccak256 sampleIncoming = .ok (sampleIncoming.sidecar keccak256) :=
    (new_eq_ok _).mpr ⟨sampleIncoming_deliverable, rfl⟩
  have accepted := tryFrom_of_new made
  obtain ⟨_, _, l2Entry, lowered, read⟩ := (sidecars_canonical keccak256
    (canonicalDecoder encodeExecuteIncomingCall) (canonicalDecoder_encode encodeExecuteIncomingCall_injective) _).2 _
    accepted
  have nonzero : sampleIncoming.callHash keccak256 ≠ 0 := by decide +kernel
  rw [sidecar_incomingEntry _ rfl] at lowered read
  rw [if_neg nonzero] at read
  exact ⟨accepted, l2Entry, lowered, read⟩

end Eez
