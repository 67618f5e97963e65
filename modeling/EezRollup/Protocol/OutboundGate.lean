import EezRollup.Lib.Tally
import EezRollup.Protocol.SyncBlock
import EezRollup.Scan.Types

/-! The gate counts the observed hashes and lets every entry take one; what it decides is inclusion
of multisets. -/
namespace Eez
open List Octets Outcome Codec

structure OutboundCallObservation where
  callHash : B256
  callGas : UInt64

/-- The supported L2 manager deployment does not fold the gas left into its hashes. -/
def supportedCallGas : UInt64 := 0

def countObservations : Tally B256 → List OutboundCallObservation → Except String (Tally B256)
  | available, [] => .ok available
  | available, observation :: observed => do
    ensure (observation.callGas = supportedCallGas)
      s!"outbound event uses callGas {observation.callGas}; this deployment requires callGas 0"
    countObservations (available.add observation.callHash) observed

def hexAddress (a : Address) : String := "0x" ++ String.join ((addressBytes a).map hexByte)

def CallMode.fromIsStatic (isStatic : Bool) : CallMode := if isStatic then .static else .mutable

def sole {α : Type*} : List α → Option α
  | [a] => some a
  | _ => none

theorem sole_eq_some {α : Type*} {a} : ∀ {l : List α}, sole l = some a ↔ l = [a]
  | [] | [b] | _ :: _ :: _ => by simp [sole]

section
variable (keccak : Bytes → B256) (l2RollupId : UInt64)

def claimedHash (call : L2ToL1CallSol) : B256 :=
  l2OutboundCallHash keccak ⟨CallMode.fromIsStatic call.isStatic, call.sourceAddress, l2RollupId,
    call.targetAddress, mainnet, call.value, call.data⟩ supportedCallGas

/-- The call of entry `i`, when the entry has the one shape the gate supports. -/
def soleCall (i : Nat) (entry : ExecutionEntrySol) : Except String L2ToL1CallSol := do
  ensure (entry.proxyEntryHash = 0)
    s!"outbound gate misused: entry {i} has non-zero proxyEntryHash (not an outbound immediate)"
  let call ← require (sole entry.l2ToL1Calls) s!"outbound entry {i} must contain exactly one L2-to-L1 call"
  ensure (entry.success = true ∧ entry.expectedL1ToL2Calls = [])
    s!"outbound entry {i} uses an unsuccessful or nested execution shape"
  ensure (call.isStatic = false ∧ call.revertNextNCalls = 0 ∧ call.gas = 0)
    s!"outbound entry {i} uses unsupported static, revert-span, or explicit-gas semantics"
  ensure (call.sourceRollupId = l2RollupId)
    s!"outbound entry {i}: sourceRollupId {call.sourceRollupId} != this L2 {l2RollupId}"
  pure call

def unmatched (i : Nat) (call : L2ToL1CallSol) (expected : B256) : String :=
  s!"outbound entry {i} (target {hexAddress call.targetAddress}, value {call.value.toNat}, " ++
    s!"source {hexAddress call.sourceAddress}) has NO matching CrossChainCallExecuted event in the re-executed " ++
    s!"Sync block (hash {hexB256 expected}) — phantom / tampered / redirected / non-mainnet-target withdrawal"

/-- Every entry takes one observation; `i` is the index of the first. -/
def claimEntries : Nat → Tally B256 → List ExecutionEntrySol → Except String Unit
  | _, _, [] => .ok ()
  | i, available, entry :: entries => do
    let call ← soleCall l2RollupId i entry
    let expected := claimedHash keccak l2RollupId call
    let rest ← require (available.take? expected) (unmatched i call expected)
    claimEntries (i + 1) rest entries

def verifyOutboundAuthorized (outboundEntries : List ExecutionEntrySol)
    (observedCalls : List OutboundCallObservation) : Except String Unit := do
  let available ← countObservations (fun _ => none) observedCalls
  claimEntries keccak l2RollupId 0 available outboundEntries

end

/-- An outbound immediate of this rollup: one flat mutable call without gas, from `l2RollupId`. -/
structure ExecutionEntrySol.OutboundOf (l2RollupId : UInt64) (entry : ExecutionEntrySol) (call : L2ToL1CallSol) :
    Prop where
  immediate : entry.proxyEntryHash = 0
  flat : entry.Flat call
  source : call.sourceRollupId = l2RollupId

section
variable {keccak : Bytes → B256} {l2RollupId : UInt64}

variable {available : Tally B256} {observed : List OutboundCallObservation} {entries : List ExecutionEntrySol}

theorem countObservations_eq_ok : countObservations available observed = .ok result ↔
      (∀ o ∈ observed, o.callGas = 0) ∧ result = (observed.map (·.callHash)).foldl Tally.add available := by
  induction observed generalizing available with
  | nil => simp [countObservations, eq_comm]
  | cons o observed ih =>
    simp only [countObservations, bind_eq_ok, ensure_eq_ok, exists_const, ih, forall_mem_cons, and_assoc,
      map_cons, foldl_cons]
    rfl

theorem counts_foldl_add (held : available.Counts m) (hashes : List B256) :
    (hashes.foldl Tally.add available).Counts (m + hashes) := by
  induction hashes generalizing available m with
  | nil => rwa [Multiset.coe_nil, Multiset.add_zero]
  | cons h hashes ih =>
    have rest := ih (held.add h)
    rwa [Multiset.cons_add, ← Multiset.add_cons, Multiset.cons_coe] at rest

theorem soleCall_eq_ok {i entry call} : soleCall l2RollupId i entry = .ok call ↔ entry.OutboundOf l2RollupId call := by
  simp only [soleCall, bind_eq_ok, ensure_eq_ok, require_eq_ok, sole_eq_some, exists_const, pure_eq_ok]
  constructor
  · rintro ⟨immediate, c, one, ⟨success, expected⟩, ⟨isStatic, span, gas⟩, source, rfl⟩
    exact ⟨immediate, ⟨one, expected, success, isStatic, span, gas⟩, source⟩
  · rintro ⟨immediate, flat, source⟩
    exact ⟨immediate, call, flat.sole, ⟨flat.success, flat.expected⟩,
      ⟨flat.isStatic, flat.revertNextNCalls, flat.gas⟩, source, rfl⟩

theorem claimEntries_eq_ok (held : available.Counts m) : claimEntries keccak l2RollupId i available entries = .ok () ↔
      ∃ calls, Forall₂ (ExecutionEntrySol.OutboundOf l2RollupId) entries calls ∧
        (calls.map (claimedHash keccak l2RollupId) : Multiset B256) ≤ m := by
  induction entries generalizing i available m with
  | nil => exact iff_of_true rfl ⟨[], .nil, Multiset.zero_le m⟩
  | cons entry entries ih =>
    simp only [claimEntries, bind_eq_ok, require_eq_ok, soleCall_eq_ok, forall₂_cons_left_iff]
    constructor
    · rintro ⟨call, supported, rest, taken, ok⟩
      obtain ⟨-, absent⟩ | ⟨_, mem, taken', counts⟩ := held.take? (a := claimedHash keccak l2RollupId call)
      · cases absent.symm.trans taken
      · obtain rfl := Option.some.inj (taken'.symm.trans taken)
        obtain ⟨calls, all, le⟩ := (ih counts).mp ok
        refine ⟨_, ⟨call, calls, supported, all, rfl⟩, ?_⟩
        rw [map_cons, ← Multiset.cons_coe]
        exact Tally.cons_le_iff_erase.mpr ⟨mem, le⟩
    · rintro ⟨_, ⟨call, calls, supported, all, rfl⟩, le⟩
      rw [map_cons, ← Multiset.cons_coe, Tally.cons_le_iff_erase] at le
      obtain ⟨absent, -⟩ | ⟨rest, -, taken, counts⟩ := held.take? (a := claimedHash keccak l2RollupId call)
      · exact absurd le.1 absent
      · exact ⟨call, supported, rest, taken, (ih counts).mpr ⟨calls, all, le.2⟩⟩

def Authorized (keccak : Bytes → B256) (l2RollupId : UInt64) (entries : List ExecutionEntrySol)
    (observed : List OutboundCallObservation) : Prop :=
  ∃ calls, Forall₂ (ExecutionEntrySol.OutboundOf l2RollupId) entries calls ∧ (∀ o ∈ observed, o.callGas = 0) ∧
    (calls.map (claimedHash keccak l2RollupId) : Multiset B256) ≤ observed.map (·.callHash)

theorem verifyOutboundAuthorized_eq_ok : verifyOutboundAuthorized keccak l2RollupId entries observed = .ok () ↔
      Authorized keccak l2RollupId entries observed := by
  have held : ((observed.map (·.callHash)).foldl Tally.add fun _ => none).Counts (observed.map (·.callHash)) := by
    have nothing : Tally.Counts (fun _ => none) (0 : Multiset B256) := fun _ => rfl
    have counts := counts_foldl_add nothing (observed.map (·.callHash))
    rwa [Multiset.zero_add] at counts
  simp only [verifyOutboundAuthorized, bind_eq_ok, countObservations_eq_ok, and_assoc, exists_and_left,
    exists_eq_left, claimEntries_eq_ok held, Authorized]
  constructor
  · rintro ⟨gas, calls, all, le⟩
    exact ⟨calls, all, gas, le⟩
  · rintro ⟨calls, all, gas, le⟩
    exact ⟨gas, calls, all, le⟩

theorem Authorized.perm (h : Authorized keccak l2RollupId entries observed)
    (he : entries.Perm entries') (ho : observed.Perm observed') :
    Authorized keccak l2RollupId entries' observed' := by
  obtain ⟨calls, all, gas, le⟩ := h
  obtain ⟨calls', all', moved⟩ := perm_comp_forall₂ he.symm all
  refine ⟨calls', all', fun o mem => gas o (ho.mem_iff.mpr mem), ?_⟩
  rw [← Multiset.coe_eq_coe.mpr (ho.map _), Multiset.coe_eq_coe.mpr (moved.map _)]
  exact le

/-- The gate accepts exactly when every entry is an outbound immediate of this
rollup, no observation carries gas, and the recomputed hashes are, with their
repetitions, among the observed ones. The order of neither list matters. -/
theorem verifyOutboundAuthorized_iff_le (keccak : Bytes → B256) (l2RollupId : UInt64)
    (entries : List ExecutionEntrySol) (observed : List OutboundCallObservation) :
    (verifyOutboundAuthorized keccak l2RollupId entries observed = .ok () ↔
      ∃ calls, Forall₂ (ExecutionEntrySol.OutboundOf l2RollupId) entries calls ∧ (∀ o ∈ observed, o.callGas = 0) ∧
        (calls.map (claimedHash keccak l2RollupId) : Multiset B256) ≤ observed.map (·.callHash)) ∧
    ∀ entries' observed', entries.Perm entries' → observed.Perm observed' →
      (verifyOutboundAuthorized keccak l2RollupId entries' observed' = .ok () ↔
        verifyOutboundAuthorized keccak l2RollupId entries observed = .ok ()) := by
  refine ⟨verifyOutboundAuthorized_eq_ok, fun entries' observed' he ho => ?_⟩
  rw [verifyOutboundAuthorized_eq_ok, verifyOutboundAuthorized_eq_ok]
  exact ⟨fun h => h.perm he.symm ho.symm, fun h => h.perm he ho⟩

def sampleOutbound : ExecutionEntrySol where
  rollupUpdates := []
  proxyEntryHash := 0
  l2ToL1Calls := [⟨0, false, 0, 0xbb#160, 7, 0xaa#160, 1, []⟩]
  expectedL1ToL2Calls := []
  rollingHash := 0
  destinationRollupId := 0
  success := true
  returnData := []

/-- Two equal withdrawals and two events of another hash around theirs: swapping
the events changes nothing, and both entries find their own. -/
theorem verifyOutboundAuthorized_iff_le_sample :
    (verifyOutboundAuthorized (fun _ => 5) 7 [sampleOutbound, sampleOutbound] [⟨4, 0⟩, ⟨5, 0⟩, ⟨5, 0⟩] = .ok () ↔
        verifyOutboundAuthorized (fun _ => 5) 7 [sampleOutbound, sampleOutbound] [⟨5, 0⟩, ⟨4, 0⟩, ⟨5, 0⟩] = .ok ()) ∧
      verifyOutboundAuthorized (fun _ => 5) 7 [sampleOutbound, sampleOutbound] [⟨4, 0⟩, ⟨5, 0⟩, ⟨5, 0⟩] = .ok () ∧
      ¬verifyOutboundAuthorized (fun _ => 5) 7 [sampleOutbound, sampleOutbound] [⟨4, 0⟩, ⟨5, 0⟩] = .ok () :=
  ⟨(verifyOutboundAuthorized_iff_le (fun _ => 5) 7 [sampleOutbound, sampleOutbound] [⟨5, 0⟩, ⟨4, 0⟩, ⟨5, 0⟩]).2 _ _
    (List.Perm.refl _) (List.Perm.swap _ _ _), by decide, by decide⟩

end

end Eez
