import EezRollup.Protocol.Builders
import EezRollup.Protocol.SyncBlock
import EezRollup.Signer.DaGate
import EezRollup.Signer.Gates

/-! The composer's batch, call by call: each entry comes from its builder, gets one chained state
update and is finalized. -/
open List
namespace Eez.Signer
open ExecutionEntrySol
open Octets Outcome Codec

/-- One chained state update on each entry, ending at the given roots. -/
def stitch (r : UInt64) : B256 → List ExecutionEntrySol → List I192 → List B256 → List ExecutionEntrySol
  | previous, entry :: entries, delta :: deltas, newRoot :: roots =>
    { entry with rollupUpdates := [⟨r, delta, previous, newRoot⟩] } :: stitch r newRoot entries deltas roots
  | _, _, _, _ => []

/-- A finalized entry together with the update it was given. -/
structure Finalizes (keccak : Bytes → B256) (r : UInt64) (entry : ExecutionEntrySol) (delta : I192)
    (v : VerifiedRollupUpdateEntry) : Prop where
  entry : v.claimedEntry = { entry with rollupUpdates := [v.claimedUpdate] }.finalized keccak
  rollup : v.claimedUpdate.rollupId = r
  delta : v.claimedUpdate.etherDelta = delta

theorem stitch_claims (keccak : Bytes → B256) (r : UInt64) (previous : B256) (entries : List ExecutionEntrySol)
    (deltas : List I192) (roots : List B256) (hdeltas : deltas.length = entries.length)
    (hroots : roots.length = entries.length) :
    ∃ vs : List VerifiedRollupUpdateEntry, vs.map VerifiedRollupUpdateEntry.claimedEntry =
        (stitch r previous entries deltas roots).map (finalized keccak) ∧
      (vs.map fun v => v.claimedUpdate.newRoot) = roots ∧ Chained previous vs (roots.getLastD previous) ∧
      Forall₂ (fun x v => Finalizes keccak r x.1 x.2 v) (entries.zip deltas) vs := by
  induction entries generalizing deltas roots previous with
  | nil =>
    obtain rfl := length_eq_zero_iff.mp hdeltas
    obtain rfl := length_eq_zero_iff.mp hroots
    exact ⟨[], rfl, rfl, rfl, .nil⟩
  | cons entry entries ih =>
    obtain ⟨delta, deltas, rfl⟩ := exists_cons_of_length_eq_add_one hdeltas
    obtain ⟨root, roots, rfl⟩ := exists_cons_of_length_eq_add_one hroots
    simp only [length_cons, Nat.add_right_cancel_iff] at hdeltas hroots
    obtain ⟨vs, claimed, newRoots, chained, finalizes⟩ := ih root deltas roots hdeltas hroots
    refine ⟨⟨_, ⟨r, delta, previous, root⟩, rfl⟩ :: vs, congrArg₂ _ rfl claimed, congrArg₂ _ rfl newRoots,
      ⟨rfl, ?_⟩, .cons ⟨rfl, rfl, rfl⟩ finalizes⟩
    rw [getLastD_cons]
    exact chained

section
variable (keccak : Bytes → B256) (r : NonZeroU64)

/-- An outbound call of this rollup with the user transaction that makes it. -/
structure OutboundCall (systemAddress : Address) where
  action : ExecutedAction
  tx : TransactionSigned
  entry : ExecutionEntrySol
  built : buildL1PostbatchEntry r action = .ok entry
  sender : action.sourceAddress ≠ systemAddress
  value_fits : (u256ToI192 action.value).isSome

/-- An inbound call from L1 with its sidecar. -/
structure InboundCall where
  action : ExecutedAction
  sidecar : ExecutionEntrySol
  built : buildInboundTargetEntry keccak r action = .ok sidecar
  fromL1 : action.sourceRollupId = mainnet
  value_fits : (u256ToI192 action.value).isSome
  identified : sidecar.proxyEntryHash ≠ 0

end

namespace OutboundCall
variable {r : NonZeroU64} {systemAddress : Address}

def userTx (c : OutboundCall r systemAddress) : Bytes := c.tx.encoded

def delta (c : OutboundCall r systemAddress) : I192 := -(u256ToI192 c.action.value).getD 0

/-- The event the manager emits when the user transaction makes the call. -/
def event (keccak : Bytes → B256) (c : OutboundCall r systemAddress) : DecodedOutboundEvent :=
  ⟨l2OutboundCallHash keccak ⟨.mutable, c.action.sourceAddress, r, c.action.targetAddress, mainnet, c.action.value,
    c.action.data⟩ 0, 0⟩

theorem entry_eq (c : OutboundCall r systemAddress) :
    c.entry = outboundEntry r c.action c.entry.returnData ∧ c.action.sourceRollupId = r := by
  obtain ⟨returnData, _, source, _, entry⟩ := buildL1PostbatchEntry_eq_ok.mp c.built
  rw [entry]
  exact ⟨rfl, source⟩

theorem flat (c : OutboundCall r systemAddress) : c.entry.Flat (l1CallFromAction c.action) := by
  rw [c.entry_eq.1]
  exact ⟨rfl, rfl, rfl, rfl, rfl, rfl⟩

end OutboundCall

namespace InboundCall
variable {keccak : Bytes → B256} {r : NonZeroU64}

/-- Value entering the rollup. -/
def delta (c : InboundCall keccak r) : I192 := (u256ToI192 c.action.value).getD 0

/-- The deferred entries L1 holds for the call. -/
def deferred (c : InboundCall keccak r) : List ExecutionEntrySol :=
  (buildL1InboundEntry keccak c.action.targetAddress c.action.value c.action.data c.action.sourceAddress r
    c.sidecar.returnData).entries

def incoming (c : InboundCall keccak r) : IncomingEntry := c.action.incoming r c.sidecar.returnData

theorem sidecar_eq (c : InboundCall keccak r) : c.sidecar = sidecarEntry keccak c.incoming := by
  obtain ⟨returnData, _, _, _, sidecar⟩ := buildInboundTargetEntry_eq_ok.mp c.built
  have same : c.sidecar.returnData = returnData := by rw [sidecar]; rfl
  rw [incoming, same]
  exact sidecar

theorem deferred_eq (c : InboundCall keccak r) : c.deferred = [deferredEntry keccak c.incoming] :=
  buildL1InboundEntry_entries c.incoming c.fromL1

theorem incomingFor (c : InboundCall keccak r) : IncomingFor keccak r c.incoming := by
  refine ⟨c.fromL1, rfl, rfl, ?_⟩
  have identified := c.identified
  rw [c.sidecar_eq] at identified
  exact identified

/-- What inspection of the delivery reports. -/
def observation (c : InboundCall keccak r) : InboundObservation :=
  ⟨c.incoming.callHash keccak, c.incoming.value, c.incoming.returnData, c.incoming.sidecar keccak⟩

theorem observes (c : InboundCall keccak r) : Observes keccak c.incoming c.observation := ⟨rfl, rfl, rfl, rfl⟩

end InboundCall

section
variable {keccak : Bytes → B256} {r : NonZeroU64} {v : VerifiedRollupUpdateEntry}

theorem Finalizes.anchor (h : Finalizes keccak r (anchorEntry r) 0 v) :
    classifyClaimedEntry keccak v.claimedEntry v.claimedUpdate r = .anchor := by
  rw [h.entry]
  simp [classifyClaimedEntry, finalized, anchorEntry, l1Seed]

end

section
variable {keccak : Bytes → B256} {r : NonZeroU64} {systemAddress : Address} {c : OutboundCall r systemAddress}
  {v : VerifiedRollupUpdateEntry} (h : Finalizes keccak r c.entry c.delta v)
include h

theorem Finalizes.outbound_eq : v.claimedEntry =
    { outboundEntry r c.action c.entry.returnData with rollupUpdates := [v.claimedUpdate] }.finalized keccak := by
  rw [← c.entry_eq.1]
  exact h.entry

theorem Finalizes.outbound_shape : classifyClaimedEntry keccak v.claimedEntry v.claimedUpdate r = .outbound := by
  rw [h.outbound_eq]
  simp [classifyClaimedEntry, finalized, outboundEntry, l1CallFromAction]

theorem Finalizes.settlesCall {o : OutboundEventObservation} (event : o.decodedEvent = some (c.event keccak)) :
    SettlesCall keccak r systemAddress v (l1CallFromAction c.action) o := by
  obtain ⟨released, hreleased⟩ := Option.isSome_iff_exists.mp c.value_fits
  refine ⟨by rw [h.outbound_eq]; rfl, by rw [h.outbound_eq]; rfl, c.entry_eq.2, ?_, ?_, c.sender, released,
    hreleased, ?_⟩
  · rw [event, OutboundCall.event, flatCallHash, ← c.entry_eq.2]
    rfl
  · rw [h.outbound_eq]
    rfl
  · rw [h.delta, OutboundCall.delta, hreleased]
    rfl

theorem Finalizes.completesCall (entryIndex transactionIndex : Nat) :
    CompletesCall keccak (BoundEffect.authorized keccak ⟨entryIndex, transactionIndex, .outbound, v⟩) c.entry := by
  constructor
  · simp only [AuthorizedOutboundEffect.derivedDaEntry, BoundEffect.authorized, BoundEffect.claimedEntry, h.outbound_eq]
    exact c.entry_eq.1
  · simp only [BoundEffect.authorized, BoundEffect.claimedEntry, h.outbound_eq]
    rfl

end

section
variable {keccak : Bytes → B256} {r : NonZeroU64} {c : InboundCall keccak r} {v : VerifiedRollupUpdateEntry}
  (h : Finalizes keccak r (deferredEntry keccak c.incoming) c.delta v)
include h

theorem Finalizes.inbound_shape : classifyClaimedEntry keccak v.claimedEntry v.claimedUpdate r = .inbound := by
  have nonzero : c.incoming.callHash keccak ≠ 0#256 := c.incomingFor.callHash_ne_zero
  rw [h.entry]
  simp [classifyClaimedEntry, finalized, deferredEntry, nonzero]

theorem Finalizes.settlesDelivery : SettlesDelivery keccak r v c.observation := by
  have nonzero : c.incoming.callHash keccak ≠ 0#256 := c.incomingFor.callHash_ne_zero
  obtain ⟨deposited, hdeposited⟩ := Option.isSome_iff_exists.mp c.value_fits
  refine ⟨by rw [h.entry]; rfl, by rw [h.entry]; rfl, ?_, ?_, ?_⟩
  · rw [h.entry]
    simp [finalized, deferredEntry, nonzero, InboundCall.observation]
  · rw [h.entry]
    rfl
  · rw [h.delta, InboundCall.delta, hdeposited]
    exact hdeposited

end

end Eez.Signer
