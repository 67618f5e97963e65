import EezRollup.Signer.Completeness
import Mathlib.Algebra.BigOperators.Group.List.Basic

/-! Which entry stands for which transaction, and that the claimed balance changes add up to the
value that moved. -/
open List
namespace Eez.Signer
open OutboundEventObservation
open Octets Outcome Codec

def BoundTo (block : ValidatedBlock) (entry : ExecutionEntrySol) (position : CheckpointAt) : Prop :=
  ∃ update, entry.rollupUpdates = [update] ∧ ∃ checkpoint ∈ block.transactionStateCheckpoints,
      checkpoint.position = position ∧ checkpoint.blockHash = update.newRoot

/-- An entry as one of the three shapes the signer knows. -/
def Shaped (keccak : Bytes → B256) (r : UInt64) (entry : ExecutionEntrySol) (shape : ClaimedEntryShape) : Prop :=
  ∃ update, entry.rollupUpdates = [update] ∧ classifyClaimedEntry keccak entry update r = shape

section
variable (ext : Externals) (r : NonZeroU64) (block : ValidatedBlock)

/-- The outbound entry of the user transaction at `position`, whose only
outbound event is the entry's call. -/
structure StandsForCall (entry : ExecutionEntrySol) (position : Nat) : Prop where
  shape : Shaped ext.keccak256 r entry .outbound
  bound : BoundTo block entry (.transaction position)
  event : ∃ call o, entry.l2ToL1Calls = [call] ∧ block.events.filter (fun o => o.transactionIndex = position) = [o] ∧
    o.decodedEvent = some ⟨outboundCallHash ext.keccak256 r call 0, 0⟩

/-- The inbound entry of the system transaction at `position`, which delivers
the entry's call. -/
structure StandsForDelivery (entry : ExecutionEntrySol) (position : Nat) : Prop where
  shape : Shaped ext.keccak256 r entry .inbound
  bound : BoundTo block entry (.transaction position)
  delivery : ∃ t observation, block.inspected[position]? = some t ∧ isInboundCandidate t.isSystemSender t.tx = true ∧
    inspectInboundCandidate ext t.tx.value t.tx.input t.succeeded r = .ok observation ∧
    entry.proxyEntryHash = observation.recomputedCallHash ∧ entry.returnData = observation.returnData

end

structure Layered (ext : Externals) (input : SettlementInput) (anchor : ExecutionEntrySol)
    (outbound inbound : List ExecutionEntrySol) : Prop where
  flags : input.validatedWindow.settlingBlock.flags = framedFlags outbound.length inbound.length
  preceding : ∀ block ∈ input.validatedWindow.precedingBlocks,
    (∀ tx ∈ block.decoded.transactions, isSystemTx tx = false) ∧ (∀ flag ∈ block.flags, flag = false) ∧
      block.events = []
  anchored : Shaped ext.keccak256 input.expectedRollupId anchor .anchor ∧
    BoundTo input.validatedWindow.settlingBlock anchor .preExecution
  calls : ∀ i entry, outbound[i]? = some entry →
    StandsForCall ext input.expectedRollupId input.validatedWindow.settlingBlock entry (2 * i + 1)
  deliveries : ∀ j entry, inbound[j]? = some entry →
    StandsForDelivery ext input.expectedRollupId input.validatedWindow.settlingBlock entry (2 * outbound.length + j)
  silent : ∀ o ∈ input.validatedWindow.settlingBlock.events, ∃ i, i < outbound.length ∧ o.transactionIndex = 2 * i + 1
  empty : outbound.length + inbound.length = 0 → input.validatedWindow.settlingBlock.decoded.transactions = []

theorem filter_eq_singleton {α β : Type} [DecidableEq β] {f : α → β} {l : List α} {a : α}
    (distinct : (l.map f).Nodup) (h : a ∈ l) : l.filter (fun x => f x = f a) = [a] := by
  induction l with
  | nil => cases h
  | cons b l ih =>
    obtain ⟨fresh, distinct⟩ := nodup_cons.mp distinct
    rcases mem_cons.mp h with rfl | h
    · rw [filter_cons_of_pos (by simp), filter_eq_nil_iff.mpr]
      intro x hx same
      exact fresh (mem_map.mpr ⟨x, hx, of_decide_eq_true same⟩)
    · have ne : f b ≠ f a := fun same => fresh (mem_map.mpr ⟨a, h, same.symm⟩)
      rw [filter_cons_of_neg (by simpa using ne)]
      exact ih distinct h

namespace Settled
variable {ext : Externals} {input : SettlementInput} (s : Settled ext input)

theorem bound_anchor : BoundTo input.validatedWindow.settlingBlock s.anchor .preExecution := by
  have positions := s.bound.checkpointPositions
  have hashes := s.bound.checkpointHashes
  obtain ⟨first, rest, hcheckpoints, position, _⟩ := map_eq_cons_iff.mp positions
  rw [hcheckpoints] at hashes
  refine ⟨_, s.chain.leading.sole, first, ?_, position, (List.cons.inj hashes).1⟩
  rw [hcheckpoints]
  exact mem_cons_self

theorem bound_effect {n : Nat} (h : (s.outs ++ s.ins)[n]? = some e) :
    BoundTo input.validatedWindow.settlingBlock e.claimedEntry (.transaction e.transactionIndex) := by
  have positions := congrArg (fun l => l[n + 1]?) s.bound.checkpointPositions
  have hashes := congrArg (fun l => l[n + 1]?) s.bound.checkpointHashes
  simp only [← s.bound.positions, ← s.bound.claims, getElem?_cons_succ, map_cons, map_map,
    getElem?_map, h, Option.map_some, Option.map_eq_some_iff] at positions hashes
  obtain ⟨checkpoint, hcheckpoint, position⟩ := positions
  obtain ⟨checkpoint', hcheckpoint', hash⟩ := hashes
  obtain rfl := Option.some.inj (hcheckpoint.symm.trans hcheckpoint')
  exact ⟨_, e.claim.sole, checkpoint, mem_of_getElem? hcheckpoint, position, hash⟩

theorem events_positions : input.validatedWindow.settlingBlock.events.map transactionIndex =
    userPositions s.outs.length := by
  rw [← s.positions.1]
  exact map_eq_map_of_forall₂ (s.calls.events.flip.imp fun _ _ h => h.1)

theorem standsForCall {i : Nat} {e : BoundEffect} (h : s.outs[i]? = some e) :
    StandsForCall ext input.expectedRollupId input.validatedWindow.settlingBlock e.claimedEntry (2 * i + 1) := by
  have he := mem_of_getElem? h
  have whole : (s.outs ++ s.ins)[i]? = some e := by
    rw [getElem?_append_left (List.getElem?_eq_some_iff.mp h).1, h]
  have position := s.outs_position h
  have shape := s.bound.shapes e (mem_append_left _ he)
  rw [s.calls.outbound e he, s.rollup] at shape
  refine ⟨⟨_, e.claim.sole, shape⟩, position ▸ s.bound_effect whole, ?_⟩
  obtain ⟨o, ho, same, call, settles⟩ := forall₂_exists_right s.calls.events e he
  have distinct : (input.validatedWindow.settlingBlock.events.map transactionIndex).Nodup := by
    rw [s.events_positions, userPositions]
    refine pairwise_map.mpr (nodup_range.imp fun ne same => ne ?_)
    omega
  refine ⟨call, o, settles.sole, ?_, ?_⟩
  · have only := filter_eq_singleton distinct ho
    rwa [same, position] at only
  · rw [settles.event, outboundCallHash, flatCallHash, settles.source]
    rfl

theorem standsForDelivery {j : Nat} (h : s.ins[j]? = some e) :
    StandsForDelivery ext input.expectedRollupId input.validatedWindow.settlingBlock e.claimedEntry
      (2 * s.outs.length + j) := by
  have he := mem_of_getElem? h
  have whole : (s.outs ++ s.ins)[s.outs.length + j]? = some e := by
    rw [getElem?_append_right (Nat.le_add_right _ _), Nat.add_sub_cancel_left, h]
  have position := s.ins_position h
  have shape := s.bound.shapes e (mem_append_right _ he)
  rw [s.calls.inbound e he, s.rollup] at shape
  obtain ⟨b, hb, same, settles⟩ := forall₂_exists_right s.delivered e he
  obtain ⟨t, located, candidate, inspection⟩ := s.inspected_of_delivery hb
  rw [same, position] at located
  exact ⟨⟨_, e.claim.sole, shape⟩, position ▸ s.bound_effect whole,
    t, b.observation, located, candidate, inspection, settles.callHash, settles.returnData⟩

theorem layered : Layered ext input s.anchor s.outbound s.inbound := by
  refine ⟨?_, ?_, ⟨⟨_, s.chain.leading.sole, s.rollup ▸ s.bound.anchor⟩, s.bound_anchor⟩, ?_, ?_, ?_, ?_⟩
  · rw [outbound, inbound, length_map, length_map]
    exact s.flags_eq
  · intro block hblock
    obtain ⟨privileged, events⟩ := s.plain block hblock
    obtain ⟨txs, flags⟩ := firstPrivileged_eq_none.mp privileged
    exact ⟨txs, flags, events⟩
  · intro i entry hentry
    obtain ⟨e, he, rfl⟩ := Option.map_eq_some_iff.mp (getElem?_map ▸ hentry)
    exact s.standsForCall he
  · intro j entry hentry
    obtain ⟨e, he, rfl⟩ := Option.map_eq_some_iff.mp (getElem?_map ▸ hentry)
    rw [outbound, length_map]
    exact s.standsForDelivery he
  · intro o ho
    have position := mem_map_of_mem (f := transactionIndex) ho
    rw [s.events_positions] at position
    obtain ⟨i, hi, same⟩ := mem_map.mp position
    exact ⟨i, by rw [outbound, length_map]; exact mem_range.mp hi, same.symm⟩
  · intro none
    rw [outbound, inbound, length_map, length_map] at none
    have flags := congrArg List.length s.flags_eq
    rw [framedFlags_length] at flags
    refine length_eq_zero_iff.mp ?_
    rw [← input.validatedWindow.settlingBlock.flags_length]
    exact flags.trans (by omega)

end Settled

/-- The signer signs only settlements laid out as calls first, each after its
load, then deliveries. -/
theorem runSettlement_layered {ext : Externals} {input : SettlementInput} {hash : B256}
    (h : runSettlement ext input = .ok hash) :
    ∃ batch anchor outbound inbound, decodeCanonicalPostBatch ext input.submittedPostBatchCalldata = .ok ⟨batch⟩ ∧
      batch.entries = anchor :: (outbound ++ inbound) ∧ Layered ext input anchor outbound inbound := by
  obtain ⟨s⟩ := runSettlement_settled h
  exact ⟨s.batch, s.anchor, s.outbound, s.inbound, s.decoded, s.entries_eq, s.layered⟩

theorem layered_sample : ∃ batch anchor outbound inbound,
    decodeCanonicalPostBatch sampleExternals sampleSubmission.input.submittedPostBatchCalldata = .ok ⟨batch⟩ ∧
    batch.entries = anchor :: (outbound ++ inbound) ∧
    Layered sampleExternals sampleSubmission.input anchor outbound inbound := by
  obtain ⟨_, accepted⟩ := sampleSubmission.run_ok
  exact runSettlement_layered accepted

def balanceChange (entry : ExecutionEntrySol) : Int :=
  (entry.rollupUpdates.map fun update => update.etherDelta.toInt).sum

def ValidatedBlock.deliveryTransactions (block : ValidatedBlock) : List InspectedTransaction :=
  block.inspected.filter fun t => isInboundCandidate t.isSystemSender t.tx

structure Conserves (ext : Externals) (input : SettlementInput) (anchor : ExecutionEntrySol)
    (outbound inbound : List ExecutionEntrySol) (calls : List L2ToL1CallSol) : Prop where
  updates : ∀ entry ∈ anchor :: (outbound ++ inbound), ∃ update, entry.rollupUpdates = [update] ∧
    update.rollupId = input.expectedRollupId
  emitted : input.validatedWindow.settlingBlock.events.map decodedEvent =
    calls.map fun call => some ⟨outboundCallHash ext.keccak256 input.expectedRollupId call 0, 0⟩
  unmoved : balanceChange anchor = 0
  released : Forall₂ (fun entry call => entry.l2ToL1Calls = [call] ∧
    balanceChange entry = -(call.value.toNat : Int) ∧ call.value.toNat < 2 ^ 191) outbound calls
  received : Forall₂ (fun entry t => balanceChange entry = (t.tx.value.toNat : Int) ∧
    t.tx.value.toNat < 2 ^ 191) inbound input.validatedWindow.settlingBlock.deliveryTransactions
  total : ((anchor :: (outbound ++ inbound)).map balanceChange).sum =
    (input.validatedWindow.settlingBlock.deliveryTransactions.map fun t => (t.tx.value.toNat : Int)).sum -
      (calls.map fun call => (call.value.toNat : Int)).sum

theorem VerifiedRollupUpdateEntry.balanceChange_eq (v : VerifiedRollupUpdateEntry) :
    balanceChange v.claimedEntry = v.claimedUpdate.etherDelta.toInt := by
  rw [balanceChange, v.sole, map_singleton, sum_singleton]

theorem candidatesFrom_forall₂ (ext : Externals) (r : NonZeroU64) (i : Nat) (ts : List InspectedTransaction) :
    Forall₂ (fun c t => c.inspection = inspectInboundCandidate ext t.tx.value t.tx.input t.succeeded r)
      (candidatesFrom ext r i ts) (ts.filter fun t => isInboundCandidate t.isSystemSender t.tx) := by
  induction ts generalizing i with
  | nil => exact .nil
  | cons t ts ih =>
    have rest := ih (i + 1)
    rw [candidatesFrom, zipIdx_cons, filterMap_cons, filter_cons]
    by_cases candidate : isInboundCandidate t.isSystemSender t.tx = true
    · simp only [candidate, if_true]
      exact .cons rfl rest
    · simp only [candidate]
      exact rest

namespace Settled
variable {ext : Externals} {input : SettlementInput} (s : Settled ext input)

theorem exists_calls : ∃ calls : List L2ToL1CallSol, input.validatedWindow.settlingBlock.events.map decodedEvent =
      (calls.map fun call => some ⟨outboundCallHash ext.keccak256 input.expectedRollupId call 0, 0⟩) ∧
    Forall₂ (fun entry call => entry.l2ToL1Calls = [call] ∧
      balanceChange entry = -(call.value.toNat : Int) ∧ call.value.toNat < 2 ^ 191) s.outbound calls := by
  have matched := s.calls.events
  rw [outbound]
  generalize s.outs = outs, input.validatedWindow.settlingBlock.events = events at matched
  induction matched with
  | nil => exact ⟨[], rfl, .nil⟩
  | @cons e o outs events settles _ ih =>
    obtain ⟨_, call, settles⟩ := settles
    obtain ⟨calls, emitted, rest⟩ := ih
    obtain ⟨released, hreleased, hdelta⟩ := settles.delta
    obtain ⟨toInt, small⟩ := u256ToI192_eq_some hreleased
    refine ⟨call :: calls, ?_, .cons ⟨settles.sole, ?_, small⟩ rest⟩
    · rw [map_cons, map_cons, emitted, settles.event, outboundCallHash, flatCallHash, settles.source]
      rfl
    · -- the release is below 2 ^ 191, so negating it does not wrap
      rw [BoundEffect.claimedEntry, VerifiedRollupUpdateEntry.balanceChange_eq, hdelta, BitVec.toInt_neg, toInt]
      exact Int.bmod_eq_of_le (by omega) (by omega)

theorem inbound_delivered : Forall₂ (fun entry t => balanceChange entry = (t.tx.value.toNat : Int) ∧
    t.tx.value.toNat < 2 ^ 191) s.inbound input.validatedWindow.settlingBlock.deliveryTransactions := by
  have read := candidatesFrom_forall₂ ext input.expectedRollupId 0 input.validatedWindow.settlingBlock.inspected
  rw [s.candidates, forall₂_map_left_iff] at read
  rw [inbound, forall₂_map_left_iff]
  refine (forall₂_join s.delivered.flip read).imp ?_
  rintro e t ⟨b, _, ⟨_, settles⟩, inspection⟩
  obtain ⟨_, incoming, _, hvalue, _, _, observes⟩ := inspectInboundCandidate_eq_ok.mp inspection.symm
  obtain ⟨toInt, small⟩ := u256ToI192_eq_some settles.delta
  rw [observes.value, hvalue] at toInt small
  exact ⟨e.claim.balanceChange_eq.trans toInt, small⟩

theorem conserves : ∃ calls, Conserves ext input s.anchor s.outbound s.inbound calls := by
  obtain ⟨calls, emitted, released⟩ := s.exists_calls
  have received := s.inbound_delivered
  have anchored : balanceChange s.anchor = 0 := by
    rw [anchor, VerifiedRollupUpdateEntry.balanceChange_eq, s.bound.anchorDelta]
    rfl
  refine ⟨calls, ?_, emitted, anchored, released, received, ?_⟩
  · rw [← s.entries_eq, s.claimed]
    intro entry hentry
    obtain ⟨v, hv, rfl⟩ := mem_map.mp hentry
    exact ⟨v.claimedUpdate, v.sole, s.updated v hv⟩
  · have outs : s.outbound.map balanceChange = (calls.map fun call => (call.value.toNat : Int)).map Neg.neg := by
      rw [map_map]
      exact map_eq_map_of_forall₂ (released.imp fun _ _ h => h.2.1)
    have ins : s.inbound.map balanceChange =
        input.validatedWindow.settlingBlock.deliveryTransactions.map fun t => (t.tx.value.toNat : Int) :=
      map_eq_map_of_forall₂ (received.imp fun _ _ h => h.1)
    rw [map_cons, map_append, sum_cons, sum_append, anchored, outs, ins, ← sum_neg]
    omega

end Settled

/-- Over a signed batch the balance changes by what the block received less what
it sent. -/
theorem runSettlement_conserves {ext : Externals} {input : SettlementInput} {hash : B256}
    (h : runSettlement ext input = .ok hash) :
    ∃ batch anchor outbound inbound calls, decodeCanonicalPostBatch ext input.submittedPostBatchCalldata = .ok ⟨batch⟩ ∧
      batch.entries = anchor :: (outbound ++ inbound) ∧ Conserves ext input anchor outbound inbound calls := by
  obtain ⟨s⟩ := runSettlement_settled h
  obtain ⟨calls, conserves⟩ := s.conserves
  exact ⟨s.batch, s.anchor, s.outbound, s.inbound, calls, s.decoded, s.entries_eq, conserves⟩

theorem conserves_sample : ∃ batch anchor outbound inbound calls,
    decodeCanonicalPostBatch sampleExternals sampleSubmission.input.submittedPostBatchCalldata = .ok ⟨batch⟩ ∧
    batch.entries = anchor :: (outbound ++ inbound) ∧
    Conserves sampleExternals sampleSubmission.input anchor outbound inbound calls := by
  obtain ⟨_, accepted⟩ := sampleSubmission.run_ok
  exact runSettlement_conserves accepted

end Eez.Signer
