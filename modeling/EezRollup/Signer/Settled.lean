import EezRollup.Signer.DaGate
import EezRollup.Signer.Gates

/-! When every gate passes, the local facts they check combine into one record. Later results read
it instead of the gates. -/
open List
namespace Eez.Signer
open BoundEffect
open Octets Outcome Codec

section
variable {keccak : Bytes → B256} {r : NonZeroU64} {systemAddress : Address} {chain : VerifiedRollupUpdateChain}
  {checkpoints : List StateCheckpoint} {flags : List Bool} {outs ins : List BoundEffect}
  {events : List OutboundEventObservation}

theorem Bound.ordered {effects} (bound : Bound keccak chain checkpoints flags effects) :
    effects.Pairwise fun a b => a.transactionIndex < b.transactionIndex := by
  have sorted := pairEndPositions_sorted flags
  rw [← bound.positions] at sorted
  exact pairwise_map.mp sorted

theorem Bound.effect_at {effects} (bound : Bound keccak chain checkpoints flags effects) {i}
    (h : i ∈ pairEndPositions flags) :
    ∃ e ∈ effects, e.transactionIndex = i ∧ e.kind = observedKind flags i := by
  rw [← bound.positions] at h
  obtain ⟨e, he, rfl⟩ := mem_map.mp h
  exact ⟨e, he, rfl, bound.kinds e he⟩

theorem observedKind_of_getElem? {i : Nat} {b} (h : flags[i]? = some b) :
    observedKind flags i = if b then .inbound else .outbound := by
  rw [observedKind, getD_eq_getElem?_getD, h]
  rfl

section
variable (calls : CallsMatch keccak r systemAddress flags (outs ++ ins) outs ins events)
include calls

theorem CallsMatch.mem_outs {e} (he : e ∈ outs ++ ins) (kind : e.kind = .outbound) : e ∈ outs := by
  rcases mem_append.mp he with he | he
  · exact he
  · rw [calls.inbound e he] at kind
    cases kind

theorem CallsMatch.mem_ins {e} (he : e ∈ outs ++ ins) (kind : e.kind = .inbound) : e ∈ ins := by
  rcases mem_append.mp he with he | he
  · rw [calls.outbound e he] at kind
    cases kind
  · exact he

end

section
variable (bound : Bound keccak chain checkpoints flags (outs ++ ins))
    (calls : CallsMatch keccak r systemAddress flags (outs ++ ins) outs ins events)
include bound calls

theorem usersPreceded_of_calls : UsersPreceded flags := by
  intro i user
  obtain ⟨e, he, rfl, kind⟩ := bound.effect_at (mem_pairEndPositions.mpr (.inl user))
  rw [observedKind_of_getElem? user] at kind
  have load := calls.preceded e (calls.mem_outs he kind)
  exact ⟨_, precedingSystemPosition_eq_some.mp load⟩

theorem usersLead_of_calls : UsersLead flags := by
  intro i j hij system standalone user
  obtain ⟨a, ha, rfl, inbound⟩ := bound.effect_at (mem_pairEndPositions.mpr (.inr ⟨system, standalone⟩))
  obtain ⟨b, hb, rfl, outbound⟩ := bound.effect_at (mem_pairEndPositions.mpr (.inl user))
  rw [observedKind_of_getElem? system] at inbound
  rw [observedKind_of_getElem? user] at outbound
  -- outbound effects precede inbound ones in the list, and the list is in block order
  have before := (pairwise_append.mp bound.ordered).2.2 b (calls.mem_outs hb outbound) a
    (calls.mem_ins ha inbound)
  omega

end

theorem observedKind_userPositions (k m : Nat) :
    (userPositions k).map (observedKind (framedFlags k m)) = replicate k .outbound := by
  refine eq_replicate_iff.mpr ⟨by rw [length_map, userPositions_length], ?_⟩
  intro kind h
  obtain ⟨i, hi, rfl⟩ := mem_map.mp h
  obtain ⟨j, hj, rfl⟩ := mem_map.mp hi
  have inside := mem_range.mp hj
  have odd : (2 * j + 1) % 2 = 1 := by omega
  rw [observedKind_of_getElem? (b := false) (by rw [framedFlags_getElem?, if_pos (by omega), odd]; rfl)]
  rfl

theorem observedKind_deliveryPositions (k m : Nat) :
    (deliveryPositions k m).map (observedKind (framedFlags k m)) = replicate m .inbound := by
  refine eq_replicate_iff.mpr ⟨by rw [length_map, deliveryPositions_length], ?_⟩
  intro kind h
  obtain ⟨i, hi, rfl⟩ := mem_map.mp h
  obtain ⟨j, hj, rfl⟩ := mem_map.mp hi
  have inside := mem_range.mp hj
  rw [observedKind_of_getElem? (b := true)
    (by rw [framedFlags_getElem?, if_neg (by omega), if_pos (by omega)])]
  rfl

theorem replicate_append_inj {α : Type} {a : α} {b} (ne : a ≠ b) {k m k' m' : Nat}
    (h : replicate k a ++ replicate m b = replicate k' a ++ replicate m' b) :
    k = k' ∧ m = m' := by
  classical
  have counts := congrArg (List.count a) h
  have counts' := congrArg (List.count b) h
  simp only [count_append, count_replicate_self, count_replicate, beq_iff_eq, ne, ne.symm, if_false,
    Nat.add_zero, Nat.zero_add] at counts counts'
  exact ⟨counts, counts'⟩

section
variable (bound : Bound keccak chain checkpoints flags (outs ++ ins))
    (calls : CallsMatch keccak r systemAddress flags (outs ++ ins) outs ins events)
include bound calls

theorem framedFlags_of_calls : flags = framedFlags outs.length ins.length := by
  obtain ⟨k, m, hflags⟩ := framedFlags_of_framing flags (usersPreceded_of_calls bound calls)
    (usersLead_of_calls bound calls)
  have kinds : (outs ++ ins).map kind = (pairEndPositions flags).map (observedKind flags) := by
    rw [← bound.positions, map_map]
    exact map_congr_left bound.kinds
  have outKinds : outs.map kind = replicate outs.length .outbound :=
    eq_replicate_iff.mpr ⟨length_map _, by simpa using calls.outbound⟩
  have inKinds : ins.map kind = replicate ins.length .inbound :=
    eq_replicate_iff.mpr ⟨length_map _, by simpa using calls.inbound⟩
  rw [map_append, outKinds, inKinds, hflags, pairEndPositions_framedFlags, map_append,
    observedKind_userPositions, observedKind_deliveryPositions] at kinds
  obtain ⟨rfl, rfl⟩ := replicate_append_inj (by decide) kinds
  exact hflags

theorem positions_of_calls : outs.map transactionIndex = userPositions outs.length ∧
      ins.map transactionIndex = deliveryPositions outs.length ins.length := by
  have positions := bound.positions
  rw [framedFlags_of_calls bound calls, pairEndPositions_framedFlags, map_append] at positions
  exact append_inj positions (by rw [length_map, userPositions_length])

end

theorem filter_isInbound_of_calls (calls : CallsMatch keccak r systemAddress flags (outs ++ ins) outs ins events) :
    (outs ++ ins).filter isInbound = ins := by
  rw [filter_append, filter_eq_nil_iff.mpr, nil_append, filter_eq_self.mpr]
  · intro e he
    simp [isInbound, calls.inbound e he]
  · intro e he
    simp [isInbound, calls.outbound e he]

end

theorem layout_of_positions {keccak} {block : ValidatedBlock} {outs ins : List BoundEffect}
    {deliveries : List AuthorizedInboundEffect}
    (length : block.decoded.transactions.length = 2 * outs.length + ins.length)
    (users : outs.map transactionIndex = userPositions outs.length)
    (delivered : deliveries.map AuthorizedInboundEffect.transactionIndex = deliveryPositions outs.length ins.length) :
    ∃ pairs rest, pairs.length = outs.length ∧ rest.length = ins.length ∧
      Layout block pairs rest (outs.map (authorized keccak)) deliveries := by
  obtain ⟨pairs, rest, hpairs, hrest, hframed⟩ := exists_framedList outs.length block.decoded.encodedTransactions
    ins.length (by rw [Block.encodedTransactions, length_map, length])
  refine ⟨pairs, rest, hpairs, hrest, hframed, ?_, ?_, ?_⟩
  · have loads := congrArg (List.map fun i => i - 1) users
    rw [map_map, userPositions, map_map] at loads
    rw [map_map, hpairs]
    refine loads.trans (map_congr_left fun k _ => ?_)
    simp only [Function.comp_apply]
    omega
  · have positions := framedList_users pairs rest
    rw [hpairs, ← users, forall₂_map_left_iff, ← hframed] at positions
    rw [forall₂_map_left_iff]
    exact positions
  · rw [delivered, deliveryPositions, hpairs, hrest, range'_eq_map_range, Nat.zero_add]

/-- What both authorizations together leave: the calls, then the deliveries, where the
last gate expects them. -/
theorem exists_layout {keccak r systemAddress chain checkpoints} {block : ValidatedBlock}
    {effects candidates deliveries bindings} (bound : Bound keccak chain checkpoints block.flags effects)
    (inbound : authorizeInboundEffects keccak r effects candidates = .ok deliveries)
    (outbound : authorizeOutboundEffects keccak r systemAddress block.flags effects block.events = .ok bindings) :
    ∃ outs ins pairs rest, effects = outs ++ ins ∧ bindings = outs.map (authorized keccak) ∧
      candidates = deliveries.map AuthorizedInboundEffect.candidate ∧
      CallsMatch keccak r systemAddress block.flags (outs ++ ins) outs ins block.events ∧
      Forall₂ (fun e b => b.transactionIndex = e.transactionIndex ∧
        SettlesDelivery keccak r e.claim b.observation) ins deliveries ∧
      pairs.length = outs.length ∧ rest.length = ins.length ∧
      Layout block pairs rest (outs.map (authorized keccak)) deliveries := by
  obtain ⟨outs, ins, calls, _, rfl⟩ := authorizeOutboundLoop_sound _ _ _ outbound
  obtain rfl := calls.split
  obtain ⟨read, delivered⟩ := authorizeInboundEffects_sound _ _ inbound
  rw [DeliveriesMatch, filter_isInbound_of_calls calls] at delivered
  obtain ⟨users, inPositions⟩ := positions_of_calls bound calls
  have length : block.decoded.transactions.length = 2 * outs.length + ins.length := by
    have flags := congrArg List.length (framedFlags_of_calls bound calls)
    rw [framedFlags_length] at flags
    exact block.flags_length.symm.trans flags
  have positions : deliveries.map AuthorizedInboundEffect.transactionIndex =
      deliveryPositions outs.length ins.length := by
    rw [← inPositions]
    exact map_eq_map_of_forall₂ (delivered.flip.imp fun _ _ h => h.1)
  obtain ⟨pairs, rest, hpairs, hrest, layout⟩ := layout_of_positions length users positions
  exact ⟨outs, ins, pairs, rest, rfl, rfl, read, calls, delivered, hpairs, hrest, layout⟩

section
variable {ext : Externals} {r : NonZeroU64} {ts : List InspectedTransaction} {deliveries : List AuthorizedInboundEffect}
  (read : candidatesFrom ext r 0 ts = deliveries.map AuthorizedInboundEffect.candidate)
include read

theorem inspected_of_candidates {b} (h : b ∈ deliveries) :
    ∃ t, ts[b.transactionIndex]? = some t ∧ isInboundCandidate t.isSystemSender t.tx = true ∧
      inspectInboundCandidate ext t.tx.value t.tx.input t.succeeded r = .ok b.observation := by
  have member : b.candidate ∈ candidatesFrom ext r 0 ts := by
    rw [read]
    exact mem_map_of_mem h
  obtain ⟨⟨t, i⟩, hmem, hread⟩ := mem_filterMap.mp member
  have located := mem_zipIdx_iff_getElem?.mp hmem
  simp only at hread
  split at hread
  · rename_i candidate
    obtain ⟨rfl, inspection⟩ := InboundCandidate.mk.inj (Option.some.inj hread)
    exact ⟨t, located, candidate, inspection⟩
  · cases hread

theorem incoming_of_candidates : ∃ incoming : List IncomingEntry,
    (deliveries.map fun b => b.observation.derivedDaEntry.abiEntry) = incoming.map (sidecarEntry ext.keccak256) ∧
      ∀ i ∈ incoming, IncomingFor ext.keccak256 r i := by
  have each : ∀ b ∈ deliveries, ∃ i, IncomingFor ext.keccak256 r i ∧
      b.observation.derivedDaEntry.abiEntry = sidecarEntry ext.keccak256 i := by
    intro b hb
    obtain ⟨t, _, _, inspection⟩ := inspected_of_candidates read hb
    obtain ⟨_, i, hi, _, _, _, observes⟩ := inspectInboundCandidate_eq_ok.mp inspection
    exact ⟨i, hi, observes.sidecar⟩
  clear read
  induction deliveries with
  | nil => exact ⟨[], rfl, by simp⟩
  | cons b deliveries ih =>
    obtain ⟨first, rest⟩ := forall_mem_cons.mp each
    obtain ⟨i, hi, same⟩ := first
    obtain ⟨incoming, others, allIncoming⟩ := ih rest
    exact ⟨i :: incoming, by rw [map_cons, map_cons, same, others], forall_mem_cons.mpr ⟨hi, allIncoming⟩⟩

end

/-- Everything an accepted settlement has established. -/
structure Settled (ext : Externals) (input : SettlementInput) where
  batch : EvmBatch
  chain : VerifiedRollupUpdateChain
  outs : List BoundEffect
  ins : List BoundEffect
  deliveries : List AuthorizedInboundEffect
  pairs : List (Bytes × Bytes)
  rest : List Bytes
  container : DecodedContainer
  entries : List ExecutionEntrySol
  outActions : List Action
  inActions : List Action
  decoded : decodeCanonicalPostBatch ext input.submittedPostBatchCalldata = .ok ⟨batch⟩
  rollup : chain.expectedRollup = input.expectedRollupId
  claimed : batch.entries = (chain.leading :: chain.trailing).map VerifiedRollupUpdateEntry.claimedEntry
  updated : ∀ v ∈ chain.leading :: chain.trailing, v.claimedUpdate.rollupId = input.expectedRollupId
  chained : Chained input.validatedWindow.windowPreBlockHash (chain.leading :: chain.trailing)
    input.validatedWindow.windowPostBlockHash
  regular : ∀ t ∈ input.validatedWindow.settlingBlock.inspected, t.Regular
  candidates : candidatesFrom ext input.expectedRollupId 0 input.validatedWindow.settlingBlock.inspected =
    deliveries.map AuthorizedInboundEffect.candidate
  plain : ∀ block ∈ input.validatedWindow.precedingBlocks, firstPrivileged block = none ∧ block.events = []
  bound : Bound ext.keccak256 chain input.validatedWindow.settlingBlock.transactionStateCheckpoints
    input.validatedWindow.settlingBlock.flags (outs ++ ins)
  calls : CallsMatch ext.keccak256 input.expectedRollupId input.expectedL2SystemAddress
    input.validatedWindow.settlingBlock.flags (outs ++ ins) outs ins input.validatedWindow.settlingBlock.events
  delivered : Forall₂ (fun e b => b.transactionIndex = e.transactionIndex ∧
    SettlesDelivery ext.keccak256 input.expectedRollupId e.claim b.observation) ins deliveries
  pairs_length : pairs.length = outs.length
  rest_length : rest.length = ins.length
  layout : Layout input.validatedWindow.settlingBlock pairs rest (outs.map (authorized ext.keccak256))
    deliveries
  payload : decodeContainer batch.callData = .ok container
  published : Published ext.keccak256 (systemTransactionReconstructor input.l2ChainId input.expectedRollupId)
    input.expectedRollupId input.validatedWindow.precedingBlocks input.validatedWindow.settlingBlock pairs
    (outs.map (authorized ext.keccak256)) deliveries container entries outActions inActions

theorem runSettlement_settled {ext input hash} (h : runSettlement ext input = .ok hash) :
    Nonempty (Settled ext input) := by
  simp only [runSettlement, bind_eq_ok, ensure_eq_ok, exists_const, mapError_eq_ok] at h
  obtain ⟨_, ⟨batch⟩, decoded, _, _, chain, hchain, observations, hobservations, _, hplain, effects, hbound,
    deliveries, hinbound, bindings, houtbound, _, _, hda, _⟩ := h
  obtain ⟨rollup, claimed, updated, chained⟩ := verifyStateUpdateChain_eq_ok.mp hchain
  simp only [inspectValidatedSettlingBlock, bind_eq_ok, inspectTransactions_eq_ok, pure_eq_ok] at hobservations
  obtain ⟨candidates, ⟨regular, hcandidates⟩, rfl⟩ := hobservations
  have bound := bindEffectsToExecution_eq_ok.mp hbound
  obtain ⟨outs, ins, pairs, rest, rfl, rfl, read, calls, delivered, hpairs, hrest, layout⟩ :=
    exists_layout bound hinbound houtbound
  obtain ⟨container, entries, outActions, inActions, payload, published⟩ :=
    (verifyEncodedDaPayload_eq_ok layout).mp hda
  exact ⟨{
    batch, chain, outs, ins, deliveries, pairs, rest, container, entries, outActions, inActions, decoded, rollup,
    claimed, updated, chained, regular, bound, calls, delivered, layout, payload, published
    candidates := hcandidates.symm.trans read
    plain := verifyValidatedIntermediateBlocks_eq_ok.mp hplain
    pairs_length := hpairs
    rest_length := hrest }⟩

namespace Settled
variable {ext : Externals} {input : SettlementInput} (s : Settled ext input)

def anchor : ExecutionEntrySol := s.chain.leading.claimedEntry

def outbound : List ExecutionEntrySol := s.outs.map claimedEntry

def inbound : List ExecutionEntrySol := s.ins.map claimedEntry

theorem entries_eq : s.batch.entries = s.anchor :: (s.outbound ++ s.inbound) := by
  rw [s.claimed, ← s.bound.claims, map_cons, map_map, map_append]
  rfl

theorem flags_eq : input.validatedWindow.settlingBlock.flags = framedFlags s.outs.length s.ins.length :=
  framedFlags_of_calls s.bound s.calls

theorem positions : s.outs.map transactionIndex = userPositions s.outs.length ∧
    s.ins.map transactionIndex = deliveryPositions s.outs.length s.ins.length :=
  positions_of_calls s.bound s.calls

variable {e : BoundEffect}

theorem outs_position {i : Nat} (h : s.outs[i]? = some e) : e.transactionIndex = 2 * i + 1 := by
  have position := congrArg (fun l => l[i]?) s.positions.1
  obtain ⟨inside, rfl⟩ := List.getElem?_eq_some_iff.mp h
  simpa [userPositions, inside] using position

theorem ins_position {j : Nat} (h : s.ins[j]? = some e) : e.transactionIndex = 2 * s.outs.length + j := by
  have position := congrArg (fun l => l[j]?) s.positions.2
  obtain ⟨inside, rfl⟩ := List.getElem?_eq_some_iff.mp h
  simpa [deliveryPositions, inside] using position

theorem inspected_of_delivery {b} (h : b ∈ s.deliveries) :
    ∃ t, input.validatedWindow.settlingBlock.inspected[b.transactionIndex]? = some t ∧
      isInboundCandidate t.isSystemSender t.tx = true ∧
      inspectInboundCandidate ext t.tx.value t.tx.input t.succeeded input.expectedRollupId = .ok b.observation :=
  inspected_of_candidates s.candidates h

def users : List Bytes := s.pairs.map Prod.snd

def sidecars : List ExecutionEntrySol := s.deliveries.map fun b => b.observation.derivedDaEntry.abiEntry

theorem entries_length : s.entries.length = s.outs.length := by
  rw [← s.published.actions.completes.length_eq, length_map]

theorem users_length : s.users.length = s.outs.length := by
  rw [users, length_map, s.pairs_length]

theorem sidecars_length : s.sidecars.length = s.ins.length := by
  rw [sidecars, length_map, s.delivered.length_eq]

theorem batch_length : s.batch.entries.length = s.outs.length + s.ins.length + 1 := by
  simp [s.entries_eq, outbound, inbound]

theorem admits (h : e ∈ s.outs ++ s.ins) : e.kind.claimedShape.Admits e.claimedEntry := by
  rw [← s.bound.shapes e h]
  exact classifyClaimedEntry_admits _ _ _ _

theorem admits_out (h : e ∈ s.outs) : ClaimedEntryShape.outbound.Admits e.claimedEntry := by
  have shape := s.admits (mem_append_left s.ins h)
  rwa [s.calls.outbound e h] at shape

theorem admits_in (h : e ∈ s.ins) : ClaimedEntryShape.inbound.Admits e.claimedEntry := by
  have shape := s.admits (mem_append_right s.outs h)
  rwa [s.calls.inbound e h] at shape

theorem entries_outward {entry} (h : entry ∈ s.entries) :
    entry.proxyEntryHash = 0 ∧ ∃ call, entry.l2ToL1Calls = [call] := by
  obtain ⟨effect, heffect, completes⟩ := forall₂_exists_right s.published.actions.completes.flip entry h
  obtain ⟨e, he, rfl⟩ := mem_map.mp heffect
  rw [completes.derived]
  exact s.admits_out he

theorem sidecars_incoming : ∃ incoming : List IncomingEntry, s.sidecars = incoming.map (sidecarEntry ext.keccak256) ∧
      ∀ i ∈ incoming, IncomingFor ext.keccak256 input.expectedRollupId i :=
  incoming_of_candidates s.candidates

end Settled

end Eez.Signer
