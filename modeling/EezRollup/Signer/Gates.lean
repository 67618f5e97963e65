import EezRollup.Signer.Framing
import EezRollup.Signer.SettlementJob

/-! One specification per gate, as an equivalence wherever the converse is needed to show that
honest submissions pass. -/
namespace Eez.Signer
open List Octets Outcome Codec BoundEffect

/-- Each update starts where the previous one ended. -/
def Chained : B256 → List VerifiedRollupUpdateEntry → B256 → Prop
  | previous, [], final => previous = final
  | previous, v :: vs, final =>
    v.claimedUpdate.currentRoot = previous ∧ Chained v.claimedUpdate.newRoot vs final

variable {i : Nat} {r : UInt64} {keccak : Bytes → B256}

theorem soleUpdate_eq_ok : soleUpdate entry i = .ok v ↔ v.claimedEntry = entry := by
  obtain ⟨claimed, update, sole⟩ := v
  constructor
  · intro h
    unfold soleUpdate at h
    split at h
    · cases h; rfl
    · cases h
  · rintro rfl
    unfold soleUpdate
    split
    · rename_i update' sole'
      simp only at sole'
      obtain rfl := singleton_inj.mp (sole.symm.trans sole')
      rfl
    · rename_i none
      exact absurd sole (none update)

theorem verifyTrailing_eq_ok : verifyTrailing r i previous entries = .ok (vs, final) ↔
      vs.map VerifiedRollupUpdateEntry.claimedEntry = entries ∧
      (∀ v ∈ vs, v.claimedUpdate.rollupId = r) ∧ Chained previous vs final := by
  induction entries generalizing i previous vs with
  | nil =>
    simp only [verifyTrailing, Except.ok.injEq, Prod.mk.injEq]
    constructor
    · rintro ⟨rfl, rfl⟩
      exact ⟨rfl, by simp, rfl⟩
    · rintro ⟨hmap, _, chained⟩
      obtain rfl := map_eq_nil_iff.mp hmap
      exact ⟨rfl, chained⟩
  | cons entry entries ih =>
    simp only [verifyTrailing, bind_eq_ok, soleUpdate_eq_ok, ensure_eq_ok, Prod.exists, pure_eq_ok, Prod.mk.injEq,
      exists_const]
    constructor
    · rintro ⟨v, rfl, hid, hroot, rest, last, hrest, rfl, rfl⟩
      obtain ⟨rfl, ids, chained⟩ := ih.mp hrest
      exact ⟨rfl, by simpa [hid] using ids, hroot, chained⟩
    · rintro ⟨hmap, ids, chained⟩
      obtain ⟨v, rest, rfl, rfl, rfl⟩ := map_eq_cons_iff.mp hmap
      refine ⟨v, rfl, ids v mem_cons_self, chained.1, rest, final, ih.mpr ?_, rfl, rfl⟩
      exact ⟨rfl, fun v hv => ids v (mem_cons_of_mem _ hv), chained.2⟩

theorem verifyStateUpdateChain_eq_ok {batch r pre post chain} : verifyStateUpdateChain batch r pre post = .ok chain ↔
      chain.expectedRollup = r ∧
      batch.batch.entries = (chain.leading :: chain.trailing).map VerifiedRollupUpdateEntry.claimedEntry ∧
      (∀ v ∈ chain.leading :: chain.trailing, v.claimedUpdate.rollupId = r) ∧
      Chained pre (chain.leading :: chain.trailing) post := by
  obtain ⟨rollup, leading, trailing⟩ := chain
  unfold verifyStateUpdateChain
  cases batch.batch.entries with
  | nil => simp
  | cons entry entries =>
    simp only [bind_eq_ok, soleUpdate_eq_ok, ensure_eq_ok, Prod.exists, verifyTrailing_eq_ok, pure_eq_ok,
      exists_const, VerifiedRollupUpdateChain.mk.injEq, map_cons, List.cons.injEq, Chained,
      forall_mem_cons]
    constructor
    · rintro ⟨v, rfl, hid, hroot, vs, last, ⟨hmap, ids, chained⟩, rfl, rfl, rfl, rfl⟩
      exact ⟨rfl, ⟨rfl, hmap.symm⟩, ⟨hid, fun v hv => (ids v hv).trans hid⟩, hroot, chained⟩
    · rintro ⟨rfl, ⟨rfl, rfl⟩, ⟨hid, ids⟩, hroot, chained⟩
      exact ⟨leading, rfl, hid, hroot, trailing, post, ⟨rfl, fun v hv => (ids v hv).trans hid.symm, chained⟩, rfl,
        rfl, rfl, rfl⟩

theorem checkDestinations_eq_ok : checkDestinations r i entries = .ok u ↔ ∀ e ∈ entries, e.destinationRollupId = r := by
  induction entries generalizing i with
  | nil => simp [checkDestinations]
  | cons entry entries ih => simp only [checkDestinations, bind_eq_ok, ensure_eq_ok, exists_const, ih, forall_mem_cons]

/-- A batch of one proof system and one rollup in the supported profile has one
public-inputs hash. -/
theorem recomputePublicInputsHash_eq_ok {batch : EvmBatch} {vkey : NonZeroProofSystemVkey}
    {proofSystem : Address} {r : NonZeroU64} (nonzero : proofSystem ≠ 0) (systems : batch.proofSystems = [proofSystem])
    (rollups : batch.rollupIdsWithProofSystems = [⟨r, [0]⟩]) (sender : batch.bindMsgSenderInPublicInput = false)
    (block : batch.blockNumber = 0) (blobs : batch.blobIndices = []) :
    ∃ hash, recomputePublicInputsHash keccak batch vkey = .ok hash := by
  have plan : (batchPlan batch vkey).checkInvariants = .ok () := by
    have systemNonzero : proofSystem ≠ 0#160 := nonzero
    have rollupNonzero : r.1 ≠ 0 := r.2
    simp [batchPlan, ProofPlan.checkInvariants, systems, rollups, checkIncreasing, checkAssignments, checkIndexBounds,
      ensure, systemNonzero, rollupNonzero]
  obtain ⟨shared, hshared⟩ : ∃ shared, batchSharedPublicInput keccak batch 0 = .ok shared := by
    simp [batchSharedPublicInput, ensure, block, blobs, pure, Except.pure]
  have hashes : perPsHashes keccak (batchPlan batch vkey) shared =
      [perPsPublicInputsHash keccak shared (batchPlan batch vkey) 0] := by
    simp [perPsHashes, batchPlan, systems]
  refine ⟨perPsPublicInputsHash keccak shared (batchPlan batch vkey) 0, ?_⟩
  simp only [recomputePublicInputsHash, publicInputsHashes, sender, ensure_pos, hshared, plan, ok_bind, hashes,
    Except.mapError]
  rfl

theorem classifyTrailing_eq_ok : classifyTrailing keccak r i vs = .ok cs ↔
      cs.map ClaimedEffect.claim = vs ∧ cs.map ClaimedEffect.entryIndex = List.range' i vs.length ∧
      ∀ c ∈ cs, classifyClaimedEntry keccak c.claim.claimedEntry c.claim.claimedUpdate r = c.kind.claimedShape := by
  induction vs generalizing i cs with
  | nil =>
    simp only [classifyTrailing, Except.ok.injEq]
    constructor
    · rintro rfl
      simp
    · rintro ⟨hmap, _⟩
      exact (map_eq_nil_iff.mp hmap).symm
  | cons v vs ih =>
    have shape : classifyTrailing keccak r i (v :: vs) = .ok cs ↔
        ∃ kind rest, classifyClaimedEntry keccak v.claimedEntry v.claimedUpdate r = kind.claimedShape ∧
          classifyTrailing keccak r (i + 1) vs = .ok rest ∧ cs = ⟨i, kind, v⟩ :: rest := by
      rw [classifyTrailing]
      constructor
      · intro h
        split at h
        · cases h
        · cases h
        · simp only [bind_eq_ok, pure_eq_ok] at h
          obtain ⟨rest, hrest, rfl⟩ := h
          exact ⟨.outbound, rest, ‹_›, hrest, rfl⟩
        · simp only [bind_eq_ok, pure_eq_ok] at h
          obtain ⟨rest, hrest, rfl⟩ := h
          exact ⟨.inbound, rest, ‹_›, hrest, rfl⟩
      · rintro ⟨kind, rest, hkind, hrest, rfl⟩
        rw [hkind]
        cases kind <;> simp [EffectKind.claimedShape, hrest]
    rw [shape]
    constructor
    · rintro ⟨kind, rest, hkind, hrest, rfl⟩
      obtain ⟨rfl, hindex, kinds⟩ := ih.mp hrest
      refine ⟨rfl, ?_, ?_⟩
      · simp [hindex, range'_succ]
      · simpa using ⟨hkind, kinds⟩
    · rintro ⟨hmap, hindex, kinds⟩
      obtain ⟨c, rest, rfl, rfl, rfl⟩ := map_eq_cons_iff.mp hmap
      simp only [map_cons, length_cons, range'_succ, List.cons.injEq] at hindex
      obtain ⟨rfl, hindex⟩ := hindex
      refine ⟨c.kind, rest, kinds c mem_cons_self, ih.mpr ⟨rfl, hindex, ?_⟩, rfl⟩
      exact fun c hc => kinds c (mem_cons_of_mem _ hc)

def BoundEffect.unplaced (e : BoundEffect) : ClaimedEffect := ⟨e.entryIndex, e.kind, e.claim⟩

theorem bindEffects_eq_ok {cs : List ClaimedEffect} {ps : List Nat} {ss : List StateCheckpoint}
    (hc : cs.length = ps.length) (hs : ss.length = ps.length) :
    bindEffects flags k cs ps ss = .ok es ↔ es.map unplaced = cs ∧ es.map transactionIndex = ps ∧
      (∀ e ∈ es, e.kind = observedKind flags e.transactionIndex) ∧
      ss.map StateCheckpoint.position = ps.map CheckpointAt.transaction ∧
      ss.map StateCheckpoint.blockHash = es.map fun e => e.claimedStateUpdate.newRoot := by
  induction ps generalizing k cs ss es with
  | nil =>
    obtain rfl := length_eq_zero_iff.mp hc
    obtain rfl := length_eq_zero_iff.mp hs
    simp only [bindEffects, Except.ok.injEq]
    constructor
    · rintro rfl
      simp
    · rintro ⟨hmap, _⟩
      exact (map_eq_nil_iff.mp hmap).symm
  | cons p ps ih =>
    obtain ⟨c, cs, rfl⟩ := exists_cons_of_length_eq_add_one hc
    obtain ⟨checkpoint, ss, rfl⟩ := exists_cons_of_length_eq_add_one hs
    simp only [length_cons, Nat.add_right_cancel_iff] at hc hs
    simp only [bindEffects, bind_eq_ok, ensure_eq_ok, pure_eq_ok, exists_const, ih hc hs]
    constructor
    · rintro ⟨hkind, hposition, hroot, es, ⟨rfl, rfl, kinds, positions, roots⟩, rfl⟩
      refine ⟨rfl, rfl, ?_, ?_, ?_⟩
      · simpa using ⟨hkind, kinds⟩
      · rw [map_cons, map_cons, hposition, positions]
      · simpa [claimedStateUpdate] using ⟨hroot.symm, roots⟩
    · rintro ⟨hmap, hindex, kinds, positions, roots⟩
      obtain ⟨e, es, rfl, rfl, rfl⟩ := map_eq_cons_iff.mp hmap
      simp only [map_cons, List.cons.injEq, forall_mem_cons] at hindex kinds positions roots
      obtain ⟨rfl, rfl⟩ := hindex
      exact ⟨kinds.1, positions.1, roots.1.symm, es, ⟨rfl, rfl, kinds.2, positions.2, roots.2⟩, rfl⟩

/-- Claimed effects with the positions and checkpoints they are bound to. -/
structure Bound (keccak : Bytes → B256) (chain : VerifiedRollupUpdateChain) (checkpoints : List StateCheckpoint)
    (flags : List Bool) (effects : List BoundEffect) : Prop where
  anchor : classifyClaimedEntry keccak chain.leading.claimedEntry chain.leading.claimedUpdate
    chain.expectedRollup = .anchor
  anchorDelta : chain.leading.claimedUpdate.etherDelta = 0
  claims : effects.map claim = chain.trailing
  entryIndexes : effects.map entryIndex = List.range' 1 effects.length
  positions : effects.map transactionIndex = pairEndPositions flags
  kinds : ∀ e ∈ effects, e.kind = observedKind flags e.transactionIndex
  shapes : ∀ e ∈ effects, classifyClaimedEntry keccak e.claimedEntry e.claimedStateUpdate chain.expectedRollup =
    e.kind.claimedShape
  checkpointPositions : checkpoints.map StateCheckpoint.position =
    .preExecution :: (pairEndPositions flags).map .transaction
  checkpointHashes : checkpoints.map StateCheckpoint.blockHash =
    (chain.leading :: chain.trailing).map fun v => v.claimedUpdate.newRoot

theorem bindEffectsToExecution_eq_ok : bindEffectsToExecution keccak chain checkpoints observations = .ok effects ↔
      Bound keccak chain checkpoints observations.systemSenderFlags effects := by
  simp only [bindEffectsToExecution, bind_eq_ok, ensure_eq_ok, exists_const, classifyTrailing_eq_ok]
  constructor
  · rintro ⟨anchor, cs, ⟨claims, indexes, shapes⟩, count, delta, checkpointCount, bound⟩
    cases checkpoints with
    | nil => simp at checkpointCount
    | cons first rest =>
      simp only [length_cons, Nat.add_right_cancel_iff] at checkpointCount
      simp only [bind_eq_ok, ensure_eq_ok, exists_const] at bound
      obtain ⟨first_position, first_root, bound⟩ := bound
      obtain ⟨rfl, positions, kinds, checkpointPositions, roots⟩ :=
        (bindEffects_eq_ok count checkpointCount).mp bound
      have trailing : effects.map claim = chain.trailing := by
        rw [← claims, map_map]
        rfl
      refine ⟨anchor, delta, trailing, ?_, positions, kinds, ?_, ?_, ?_⟩
      · rw [← trailing, map_map, length_map] at indexes
        exact indexes
      · intro e he
        exact shapes e.unplaced (mem_map_of_mem he)
      · rw [map_cons, first_position, checkpointPositions]
        rfl
      · rw [map_cons, roots, map_cons, ← first_root, ← trailing, map_map]
        rfl
  · intro bound
    have count : (effects.map unplaced).length = (pairEndPositions observations.systemSenderFlags).length := by
      rw [← bound.positions, length_map, length_map]
    refine ⟨bound.anchor, effects.map unplaced, ⟨?_, ?_, ?_⟩, count, bound.anchorDelta, ?_, ?_⟩
    · rw [map_map]
      exact bound.claims
    · rw [map_map, ← bound.claims, length_map]
      exact bound.entryIndexes
    · intro c hc
      obtain ⟨e, he, rfl⟩ := mem_map.mp hc
      exact bound.shapes e he
    · have lengths := congrArg List.length bound.checkpointPositions
      simp only [length_map, length_cons] at lengths
      exact lengths
    · have checkpointPositions := bound.checkpointPositions
      have checkpointHashes := bound.checkpointHashes
      cases checkpoints with
      | nil => cases checkpointPositions
      | cons first rest =>
        simp only [map_cons, List.cons.injEq] at checkpointPositions checkpointHashes
        simp only [bind_eq_ok, ensure_eq_ok, exists_const]
        refine ⟨checkpointPositions.1, checkpointHashes.1.symm, ?_⟩
        refine (bindEffects_eq_ok count ?_).mpr ⟨rfl, bound.positions, bound.kinds, checkpointPositions.2, ?_⟩
        · have lengths := congrArg List.length checkpointPositions.2
          simpa using lengths
        · rw [checkpointHashes.2, ← bound.claims, map_map]
          rfl

section
variable (keccak : Bytes → B256) (r : NonZeroU64)

/-- A deferred entry that settles an observed delivery. -/
structure SettlesDelivery (v : VerifiedRollupUpdateEntry) (observation : InboundObservation) : Prop where
  destination : v.claimedEntry.destinationRollupId = r
  callHash : v.claimedEntry.proxyEntryHash = observation.recomputedCallHash
  returnData : v.claimedEntry.returnData = observation.returnData
  rollingHash : v.claimedEntry.rollingHash = l1Seed keccak v.claimedEntry
  delta : u256ToI192 observation.value = some v.claimedUpdate.etherDelta

theorem l1Seed_of_sole (v : VerifiedRollupUpdateEntry) :
    l1Seed keccak v.claimedEntry = seedForL1 keccak [(v.claimedUpdate.rollupId, v.claimedUpdate.currentRoot)]
      v.claimedEntry.proxyEntryHash := by
  rw [l1Seed, v.sole]
  rfl

theorem authorizeInboundEffect_eq_ok :
    authorizeInboundEffect keccak r effect observation = .ok u ↔ SettlesDelivery keccak r effect.claim observation := by
  simp only [authorizeInboundEffect, bind_eq_ok, ensure_eq_ok, require_eq_ok, exists_const]
  simp only [claimedEntry, claimedStateUpdate, ← l1Seed_of_sole]
  constructor
  · rintro ⟨destination, callHash, returnData, rollingHash, delta, hdelta, rfl⟩
    exact ⟨destination, callHash, returnData, rollingHash, hdelta⟩
  · intro settles
    exact ⟨settles.destination, settles.callHash, settles.returnData, settles.rollingHash, _, settles.delta, rfl⟩

def BoundEffect.isInbound (e : BoundEffect) : Bool := e.kind == .inbound

def AuthorizedInboundEffect.candidate (b : AuthorizedInboundEffect) : InboundCandidate :=
  ⟨b.transactionIndex, .ok b.observation⟩

open AuthorizedInboundEffect

/-- Every candidate is claimed by the inbound effect at its position. -/
def DeliveriesMatch (effects : List BoundEffect) (bindings : List AuthorizedInboundEffect) : Prop :=
  Forall₂ (fun e b => b.transactionIndex = e.transactionIndex ∧
    SettlesDelivery keccak r e.claim b.observation) (effects.filter isInbound) bindings

theorem authorizeInboundEffects_sound (h : authorizeInboundEffects keccak r effects candidates = .ok bindings) :
    candidates = bindings.map candidate ∧ DeliveriesMatch keccak r effects bindings := by
  induction effects generalizing candidates bindings with
  | nil =>
    cases candidates with
    | nil => cases h; exact ⟨rfl, .nil⟩
    | cons c cs => cases h
  | cons e es ih =>
    unfold DeliveriesMatch
    cases kind : e.kind with
    | outbound =>
      rw [filter_cons_of_neg (by simp [isInbound, kind])]
      cases candidates with
      | nil =>
        simp only [authorizeInboundEffects, kind] at h
        exact ih h
      | cons c cs =>
        simp only [authorizeInboundEffects, kind] at h
        split at h
        · cases h
        · exact ih h
    | inbound =>
      rw [filter_cons_of_pos (by simp [isInbound, kind])]
      cases candidates with
      | nil => simp [authorizeInboundEffects, kind] at h
      | cons c cs =>
        simp only [authorizeInboundEffects, kind] at h
        split at h
        · cases h
        · split at h
          · cases h
          · rename_i same
            simp only [bind_eq_ok, mapError_eq_ok, authorizeInboundEffect_eq_ok, exists_const, pure_eq_ok] at h
            obtain ⟨observation, hinspection, settles, bs, hrest, rfl⟩ := h
            obtain ⟨rfl, hmatch⟩ := ih hrest
            refine ⟨?_, .cons ⟨rfl, settles⟩ hmatch⟩
            obtain ⟨position, inspection⟩ := c
            simp only [ne_eq, Decidable.not_not] at same hinspection
            rw [same, hinspection]
            rfl

theorem authorizeInboundEffects_complete {effects : List BoundEffect}
    (ordered : effects.Pairwise fun a b => a.transactionIndex < b.transactionIndex)
    (h : DeliveriesMatch keccak r effects bindings) :
    authorizeInboundEffects keccak r effects (bindings.map candidate) = .ok bindings := by
  induction effects generalizing bindings with
  | nil => cases h; rfl
  | cons e es ih =>
    obtain ⟨later, ordered⟩ := pairwise_cons.mp ordered
    unfold DeliveriesMatch at h
    cases kind : e.kind with
    | outbound =>
      rw [filter_cons_of_neg (by simp [isInbound, kind])] at h
      have rest := ih ordered h
      cases bindings with
      | nil =>
        simp only [map_nil, authorizeInboundEffects, kind]
        exact rest
      | cons b bs =>
        obtain ⟨e', he', hb, _⟩ := forall₂_exists_right h.flip b mem_cons_self
        have after : ¬ b.transactionIndex ≤ e.transactionIndex := by
          rw [hb]
          exact Nat.not_le.mpr (later e' (mem_of_mem_filter he'))
        simp only [map_cons, authorizeInboundEffects, kind, candidate, if_neg after]
        exact rest
    | inbound =>
      rw [filter_cons_of_pos (by simp [isInbound, kind])] at h
      cases h with
      | cons hb hrest =>
        obtain ⟨same, settles⟩ := hb
        have rest := ih ordered hrest
        have authorized := (authorizeInboundEffect_eq_ok keccak r (u := ())).mpr settles
        simp only [map_cons, authorizeInboundEffects, kind, candidate, same,
          lt_irrefl, ne_eq, not_true_eq_false, if_false, Except.mapError, ok_bind, authorized, rest]
        rw [← same]
        rfl

end

section
variable (keccak : Bytes → B256) (r : NonZeroU64) (systemAddress : Address)

/-- An immediate entry that settles an observed call. -/
structure SettlesCall (v : VerifiedRollupUpdateEntry) (call : L2ToL1CallSol) (o : OutboundEventObservation) :
    Prop where
  sole : v.claimedEntry.l2ToL1Calls = [call]
  destination : v.claimedEntry.destinationRollupId = r
  source : call.sourceRollupId = r
  event : o.decodedEvent = some ⟨flatCallHash keccak call, 0⟩
  returnData : v.claimedEntry.returnData = []
  sender : call.sourceAddress ≠ systemAddress
  delta : ∃ released, u256ToI192 call.value = some released ∧ v.claimedUpdate.etherDelta = -released

/-- The L1 rolling hash of an entry whose call has begun but not ended. -/
def pendingHash (entry : ExecutionEntrySol) : B256 :=
  callBegin keccak (l1Seed keccak entry) ((entry.l2ToL1Calls.head?.map (flatCallHash keccak)).getD 0)

theorem authorizeOutboundEffect_eq_ok : authorizeOutboundEffect keccak r systemAddress effect o = .ok pending ↔
      (∃ call, SettlesCall keccak r systemAddress effect.claim call o) ∧
        pending = pendingHash keccak effect.claim.claimedEntry := by
  have sameHash : ∀ call : L2ToL1CallSol, call.sourceRollupId = r →
      outboundCallHash keccak r call 0 = flatCallHash keccak call := by
    intro call source
    rw [flatCallHash, source]
    rfl
  constructor
  · intro h
    simp only [authorizeOutboundEffect] at h
    split at h
    · rename_i call sole
      simp only [bind_eq_ok, ensure_eq_ok, require_eq_ok, exists_const, pure_eq_ok] at h
      obtain ⟨destination, source, ⟨callHash, gas⟩, hevent, rfl, hash, returnData, sender, released, hvalue,
        hdelta, rfl⟩ := h
      simp only at hash
      subst hash
      refine ⟨⟨call, sole, destination, source, ?_, returnData, sender, released, hvalue, hdelta⟩, ?_⟩
      · rw [hevent, sameHash call source]
      · change effect.claim.claimedEntry.l2ToL1Calls = [call] at sole
        rw [pendingHash, sole, l1Seed_of_sole, sameHash call source]
        rfl
    · cases h
  · rintro ⟨⟨call, settles⟩, rfl⟩
    obtain ⟨released, hvalue, hdelta⟩ := settles.delta
    have sole : effect.claimedEntry.l2ToL1Calls = [call] := settles.sole
    simp only [authorizeOutboundEffect, sole, bind_eq_ok, ensure_eq_ok, require_eq_ok, exists_const, pure_eq_ok]
    refine ⟨settles.destination, settles.source, _, settles.event, rfl, (sameHash call settles.source).symm,
      settles.returnData, settles.sender, released, hvalue, hdelta, ?_⟩
    rw [pendingHash, settles.sole, l1Seed_of_sole, sameHash call settles.source]
    rfl

def BoundEffect.authorized (e : BoundEffect) : AuthorizedOutboundEffect where
  loadTransactionIndex := e.transactionIndex - 1
  transactionIndex := e.transactionIndex
  baseDaEntry := { e.claimedEntry with rollupUpdates := [], rollingHash := 0 }
  pendingRollingHash := pendingHash keccak e.claimedEntry
  claimedRollingHash := e.claimedEntry.rollingHash

/-- Outbound effects lead, each after a system transaction and each with the one
event of its position. -/
structure CallsMatch (flags : List Bool) (effects outs ins : List BoundEffect)
    (observations : List OutboundEventObservation) : Prop where
  split : effects = outs ++ ins
  outbound : ∀ e ∈ outs, e.kind = .outbound
  inbound : ∀ e ∈ ins, e.kind = .inbound
  preceded : ∀ e ∈ outs, precedingSystemPosition flags e.transactionIndex = some (e.transactionIndex - 1)
  events : Forall₂ (fun e o => o.transactionIndex = e.transactionIndex ∧
    ∃ call, SettlesCall keccak r systemAddress e.claim call o) outs observations

variable {flags : List Bool} {observations : List OutboundEventObservation}

theorem precedingSystemPosition_eq_some :
    precedingSystemPosition flags i = some load ↔ i = load + 1 ∧ flags[load]? = some true := by
  cases i with
  | zero => simp [precedingSystemPosition]
  | succ j =>
    simp only [precedingSystemPosition]
    split
    · rename_i h
      simp only [Option.some.injEq, Nat.add_right_cancel_iff]
      constructor
      · rintro rfl
        exact ⟨rfl, h⟩
      · exact fun h => h.1
    · rename_i h
      simp only [reduceCtorEq, Nat.add_right_cancel_iff, false_iff, not_and]
      rintro rfl
      exact h

theorem authorizeOutboundLoop_sound
    (h : authorizeOutboundLoop keccak r systemAddress flags saw effects observations = .ok bindings) :
    ∃ outs ins, CallsMatch keccak r systemAddress flags effects outs ins observations ∧
      (saw = true → outs = []) ∧ bindings = outs.map (authorized keccak) := by
  induction effects generalizing saw observations bindings with
  | nil =>
    cases observations with
    | nil => cases h; exact ⟨[], [], ⟨rfl, by simp, by simp, by simp, .nil⟩, fun _ => rfl, rfl⟩
    | cons o os => cases h
  | cons e es ih =>
    -- an inbound effect closes the outbound part
    have inboundCase : e.kind = .inbound →
        authorizeOutboundLoop keccak r systemAddress flags true es observations = .ok bindings →
        ∃ outs ins, CallsMatch keccak r systemAddress flags (e :: es) outs ins observations ∧
          (saw = true → outs = []) ∧ bindings = outs.map (authorized keccak) := by
      intro kind hrest
      obtain ⟨outs, ins, hmatch, none, rfl⟩ := ih hrest
      obtain rfl := none rfl
      refine ⟨[], e :: ins, ⟨?_, by simp, ?_, by simp, hmatch.events⟩, fun _ => rfl, rfl⟩
      · rw [hmatch.split]
        rfl
      · simpa [kind] using hmatch.inbound
    cases kind : e.kind with
    | inbound =>
      cases observations with
      | nil =>
        simp only [authorizeOutboundLoop, kind] at h
        exact inboundCase kind h
      | cons o os =>
        simp only [authorizeOutboundLoop, kind] at h
        split at h
        · cases h
        · exact inboundCase kind h
    | outbound =>
      cases observations with
      | nil => simp [authorizeOutboundLoop, kind] at h
      | cons o os =>
        simp only [authorizeOutboundLoop, kind, bind_eq_ok, ensure_eq_ok, require_eq_ok, exists_const,
          authorizeOutboundEffect_eq_ok, pure_eq_ok] at h
        obtain ⟨_, unseen, load, hload, same, _, _, pending, ⟨settles, rfl⟩, bs, hrest, rfl⟩ := h
        obtain ⟨outs, ins, hmatch, _, rfl⟩ := ih hrest
        obtain ⟨hindex, _⟩ := precedingSystemPosition_eq_some.mp hload
        have hload' : load = e.transactionIndex - 1 := by omega
        subst hload'
        refine ⟨e :: outs, ins, ⟨?_, ?_, hmatch.inbound, ?_, .cons ⟨same, settles⟩ hmatch.events⟩, ?_, rfl⟩
        · rw [hmatch.split]
          rfl
        · simpa [kind] using hmatch.outbound
        · simpa [hload] using hmatch.preceded
        · intro seen
          rw [unseen] at seen
          cases seen

theorem authorizeOutboundLoop_inbound (flags : List Bool) :
    ∀ (saw : Bool) (ins : List BoundEffect), (∀ e ∈ ins, e.kind = .inbound) →
      authorizeOutboundLoop keccak r systemAddress flags saw ins [] = .ok []
  | _, [], _ => rfl
  | _, e :: ins, inbound => by
    simp only [authorizeOutboundLoop, inbound e mem_cons_self]
    exact authorizeOutboundLoop_inbound flags true ins fun e he => inbound e (mem_cons_of_mem _ he)

theorem refuseRepeated_eq_ok {i : Nat} (h : ∀ o ∈ observations, i < o.transactionIndex) :
    refuseRepeated i observations = .ok u := by
  cases observations with
  | nil => rfl
  | cons o os =>
    have later := h o mem_cons_self
    exact ensure_eq_ok.mpr (by omega)

theorem authorizeOutboundEffects_complete {effects : List BoundEffect}
    (ordered : effects.Pairwise fun a b => a.transactionIndex < b.transactionIndex)
    (h : CallsMatch keccak r systemAddress flags effects outs ins observations) :
    authorizeOutboundEffects keccak r systemAddress flags effects observations =
      .ok (outs.map (authorized keccak)) := by
  unfold authorizeOutboundEffects
  induction outs generalizing effects observations with
  | nil =>
    cases h.events
    rw [h.split, nil_append, authorizeOutboundLoop_inbound keccak r systemAddress flags false ins h.inbound]
    rfl
  | cons e outs ih =>
    obtain ⟨split, outbound, inbound, preceded, events⟩ := h
    subst split
    obtain ⟨later, ordered⟩ := pairwise_cons.mp ordered
    cases events with
    | @cons _ o _ os first rest =>
      obtain ⟨same, settles⟩ := first
      have others : ∀ o' ∈ os, e.transactionIndex < o'.transactionIndex := by
        intro o' ho'
        obtain ⟨e', he', hsame, _⟩ := forall₂_exists_right rest.flip o' ho'
        rw [hsame]
        exact later e' (mem_append_left _ he')
      have tail := ih ordered ⟨rfl, fun e he => outbound e (mem_cons_of_mem _ he), inbound,
        fun e he => preceded e (mem_cons_of_mem _ he), rest⟩
      simp only [cons_append, authorizeOutboundLoop, outbound e mem_cons_self, bind_eq_ok, ensure_eq_ok,
        require_eq_ok, exists_const, authorizeOutboundEffect_eq_ok, pure_eq_ok]
      exact ⟨Nat.le_of_eq same.symm, trivial, _, preceded e mem_cons_self, same, (),
        refuseRepeated_eq_ok others, _, ⟨settles, rfl⟩, _, tail, rfl⟩

end

end Eez.Signer
