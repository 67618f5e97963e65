import EezRollup.Signer.Honest

/-! The published payload of an honest settlement describes its window, so the last gate passes as
well. -/
open List
namespace Eez.Signer
open Keccak
open OutboundCall
open Octets Outcome Codec

theorem carriesBlock_spanOf {i : Nat} {block : ValidatedBlock}
    (fits : ∀ b ∈ blocks, b.transactions.length < 2 ^ 32) (h : blocks[i]? = some (block.spanBlock published)) :
    CarriesBlock (spanOf blocks) i block.decoded.header published.length := by
  have small := fits _ (mem_of_getElem? h)
  refine ⟨?_, ?_, ?_⟩
  · simp only [spanOf, getElem?_map, h, Option.map_some]
    rw [UInt32.toNat_ofNat_of_lt' small]
    rfl
  · simp only [spanOf, getElem?_map, h, Option.map_some]
    rfl
  · simp only [spanOf, getElem?_map, h, Option.map_some]
    rfl

namespace HonestSettlement
variable {ext : Externals} (s : HonestSettlement ext)

def spanBlocks : List SpanBlock :=
  (s.window.precedingBlocks.map fun block => block.spanBlock block.decoded.encodedTransactions) ++
    [s.window.settlingBlock.spanBlock (s.outbound.map userTx)]

theorem published_ne_nil : ∀ b ∈ s.spanBlocks, ∀ tx ∈ b.transactions, tx ≠ [] := by
  have wire : ∀ block : Block, ∀ tx ∈ block.encodedTransactions, tx ≠ [] := by
    intro block tx htx
    obtain ⟨envelope, _, rfl⟩ := mem_map.mp htx
    exact envelope.encoded2718_ne_nil
  intro b hb tx htx
  rcases mem_append.mp hb with hb | hb
  · obtain ⟨block, _, rfl⟩ := mem_map.mp hb
    exact wire _ tx htx
  · obtain rfl := mem_singleton.mp hb
    refine wire s.window.settlingBlock.decoded tx ?_
    -- the user transactions are among the block's own
    rw [s.encodedTransactions_eq]
    have users : ((s.loadTxs.map SystemTransaction.encoded2718).zip (s.outbound.map userTx)).map Prod.snd =
        s.outbound.map userTx := map_snd_zip (by simp [loadTxs])
    change tx ∈ s.outbound.map userTx at htx
    rw [← users] at htx
    obtain ⟨pair, hpair, rfl⟩ := mem_map.mp htx
    exact mem_append_left _ (mem_flatMap.mpr ⟨pair, hpair, by simp⟩)

theorem payload_decodes : decodeContainer s.payload = .ok ⟨s.rollup, spanOf s.spanBlocks, s.actions⟩ :=
  decodeContainer_encodeContainer s.payload_encoded s.published_ne_nil

theorem authorized_observations :
    s.authorized.map AuthorizedInboundEffect.observation = s.inbound.map InboundCall.observation := by
  have calls : ((deliveryPositions s.outbound.length s.inbound.length).zip s.inbound).map Prod.snd = s.inbound :=
    map_snd_zip (by simp [deliveryPositions_length])
  rw [authorized, map_map]
  nth_rewrite 3 [← calls]
  rw [map_map]
  rfl

theorem authorized_sidecars : (s.authorized.map fun b => b.observation.derivedDaEntry.abiEntry) =
    s.inbound.map InboundCall.sidecar := by
  have entries := congrArg (List.map fun o : InboundObservation => o.derivedDaEntry.abiEntry) s.authorized_observations
  rw [map_map, map_map] at entries
  refine entries.trans (map_congr_left fun c _ => ?_)
  exact c.sidecar_eq.symm

theorem first_nonce (some_effect : s.outbound.length + s.inbound.length ≠ 0) :
    ∃ first, s.window.settlingBlock.decoded.transactions.head? = some first ∧ first.nonce = s.nonce := by
  obtain ⟨signed, count, htxs⟩ := s.transactions_eq
  cases houtbound : s.outbound with
  | cons c outbound =>
    rw [houtbound, length_cons] at count
    obtain ⟨tx, signed, rfl⟩ := exists_cons_of_length_eq_add_one count
    refine ⟨.system (loadTransaction ext.keccak256 s.context s.nonce c.entry), ?_, rfl⟩
    rw [htxs, loadTxs, houtbound]
    rfl
  | nil =>
    cases hinbound : s.inbound with
    | nil => simp [houtbound, hinbound] at some_effect
    | cons c inbound =>
      refine ⟨.system (deliveryTransaction ext.keccak256 s.context (s.nonce + UInt64.ofNat 0) c.incoming), ?_, ?_⟩
      · rw [htxs, loadTxs, deliveryTxs, incoming, houtbound, hinbound]
        rfl
      · exact UInt64.add_zero s.nonce

section
variable {s} {leading : VerifiedRollupUpdateEntry} {outs ins : List VerifiedRollupUpdateEntry}
  (claimed : s.Claimed leading outs ins)
include claimed

theorem Claimed.layout : ∃ pairs rest, pairs.map Prod.snd = s.outbound.map userTx ∧ pairs.length = s.outbound.length ∧
    Layout s.window.settlingBlock pairs rest ((s.outEffects outs).map (BoundEffect.authorized ext.keccak256))
      s.authorized := by
  obtain ⟨outClaims, _, outPositions, _⟩ := place_projections .outbound 1 claimed.outs_length
  obtain ⟨inClaims, _, inPositions, _⟩ := place_projections .inbound (s.outbound.length + 1) claimed.ins_length
  have outLength : (s.outEffects outs).length = s.outbound.length := by
    rw [← length_map BoundEffect.transactionIndex, outEffects, outPositions, userPositions_length]
  have inLength : (s.inEffects ins).length = s.inbound.length := by
    rw [← length_map BoundEffect.transactionIndex, inEffects, inPositions, deliveryPositions_length]
  have length : s.window.settlingBlock.decoded.transactions.length =
      2 * (s.outEffects outs).length + (s.inEffects ins).length := by
    have flags := congrArg List.length s.flags_eq
    rw [framedFlags_length] at flags
    rw [outLength, inLength, ← flags]
    exact s.window.settlingBlock.flags_length.symm
  have delivered : s.authorized.map AuthorizedInboundEffect.transactionIndex =
      deliveryPositions (s.outEffects outs).length (s.inEffects ins).length := by
    rw [outLength, inLength, authorized, map_map]
    exact map_fst_zip (by simp [deliveryPositions_length])
  obtain ⟨pairs, rest, hpairs, _, layout⟩ := layout_of_positions length
    (by rw [outLength]; exact outPositions) delivered
  have framed := layout.transactions
  rw [s.encodedTransactions_eq] at framed
  obtain ⟨rfl, rfl⟩ := framedList_inj (by rw [hpairs, outLength]; simp [loadTxs]) framed
  exact ⟨_, _, map_snd_zip (by simp [loadTxs]), by simp [loadTxs], layout⟩

theorem Claimed.describes : ∃ outActions inActions, Describes ext.keccak256 s.rollup s.actions
    ((s.outEffects outs).map (BoundEffect.authorized ext.keccak256)) s.authorized
    (s.outbound.map entry) outActions inActions := by
  obtain ⟨outActions, inActions, houts, hins, split⟩ := forall₂_append_left (mapM_eq_ok.mp s.actions_projected)
  rw [forall₂_map_left_iff] at houts hins
  refine ⟨outActions, inActions, split, ?_, ?_, ?_⟩
  · rw [forall₂_map_right_iff]
    refine houts.flip.imp fun action c projected => ?_
    change actionFromEntry c.entry s.rollup = .ok action at projected
    rw [c.entry_eq.1] at projected ⊢
    exact entryFromAction_outbound c.entry_eq.2 projected
  · have finalizes := claimed.outbound
    rw [← (place_projections .outbound 1 claimed.outs_length).1, forall₂_map_right_iff] at finalizes
    rw [forall₂_map_left_iff, forall₂_map_right_iff]
    exact finalizes.flip.imp fun e c h => h.completesCall e.entryIndex e.transactionIndex
  · have described : Forall₂ (fun action o =>
        entryFromAction ext.keccak256 action s.rollup = .ok o.derivedDaEntry.abiEntry) inActions
        (s.authorized.map AuthorizedInboundEffect.observation) := by
      rw [s.authorized_observations, forall₂_map_right_iff]
      refine hins.flip.imp fun action c projected => ?_
      change actionFromEntry c.sidecar s.rollup = .ok action at projected
      rw [c.sidecar_eq] at projected
      refine entryFromAction_inbound rfl ?_ projected
      exact c.incomingFor.deliverable.2.1
    rwa [forall₂_map_right_iff] at described

theorem Claimed.published : ∃ pairs rest outActions inActions,
    Layout s.window.settlingBlock pairs rest ((s.outEffects outs).map (BoundEffect.authorized ext.keccak256))
      s.authorized ∧
    Published ext.keccak256 s.context s.rollup s.window.precedingBlocks s.window.settlingBlock pairs
      ((s.outEffects outs).map (BoundEffect.authorized ext.keccak256)) s.authorized
      ⟨s.rollup, spanOf s.spanBlocks, s.actions⟩ (s.outbound.map entry) outActions inActions := by
  obtain ⟨pairs, rest, users, hpairs, layout⟩ := claimed.layout
  obtain ⟨outActions, inActions, describes⟩ := claimed.describes
  have fits := encodeContainer_counts s.payload_encoded
  refine ⟨pairs, rest, outActions, inActions, layout, rfl, ?_, ?_, ?_, ?_, describes, ?_⟩
  · simp [DecodedSpan.blockCount, spanOf, spanBlocks]
  · intro k block hblock
    have inside : k < (s.window.precedingBlocks.map fun block =>
        block.spanBlock block.decoded.encodedTransactions).length := by
      rw [length_map]
      exact (List.getElem?_eq_some_iff.mp hblock).1
    have located : s.spanBlocks[k]? = some (block.spanBlock block.decoded.encodedTransactions) := by
      rw [spanBlocks, getElem?_append_left inside, getElem?_map, hblock]
      rfl
    have carried := carriesBlock_spanOf fits located
    rwa [Block.encodedTransactions, length_map, ← Nat.zero_add k] at carried
  · have located : s.spanBlocks[s.window.precedingBlocks.length]? =
        some (s.window.settlingBlock.spanBlock (s.outbound.map userTx)) := by
      rw [spanBlocks, getElem?_append_right (by simp)]
      simp
    have carried := carriesBlock_spanOf fits located
    rwa [length_map, ← hpairs] at carried
  · rw [users]
    simp only [spanOf, spanBlocks, flatMap_append, flatMap_map, flatMap_cons, flatMap_nil, append_nil]
    rfl
  · intro some_effect
    have lengths : s.outbound.length + s.inbound.length ≠ 0 := by
      rwa [layout.outbound_length, hpairs, authorized, length_map, length_zip, deliveryPositions_length,
        Nat.min_self] at some_effect
    obtain ⟨first, hfirst, hnonce⟩ := s.first_nonce lengths
    refine ⟨first, s.pairs, hfirst, ?_, s.interleaved.symm⟩
    rw [users, s.authorized_sidecars, hnonce, zip_map']
    exact s.pairs_built

theorem Claimed.chain_ok : verifyStateUpdateChain ⟨s.batch⟩ s.rollup s.window.windowPreBlockHash
    s.window.windowPostBlockHash = .ok ⟨s.rollup, leading, outs ++ ins⟩ := by
  refine verifyStateUpdateChain_eq_ok.mpr ⟨rfl, claimed.entries, ?_, claimed.chained⟩
  refine forall_mem_cons.mpr ⟨claimed.anchor.rollup, fun v hv => ?_⟩
  rcases mem_append.mp hv with hv | hv
  · obtain ⟨_, _, finalizes⟩ := forall₂_exists_right claimed.outbound.flip v hv
    exact finalizes.rollup
  · obtain ⟨_, _, finalizes⟩ := forall₂_exists_right claimed.inbound.flip v hv
    exact finalizes.rollup

theorem Claimed.bind_ok : bindEffectsToExecution ext.keccak256 ⟨s.rollup, leading, outs ++ ins⟩
    s.window.settlingBlock.transactionStateCheckpoints (observationsOf ext s.rollup s.window.settlingBlock) =
      .ok (s.outEffects outs ++ s.inEffects ins) :=
  bindEffectsToExecution_eq_ok.mpr claimed.bound

theorem Claimed.inbound_ok : authorizeInboundEffects ext.keccak256 s.rollup (s.outEffects outs ++ s.inEffects ins)
    (observationsOf ext s.rollup s.window.settlingBlock).inboundCandidates = .ok s.authorized := by
  rw [observationsOf, s.candidates_eq]
  refine authorizeInboundEffects_complete _ _ claimed.bound.ordered ?_
  rw [DeliveriesMatch, filter_isInbound_of_calls claimed.calls]
  exact claimed.delivered

theorem Claimed.outbound_ok : authorizeOutboundEffects ext.keccak256 s.rollup s.systemAddress
    (observationsOf ext s.rollup s.window.settlingBlock).systemSenderFlags (s.outEffects outs ++ s.inEffects ins)
    (observationsOf ext s.rollup s.window.settlingBlock).outboundEventCandidates =
      .ok ((s.outEffects outs).map (BoundEffect.authorized ext.keccak256)) :=
  authorizeOutboundEffects_complete _ _ _ claimed.bound.ordered claimed.calls

theorem Claimed.payload_ok : verifyEncodedDaPayload ext.keccak256
    (systemTransactionReconstructor s.l2ChainId s.rollup) s.batch.callData s.window.precedingBlocks
    s.window.settlingBlock ((s.outEffects outs).map (BoundEffect.authorized ext.keccak256)) s.authorized s.rollup =
      .ok () := by
  obtain ⟨pairs, rest, outActions, inActions, layout, published⟩ := claimed.published
  rw [s.batch_eq.1]
  exact (verifyEncodedDaPayload_eq_ok layout).mpr ⟨_, _, _, _, s.payload_decodes, published⟩

end

theorem intermediate_ok : verifyValidatedIntermediateBlocks s.window.precedingBlocks = .ok () :=
  verifyValidatedIntermediateBlocks_eq_ok.mpr s.plain

theorem inspect_ok
    (loads_succeed : ∀ t ∈ s.window.settlingBlock.inspected, t.isSystemSender = true → t.succeeded = true) :
    inspectValidatedSettlingBlock ext s.window.settlingBlock s.rollup =
      .ok (observationsOf ext s.rollup s.window.settlingBlock) := by
  refine inspectValidatedSettlingBlock_eq_ok.mpr ⟨fun t ht => ⟨fun sender => ?_, fun sender => ?_⟩, rfl⟩
  · have native : isSystemTx t.tx = true := (s.inspected_sender t ht).symm.trans sender
    have member := mem_map_of_mem (f := InspectedTransaction.tx) ht
    rw [s.window.settlingBlock.inspected_tx] at member
    exact ⟨native, s.system_target member native⟩
  · exact .inl (loads_succeed t ht sender)

/-- No gate refuses an honest settlement. -/
theorem accepted : ∃ chain effects inbound outbound,
    verifyStateUpdateChain ⟨s.batch⟩ s.rollup s.window.windowPreBlockHash s.window.windowPostBlockHash = .ok chain ∧
    verifyValidatedIntermediateBlocks s.window.precedingBlocks = .ok () ∧
    bindEffectsToExecution ext.keccak256 chain s.window.settlingBlock.transactionStateCheckpoints
      (observationsOf ext s.rollup s.window.settlingBlock) = .ok effects ∧
    authorizeInboundEffects ext.keccak256 s.rollup effects
      (observationsOf ext s.rollup s.window.settlingBlock).inboundCandidates = .ok inbound ∧
    authorizeOutboundEffects ext.keccak256 s.rollup s.systemAddress s.window.settlingBlock.flags effects
      s.window.settlingBlock.events = .ok outbound ∧
    verifyEncodedDaPayload ext.keccak256 (systemTransactionReconstructor s.l2ChainId s.rollup) s.batch.callData
      s.window.precedingBlocks s.window.settlingBlock outbound inbound s.rollup = .ok () ∧
    ((∀ t ∈ s.window.settlingBlock.inspected, t.isSystemSender = true → t.succeeded = true) →
      inspectValidatedSettlingBlock ext s.window.settlingBlock s.rollup =
        .ok (observationsOf ext s.rollup s.window.settlingBlock)) := by
  obtain ⟨leading, outs, ins, claimed⟩ := s.exists_claimed
  exact ⟨_, _, _, _, claimed.chain_ok, s.intermediate_ok, claimed.bind_ok, claimed.inbound_ok, claimed.outbound_ok,
    claimed.payload_ok, s.inspect_ok⟩

end HonestSettlement

structure HonestSubmission (ext : Externals) extends HonestSettlement ext where
  proofSystem : Address
  proofSystem_ne_zero : proofSystem ≠ 0
  proofs : List Bytes
  vkey : NonZeroProofSystemVkey
  loads_succeed : ∀ t ∈ window.settlingBlock.inspected, t.isSystemSender = true → t.succeeded = true
  countable : outbound.length + 1 < 2 ^ 64
  profile : template = { batchWithEntries [] (outbound.length + 1) with
    proofSystems := [proofSystem]
    rollupIdsWithProofSystems := [⟨rollup, [0]⟩]
    proofs }
  decodes_batch : ext.decodePostAndVerifyBatch (encodePostbatch batch) = .ok batch

namespace HonestSubmission
variable {ext : Externals} (s : HonestSubmission ext)

def input : SettlementInput where
  submittedPostBatchCalldata := encodePostbatch s.batch
  validatedWindow := s.window
  expectedRollupId := s.rollup
  expectedL2SystemAddress := s.systemAddress
  proofSystemVkey := s.vkey
  expectedProofSystem := s.proofSystem
  l2ChainId := s.l2ChainId
  cancelledAtStart := false
  cancelledBeforeDa := false

theorem decode_ok : decodeCanonicalPostBatch ext s.input.submittedPostBatchCalldata = .ok ⟨s.batch⟩ := by
  simp only [decodeCanonicalPostBatch, bind_eq_ok, mapError_eq_ok, ensure_eq_ok, exists_const, pure_eq_ok]
  exact ⟨s.batch, s.decodes_batch, ⟨by simp [input, encodePostbatch, postAndVerifyBatchSelector], rfl⟩, rfl⟩

theorem batch_profile : s.batch.proofSystems = [s.proofSystem] ∧
    s.batch.rollupIdsWithProofSystems = [⟨s.rollup, [0]⟩] ∧ s.batch.expectedRootPerRollup = [] ∧
    s.batch.staticEntries = [] ∧ s.batch.immediateStaticEntryCount = 0 ∧
    s.batch.immediateEntryCount = BitVec.ofNat 256 (s.outbound.length + 1) ∧ s.batch.blockNumber = 0 ∧
    s.batch.blobIndices = [] ∧ s.batch.bindMsgSenderInPublicInput = false := by
  obtain ⟨_, _, hbatch⟩ := finalizeL1RollingHashes_eq_ok.mp s.finalized
  rw [hbatch, s.profile]
  exact ⟨rfl, rfl, rfl, rfl, rfl, rfl, rfl, rfl, rfl⟩

theorem structure_ok : validatePublicInputStructure ext.keccak256 s.batch s.rollup s.proofSystem = .ok () := by
  obtain ⟨leading, outs, ins, claimed⟩ := s.exists_claimed
  have destinations : ∀ e ∈ s.batch.entries, e.destinationRollupId = s.rollup := by
    rw [claimed.entries, forall_mem_map]
    refine forall_mem_cons.mpr ⟨by rw [claimed.anchor.entry]; rfl, fun v hv => ?_⟩
    rcases mem_append.mp hv with hv | hv
    · obtain ⟨c, _, finalizes⟩ := forall₂_exists_right claimed.outbound.flip v hv
      rw [Finalizes.outbound_eq finalizes]
      rfl
    · obtain ⟨c, _, finalizes⟩ := forall₂_exists_right claimed.inbound.flip v hv
      rw [Finalizes.entry finalizes]
      rfl
  have immediate : ∀ e ∈ (leading :: outs).map VerifiedRollupUpdateEntry.claimedEntry,
      decide (e.proxyEntryHash = 0) = true := by
    rw [forall_mem_map]
    refine forall_mem_cons.mpr ⟨by rw [claimed.anchor.entry]; rfl, fun v hv => ?_⟩
    obtain ⟨c, _, finalizes⟩ := forall₂_exists_right claimed.outbound.flip v hv
    rw [Finalizes.outbound_eq finalizes]
    rfl
  have deferred : (ins.map VerifiedRollupUpdateEntry.claimedEntry).takeWhile (fun e => e.proxyEntryHash = 0) = [] := by
    cases hins : ins with
    | nil => rfl
    | cons v ins =>
      obtain ⟨c, _, finalizes⟩ := forall₂_exists_right claimed.inbound.flip v (hins ▸ mem_cons_self)
      have nonzero : v.claimedEntry.proxyEntryHash ≠ 0 := by
        rw [Finalizes.entry finalizes]
        exact c.incomingFor.callHash_ne_zero
      rw [map_cons, takeWhile_cons_of_neg (by simpa using nonzero)]
  have count : leadingImmediateEntries s.batch.entries = s.outbound.length + 1 := by
    rw [leadingImmediateEntries, claimed.entries, ← cons_append, map_append,
      takeWhile_append_of_pos immediate, deferred, append_nil, length_map, length_cons,
      claimed.outbound.length_eq]
  have small := s.countable
  obtain ⟨systems, rollups, expected, static, immediateStatic, immediateCount, block, blobs, sender⟩ := s.batch_profile
  have counted : s.batch.immediateEntryCount.toNat = s.outbound.length + 1 := by
    rw [immediateCount, BitVec.toNat_ofNat]
    exact Nat.mod_eq_of_lt (by omega)
  have destined := (checkDestinations_eq_ok (i := 0) (u := ())).mpr destinations
  simp only [validatePublicInputStructure, checkProofSystem, systems, checkRollupAssignment, rollups, ensure_pos,
    ok_bind, expected, destined, static, immediateStatic, counted, count, small, block, blobs, sender]

theorem run_ok : ∃ hash, runSettlement ext s.input = .ok hash := by
  obtain ⟨leading, outs, ins, claimed⟩ := s.exists_claimed
  obtain ⟨hash, hhash⟩ : ∃ hash, recomputePublicInputsHash ext.keccak256 s.batch s.vkey = .ok hash := by
    obtain ⟨systems, rollups, _, _, _, _, block, blobs, sender⟩ := s.batch_profile
    exact recomputePublicInputsHash_eq_ok s.proofSystem_ne_zero systems rollups sender block blobs
  refine ⟨hash, ?_⟩
  simp only [runSettlement, bind_eq_ok, ensure_eq_ok, exists_const, mapError_eq_ok]
  exact ⟨rfl, _, s.decode_ok, _, s.structure_ok, _, claimed.chain_ok, _, s.inspect_ok s.loads_succeed, _,
    s.intermediate_ok, _, claimed.bind_ok, _, claimed.inbound_ok, _, claimed.outbound_ok, rfl, _,
    claimed.payload_ok, hhash⟩

end HonestSubmission

noncomputable def sampleExternals : Externals where
  keccak256 := keccak256
  decodePostAndVerifyBatch := canonicalDecoder encodePostbatch
  decodeExecuteIncoming := canonicalDecoder encodeExecuteIncomingCall
  decodeLoadExecutionTable := canonicalDecoder encodeLoadExecutionTable

def sampleRollup : NonZeroU64 := ⟨7, by decide⟩

def sampleWithdrawal : OutboundCall sampleRollup systemAddress where
  action := ⟨.mutable, 0xaa#160, mainnet, 7, 0xbb#160, [1, 2], 5, .resolved [9] true, none⟩
  tx := ⟨.eip1559, 3, some 0xcc#160, 0, [], [2, 0xc0], ⟨2, [0xc0], rfl, rfl⟩⟩
  entry := outboundEntry 7 ⟨.mutable, 0xaa#160, mainnet, 7, 0xbb#160, [1, 2], 5, .resolved [9] true, none⟩ [9]
  built := rfl
  sender := by decide
  value_fits := by decide

def sampleDeposit : InboundCall keccak256 sampleRollup where
  action := ⟨.mutable, 0xdd#160, 7, mainnet, 0xee#160, [3], 4, .resolved [8] true, none⟩
  sidecar := sidecarEntry keccak256 ⟨0xdd#160, 0xee#160, 4, [3], mainnet, 7, [8], true⟩
  built := buildInboundTargetEntry_eq_ok.mpr
    ⟨[8], ⟨rfl, rfl, rfl⟩, rfl, ⟨by decide, by decide, rfl⟩, rfl⟩
  fromL1 := rfl
  value_fits := by decide
  identified := by decide +kernel

def sampleContext : SystemTxContext := systemTransactionReconstructor 1 sampleRollup

theorem isChain_no_events : List.IsChain (fun a b : OutboundEventObservation => a.before b = true) [] := .nil

theorem isChain_no_checkpoints :
    List.IsChain (fun a b : StateCheckpoint => a.position.before b.position = true) [] := .nil

def samplePreceding : ValidatedBlock where
  hash := 0x11#256
  decoded := ⟨⟨1, 0x10#256, 0xfe#160, [1]⟩, [.ethereum ⟨.legacy, 0, none, 0, [], [0xc0], ⟨0xc0, [], rfl, by decide⟩⟩]⟩
  receiptSuccesses := [true]
  transactionStateCheckpoints := []
  settlementEvidence := ⟨[false], []⟩
  receipts_length := rfl
  flags_length := rfl
  events_bounded := by simp
  events_ordered := isChain_no_events
  checkpoints_ordered := isChain_no_checkpoints
  checkpoints_bounded := by simp

def sampleSettling : ValidatedBlock where
  hash := 0x14#256
  decoded := ⟨⟨2, 0x11#256, 0xfe#160, [1]⟩,
    [.system (loadTransaction keccak256 sampleContext 6 sampleWithdrawal.entry), .ethereum sampleWithdrawal.tx,
      .system (deliveryTransaction keccak256 sampleContext 7 sampleDeposit.incoming)]⟩
  receiptSuccesses := [true, true, true]
  transactionStateCheckpoints := [⟨.preExecution, 0, 0x12#256⟩, ⟨.transaction 1, 0, 0x13#256⟩,
    ⟨.transaction 2, 0, 0x14#256⟩]
  settlementEvidence := ⟨[true, false, true], [⟨1, 0, some (sampleWithdrawal.event keccak256)⟩]⟩
  receipts_length := rfl
  flags_length := rfl
  events_bounded := by simp
  events_ordered := by simp
  checkpoints_ordered := by simp [CheckpointAt.before]
  checkpoints_bounded := by simp

theorem sampleSettling_succeeds : ∀ t ∈ sampleSettling.inspected, t.succeeded = true := by
  intro t ht
  obtain ⟨⟨_, succeeded⟩, hmem, rfl⟩ := mem_map.mp ht
  have receipt : succeeded ∈ [true, true, true] := (of_mem_zip hmem).2
  simpa using receipt

def sampleWindow : ValidatedWindow := ⟨0x10#256, [samplePreceding], sampleSettling⟩

def sampleActions : List Action :=
  [⟨7, mainnet, 0xbb#160, 0xaa#160, 5, 0, [1, 2], true, [9]⟩, ⟨mainnet, 7, 0xee#160, 0xdd#160, 4, 0, [3], true, [8]⟩]

def sampleSpan : List SpanBlock := [⟨0xfe#160, [1], [[0xc0]]⟩, ⟨0xfe#160, [1], [[2, 0xc0]]⟩]

def samplePayload : Bytes := ((encodeContainer 7 sampleSpan sampleActions).toOption).getD []

theorem samplePayload_encoded : encodeContainer 7 sampleSpan sampleActions = .ok samplePayload := by
  decide +kernel

def sampleTemplate : EvmBatch :=
  { batchWithEntries [] 2 with
    proofSystems := [0xab#160]
    rollupIdsWithProofSystems := [⟨7, [0]⟩]
    proofs := [[1]] }

def sampleEntries : List ExecutionEntrySol :=
  stitch 7 0x10#256 [anchorEntry 7, sampleWithdrawal.entry, deferredEntry keccak256 sampleDeposit.incoming]
    [0, sampleWithdrawal.delta, sampleDeposit.delta] [0x12#256, 0x13#256, 0x14#256]

def sampleBatch : EvmBatch :=
  { sampleTemplate with
    entries := sampleEntries.map (ExecutionEntrySol.finalized keccak256)
    callData := samplePayload }

noncomputable def sampleSubmission : HonestSubmission sampleExternals where
  rollup := sampleRollup
  systemAddress := systemAddress
  l2ChainId := 1
  window := sampleWindow
  outbound := [sampleWithdrawal]
  inbound := [sampleDeposit]
  nonce := 6
  pairs := blockPairs keccak256 sampleContext 6 [(sampleWithdrawal.entry, sampleWithdrawal.userTx)]
    [sampleDeposit.incoming]
  actions := sampleActions
  payload := samplePayload
  template := sampleTemplate
  batch := sampleBatch
  plain := by
    intro block hblock
    obtain rfl := mem_singleton.mp hblock
    exact ⟨by decide, rfl⟩
  pairs_built := by
    have deliverable : ∀ i ∈ [sampleDeposit.incoming], i.Deliverable := by
      simpa using sampleDeposit.incomingFor.deliverable
    have own : ∀ i ∈ [sampleDeposit.incoming], i.l2RollupId = sampleContext.thisRollupId := by
      intro i hi
      obtain rfl := mem_singleton.mp hi
      rfl
    refine (buildCrossChainSyncPairs_eq_blockPairs keccak256 rfl deliverable own).mpr ⟨?_, by decide, rfl⟩
    simpa using ⟨_, sampleWithdrawal.flat⟩
  interleaved := rfl
  flags := rfl
  deliveries_succeed := fun t ht _ => sampleSettling_succeeds t ht
  events := .cons ⟨rfl, rfl⟩ .nil
  checkpoints := rfl
  sealed := rfl
  decodes := canonicalDecoder_encode encodeExecuteIncomingCall_injective
  actions_projected := rfl
  payload_encoded := samplePayload_encoded
  finalized := by
    refine finalizeL1RollingHashes_eq_ok.mpr ⟨rfl, ?_, rfl⟩
    change ∀ e ∈ sampleEntries, e.Finalizable
    simp only [sampleEntries, stitch, forall_mem_cons, not_mem_nil, false_imp_iff, implies_true, and_true]
    refine ⟨⟨?_, ?_, ?_, ?_, ?_⟩, ⟨?_, ?_, ?_, ?_, ?_⟩, ⟨?_, ?_, ?_, ?_, ?_⟩⟩ <;> decide
  proofSystem := 0xab#160
  proofSystem_ne_zero := by decide
  proofs := [[1]]
  vkey := ⟨1, by decide⟩
  loads_succeed := fun t ht _ => sampleSettling_succeeds t ht
  countable := by decide
  profile := rfl
  decodes_batch := canonicalDecoder_encode encodePostbatch_injective _

theorem accepted_sample : ∃ chain effects inbound outbound,
    verifyStateUpdateChain ⟨sampleBatch⟩ sampleRollup 0x10#256 0x14#256 = .ok chain ∧
    bindEffectsToExecution keccak256 chain sampleSettling.transactionStateCheckpoints
      (observationsOf sampleExternals sampleRollup sampleSettling) = .ok effects ∧
    authorizeInboundEffects keccak256 sampleRollup effects
      (observationsOf sampleExternals sampleRollup sampleSettling).inboundCandidates = .ok inbound ∧
    authorizeOutboundEffects keccak256 sampleRollup systemAddress [true, false, true] effects
      sampleSettling.events = .ok outbound ∧
    verifyEncodedDaPayload keccak256 sampleContext samplePayload [samplePreceding] sampleSettling outbound inbound
      7 = .ok () := by
  obtain ⟨chain, effects, inbound, outbound, hchain, _, hbind, hinbound, houtbound, hpayload, _⟩ :=
    sampleSubmission.toHonestSettlement.accepted
  exact ⟨chain, effects, inbound, outbound, hchain, hbind, hinbound, houtbound, hpayload⟩

end Eez.Signer
