import EezRollup.Sessions.Session
import EezRollup.Signer.Completeness

/-! A rejection is the submitter's, an internal error says that the backend, or the signer itself,
broke its contract. -/
namespace Eez.Signer
open List Octets Outcome Codec SettlementPipelineError DaPayload
open Sessions (Status)

def settlementRejected : Status := ⟨.failedPrecondition, "settlement validation rejected"⟩

def invalidBackendOutput : Status := ⟨.internal, "validation backend returned invalid output"⟩

@[simp] def PublicInputError.status : PublicInputError → Status
  | .computation _ | .hashCount _ => ⟨.internal, "public-input hash computation violated its contract"⟩
  | .invalidStructure _ => settlementRejected

@[simp] def EffectPrefixError.status : EffectPrefixError → Status
  | .transactionStateCheckpointCountMismatch _ _ | .transactionStateCheckpointIndexMismatch _ _ _
  | .anchorCheckpointPositionMismatch _ => invalidBackendOutput
  | .leadingEntryNotAnchor _ | .laterAnchor _ | .invalidEntry _ | .effectCountMismatch _ _ | .anchorRootMismatch _ _
  | .effectKindMismatch _ _ _ _ | .effectCandidateMismatch _ _ _ _ | .nonZeroAnchorEtherDelta _ => settlementRejected

@[simp] def DaPayloadError.status : DaPayloadError → Status
  | .decode _ | .trailingBytes _ => ⟨.invalidArgument, "invalid batch callData"⟩
  | .systemTransactionReconstruction _ | .invalidEffectTransactionLayout => invalidBackendOutput
  | .blockCount _ _ | .unexpectedItems _ _ | .projectedTransactionCount _ _ _ | .transactionMismatch _ _
  | .missingAction _ _ | .actionMismatch _ _ | .rollingHashMismatch _ _ _ | .unrebuildableAction _ _ _
  | .headerInputMismatch _ _ | .syncBlockTransactionCount _ _ | .syncBlockTransactionMismatch _ => settlementRejected

/-- A hint changes neither code nor message. -/
def SettlementPipelineError.status : SettlementPipelineError → Status
  | .actionable source _ => source.status
  | .postBatchCalldata _ => ⟨.invalidArgument, "invalid PostBatch calldata"⟩
  | .publicInputs error => error.status
  | .effectPrefix error => error.status
  | .daPayload error => error.status
  | .blockInspection _ | .rollupUpdateChain _ | .inboundEffects _ | .outboundEffects _ => settlementRejected
  | .cancelled => ⟨.cancelled, "Prove request cancelled"⟩

theorem SettlementPipelineError.status_withActionable (error : SettlementPipelineError) (hint : Option ProveFailure) :
    (error.withActionable hint).status = error.status := by
  cases hint <;> rfl

/-- The status blames neither the backend nor the signer. -/
def NotInternal (status : Status) : Prop := status.code ≠ .internal

instance (status : Status) : Decidable (NotInternal status) := inferInstanceAs (Decidable (¬status.code = .internal))

@[simp] theorem rejected : NotInternal settlementRejected := by
  decide

@[simp] theorem invalidArgument (message : String) : NotInternal ⟨.invalidArgument, message⟩ := by
  intro h
  cases h

section
variable {keccak : Bytes → B256}

theorem checkDestinations_failsIn (r : UInt64) (i : Nat) (entries : List ExecutionEntrySol) :
    FailsIn (NotInternal ∘ PublicInputError.status) (checkDestinations r i entries) := by
  induction entries generalizing i with
  | nil => exact failsIn_ok
  | cons entry entries ih => simp [checkDestinations, ih]

theorem validatePublicInputStructure_failsIn (batch : EvmBatch) (r : NonZeroU64) (proofSystem : Address) :
    FailsIn (NotInternal ∘ PublicInputError.status) (validatePublicInputStructure keccak batch r proofSystem) := by
  have systems : FailsIn (NotInternal ∘ PublicInputError.status) (checkProofSystem keccak batch proofSystem) := by
    unfold checkProofSystem
    split <;> simp
  have assignment : FailsIn (NotInternal ∘ PublicInputError.status) (checkRollupAssignment batch r) := by
    unfold checkRollupAssignment
    split <;> simp
  simp [validatePublicInputStructure, systems, assignment, checkDestinations_failsIn]

theorem recomputePublicInputsHash_of_structure (configured : proofSystem ≠ 0)
    (profile : validatePublicInputStructure keccak batch r proofSystem = .ok u) (vkey : NonZeroProofSystemVkey) :
    ∃ hash, recomputePublicInputsHash keccak batch vkey = .ok hash := by
  simp only [validatePublicInputStructure, bind_eq_ok, ensure_eq_ok, exists_const] at profile
  obtain ⟨_, systems, _, assignment, _, _, _, _, _, _, _, block, blobs, sender⟩ := profile
  unfold checkProofSystem at systems
  unfold checkRollupAssignment at assignment
  split at systems
  · rename_i system sole
    split at assignment
    · rename_i assigned only
      simp only [bind_eq_ok, ensure_eq_ok, exists_const] at systems assignment
      obtain ⟨rollup, indexes⟩ := assignment
      refine recomputePublicInputsHash_eq_ok (systems ▸ configured) sole (r := r) ?_ sender block blobs
      rw [only, ← rollup, ← indexes]
    · cases assignment
  · cases systems

theorem classifyTrailing_failsIn (r : UInt64) (i : Nat) (vs : List VerifiedRollupUpdateEntry) :
    FailsIn (NotInternal ∘ EffectPrefixError.status) (classifyTrailing keccak r i vs) := by
  induction vs generalizing i with
  | nil => exact failsIn_ok
  | cons v vs ih =>
    unfold classifyTrailing
    split <;> simp [ih]

theorem bindEffects_failsIn {positions : List Nat} {checkpoints : List StateCheckpoint}
    (planned : checkpoints.map StateCheckpoint.position = positions.map .transaction) :
    FailsIn (NotInternal ∘ EffectPrefixError.status) (bindEffects flags k claims positions checkpoints) := by
  induction positions generalizing k claims checkpoints with
  | nil => cases claims <;> exact failsIn_ok
  | cons position positions ih =>
    obtain ⟨checkpoint, checkpoints, rfl, here, rest⟩ := map_eq_cons_iff.mp planned
    cases claims with
    | nil => exact failsIn_ok
    | cons c claims => simp [bindEffects, here, ih rest]

theorem bindEffectsToExecution_failsIn {chain : VerifiedRollupUpdateChain} {checkpoints : List StateCheckpoint}
    {observations : SettlingBlockObservations}
    (planned : checkpoints.map StateCheckpoint.position =
      .preExecution :: observations.effectCandidatePositions.map .transaction) :
    FailsIn (NotInternal ∘ EffectPrefixError.status)
      (bindEffectsToExecution keccak chain checkpoints observations) := by
  obtain ⟨anchor, effects, rfl, first, rest⟩ := map_eq_cons_iff.mp planned
  have count : effects.length = observations.effectCandidatePositions.length := by
    have lengths := congrArg List.length rest
    rwa [length_map, length_map] at lengths
  simp [bindEffectsToExecution, classifyTrailing_failsIn, count, first, bindEffects_failsIn rest]

end

section
variable {keccak : Bytes → B256} {r : UInt64}

theorem DaPayload.decode_failsIn (payload : Bytes) :
    FailsIn (NotInternal ∘ DaPayloadError.status) (decode payload r) := by
  have codec : ∀ e : CodecError, NotInternal (ofCodecError e).status := by
    intro e
    cases e <;> exact invalidArgument _
  simp only [decode, failsIn_bind, failsIn_mapError, failsIn_ensure]
  exact ⟨fun e _ => codec e, by simp⟩

theorem DaPayload.blockCount_failsIn (p : DaPayload) (expected i : Nat) :
    FailsIn (NotInternal ∘ DaPayloadError.status) (p.blockCount expected i) := by
  simp [blockCount]

theorem DaPayload.expectTransaction_failsIn (p : DaPayload) (number : UInt64) (i : Nat) (tx : Bytes) :
    FailsIn (NotInternal ∘ DaPayloadError.status) (p.expectTransaction number i tx) := by
  simp [expectTransaction]

theorem verifyHeaderInputs_failsIn (p : DaPayload) (i : Nat) (block : ValidatedBlock) :
    FailsIn (NotInternal ∘ DaPayloadError.status) (verifyHeaderInputs p i block) := by
  simp [verifyHeaderInputs]

theorem expectTransactions_failsIn (number : UInt64) (i : Nat) (txs : List Bytes) (p : DaPayload) :
    FailsIn (NotInternal ∘ DaPayloadError.status) (expectTransactions number i txs p) := by
  induction txs generalizing i p with
  | nil => exact failsIn_ok
  | cons tx txs ih => exact failsIn_bind.mpr ⟨p.expectTransaction_failsIn number i tx, fun p _ => ih (i + 1) p⟩

theorem verifyPrecedingBlockTransactions_failsIn (n i : Nat) (blocks : List ValidatedBlock) (p : DaPayload) :
    FailsIn (NotInternal ∘ DaPayloadError.status) (verifyPrecedingBlockTransactions n i blocks p) := by
  induction blocks generalizing i p with
  | nil => exact failsIn_ok
  | cons block blocks ih =>
    simp [verifyPrecedingBlockTransactions, blockCount_failsIn, verifyHeaderInputs_failsIn,
      expectTransactions_failsIn, ih]

/-- Positions to skip that lie in the list, in order, are all met. -/
theorem expectRetained_failsIn {txs : List Bytes} {omitted : List Nat}
    (inside : omitted.Sublist (List.range' i txs.length)) (p : DaPayload) :
    FailsIn (NotInternal ∘ DaPayloadError.status) (expectRetained number i txs omitted p) := by
  induction txs generalizing i omitted p with
  | nil =>
    obtain rfl := sublist_nil.mp inside
    exact failsIn_ok
  | cons tx txs ih =>
    rw [length_cons, range'_succ] at inside
    rcases sublist_cons_iff.mp inside with later | ⟨rest, rfl, later⟩
    · have head : omitted.head? ≠ some i := by
        intro h
        have bounds := mem_range'_1.mp (later.subset (mem_of_head? h))
        omega
      rw [expectRetained, if_neg head]
      exact failsIn_bind.mpr ⟨p.expectTransaction_failsIn number i tx, fun p _ => ih later p⟩
    · rw [expectRetained, head?_cons, if_pos rfl, tail_cons]
      exact ih later p

theorem pairStarts_sublist (i k m : Nat) :
    ((List.range k).map (fun j => i + 2 * j) ++ List.range' (i + 2 * k) m).Sublist (List.range' i (2 * k + m)) := by
  induction k generalizing i with
  | zero => simp
  | succ k ih =>
    have starts : (List.range (k + 1)).map (fun j => i + 2 * j) = i :: (List.range k).map fun j => (i + 2) + 2 * j := by
      rw [range_succ_eq_map, map_cons, map_map]
      refine congrArg₂ _ rfl (map_congr_left fun j _ => ?_)
      simp only [Function.comp_apply]
      omega
    have whole : 2 * (k + 1) + m = 2 * k + m + 1 + 1 := by omega
    have start : i + 2 * (k + 1) = i + 2 + 2 * k := by omega
    rw [starts, whole, start, range'_succ, range'_succ, cons_append]
    exact .cons_cons _ (.cons _ (ih (i + 2)))

theorem Layout.omitted_sublist (layout : Layout block pairs rest outbound inbound) :
    (omittedPositions outbound inbound).Sublist (List.range' 0 block.decoded.encodedTransactions.length) := by
  rw [omittedPositions, layout.loads, layout.deliveries, layout.transactions, framedList_length]
  exact pairStarts_sublist 0 _ _

theorem verifySettlingBlockTransactions_failsIn
    (layout : Layout block pairs rest outbound inbound) (p : DaPayload) (n : Nat) :
    FailsIn (NotInternal ∘ DaPayloadError.status) (verifySettlingBlockTransactions p block n outbound inbound) := by
  have enough : outbound.length + inbound.length ≤ block.decoded.transactions.length := by
    rw [layout.transactions_length, layout.outbound_length, layout.inbound_length]
    omega
  simp [verifySettlingBlockTransactions, blockCount_failsIn, verifyHeaderInputs_failsIn, Nat.not_lt.mpr enough,
    expectRetained_failsIn layout.omitted_sublist]

theorem rebuildAction_failsIn (actions : List Action) (i position : Nat) :
    FailsIn (NotInternal ∘ DaPayloadError.status) (rebuildAction keccak r actions i position) := by
  simp [rebuildAction]

theorem verifyOutboundSidecars_failsIn (actions : List Action) (i : Nat) (effects : List AuthorizedOutboundEffect) :
    FailsIn (NotInternal ∘ DaPayloadError.status) (verifyOutboundSidecars keccak r actions i effects) := by
  induction effects generalizing i with
  | nil => exact failsIn_ok
  | cons effect effects ih =>
    simp [verifyOutboundSidecars, rebuildAction_failsIn, ih]

theorem verifyInboundSidecars_failsIn (actions : List Action) (i : Nat) (effects : List AuthorizedInboundEffect) :
    FailsIn (NotInternal ∘ DaPayloadError.status) (verifyInboundSidecars keccak r actions i effects) := by
  induction effects generalizing i with
  | nil => exact failsIn_ok
  | cons effect effects ih =>
    simp [verifyInboundSidecars, rebuildAction_failsIn, ih]

theorem verifyEffectSidecars_failsIn (p : DaPayload) (outbound : List AuthorizedOutboundEffect)
    (inbound : List AuthorizedInboundEffect) :
    FailsIn (NotInternal ∘ DaPayloadError.status) (verifyEffectSidecars keccak r p outbound inbound) := by
  simp [verifyEffectSidecars, verifyOutboundSidecars_failsIn, verifyInboundSidecars_failsIn]

theorem compareTransactions_failsIn (i : Nat) (a b : List Bytes) :
    FailsIn (NotInternal ∘ DaPayloadError.status) (compareTransactions i a b) := by
  induction a generalizing i b with
  | nil => exact failsIn_ok
  | cons x a ih => cases b <;> simp [compareTransactions, ih]

variable {context : SystemTxContext} {preceding : List ValidatedBlock} {block : ValidatedBlock}
  {pairs : List (Bytes × Bytes)} {rest : List Bytes} {outbound : List AuthorizedOutboundEffect}
  {inbound : List AuthorizedInboundEffect}

/-- The reconstruction succeeds, or the effects it is given are not those of the block. -/
theorem verifyReconstructedSyncBlock_failsIn (layout : Layout block pairs rest outbound inbound)
    {entries : List ExecutionEntrySol} (lengths : outbound.length = entries.length)
    (some_effect : outbound.length + inbound.length ≠ 0)
    (built : ∀ first, block.decoded.transactions.head? = some first →
      ∃ built, buildCrossChainSyncPairs keccak context (entries.zip (pairs.map Prod.snd))
        (inbound.map fun b => b.observation.derivedDaEntry.abiEntry) first.nonce = .ok built) :
    FailsIn (NotInternal ∘ DaPayloadError.status)
      (verifyReconstructedSyncBlock keccak context block outbound entries inbound) := by
  have nonempty : block.decoded.transactions.length ≠ 0 := by
    rw [layout.transactions_length]
    rw [layout.outbound_length, layout.inbound_length] at some_effect
    omega
  obtain ⟨first, txs, htxs⟩ := exists_cons_of_length_pos (Nat.pos_of_ne_zero nonempty)
  have located : block.decoded.transactions[0]? = some first := by
    rw [htxs]
    rfl
  obtain ⟨rebuilt, hbuilt⟩ := built first (by rw [htxs]; rfl)
  simp only [verifyReconstructedSyncBlock, layout.firstSystemPosition_eq some_effect, located, require, ok_bind,
    outboundReconstructionInputs_eq lengths layout.users, hbuilt, Except.mapError, failsIn_bind, failsIn_ensure]
  exact ⟨fun _ => rejected, fun _ _ => compareTransactions_failsIn _ _ _⟩

theorem verifyEncodedDaPayload_failsIn (layout : Layout block pairs rest outbound inbound) (payload : Bytes)
    (built : ∀ entries first, Forall₂ (CompletesCall keccak) outbound entries →
      outbound.length + inbound.length ≠ 0 → block.decoded.transactions.head? = some first →
      ∃ built, buildCrossChainSyncPairs keccak context (entries.zip (pairs.map Prod.snd))
        (inbound.map fun b => b.observation.derivedDaEntry.abiEntry) first.nonce = .ok built) :
    FailsIn (NotInternal ∘ DaPayloadError.status)
      (verifyEncodedDaPayload keccak context payload preceding block outbound inbound r) := by
  simp only [verifyEncodedDaPayload, failsIn_bind, transactionsExhausted, failsIn_ensure]
  refine ⟨decode_failsIn payload, fun p _ => ⟨verifyPrecedingBlockTransactions_failsIn _ _ _ p, fun q _ =>
    ⟨verifySettlingBlockTransactions_failsIn layout _ _, fun _ _ => ⟨fun _ => rejected, fun _ _ =>
    ⟨verifyEffectSidecars_failsIn _ _ _, fun entries described => ?_⟩⟩⟩⟩⟩
  obtain ⟨_, _, actions⟩ := (verifyEffectSidecars_eq_ok keccak r).mp described
  split
  · rename_i some_effect
    exact verifyReconstructedSyncBlock_failsIn layout actions.completes.length_eq some_effect fun first head =>
      built entries first actions.completes some_effect head
  · exact failsIn_pure

end

/-- Flags by recovered signer, native transactions recovering to the configured
address, and exactly the planned checkpoints. -/
structure HonestReplay (system : Address) (recover : EezTxEnvelope → Address) (block : ValidatedBlock) : Prop where
  flags : block.flags = block.decoded.transactions.map fun tx => decide (recover tx = system)
  native : ∀ tx ∈ block.decoded.transactions, isSystemTx tx = true → recover tx = system
  checkpoints : block.transactionStateCheckpoints.map StateCheckpoint.position = checkpointPlan block.decoded

/-- A nonempty Sync contains native system transactions. -/
def Block.IsSync (block : Block) : Prop :=
  block.transactions = [] ∨ ∃ tx ∈ block.transactions, isSystemTx tx = true

/-- The system account has a nonce left after the block. -/
def Block.NoncesLeft (block : Block) : Prop :=
  ∀ first, block.transactions.find? isSystemTx = some first →
    first.nonce.toNat + block.transactions.countP isSystemTx < 2 ^ 64

theorem checkpointPlan_of_isSync {block : Block} (sync : block.IsSync) : checkpointPlan block =
      .preExecution :: (pairEndPositions (block.transactions.map isSystemTx)).map .transaction := by
  rw [checkpointPlan, if_pos]
  rcases sync with empty | ⟨tx, member, native⟩
  · exact .inl (by rw [empty]; rfl)
  · exact .inr (mem_map.mpr ⟨tx, member, native⟩)

theorem HonestReplay.flags_native (honest : HonestReplay system recover block)
    (regular : ∀ t ∈ block.inspected, t.Regular) :
    block.flags = block.decoded.transactions.map isSystemTx := by
  rw [honest.flags]
  refine map_congr_left fun tx member => ?_
  rw [Bool.eq_iff_iff, decide_eq_true_iff]
  constructor
  · intro signer
    have pair : (tx, true) ∈ block.inspected.map fun t => (t.tx, t.isSystemSender) := by
      rw [block.inspected_pairs, honest.flags, ← map_prod_left_eq_zip]
      exact mem_map.mpr ⟨tx, member, by rw [decide_eq_true signer]⟩
    obtain ⟨t, ht, same⟩ := mem_map.mp pair
    obtain ⟨rfl, flagged⟩ := Prod.mk.inj same
    exact ((regular t ht).native flagged).1
  · exact honest.native tx member

theorem framedFlags_count (k m : Nat) : (framedFlags k m).count true = k + m := by
  induction k with
  | zero => simp [framedFlags]
  | succ k ih =>
    rw [framedFlags_succ, count_cons_self, count_cons_of_ne (by decide), ih]
    omega

theorem nonces_of_framed {block : Block} (framed : block.transactions.map isSystemTx = framedFlags k m)
    (nonces : block.NoncesLeft) (head : block.transactions.head? = some first) (some_effect : k + m ≠ 0) :
    first.nonce.toNat + (k + m) < 2 ^ 64 := by
  obtain ⟨txs, htxs⟩ := head?_eq_some_iff.mp head
  have count : block.transactions.countP isSystemTx = k + m := by
    rw [← framedFlags_count, ← framed, List.count, countP_map]
    exact countP_congr fun tx _ => by simp
  have native : isSystemTx first = true := by
    have flag : (framedFlags k m)[0]? = some true := by
      rw [framedFlags_getElem?]
      split
      · rfl
      · rw [if_pos (by omega)]
    rw [← framed, htxs] at flag
    exact Option.some.inj flag
  have left := nonces first (by rw [htxs, find?_cons_of_pos native])
  rwa [count] at left

theorem classifyClaimedEntry_flat
    (outbound : classifyClaimedEntry keccak entry update r = .outbound) : ∃ call, entry.Flat call := by
  unfold classifyClaimedEntry at outbound
  split at outbound
  · cases outbound
  · rename_i plain
    obtain ⟨success, expected⟩ := not_or.mp plain
    split at outbound
    · split at outbound <;> cases outbound
    · split at outbound
      · rename_i call sole
        split at outbound
        · rename_i shape
          exact ⟨call, sole, not_not.mp expected, Bool.eq_true_of_not_eq_false success, shape.2.1, shape.1, shape.2.2⟩
        · cases outbound
      · cases outbound
      · dsimp only at outbound
        split at outbound <;> cases outbound

/-- The transaction of the settling block, or the entry of the batch, a hint names. -/
def ProveFailure.Names (ext : Externals) (input : SettlementInput) : ProveFailure → Prop
  | .outbound transactionIndex transactionHash =>
    ∃ tx, input.validatedWindow.settlingBlock.decoded.transactions[transactionIndex.toNat]? = some tx ∧
      transactionHash = b256Bytes (ext.keccak256 tx.encoded2718)
  | .inbound entryIndex entryHash =>
    ∃ batch entry, decodeCanonicalPostBatch ext input.submittedPostBatchCalldata = .ok batch ∧
      batch.batch.entries[entryIndex.toNat]? = some entry ∧
      entryHash = b256Bytes (ext.keccak256 entry.abiEncode)

theorem toU32_eq_some (h : toU32 n = some i) : i.toNat = n := by
  unfold toU32 at h
  split at h
  · rename_i small
    rw [← Option.some.inj h, UInt32.toNat_ofNat']
    exact Nat.mod_eq_of_lt small
  · cases h

section
variable {ext : Externals} {input : SettlementInput}

variable {failure : ProveFailure}

theorem outboundFailure_names {index hash}
    (located : transactionHashAt ext.keccak256 input.validatedWindow.settlingBlock index = some hash)
    (h : outboundFailure index hash = some failure) : failure.Names ext input := by
  obtain ⟨i, hi, rfl⟩ := Option.map_eq_some_iff.mp h
  obtain ⟨tx, htx, rfl⟩ := Option.map_eq_some_iff.mp located
  exact ⟨tx, by rw [toU32_eq_some hi, htx], rfl⟩

theorem actionableBlockInspectionFailure_names {error}
    (h : actionableBlockInspectionFailure ext error input.validatedWindow.settlingBlock = some failure) :
    failure.Names ext input := by
  cases error with
  | revertedSystemTransaction index =>
    obtain ⟨⟨user, hash⟩, paired, hint⟩ := Option.bind_eq_some_iff.mp h
    simp only [pairedOutboundTransaction, Option.bind_eq_bind, Option.bind_eq_some_iff, Option.pure_def,
      Option.some.injEq, Prod.mk.injEq] at paired
    obtain ⟨_, _, _, _, _, _, _, _, _, located, rfl, rfl⟩ := paired
    exact outboundFailure_names located hint
  | intermediateSystemTransaction _ _ | intermediateOutboundEvent _ _ | reservedSystemSender _ => cases h

theorem actionableOutboundFailure_names {error}
    (h : actionableOutboundFailure ext.keccak256 error input.validatedWindow.settlingBlock = some failure) :
    failure.Names ext input := by
  obtain ⟨index, _, h⟩ := Option.bind_eq_some_iff.mp h
  obtain ⟨hash, located, hint⟩ := Option.bind_eq_some_iff.mp h
  exact outboundFailure_names located hint

theorem actionableInboundFailure_names
    (decoded : decodeCanonicalPostBatch ext input.submittedPostBatchCalldata = .ok batch)
    (h : actionableInboundFailure ext.keccak256 error batch = some failure) : failure.Names ext input := by
  obtain ⟨index, _, h⟩ := Option.bind_eq_some_iff.mp h
  obtain ⟨hash, located, h⟩ := Option.bind_eq_some_iff.mp h
  obtain ⟨i, hi, h⟩ := Option.bind_eq_some_iff.mp h
  obtain ⟨entry, hentry, rfl⟩ := Option.map_eq_some_iff.mp located
  obtain rfl := Option.some.inj h
  exact ⟨batch, entry, decoded, by rw [toU32_eq_some hi, hentry], rfl⟩

def SettlementInput.submitting (input : SettlementInput) (calldata : Bytes) : SettlementInput :=
  { input with submittedPostBatchCalldata := calldata }

/-- The gates before the binding that read no calldata let the window through. -/
structure SettlementInput.Passes (input : SettlementInput) : Prop where
  started : input.cancelledAtStart = false
  regular : ∀ t ∈ input.validatedWindow.settlingBlock.inspected, t.Regular
  preceding : verifyValidatedIntermediateBlocks input.validatedWindow.precedingBlocks = .ok ()

/-- Whatever hint the error carries names what it is about. -/
def SettlementPipelineError.Hints (ext : Externals) (input : SettlementInput) : SettlementPipelineError → Prop
  | .actionable _ failure => failure.Names ext input
  | _ => True

theorem SettlementPipelineError.hints_withActionable {error : SettlementPipelineError}
    (plain : error.Hints ext input) (named : ∀ failure, hint = some failure → failure.Names ext input) :
    (error.withActionable hint).Hints ext input := by
  cases hint with
  | none => exact plain
  | some failure => exact named failure rfl

theorem runSettlement_hints : FailsIn (Hints ext input) (runSettlement ext input) := by
  simp only [runSettlement, failsIn_bind, failsIn_ensure, failsIn_mapError, mapError_eq_ok]
  refine ⟨fun _ => trivial, fun _ _ => ⟨fun _ _ => trivial, fun batch decoded => ⟨fun _ _ => trivial, fun _ _ =>
    ⟨fun _ _ => trivial, fun _ _ => ⟨fun e _ => ?inspection, fun _ _ => ⟨fun _ _ => trivial, fun _ _ =>
    ⟨fun _ _ => trivial, fun _ _ => ⟨fun e _ => ?inbound, fun _ _ => ⟨fun e _ => ?outbound, fun _ _ =>
    ⟨fun _ => trivial, fun _ _ => ⟨fun _ _ => trivial, fun _ _ _ _ => trivial⟩⟩⟩⟩⟩⟩⟩⟩⟩⟩⟩
  case inspection =>
    exact hints_withActionable trivial fun _ => actionableBlockInspectionFailure_names
  case inbound =>
    exact hints_withActionable trivial fun _ => actionableInboundFailure_names decoded
  case outbound =>
    exact hints_withActionable trivial fun _ => actionableOutboundFailure_names

theorem buildCrossChainSyncPairs_of_effects {keccak : Bytes → B256} {context : SystemTxContext} {r : UInt64}
    {outs : List BoundEffect} {incoming : List IncomingEntry} {entries : List ExecutionEntrySol} {users : List Bytes}
    (manager : context.eezl2Address = eezl2Address) (deliverable : ∀ i ∈ incoming, i.Deliverable)
    (own : ∀ i ∈ incoming, i.l2RollupId = context.thisRollupId)
    (shapes : ∀ e ∈ outs, classifyClaimedEntry keccak e.claimedEntry e.claimedStateUpdate r = .outbound)
    (completes : Forall₂ (CompletesCall keccak) (outs.map (BoundEffect.authorized keccak)) entries)
    (lengths : users.length = outs.length) {n : UInt64} (nonces : n.toNat + (outs.length + incoming.length) < 2 ^ 64) :
    ∃ built, buildCrossChainSyncPairs keccak context (entries.zip users) (incoming.map (sidecarEntry keccak)) n =
      .ok built := by
  have count : entries.length = outs.length := by
    rw [← completes.length_eq, length_map]
  refine ⟨_, (buildCrossChainSyncPairs_eq_blockPairs keccak manager deliverable own).mpr ⟨?_, ?_, rfl⟩⟩
  · intro item hitem
    obtain ⟨effect, heffect, complete⟩ :=
      forall₂_exists_right completes.flip item.1 (of_mem_zip hitem).1
    obtain ⟨e, he, rfl⟩ := mem_map.mp heffect
    obtain ⟨call, flat⟩ := classifyClaimedEntry_flat (shapes e he)
    refine ⟨call, ?_⟩
    rw [complete.derived]
    exact ⟨flat.sole, flat.expected, flat.success, flat.isStatic, flat.revertNextNCalls, flat.gas⟩
  · rwa [length_zip, count, lengths, Nat.min_self]

theorem runSettlement_notInternal {recover : EezTxEnvelope → Address}
    (honest : HonestReplay input.expectedL2SystemAddress recover input.validatedWindow.settlingBlock)
    (configured : input.expectedProofSystem ≠ 0)
    (synced : input.Passes → input.validatedWindow.settlingBlock.decoded.IsSync)
    (nonces : input.validatedWindow.settlingBlock.decoded.NoncesLeft) :
    FailsIn (fun e => NotInternal e.status) (runSettlement ext input) := by
  simp only [runSettlement, failsIn_bind, failsIn_ensure, failsIn_mapError, mapError_eq_ok, status_withActionable]
  refine ⟨fun _ => by decide, fun _ started => ⟨fun _ _ => invalidArgument _, fun batch _ =>
    ⟨validatePublicInputStructure_failsIn _ _ _, fun _ profile => ⟨fun _ _ => rejected, fun chain _ =>
    ⟨fun _ _ => rejected, fun observations inspected => ⟨fun _ _ => rejected, fun _ preceding =>
    ⟨?binding, fun effects bind => ⟨fun _ _ => rejected, fun deliveries inbound =>
    ⟨fun _ _ => rejected, fun bindings outbound => ⟨fun _ => by decide, fun _ _ => ⟨?payload, fun _ _ => ?hash⟩⟩⟩⟩⟩⟩⟩⟩⟩⟩⟩
  case hash => exact failsIn_of_ok (recomputePublicInputsHash_of_structure configured profile _)
  all_goals
    simp only [inspectValidatedSettlingBlock, bind_eq_ok, inspectTransactions_eq_ok, pure_eq_ok] at inspected
    obtain ⟨candidates, ⟨regular, hcandidates⟩, rfl⟩ := inspected
    have native := honest.flags_native regular
  case binding =>
    refine bindEffectsToExecution_failsIn ?_
    have sync := synced ⟨ensure_eq_ok.mp started, regular, preceding⟩
    rw [honest.checkpoints, checkpointPlan_of_isSync sync, SettlingBlockObservations.effectCandidatePositions, native]
  case payload =>
    have bound := bindEffectsToExecution_eq_ok.mp bind
    obtain ⟨outs, ins, pairs, rest, rfl, rfl, read, calls, delivered, hpairs, hrest, layout⟩ :=
      exists_layout bound inbound outbound
    obtain ⟨incoming, sidecars, allIncoming⟩ := incoming_of_candidates (hcandidates.symm.trans read)
    refine verifyEncodedDaPayload_failsIn layout _ fun entries first completes some_effect head => ?_
    have count : incoming.length = ins.length := by
      have lengths := congrArg List.length sidecars
      rw [length_map, length_map, ← delivered.length_eq] at lengths
      exact lengths.symm
    rw [sidecars]
    refine buildCrossChainSyncPairs_of_effects (r := chain.expectedRollup) rfl
      (fun i hi => (allIncoming i hi).deliverable) (fun i hi => (allIncoming i hi).rollup) (fun e he => ?_) completes
      (by rw [length_map, hpairs]) ?_
    · have shape := bound.shapes e (mem_append_left ins he)
      rwa [calls.outbound e he] at shape
    · rw [length_map, ← delivered.length_eq] at some_effect
      rw [count]
      exact nonces_of_framed (native.symm.trans (framedFlags_of_calls bound calls)) nonces head some_effect

end

section
variable (keccak : Bytes → B256) (r : UInt64) (pre post : B256)

def claimedAnchor : VerifiedRollupUpdateEntry where
  claimedEntry := { anchorEntry r with
    rollupUpdates := [⟨r, 0, pre, post⟩]
    rollingHash := seedForL1 keccak [(r, pre)] 0 }
  claimedUpdate := ⟨r, 0, pre, post⟩
  sole := rfl

/-- An entry of inbound shape that moves no root. -/
def claimedDelivery : VerifiedRollupUpdateEntry where
  claimedEntry := { anchorEntry r with rollupUpdates := [⟨r, 0, post, post⟩], proxyEntryHash := 1 }
  claimedUpdate := ⟨r, 0, post, post⟩
  sole := rfl

/-- The anchor covers the window, and every delivery stays at its end. -/
def claimedDeliveries (n : Nat) : VerifiedRollupUpdateChain :=
  ⟨r, claimedAnchor keccak r pre post, replicate n (claimedDelivery r post)⟩

def claimedBatch (proofSystem : Address) (immediate : Nat) (chain : VerifiedRollupUpdateChain) : EvmBatch :=
  { batchWithEntries ((chain.leading :: chain.trailing).map VerifiedRollupUpdateEntry.claimedEntry) immediate with
    proofSystems := [proofSystem]
    rollupIdsWithProofSystems := [⟨chain.expectedRollup, [0]⟩] }

theorem claimedAnchor_shape : classifyClaimedEntry keccak (claimedAnchor keccak r pre post).claimedEntry
    (claimedAnchor keccak r pre post).claimedUpdate r = .anchor := by
  simp [classifyClaimedEntry, claimedAnchor, anchorEntry]

theorem classifyTrailing_deliveries (n i : Nat) :
    ∃ claims, classifyTrailing keccak r i (replicate n (claimedDelivery r post)) = .ok claims ∧ claims.length = n := by
  induction n generalizing i with
  | zero => exact ⟨[], rfl, rfl⟩
  | succ n ih =>
    obtain ⟨claims, rest, count⟩ := ih (i + 1)
    have shape : classifyClaimedEntry keccak (claimedDelivery r post).claimedEntry (claimedDelivery r post).claimedUpdate
        r = .inbound := by
      simp [classifyClaimedEntry, claimedDelivery, anchorEntry]
    refine ⟨⟨i, .inbound, claimedDelivery r post⟩ :: claims, ?_, by rw [length_cons, count]⟩
    rw [replicate_succ, classifyTrailing, shape]
    simp only [rest, ok_bind]
    rfl

theorem bindEffectsToExecution_deliveries {observations : SettlingBlockObservations}
    (candidates : observations.effectCandidatePositions.length = n) :
    bindEffectsToExecution keccak (claimedDeliveries keccak r pre post n) [] observations =
      .error (.transactionStateCheckpointCountMismatch (n + 1) 0) := by
  obtain ⟨claims, classified, count⟩ := classifyTrailing_deliveries keccak r post n 1
  simp only [bindEffectsToExecution, claimedDeliveries, claimedAnchor_shape, ensure_pos, ok_bind, classified,
    candidates, count]
  rfl

theorem chained_deliveries (n : Nat) : Chained post (replicate n (claimedDelivery r post)) post := by
  induction n with
  | zero => rfl
  | succ n ih => exact ⟨rfl, ih⟩

end

theorem decodeCanonicalPostBatch_encode {ext : Externals}
    (decodes : ext.decodePostAndVerifyBatch (encodePostbatch batch) = .ok batch) :
    decodeCanonicalPostBatch ext (encodePostbatch batch) = .ok ⟨batch⟩ := by
  simp only [decodeCanonicalPostBatch, bind_eq_ok, mapError_eq_ok, ensure_eq_ok, exists_const, pure_eq_ok]
  exact ⟨batch, decodes, ⟨by simp [encodePostbatch, postAndVerifyBatchSelector], rfl⟩, rfl⟩

theorem claimedDeliveries_profile (keccak : Bytes → B256) (r : NonZeroU64) (pre post : B256) (proofSystem : Address)
    (n : Nat) :
    validatePublicInputStructure keccak (claimedBatch proofSystem 1 (claimedDeliveries keccak r pre post n)) r
      proofSystem = .ok () := by
  set batch := claimedBatch proofSystem 1 (claimedDeliveries keccak r pre post n) with hbatch
  have destinations : checkDestinations r 0 batch.entries = .ok () := checkDestinations_eq_ok.mpr (by
    simp [hbatch, claimedBatch, batchWithEntries, claimedDeliveries, claimedAnchor, claimedDelivery, anchorEntry])
  have leading : leadingImmediateEntries batch.entries = 1 := by
    cases n <;> rfl
  have systems : checkProofSystem keccak batch proofSystem = .ok () := by
    simp [checkProofSystem, hbatch, claimedBatch]
  have assignment : checkRollupAssignment batch r = .ok () := by
    simp [checkRollupAssignment, hbatch, claimedBatch, claimedDeliveries]
  simp only [validatePublicInputStructure, bind_eq_ok, ensure_eq_ok, exists_const]
  exact ⟨(), systems, (), assignment, rfl, (), destinations, rfl, rfl, (by decide : 1 < 2 ^ 64), leading.symm, rfl, rfl,
    rfl⟩

theorem runSettlement_of_binding {ext : Externals} {input : SettlementInput} (started : input.cancelledAtStart = false)
    (decoded : decodeCanonicalPostBatch ext input.submittedPostBatchCalldata = .ok batch)
    (profile : validatePublicInputStructure ext.keccak256 batch.batch input.expectedRollupId
      input.expectedProofSystem = .ok ())
    (chained : verifyStateUpdateChain batch input.expectedRollupId input.validatedWindow.windowPreBlockHash
      input.validatedWindow.windowPostBlockHash = .ok chain)
    (inspected : inspectValidatedSettlingBlock ext input.validatedWindow.settlingBlock input.expectedRollupId =
      .ok observations)
    (preceding : verifyValidatedIntermediateBlocks input.validatedWindow.precedingBlocks = .ok ())
    (binding : bindEffectsToExecution ext.keccak256 chain
      input.validatedWindow.settlingBlock.transactionStateCheckpoints observations = .error error) :
    runSettlement ext input = .error (.effectPrefix error) := by
  simp only [runSettlement, ensure_pos started, decoded, Except.mapError, ok_bind, profile, chained, inspected,
    preceding, binding]
  rfl

theorem pairEndPositions_users {flags : List Bool} (users : ∀ flag ∈ flags, flag = false) :
    pairEndPositions flags = range flags.length := by
  refine filter_eq_self.mpr fun i hi => ?_
  have user := users _ (getElem_mem (mem_range.mp hi))
  rw [List.getD, getElem?_eq_getElem (mem_range.mp hi), user]
  rfl

/-- Over users alone every position is a candidate and no checkpoint is planned, so as
many claimed deliveries as there are users end at the missing checkpoints. -/
theorem runSettlement_internal {ext : Externals} {input : SettlementInput} {recover : EezTxEnvelope → Address}
    (decodes : ∀ batch, ext.decodePostAndVerifyBatch (encodePostbatch batch) = .ok batch)
    (honest : HonestReplay input.expectedL2SystemAddress recover input.validatedWindow.settlingBlock)
    (passes : input.Passes) (users : ¬input.validatedWindow.settlingBlock.decoded.IsSync) :
    ∃ calldata n, runSettlement ext (input.submitting calldata) =
      .error (.effectPrefix (.transactionStateCheckpointCountMismatch n 0)) := by
  set block := input.validatedWindow.settlingBlock with hblock
  obtain ⟨some_tx, noSystem⟩ := not_or.mp users
  have user : ∀ flag ∈ block.decoded.transactions.map isSystemTx, flag = false := by
    intro flag hflag
    obtain ⟨tx, member, rfl⟩ := mem_map.mp hflag
    exact Bool.eq_false_iff.mpr fun native => noSystem ⟨tx, member, native⟩
  have unplanned : block.transactionStateCheckpoints = [] := by
    have plan := honest.checkpoints
    rw [checkpointPlan, if_neg] at plan
    · exact map_eq_nil_iff.mp plan
    · rintro (empty | native)
      · exact some_tx (length_eq_zero_iff.mp empty)
      · cases user true native
  let pre := input.validatedWindow.windowPreBlockHash
  let post := input.validatedWindow.windowPostBlockHash
  let n := block.decoded.transactions.length
  refine ⟨encodePostbatch (claimedBatch input.expectedProofSystem 1
    (claimedDeliveries ext.keccak256 input.expectedRollupId pre post n)), n + 1, ?_⟩
  have inspected : inspectValidatedSettlingBlock ext block input.expectedRollupId =
      .ok ⟨block.flags, candidatesFrom ext input.expectedRollupId 0 block.inspected, block.events⟩ := by
    simp only [inspectValidatedSettlingBlock, bind_eq_ok, inspectTransactions_eq_ok, pure_eq_ok]
    exact ⟨_, ⟨passes.regular, rfl⟩, rfl⟩
  refine runSettlement_of_binding passes.started (decodeCanonicalPostBatch_encode (decodes _))
    (claimedDeliveries_profile _ _ _ _ _ _) (verifyStateUpdateChain_eq_ok.mpr ⟨rfl, rfl, fun v hv => ?_, rfl,
      chained_deliveries _ _ _⟩) inspected passes.preceding ?_
  · rcases mem_cons.mp hv with rfl | hv
    · rfl
    · rw [eq_of_mem_replicate hv]
      rfl
  · have positions : (pairEndPositions block.flags).length = n := by
      rw [honest.flags_native passes.regular, pairEndPositions_users user, length_range, length_map]
    exact unplanned ▸ bindEffectsToExecution_deliveries ext.keccak256 input.expectedRollupId pre post positions

/-- No calldata makes an honest backend be blamed for a window that reaches the
binding exactly when its settling block is a Sync block, and a hint names a
transaction of the settling block or an entry of the batch by its own hash. -/
theorem runSettlement_blames {ext : Externals} {input : SettlementInput} {recover : EezTxEnvelope → Address}
    (honest : HonestReplay input.expectedL2SystemAddress recover input.validatedWindow.settlingBlock)
    (configured : input.expectedProofSystem ≠ 0) :
    ((∀ batch, ext.decodePostAndVerifyBatch (encodePostbatch batch) = .ok batch) →
      input.validatedWindow.settlingBlock.decoded.NoncesLeft →
        ((∀ calldata error, runSettlement ext (input.submitting calldata) = .error error →
            error.status.code ≠ .internal) ↔
          (input.Passes → input.validatedWindow.settlingBlock.decoded.IsSync))) ∧
      ∀ source failure, runSettlement ext input = .error (.actionable source failure) → failure.Names ext input := by
  refine ⟨fun decodes nonces => ⟨fun clear passes => ?_, fun synced calldata error failed => ?_⟩, ?_⟩
  · by_contra users
    obtain ⟨calldata, n, failed⟩ := runSettlement_internal decodes honest passes users
    exact clear calldata _ failed rfl
  · have clear : FailsIn (fun e => NotInternal e.status) (runSettlement ext (input.submitting calldata)) :=
      runSettlement_notInternal honest configured
        (fun passes => synced ⟨passes.started, passes.regular, passes.preceding⟩) nonces
    exact clear error failed
  · intro source failure failed
    exact runSettlement_hints _ failed

def claimedWithdrawal : VerifiedRollupUpdateEntry where
  claimedEntry := { sampleWithdrawal.entry with rollupUpdates := [⟨7, 0, 0x12#256, 0x13#256⟩] }
  claimedUpdate := ⟨7, 0, 0x12#256, 0x13#256⟩
  sole := rfl

def claimedWithdrawals : VerifiedRollupUpdateChain :=
  ⟨7, claimedAnchor Keccak.keccak256 7 0x10#256 0x12#256, [claimedWithdrawal]⟩

def claimedVkey : NonZeroProofSystemVkey := ⟨2, by decide⟩

def claimedInput (block : ValidatedBlock) : SettlementInput where
  submittedPostBatchCalldata := encodePostbatch (claimedBatch 0xab#160 2 claimedWithdrawals)
  validatedWindow := ⟨0x10#256, [], block⟩
  expectedRollupId := sampleRollup
  expectedL2SystemAddress := systemAddress
  proofSystemVkey := claimedVkey
  expectedProofSystem := 0xab#160
  l2ChainId := 1
  cancelledAtStart := false
  cancelledBeforeDa := false

theorem sampleExternals_decodes (batch : EvmBatch) :
    sampleExternals.decodePostAndVerifyBatch (encodePostbatch batch) = .ok batch :=
  canonicalDecoder_encode encodePostbatch_injective batch

theorem claimedWithdrawals_profile : validatePublicInputStructure sampleExternals.keccak256
    (claimedBatch 0xab#160 2 claimedWithdrawals) sampleRollup 0xab#160 = .ok () := by
  rfl

theorem claimedWithdrawals_chain :
    verifyStateUpdateChain ⟨claimedBatch 0xab#160 2 claimedWithdrawals⟩ sampleRollup 0x10#256 0x13#256 =
      .ok claimedWithdrawals := by
  refine verifyStateUpdateChain_eq_ok.mpr ⟨rfl, rfl, ?_, rfl, rfl, rfl⟩
  intro v hv
  rcases mem_cons.mp hv with rfl | hv
  · rfl
  · obtain rfl := mem_singleton.mp hv
    rfl

theorem claimedWithdrawal_shape :
    classifyClaimedEntry Keccak.keccak256 claimedWithdrawal.claimedEntry claimedWithdrawal.claimedUpdate 7 =
      .outbound := by
  rfl

def userBlock : ValidatedBlock where
  hash := 0x13#256
  decoded := ⟨⟨1, 0x10#256, 0xfe#160, []⟩, [.ethereum sampleWithdrawal.tx]⟩
  receiptSuccesses := [true]
  transactionStateCheckpoints := []
  settlementEvidence := ⟨[false], []⟩
  receipts_length := samplePreceding.receipts_length
  flags_length := samplePreceding.flags_length
  events_bounded := by simp
  events_ordered := isChain_no_events
  checkpoints_ordered := isChain_no_checkpoints
  checkpoints_bounded := by simp

/-- The same transaction after a load, its event missing. -/
def silentBlock : ValidatedBlock where
  hash := 0x13#256
  decoded := ⟨⟨1, 0x10#256, 0xfe#160, []⟩, [.system ⟨1, 6, eezl2Address, 0, []⟩, .ethereum sampleWithdrawal.tx]⟩
  receiptSuccesses := [true, true]
  transactionStateCheckpoints := [⟨.preExecution, 0, 0x12#256⟩, ⟨.transaction 1, 0, 0x13#256⟩]
  settlementEvidence := ⟨[true, false], []⟩
  receipts_length := rfl
  flags_length := rfl
  events_bounded := by simp
  events_ordered := isChain_no_events
  checkpoints_ordered := by simp [CheckpointAt.before]
  checkpoints_bounded := by simp

def sampleRecover (tx : EezTxEnvelope) : Address := if isSystemTx tx then systemAddress else 0xcd#160

theorem userBlock_honest : HonestReplay systemAddress sampleRecover userBlock where
  flags := rfl
  native := by decide
  checkpoints := rfl

theorem silentBlock_honest : HonestReplay systemAddress sampleRecover silentBlock where
  flags := rfl
  native := by decide
  checkpoints := rfl

/-- The claimed withdrawal counts against the user transaction, but no checkpoint was
planned for it: the submitter's error is laid on the backend. -/
theorem runSettlement_blames_backend :
    HonestReplay systemAddress sampleRecover userBlock ∧ userBlock.decoded.NoncesLeft ∧
      runSettlement sampleExternals (claimedInput userBlock) =
        .error (.effectPrefix (.transactionStateCheckpointCountMismatch 2 0)) ∧
      (effectPrefix (.transactionStateCheckpointCountMismatch 2 0)).status =
        ⟨.internal, "validation backend returned invalid output"⟩ := by
  have binding : bindEffectsToExecution sampleExternals.keccak256 claimedWithdrawals
      userBlock.transactionStateCheckpoints ⟨[false], [], []⟩ =
        .error (.transactionStateCheckpointCountMismatch 2 0) := by
    simp only [bindEffectsToExecution, classifyTrailing, claimedWithdrawals, sampleExternals, claimedAnchor_shape,
      claimedWithdrawal_shape]
    rfl
  refine ⟨userBlock_honest, ?_, ?_, rfl⟩
  · intro first none
    cases none
  · exact runSettlement_of_binding rfl (decodeCanonicalPostBatch_encode (sampleExternals_decodes _))
      claimedWithdrawals_profile claimedWithdrawals_chain rfl rfl binding

/-- With a load before it no calldata blames the backend, and the same claim is
answered with a hint that names the user transaction. -/
theorem runSettlement_blames_user :
    (∀ calldata error, runSettlement sampleExternals ((claimedInput silentBlock).submitting calldata) = .error error →
      error.status.code ≠ .internal) ∧
      ∃ source failure, runSettlement sampleExternals (claimedInput silentBlock) = .error (.actionable source failure) ∧
        failure.Names sampleExternals (claimedInput silentBlock) := by
  have decoded := decodeCanonicalPostBatch_encode (sampleExternals_decodes (claimedBatch 0xab#160 2 claimedWithdrawals))
  have chain : verifyStateUpdateChain ⟨claimedBatch 0xab#160 2 claimedWithdrawals⟩ sampleRollup 0x10#256
      (ValidatedWindow.windowPostBlockHash ⟨0x10#256, [], silentBlock⟩) = .ok claimedWithdrawals :=
    claimedWithdrawals_chain
  have inspected : inspectValidatedSettlingBlock sampleExternals silentBlock sampleRollup =
      .ok ⟨[true, false], [], []⟩ := rfl
  have binding : bindEffectsToExecution sampleExternals.keccak256 claimedWithdrawals
      silentBlock.transactionStateCheckpoints ⟨[true, false], [], []⟩ = .ok [⟨1, 1, .outbound, claimedWithdrawal⟩] := by
    simp only [bindEffectsToExecution, classifyTrailing, claimedWithdrawals, sampleExternals, claimedAnchor_shape,
      claimedWithdrawal_shape]
    rfl
  have failed : runSettlement sampleExternals (claimedInput silentBlock) =
      .error (.actionable (.outboundEffects (.missingObservation 1 1))
        (.outbound 1 (b256Bytes (Keccak.keccak256 (EezTxEnvelope.encoded2718 (.ethereum sampleWithdrawal.tx)))))) := by
    simp only [runSettlement, claimedInput, decoded, Except.mapError, ok_bind, ensure_pos, claimedWithdrawals_profile,
      chain, inspected, verifyValidatedIntermediateBlocks, binding]
    rfl
  have sync : silentBlock.decoded.IsSync := .inr ⟨_, mem_cons_self, rfl⟩
  have nonces : silentBlock.decoded.NoncesLeft := by
    intro first found
    obtain rfl := Option.some.inj found
    decide
  have configured : (claimedInput silentBlock).expectedProofSystem ≠ 0 := by decide
  obtain ⟨clear, named⟩ := @runSettlement_blames sampleExternals _ _ silentBlock_honest configured
  exact ⟨(clear sampleExternals_decodes nonces).mpr fun _ => sync, _, _, failed, named _ _ failed⟩

end Eez.Signer
