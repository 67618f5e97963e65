import EezRollup.Signer.Inspection

/-! Claimed effects are bound to candidate positions and checkpoints of the settling block, then
authorized by one forward merge per direction. -/
namespace Eez.Signer
open Octets Outcome

inductive ClaimedEntryShape where
  | anchor | outbound | inbound | invalid
  deriving DecidableEq

inductive EffectKind where
  | outbound | inbound
  deriving DecidableEq

def EffectKind.claimedShape : EffectKind → ClaimedEntryShape
  | .outbound => .outbound
  | .inbound => .inbound

structure BoundEffect where
  entryIndex : Nat
  transactionIndex : Nat
  kind : EffectKind
  claim : VerifiedRollupUpdateEntry

def BoundEffect.claimedEntry (e : BoundEffect) : ExecutionEntrySol := e.claim.claimedEntry

def BoundEffect.claimedStateUpdate (e : BoundEffect) : RollupUpdateSol := e.claim.claimedUpdate

inductive EffectPrefixError where
  | leadingEntryNotAnchor (actual : ClaimedEntryShape)
  | laterAnchor (entryIndex : Nat)
  | invalidEntry (entryIndex : Nat)
  | effectCountMismatch (claimed observed : Nat)
  | anchorRootMismatch (emptyPrefixHash claimedAnchorRoot : B256)
  | anchorCheckpointPositionMismatch (actual : CheckpointAt)
  | transactionStateCheckpointCountMismatch (expected actual : Nat)
  | transactionStateCheckpointIndexMismatch (checkpointIndex expected : Nat) (actual : CheckpointAt)
  | effectKindMismatch (entryIndex transactionIndex : Nat) (claimed : ClaimedEntryShape) (observed : EffectKind)
  | effectCandidateMismatch (entryIndex transactionIndex : Nat) (recomputedCandidate claimedCandidate : B256)
  | nonZeroAnchorEtherDelta (claimed : I192)

def classifyClaimedEntry (keccak : Bytes → B256) (entry : ExecutionEntrySol) (update : RollupUpdateSol)
    (settledRollup : UInt64) : ClaimedEntryShape :=
  if entry.success = false ∨ entry.expectedL1ToL2Calls ≠ [] then .invalid
  else if entry.proxyEntryHash ≠ 0 then
    if entry.l2ToL1Calls = [] then .inbound else .invalid
  else
    match entry.l2ToL1Calls with
    | [call] =>
      if call.revertNextNCalls = 0 ∧ call.isStatic = false ∧ call.gas = 0 then .outbound else .invalid
    | _ :: _ :: _ => .invalid
    | [] =>
      let expectedAnchorHash := seedForL1 keccak [(update.rollupId, update.currentRoot)] 0
      if entry.destinationRollupId = settledRollup ∧ entry.returnData = [] ∧
          entry.rollingHash = expectedAnchorHash then .anchor
      else .invalid

/-- The fields that tell the shapes apart. -/
def ClaimedEntryShape.Admits : ClaimedEntryShape → ExecutionEntrySol → Prop
  | .anchor, entry => entry.proxyEntryHash = 0 ∧ entry.l2ToL1Calls = []
  | .outbound, entry => entry.proxyEntryHash = 0 ∧ ∃ call, entry.l2ToL1Calls = [call]
  | .inbound, entry => entry.proxyEntryHash ≠ 0 ∧ entry.l2ToL1Calls = []
  | .invalid, _ => True

theorem classifyClaimedEntry_admits (keccak : Bytes → B256) (entry : ExecutionEntrySol) (update : RollupUpdateSol)
    (r : UInt64) : (classifyClaimedEntry keccak entry update r).Admits entry := by
  unfold classifyClaimedEntry
  split
  · trivial
  · split
    · rename_i nonzero
      split
      · exact ⟨nonzero, ‹_›⟩
      · trivial
    · rename_i zero
      split
      · split
        · exact ⟨not_not.mp zero, _, ‹_›⟩
        · trivial
      · trivial
      · dsimp only
        split
        · exact ⟨not_not.mp zero, ‹_›⟩
        · trivial

structure ClaimedEffect where
  entryIndex : Nat
  kind : EffectKind
  claim : VerifiedRollupUpdateEntry

def classifyTrailing (keccak : Bytes → B256) (settledRollup : UInt64) :
    Nat → List VerifiedRollupUpdateEntry → Except EffectPrefixError (List ClaimedEffect)
  | _, [] => .ok []
  | i, v :: rest =>
    match classifyClaimedEntry keccak v.claimedEntry v.claimedUpdate settledRollup with
    | .anchor => .error (.laterAnchor i)
    | .invalid => .error (.invalidEntry i)
    | .outbound => do
      let effects ← classifyTrailing keccak settledRollup (i + 1) rest
      return ⟨i, .outbound, v⟩ :: effects
    | .inbound => do
      let effects ← classifyTrailing keccak settledRollup (i + 1) rest
      return ⟨i, .inbound, v⟩ :: effects

def observedKind (flags : List Bool) (transactionIndex : Nat) : EffectKind :=
  if flags.getD transactionIndex false then .inbound else .outbound

/-- One claim, position and checkpoint at a time; the three lists have one length. -/
def bindEffects (flags : List Bool) : Nat → List ClaimedEffect → List Nat → List StateCheckpoint →
    Except EffectPrefixError (List BoundEffect)
  | k, c :: claims, position :: positions, checkpoint :: checkpoints => do
    let observed := observedKind flags position
    ensure (c.kind = observed) (.effectKindMismatch c.entryIndex position c.kind.claimedShape observed)
    ensure (checkpoint.position = .transaction position)
      (.transactionStateCheckpointIndexMismatch k position checkpoint.position)
    ensure (c.claim.claimedUpdate.newRoot = checkpoint.blockHash)
      (.effectCandidateMismatch c.entryIndex position checkpoint.blockHash c.claim.claimedUpdate.newRoot)
    let rest ← bindEffects flags (k + 1) claims positions checkpoints
    return ⟨c.entryIndex, position, c.kind, c.claim⟩ :: rest
  | _, _, _, _ => .ok []

def bindEffectsToExecution (keccak : Bytes → B256) (chain : VerifiedRollupUpdateChain)
    (checkpoints : List StateCheckpoint) (observations : SettlingBlockObservations) :
    Except EffectPrefixError (List BoundEffect) := do
  let anchorUpdate := chain.leading.claimedUpdate
  let leadingKind := classifyClaimedEntry keccak chain.leading.claimedEntry anchorUpdate chain.expectedRollup
  ensure (leadingKind = .anchor) (.leadingEntryNotAnchor leadingKind)
  let claims ← classifyTrailing keccak chain.expectedRollup 1 chain.trailing
  let positions := observations.effectCandidatePositions
  ensure (claims.length = positions.length) (.effectCountMismatch claims.length positions.length)
  ensure (anchorUpdate.etherDelta = 0) (.nonZeroAnchorEtherDelta anchorUpdate.etherDelta)
  ensure (checkpoints.length = positions.length + 1)
    (.transactionStateCheckpointCountMismatch (positions.length + 1) checkpoints.length)
  match checkpoints with
  | [] => throw (.transactionStateCheckpointCountMismatch (positions.length + 1) 0)
  | anchorCheckpoint :: effectCheckpoints =>
    ensure (anchorCheckpoint.position = .preExecution)
      (.anchorCheckpointPositionMismatch anchorCheckpoint.position)
    ensure (anchorUpdate.newRoot = anchorCheckpoint.blockHash)
      (.anchorRootMismatch anchorCheckpoint.blockHash anchorUpdate.newRoot)
    bindEffects observations.systemSenderFlags 0 claims positions effectCheckpoints

inductive InboundEffectError where
  | missingCandidate (entryIndex transactionIndex : Nat)
  | unexpectedCandidate (transactionIndex : Nat)
  | invalidObservation (entryIndex transactionIndex : Nat) (source : InboundObservationError)
  | invalidEntryShape (entryIndex : Nat) (field : String)
  | destinationRollupMismatch (entryIndex : Nat) (expected actual : UInt64)
  | callHashMismatch (entryIndex : Nat) (recomputed claimed : B256)
  | returnDataMismatch (entryIndex : Nat)
  | valueOutOfRange (entryIndex transactionIndex : Nat) (value : U256)
  | etherDeltaMismatch (entryIndex : Nat) (expected actual : I192)

/-- The batch entry whose positioned delivery reverted. -/
def InboundEffectError.poisonedEntryIndex : InboundEffectError → Option Nat
  | .invalidObservation entryIndex _ .revertedTransaction => some entryIndex
  | _ => none

structure AuthorizedInboundEffect where
  transactionIndex : Nat
  observation : InboundObservation

section
variable (keccak : Bytes → B256) (expectedRollupId : NonZeroU64)

def authorizeInboundEffect (effect : BoundEffect) (observation : InboundObservation) :
    Except InboundEffectError Unit := do
  let i := effect.entryIndex
  let entry := effect.claimedEntry
  let update := effect.claimedStateUpdate
  ensure (entry.destinationRollupId = expectedRollupId)
    (.destinationRollupMismatch i expectedRollupId entry.destinationRollupId)
  ensure (entry.proxyEntryHash = observation.recomputedCallHash)
    (.callHashMismatch i observation.recomputedCallHash entry.proxyEntryHash)
  ensure (entry.returnData = observation.returnData) (.returnDataMismatch i)
  ensure (entry.rollingHash = seedForL1 keccak [(update.rollupId, update.currentRoot)] entry.proxyEntryHash)
    (.invalidEntryShape i "rollingHash")
  let expected ← require (u256ToI192 observation.value)
    (.valueOutOfRange i effect.transactionIndex observation.value)
  ensure (update.etherDelta = expected) (.etherDeltaMismatch i expected update.etherDelta)

/-- Effects and candidates both ascend by position, so one merge suffices. -/
def authorizeInboundEffects :
    List BoundEffect → List InboundCandidate → Except InboundEffectError (List AuthorizedInboundEffect)
  | [], [] => .ok []
  | [], candidate :: _ => .error (.unexpectedCandidate candidate.transactionIndex)
  | effect :: effects, candidates =>
    match effect.kind, candidates with
    | .outbound, [] => authorizeInboundEffects effects []
    | .outbound, candidate :: rest =>
      if candidate.transactionIndex ≤ effect.transactionIndex then
        .error (.unexpectedCandidate candidate.transactionIndex)
      else authorizeInboundEffects effects (candidate :: rest)
    | .inbound, [] => .error (.missingCandidate effect.entryIndex effect.transactionIndex)
    | .inbound, candidate :: rest =>
      if candidate.transactionIndex < effect.transactionIndex then
        .error (.unexpectedCandidate candidate.transactionIndex)
      else if candidate.transactionIndex ≠ effect.transactionIndex then
        .error (.missingCandidate effect.entryIndex effect.transactionIndex)
      else do
        let observation ← candidate.inspection.mapError
          (.invalidObservation effect.entryIndex effect.transactionIndex)
        authorizeInboundEffect keccak expectedRollupId effect observation
        let bindings ← authorizeInboundEffects effects rest
        return ⟨effect.transactionIndex, observation⟩ :: bindings

end

inductive OutboundEffectError where
  | missingPrecedingSystemTransaction (entryIndex transactionIndex : Nat)
  | nonCanonicalEffectOrder (entryIndex transactionIndex : Nat)
  | missingObservation (entryIndex transactionIndex : Nat)
  | unexpectedObservation (transactionIndex receiptLogIndex : Nat)
  | malformedObservation (transactionIndex receiptLogIndex : Nat)
  | unsupportedCallGas (transactionIndex receiptLogIndex : Nat) (actual : UInt64)
  | l2ToL1CallCount (entryIndex actual : Nat)
  | destinationRollupMismatch (entryIndex : Nat) (expected actual : UInt64)
  | sourceRollupMismatch (entryIndex : Nat) (expected actual : UInt64)
  | callHashMismatch (entryIndex transactionIndex : Nat) (recomputed observed : B256)
  | nonCanonicalReturnData (entryIndex : Nat)
  | reservedSourceAddress (entryIndex : Nat)
  | valueOutOfRange (entryIndex : Nat) (value : U256)
  | etherDeltaMismatch (entryIndex : Nat) (expected actual : I192)

/-- The user transaction responsible for an observation failure. -/
def OutboundEffectError.poisonedTransactionIndex : OutboundEffectError → Option Nat
  | .missingObservation _ transactionIndex => some transactionIndex
  | .malformedObservation transactionIndex _ => some transactionIndex
  | .unsupportedCallGas transactionIndex _ _ => some transactionIndex
  | _ => none

structure AuthorizedOutboundEffect where
  loadTransactionIndex : Nat
  transactionIndex : Nat
  baseDaEntry : ExecutionEntrySol
  pendingRollingHash : B256
  claimedRollingHash : B256

def AuthorizedOutboundEffect.derivedDaEntry (e : AuthorizedOutboundEffect) (returnData : Bytes) :
    ExecutionEntrySol :=
  { e.baseDaEntry with returnData }

/-- The recomputed hash is the error. -/
def AuthorizedOutboundEffect.bindReturnData (keccak : Bytes → B256) (e : AuthorizedOutboundEffect)
    (returnData : Bytes) : Except B256 Unit :=
  let recomputed := callEnd keccak e.pendingRollingHash e.baseDaEntry.success returnData
  ensure (recomputed = e.claimedRollingHash) recomputed

def unexpectedOutboundObservation (o : OutboundEventObservation) : OutboundEffectError :=
  .unexpectedObservation o.transactionIndex o.receiptLogIndex

section
variable (keccak : Bytes → B256) (expectedRollupId : NonZeroU64) (expectedL2SystemAddress : Address)

/-- The hash an outbound call is observed and committed under. -/
def outboundCallHash (call : L2ToL1CallSol) (callGas : UInt64) : B256 :=
  l2OutboundCallHash keccak ⟨.mutable, call.sourceAddress, expectedRollupId, call.targetAddress, mainnet,
    call.value, call.data⟩ callGas

def authorizeOutboundEffect (effect : BoundEffect) (observation : OutboundEventObservation) :
    Except OutboundEffectError B256 := do
  let i := effect.entryIndex
  let entry := effect.claimedEntry
  let update := effect.claimedStateUpdate
  match entry.l2ToL1Calls with
  | [call] =>
    ensure (entry.destinationRollupId = expectedRollupId)
      (.destinationRollupMismatch i expectedRollupId entry.destinationRollupId)
    ensure (call.sourceRollupId = expectedRollupId)
      (.sourceRollupMismatch i expectedRollupId call.sourceRollupId)
    let event ← require observation.decodedEvent
      (.malformedObservation observation.transactionIndex observation.receiptLogIndex)
    ensure (event.callGas = 0)
      (.unsupportedCallGas observation.transactionIndex observation.receiptLogIndex event.callGas)
    let recomputed := outboundCallHash keccak expectedRollupId call event.callGas
    ensure (event.callHash = recomputed)
      (.callHashMismatch i observation.transactionIndex recomputed event.callHash)
    ensure (entry.returnData = []) (.nonCanonicalReturnData i)
    let seed := seedForL1 keccak [(update.rollupId, update.currentRoot)] entry.proxyEntryHash
    ensure (call.sourceAddress ≠ expectedL2SystemAddress) (.reservedSourceAddress i)
    let released ← require (u256ToI192 call.value) (.valueOutOfRange i call.value)
    ensure (update.etherDelta = -released) (.etherDeltaMismatch i (-released) update.etherDelta)
    return callBegin keccak seed recomputed
  | calls => throw (.l2ToL1CallCount i calls.length)

/-- The position right before an effect, if a system transaction holds it. -/
def precedingSystemPosition (flags : List Bool) (transactionIndex : Nat) : Option Nat :=
  match transactionIndex with
  | 0 => none
  | load + 1 => if flags[load]? = some true then some load else none

/-- One transaction may emit only one event. -/
def refuseRepeated (transactionIndex : Nat) : List OutboundEventObservation → Except OutboundEffectError Unit
  | next :: _ => ensure (next.transactionIndex ≠ transactionIndex) (unexpectedOutboundObservation next)
  | [] => .ok ()

def authorizeOutboundLoop (flags : List Bool) : Bool → List BoundEffect → List OutboundEventObservation →
    Except OutboundEffectError (List AuthorizedOutboundEffect)
  | _, [], [] => .ok []
  | _, [], observation :: _ => .error (unexpectedOutboundObservation observation)
  | sawInbound, effect :: effects, observations =>
    match effect.kind, observations with
    | .inbound, [] => authorizeOutboundLoop flags true effects []
    | .inbound, observation :: rest =>
      if observation.transactionIndex ≤ effect.transactionIndex then
        .error (unexpectedOutboundObservation observation)
      else authorizeOutboundLoop flags true effects (observation :: rest)
    | .outbound, [] => do
      ensure (sawInbound = false) (.nonCanonicalEffectOrder effect.entryIndex effect.transactionIndex)
      let _ ← require (precedingSystemPosition flags effect.transactionIndex)
        (.missingPrecedingSystemTransaction effect.entryIndex effect.transactionIndex)
      throw (.missingObservation effect.entryIndex effect.transactionIndex)
    | .outbound, observation :: rest => do
      ensure (effect.transactionIndex ≤ observation.transactionIndex)
        (unexpectedOutboundObservation observation)
      ensure (sawInbound = false) (.nonCanonicalEffectOrder effect.entryIndex effect.transactionIndex)
      let load ← require (precedingSystemPosition flags effect.transactionIndex)
        (.missingPrecedingSystemTransaction effect.entryIndex effect.transactionIndex)
      ensure (observation.transactionIndex = effect.transactionIndex)
        (.missingObservation effect.entryIndex effect.transactionIndex)
      refuseRepeated effect.transactionIndex rest
      let pending ← authorizeOutboundEffect keccak expectedRollupId expectedL2SystemAddress effect
        observation
      let bindings ← authorizeOutboundLoop flags sawInbound effects rest
      return {
        loadTransactionIndex := load
        transactionIndex := effect.transactionIndex
        baseDaEntry := { effect.claimedEntry with rollupUpdates := [], rollingHash := 0 }
        pendingRollingHash := pending
        claimedRollingHash := effect.claimedEntry.rollingHash } :: bindings

def authorizeOutboundEffects (flags : List Bool) (effects : List BoundEffect)
    (observations : List OutboundEventObservation) :
    Except OutboundEffectError (List AuthorizedOutboundEffect) :=
  authorizeOutboundLoop keccak expectedRollupId expectedL2SystemAddress flags false effects observations

end

end Eez.Signer
