import EezRollup.Codec.RoundTrip
import EezRollup.Signer.Composed
import EezRollup.Signer.Settled

/-! A window and a batch as an honest composer and an honest re-execution make them, for any calls
in either direction. -/
open List
namespace Eez.Signer
open BoundEffect
open StateCheckpoint
open SystemTransaction
open OutboundCall
open Octets Outcome Codec

/-- What inspection returns for a settling block it does not refuse. -/
def observationsOf (ext : Externals) (r : NonZeroU64) (block : ValidatedBlock) : SettlingBlockObservations :=
  ⟨block.flags, candidatesFrom ext r 0 block.inspected, block.events⟩

theorem inspectValidatedSettlingBlock_eq_ok : inspectValidatedSettlingBlock ext block r = .ok o ↔
      (∀ t ∈ block.inspected, t.Regular) ∧ o = observationsOf ext r block := by
  simp only [inspectValidatedSettlingBlock, bind_eq_ok, inspectTransactions_eq_ok, pure_eq_ok]
  constructor
  · rintro ⟨_, ⟨regular, rfl⟩, rfl⟩
    exact ⟨regular, rfl⟩
  · rintro ⟨regular, rfl⟩
    exact ⟨_, ⟨regular, rfl⟩, rfl⟩

def ValidatedBlock.spanBlock (block : ValidatedBlock) (published : List Bytes) : SpanBlock :=
  ⟨block.decoded.header.beneficiary, block.decoded.header.extraData, published⟩

/-- An honest composition over a window, and the evidence of an honest
re-execution of it. -/
structure HonestSettlement (ext : Externals) where
  rollup : NonZeroU64
  systemAddress : Address
  l2ChainId : UInt64
  window : ValidatedWindow
  outbound : List (OutboundCall rollup systemAddress)
  inbound : List (InboundCall ext.keccak256 rollup)
  /-- The reserved sender's nonce in the parent state. -/
  nonce : UInt64
  pairs : List SyncPair
  actions : List Action
  payload : Bytes
  /-- The batch fields no gate below reads. -/
  template : EvmBatch
  batch : EvmBatch
  -- the blocks
  plain : ∀ block ∈ window.precedingBlocks, firstPrivileged block = none ∧ block.events = []
  pairs_built : buildCrossChainSyncPairs ext.keccak256 (systemTransactionReconstructor l2ChainId rollup)
    (outbound.map fun c => (c.entry, c.userTx)) (inbound.map InboundCall.sidecar) nonce = .ok pairs
  interleaved : window.settlingBlock.decoded.encodedTransactions = interleaveSyncBlockTxs pairs
  -- the re-execution
  flags : window.settlingBlock.flags = window.settlingBlock.decoded.transactions.map isSystemTx
  deliveries_succeed : ∀ t ∈ window.settlingBlock.inspected,
    isInboundCandidate t.isSystemSender t.tx = true → t.succeeded = true
  events : Forall₂ (fun x o => o.transactionIndex = x.1 ∧ o.decodedEvent = some (x.2.event ext.keccak256))
    ((userPositions outbound.length).zip outbound) window.settlingBlock.events
  checkpoints : window.settlingBlock.transactionStateCheckpoints.map position =
    checkpointPlan window.settlingBlock.decoded
  /-- The candidate over the whole block is the block. -/
  sealed : (window.settlingBlock.transactionStateCheckpoints.map blockHash).getLast? = some window.settlingBlock.hash
  decodes : ∀ call, ext.decodeExecuteIncoming (encodeExecuteIncomingCall call) = .ok call
  -- the batch
  actions_projected : (outbound.map entry ++ inbound.map InboundCall.sidecar).mapM
    (fun entry => actionFromEntry entry rollup) = .ok actions
  payload_encoded : encodeContainer rollup
    ((window.precedingBlocks.map fun block => block.spanBlock block.decoded.encodedTransactions) ++
      [window.settlingBlock.spanBlock (outbound.map userTx)]) actions = .ok payload
  finalized : finalizeL1RollingHashes ext.keccak256 { template with
    entries := stitch rollup window.windowPreBlockHash
      ((buildL1SettlementOnly rollup).entries ++ outbound.map entry ++ inbound.flatMap InboundCall.deferred)
      (0 :: (outbound.map delta ++ inbound.map InboundCall.delta))
      (window.settlingBlock.transactionStateCheckpoints.map blockHash)
    callData := payload } = .ok batch

theorem interleaveSyncBlockTxs_blockPairs (keccak : Bytes → B256) (cfg : SystemTxContext) (n : UInt64)
    (outbound : List (ExecutionEntrySol × Bytes)) (incoming : List IncomingEntry) :
    interleaveSyncBlockTxs (blockPairs keccak cfg n outbound incoming) =
      framedList (((loads keccak cfg n (outbound.map Prod.fst)).map encoded2718).zip
        (outbound.map Prod.snd))
        ((deliveries keccak cfg (n + UInt64.ofNat outbound.length) incoming).map
          encoded2718) := by
  rw [interleaveSyncBlockTxs, blockPairs, loadPairs, flatMap_append, flatMap_map, flatMap_map,
    framedList, zip_map_left, flatMap_map]
  congr 1
  exact map_eq_flatMap.symm

theorem systems_of_encoded {txs : List EezTxEnvelope} {systems : List SystemTransaction}
    (h : txs.map EezTxEnvelope.encoded2718 = systems.map encoded2718) :
    txs = systems.map EezTxEnvelope.system := by
  induction systems generalizing txs with
  | nil => exact map_eq_nil_iff.mp h
  | cons system systems ih =>
    obtain ⟨tx, txs, rfl, first, others⟩ := map_eq_cons_iff.mp h
    rw [EezTxEnvelope.eq_system_of_encoded2718 first, ih others, map_cons]

/-- A block whose wire form is framed holds native loads and deliveries around
signed user transactions. -/
theorem envelopes_of_framed {txs : List EezTxEnvelope} {loads deliveries : List SystemTransaction}
    {users : List Bytes} (length : loads.length = users.length)
    (plain : ∀ user ∈ users, user.head? ≠ some systemTxType)
    (h : txs.map EezTxEnvelope.encoded2718 = framedList ((loads.map encoded2718).zip users)
      (deliveries.map encoded2718)) :
    ∃ signed : List TransactionSigned, signed.length = users.length ∧
      txs = framedList ((loads.map EezTxEnvelope.system).zip (signed.map EezTxEnvelope.ethereum))
        (deliveries.map EezTxEnvelope.system) := by
  induction loads generalizing txs users with
  | nil =>
    obtain rfl := length_eq_zero_iff.mp length.symm
    exact ⟨[], rfl, systems_of_encoded h⟩
  | cons load loads ih =>
    obtain ⟨user, users, rfl⟩ := exists_cons_of_length_eq_add_one length.symm
    rw [map_cons, zip_cons_cons, framedList_cons] at h
    obtain ⟨first, rest, rfl, hfirst, h⟩ := map_eq_cons_iff.mp h
    obtain ⟨second, rest, rfl, hsecond, h⟩ := map_eq_cons_iff.mp h
    obtain ⟨signed, count, hrest⟩ := ih (Nat.succ.inj length)
      (fun user huser => plain user (mem_cons_of_mem _ huser)) h
    cases second with
    | system tx =>
      change _ = user at hsecond
      refine absurd ?_ (plain user mem_cons_self)
      rw [← hsecond]
      rfl
    | ethereum tx =>
      refine ⟨tx :: signed, congrArg Nat.succ count, ?_⟩
      rw [EezTxEnvelope.eq_system_of_encoded2718 hfirst, hrest]
      rfl

theorem map_isSystemTx_framed {loads deliveries : List SystemTransaction} {signed : List TransactionSigned}
    (length : signed.length = loads.length) :
    (framedList ((loads.map EezTxEnvelope.system).zip (signed.map EezTxEnvelope.ethereum))
      (deliveries.map EezTxEnvelope.system)).map isSystemTx = framedFlags loads.length deliveries.length := by
  induction loads generalizing signed with
  | nil =>
    obtain rfl := length_eq_zero_iff.mp length
    simp only [map_nil, zip_nil_left, framedList, flatMap_nil, nil_append, map_map]
    refine eq_replicate_iff.mpr ⟨length_map _, ?_⟩
    intro flag hflag
    obtain ⟨_, _, rfl⟩ := mem_map.mp hflag
    rfl
  | cons load loads ih =>
    obtain ⟨tx, signed, rfl⟩ := exists_cons_of_length_eq_add_one length
    rw [map_cons, map_cons, zip_cons_cons, framedList_cons, map_cons, map_cons,
      ih (Nat.succ.inj length), length_cons, framedFlags_succ]
    rfl

section
variable {ext : Externals} {r : NonZeroU64}

theorem candidatesFrom_skip {t : InspectedTransaction} (h : isInboundCandidate t.isSystemSender t.tx = false) :
    candidatesFrom ext r i (t :: ts) = candidatesFrom ext r (i + 1) ts := by
  simp [candidatesFrom, zipIdx_cons, h]

theorem candidatesFrom_framed {i : Nat} {pairs : List (InspectedTransaction × InspectedTransaction)}
    {rest : List InspectedTransaction}
    (h : ∀ p ∈ pairs, isInboundCandidate p.1.isSystemSender p.1.tx = false ∧
      isInboundCandidate p.2.isSystemSender p.2.tx = false) :
    candidatesFrom ext r i (framedList pairs rest) = candidatesFrom ext r (i + 2 * pairs.length) rest := by
  induction pairs generalizing i with
  | nil => rfl
  | cons p pairs ih =>
    obtain ⟨⟨load, user⟩, others⟩ := forall_mem_cons.mp h
    rw [framedList_cons, candidatesFrom_skip load, candidatesFrom_skip user, ih others, length_cons]
    congr 1
    omega

theorem candidatesFrom_deliveries {i : Nat} {ts : List InspectedTransaction} {observations : List InboundObservation}
    (h : Forall₂ (fun t o => isInboundCandidate t.isSystemSender t.tx = true ∧
      inspectInboundCandidate ext t.tx.value t.tx.input t.succeeded r = .ok o) ts observations) :
    candidatesFrom ext r i ts = ((List.range' i observations.length).zip observations).map fun x =>
      AuthorizedInboundEffect.candidate ⟨x.1, x.2⟩ := by
  induction h generalizing i with
  | nil => rfl
  | cons first _ ih =>
    obtain ⟨candidate, inspected⟩ := first
    rw [length_cons, range'_succ, zip_cons_cons, map_cons, ← ih]
    simp [candidatesFrom, zipIdx_cons, candidate, inspected, AuthorizedInboundEffect.candidate]

end

def place (kind : EffectKind) : Nat → List Nat → List VerifiedRollupUpdateEntry → List BoundEffect
  | i, p :: ps, v :: vs => ⟨i, p, kind, v⟩ :: place kind (i + 1) ps vs
  | _, _, _ => []

section
variable (kind : EffectKind)

theorem place_projections {ps : List Nat} {vs : List VerifiedRollupUpdateEntry} (i : Nat)
    (length : ps.length = vs.length) :
    (place kind i ps vs).map claim = vs ∧ (place kind i ps vs).map entryIndex = List.range' i vs.length ∧
      (place kind i ps vs).map transactionIndex = ps ∧
      ∀ e ∈ place kind i ps vs, e.kind = kind := by
  induction vs generalizing ps i with
  | nil =>
    obtain rfl := length_eq_zero_iff.mp length
    exact ⟨rfl, rfl, rfl, by simp [place]⟩
  | cons v vs ih =>
    obtain ⟨p, ps, rfl⟩ := exists_cons_of_length_eq_add_one length
    obtain ⟨claims, indexes, positions, kinds⟩ := ih (i + 1) (Nat.succ.inj length)
    refine ⟨congrArg₂ _ rfl claims, ?_, congrArg₂ _ rfl positions, forall_mem_cons.mpr ⟨rfl, kinds⟩⟩
    rw [length_cons, range'_succ, ← indexes]
    rfl

theorem place_forall₂ {α : Type} {R} {ps : List Nat} {xs : List α} {vs} (i : Nat) (length : ps.length = xs.length)
    (h : Forall₂ R xs vs) :
    Forall₂ (fun x e => x.1 = e.transactionIndex ∧ R x.2 e.claim) (ps.zip xs) (place kind i ps vs) := by
  induction h generalizing ps i with
  | nil =>
    obtain rfl := length_eq_zero_iff.mp length
    exact .nil
  | cons related _ ih =>
    obtain ⟨p, ps, rfl⟩ := exists_cons_of_length_eq_add_one length
    exact .cons ⟨rfl, related⟩ (ih (i + 1) (Nat.succ.inj length))

end

namespace HonestSettlement
variable {ext : Externals} (s : HonestSettlement ext)

def context : SystemTxContext := systemTransactionReconstructor s.l2ChainId s.rollup

def incoming : List IncomingEntry := s.inbound.map InboundCall.incoming

def loadTxs : List SystemTransaction := loads ext.keccak256 s.context s.nonce (s.outbound.map entry)

def deliveryTxs : List SystemTransaction :=
  deliveries ext.keccak256 s.context (s.nonce + UInt64.ofNat s.outbound.length) s.incoming

theorem sidecars_eq : s.inbound.map InboundCall.sidecar = s.incoming.map (sidecarEntry ext.keccak256) := by
  rw [incoming, map_map]
  exact map_congr_left fun c _ => c.sidecar_eq

theorem encodedTransactions_eq : s.window.settlingBlock.decoded.encodedTransactions =
    framedList ((s.loadTxs.map encoded2718).zip (s.outbound.map userTx))
      (s.deliveryTxs.map encoded2718) := by
  have built := s.pairs_built
  rw [s.sidecars_eq] at built
  obtain ⟨_, _, hpairs⟩ := (buildCrossChainSyncPairs_eq_blockPairs ext.keccak256 rfl
    (fun i hi => by obtain ⟨c, _, rfl⟩ := mem_map.mp hi; exact c.incomingFor.deliverable)
    (fun i hi => by obtain ⟨c, _, rfl⟩ := mem_map.mp hi; rfl)).mp built
  rw [s.interleaved, hpairs, interleaveSyncBlockTxs_blockPairs, map_map, map_map, length_map]
  rfl

theorem transactions_eq : ∃ signed : List TransactionSigned, signed.length = s.outbound.length ∧
    s.window.settlingBlock.decoded.transactions =
      framedList ((s.loadTxs.map EezTxEnvelope.system).zip (signed.map EezTxEnvelope.ethereum))
        (s.deliveryTxs.map EezTxEnvelope.system) := by
  have framed := s.encodedTransactions_eq
  have users : ∀ user ∈ s.outbound.map userTx, user.head? ≠ some systemTxType := by
    intro user huser
    obtain ⟨c, _, rfl⟩ := mem_map.mp huser
    obtain ⟨first, head, ne⟩ := c.tx.encoded_head?
    rw [userTx, head]
    exact fun same => ne (Option.some.inj same)
  obtain ⟨signed, count, h⟩ := envelopes_of_framed (by simp [loadTxs]) users framed
  exact ⟨signed, by rw [count, length_map], h⟩

theorem flags_eq : s.window.settlingBlock.flags = framedFlags s.outbound.length s.inbound.length := by
  obtain ⟨signed, count, htxs⟩ := s.transactions_eq
  rw [s.flags, htxs, map_isSystemTx_framed (by simp [loadTxs, count])]
  simp [loadTxs, deliveryTxs, incoming]

theorem inspected_sender : ∀ t ∈ s.window.settlingBlock.inspected, t.isSystemSender = isSystemTx t.tx := by
  intro t ht
  obtain ⟨⟨⟨tx, flag⟩, succeeded⟩, hmem, rfl⟩ := mem_map.mp ht
  have pair := (of_mem_zip hmem).1
  rw [s.flags, zip_map_right, mem_map] at pair
  obtain ⟨⟨a, b⟩, hab, heq⟩ := pair
  obtain ⟨rfl, rfl⟩ := Prod.mk.inj heq
  have same : a = b := by
    rw [mem_iff_getElem] at hab
    obtain ⟨i, hi, hab⟩ := hab
    rw [getElem_zip] at hab
    obtain ⟨rfl, rfl⟩ := Prod.mk.inj hab
    rfl
  rw [same]
  rfl

theorem system_target {tx} (h : tx ∈ s.window.settlingBlock.decoded.transactions) (system : isSystemTx tx = true) :
    tx.toAddress = some eezl2Address := by
  obtain ⟨signed, count, htxs⟩ := s.transactions_eq
  rw [htxs] at h
  rcases mem_append.mp h with h | h
  · obtain ⟨pair, hpair, h⟩ := mem_flatMap.mp h
    obtain ⟨load, user⟩ := of_mem_zip hpair
    rcases mem_pair.mp h with rfl | rfl
    · obtain ⟨load, hload, heq⟩ := mem_map.mp load
      obtain ⟨n, entry, _, rfl⟩ := mem_loads _ _ hload
      rw [← heq]
      rfl
    · obtain ⟨signed, _, heq⟩ := mem_map.mp user
      rw [← heq] at system
      cases system
  · obtain ⟨delivery, hdelivery, rfl⟩ := mem_map.mp h
    have made := deliveries_forall₂ ext.keccak256 s.context (s.nonce + UInt64.ofNat s.outbound.length) s.incoming
    obtain ⟨i, _, n, rfl⟩ := forall₂_exists_right made delivery hdelivery
    rfl

def authorized : List AuthorizedInboundEffect :=
  ((deliveryPositions s.outbound.length s.inbound.length).zip s.inbound).map fun x => ⟨x.1, x.2.observation⟩

theorem deliver_inspected (ht : t ∈ s.window.settlingBlock.inspected) {c : InboundCall ext.keccak256 s.rollup}
    (h : t.tx = .system (deliveryTransaction ext.keccak256 s.context n c.incoming)) :
    isInboundCandidate t.isSystemSender t.tx = true ∧
      inspectInboundCandidate ext t.tx.value t.tx.input t.succeeded s.rollup = .ok c.observation := by
  have candidate : isInboundCandidate t.isSystemSender t.tx = true := by
    rw [s.inspected_sender t ht, h]
    rfl
  refine ⟨candidate, inspectInboundCandidate_eq_ok.mpr ⟨s.deliveries_succeed t ht candidate, c.incoming,
    c.incomingFor, ?_, ?_, ?_, c.observes⟩⟩
  · rw [h]
    rfl
  · rw [h]
    rfl
  · rw [h]
    exact s.decodes _

theorem candidates_eq : candidatesFrom ext s.rollup 0 s.window.settlingBlock.inspected =
    s.authorized.map AuthorizedInboundEffect.candidate := by
  obtain ⟨signed, count, htxs⟩ := s.transactions_eq
  have lengths : s.window.settlingBlock.inspected.length = 2 * s.outbound.length + s.inbound.length := by
    have flags := congrArg List.length s.flags_eq
    rw [framedFlags_length] at flags
    rw [← flags, ← length_map InspectedTransaction.tx, s.window.settlingBlock.inspected_tx]
    exact s.window.settlingBlock.flags_length.symm
  obtain ⟨pairs, rest, hpairs, hrest, hinspected⟩ := exists_framedList _ _ _ lengths
  have framed := s.window.settlingBlock.inspected_tx
  rw [hinspected, htxs, framedList_map] at framed
  obtain ⟨pairTxs, restTxs⟩ := framedList_inj (by simp [hpairs, loadTxs, count]) framed
  have member : ∀ t, t ∈ framedList pairs rest → t ∈ s.window.settlingBlock.inspected := by
    intro t ht
    rwa [hinspected]
  have noCandidates : ∀ p ∈ pairs, isInboundCandidate p.1.isSystemSender p.1.tx = false ∧
      isInboundCandidate p.2.isSystemSender p.2.tx = false := by
    intro p hp
    have first : p.1 ∈ framedList pairs rest :=
      mem_append_left _ (mem_flatMap.mpr ⟨p, hp, mem_cons_self⟩)
    have second : p.2 ∈ framedList pairs rest :=
      mem_append_left _ (mem_flatMap.mpr ⟨p, hp, mem_cons_of_mem _ mem_cons_self⟩)
    have txs := mem_map_of_mem (f := Prod.map InspectedTransaction.tx InspectedTransaction.tx) hp
    rw [pairTxs] at txs
    obtain ⟨load, user⟩ := of_mem_zip txs
    obtain ⟨system, hsystem, hload⟩ := mem_map.mp load
    obtain ⟨tx, _, huser⟩ := mem_map.mp user
    change EezTxEnvelope.system system = p.1.tx at hload
    change EezTxEnvelope.ethereum tx = p.2.tx at huser
    rw [s.inspected_sender _ (member _ first), s.inspected_sender _ (member _ second), ← hload, ← huser]
    obtain ⟨n, entry, _, rfl⟩ := mem_loads _ _ hsystem
    exact ⟨rfl, rfl⟩
  have delivered : Forall₂ (fun t o => isInboundCandidate t.isSystemSender t.tx = true ∧
      inspectInboundCandidate ext t.tx.value t.tx.input t.succeeded s.rollup = .ok o) rest
      (s.inbound.map InboundCall.observation) := by
    have made : Forall₂ (fun tx c => ∃ n, tx = deliveryTransaction ext.keccak256 s.context n c.incoming)
        s.deliveryTxs s.inbound := by
      have each := deliveries_forall₂ ext.keccak256 s.context (s.nonce + UInt64.ofNat s.outbound.length) s.incoming
      rwa [incoming, forall₂_map_right_iff] at each
    have carried : Forall₂ (fun tx t => t.tx = EezTxEnvelope.system tx) s.deliveryTxs rest := by
      have same : Forall₂ (· = ·) (s.deliveryTxs.map EezTxEnvelope.system) (rest.map InspectedTransaction.tx) := by
        rw [restTxs]
        exact forall₂_refl _
      rw [forall₂_map_left_iff, forall₂_map_right_iff] at same
      exact same.imp fun _ _ h => h.symm
    rw [forall₂_map_right_iff]
    have inside : ∀ t ∈ rest, t ∈ s.window.settlingBlock.inspected := fun t ht =>
      member t (mem_append_right _ ht)
    refine ((forall₂_and_left _ _).mpr ⟨inside, forall₂_join carried made⟩).imp ?_
    rintro t c ⟨ht, _, _, htx, n, rfl⟩
    exact s.deliver_inspected ht htx
  rw [hinspected, candidatesFrom_framed noCandidates, candidatesFrom_deliveries delivered, authorized,
    deliveryPositions,
    hpairs, length_map, range'_eq_map_range, Nat.zero_add, zip_map_right, map_map, map_map]
  rfl

theorem checkpointPositions : s.window.settlingBlock.transactionStateCheckpoints.map position =
    .preExecution :: (pairEndPositions s.window.settlingBlock.flags).map .transaction := by
  have opens : s.window.settlingBlock.decoded.transactions.length = 0 ∨
      true ∈ s.window.settlingBlock.decoded.transactions.map isSystemTx := by
    rw [← s.flags, s.flags_eq, ← s.window.settlingBlock.flags_length]
    change s.window.settlingBlock.flags.length = 0 ∨ _
    rw [s.flags_eq, framedFlags_length]
    by_cases empty : 2 * s.outbound.length + s.inbound.length = 0
    · exact .inl empty
    · refine .inr (mem_iff_getElem?.mpr ⟨0, ?_⟩)
      rw [framedFlags_getElem?]
      by_cases calls : 0 < 2 * s.outbound.length
      · rw [if_pos calls]
        rfl
      · rw [if_neg calls, if_pos (by omega)]
  rw [s.checkpoints, checkpointPlan, if_pos opens, s.flags]

theorem checkpoints_length :
    s.window.settlingBlock.transactionStateCheckpoints.length = s.outbound.length + s.inbound.length + 1 := by
  have positions := congrArg List.length s.checkpointPositions
  simpa only [length_map, length_cons, s.flags_eq, pairEndPositions_framedFlags, length_append,
    userPositions_length, deliveryPositions_length] using positions

theorem batch_eq : s.batch.callData = s.payload ∧ s.batch.entries = (stitch s.rollup s.window.windowPreBlockHash
      (anchorEntry s.rollup :: (s.outbound.map entry ++ s.inbound.map fun c => deferredEntry ext.keccak256 c.incoming))
      (0 :: (s.outbound.map delta ++ s.inbound.map InboundCall.delta))
      (s.window.settlingBlock.transactionStateCheckpoints.map blockHash)).map
        (ExecutionEntrySol.finalized ext.keccak256) := by
  obtain ⟨_, _, hbatch⟩ := finalizeL1RollingHashes_eq_ok.mp s.finalized
  have deferred : s.inbound.flatMap InboundCall.deferred =
      s.inbound.map fun c => deferredEntry ext.keccak256 c.incoming := by
    rw [map_eq_flatMap]
    exact flatMap_congr fun c _ => c.deferred_eq
  rw [hbatch, deferred, buildL1SettlementOnly_entries]
  exact ⟨rfl, rfl⟩

structure Claimed (leading : VerifiedRollupUpdateEntry) (outs ins : List VerifiedRollupUpdateEntry) : Prop where
  entries : s.batch.entries = (leading :: (outs ++ ins)).map VerifiedRollupUpdateEntry.claimedEntry
  newRoots : ((leading :: (outs ++ ins)).map fun v => v.claimedUpdate.newRoot) =
    s.window.settlingBlock.transactionStateCheckpoints.map blockHash
  chained : Chained s.window.windowPreBlockHash (leading :: (outs ++ ins)) s.window.settlingBlock.hash
  anchor : Finalizes ext.keccak256 s.rollup (anchorEntry s.rollup) 0 leading
  outbound : Forall₂ (fun (c : OutboundCall s.rollup s.systemAddress) v =>
    Finalizes ext.keccak256 s.rollup c.entry c.delta v) s.outbound outs
  inbound : Forall₂ (fun (c : InboundCall ext.keccak256 s.rollup) v =>
    Finalizes ext.keccak256 s.rollup (deferredEntry ext.keccak256 c.incoming) c.delta v) s.inbound ins

theorem exists_claimed : ∃ leading outs ins, s.Claimed leading outs ins := by
  obtain ⟨vs, claimed, newRoots, chained, finalizes⟩ := stitch_claims ext.keccak256 s.rollup
    s.window.windowPreBlockHash
    (anchorEntry s.rollup :: (s.outbound.map entry ++ s.inbound.map fun c => deferredEntry ext.keccak256 c.incoming))
    (0 :: (s.outbound.map delta ++ s.inbound.map InboundCall.delta))
    (s.window.settlingBlock.transactionStateCheckpoints.map blockHash)
    (by simp) (by simp [s.checkpoints_length])
  rw [zip_cons_cons] at finalizes
  obtain ⟨leading, vs, anchor, others, rfl⟩ := forall₂_cons_left_iff.mp finalizes
  rw [zip_append (by simp)] at others
  obtain ⟨outs, ins, houts, hins, rfl⟩ := forall₂_append_left others
  rw [zip_map'] at houts hins
  rw [forall₂_map_left_iff] at houts hins
  refine ⟨leading, outs, ins, ?_, newRoots, ?_, anchor, houts, hins⟩
  · rw [s.batch_eq.2, claimed]
  · rwa [getLastD_eq_getLast?, s.sealed] at chained

def outEffects (outs : List VerifiedRollupUpdateEntry) : List BoundEffect :=
  place .outbound 1 (userPositions s.outbound.length) outs

def inEffects (ins : List VerifiedRollupUpdateEntry) : List BoundEffect :=
  place .inbound (s.outbound.length + 1) (deliveryPositions s.outbound.length s.inbound.length) ins

section
variable {s} {leading : VerifiedRollupUpdateEntry} {outs ins : List VerifiedRollupUpdateEntry}
  (claimed : s.Claimed leading outs ins)
include claimed

theorem Claimed.outs_length : (userPositions s.outbound.length).length = outs.length := by
  rw [userPositions_length, claimed.outbound.length_eq]

theorem Claimed.ins_length : (deliveryPositions s.outbound.length s.inbound.length).length = ins.length := by
  rw [deliveryPositions_length, claimed.inbound.length_eq]

theorem Claimed.outEffects_forall₂ :
    Forall₂ (fun x e => x.1 = e.transactionIndex ∧ Finalizes ext.keccak256 s.rollup x.2.entry x.2.delta e.claim)
      ((userPositions s.outbound.length).zip s.outbound) (s.outEffects outs) :=
  place_forall₂ .outbound 1 (userPositions_length _) claimed.outbound

theorem Claimed.inEffects_forall₂ : Forall₂ (fun x e => x.1 = e.transactionIndex ∧
        Finalizes ext.keccak256 s.rollup (deferredEntry ext.keccak256 x.2.incoming) x.2.delta e.claim)
      ((deliveryPositions s.outbound.length s.inbound.length).zip s.inbound) (s.inEffects ins) :=
  place_forall₂ .inbound (s.outbound.length + 1) (deliveryPositions_length _ _) claimed.inbound

theorem Claimed.bound : Bound ext.keccak256 ⟨s.rollup, leading, outs ++ ins⟩
    s.window.settlingBlock.transactionStateCheckpoints s.window.settlingBlock.flags
    (s.outEffects outs ++ s.inEffects ins) := by
  obtain ⟨outClaims, outIndexes, outPositions, outKinds⟩ := place_projections .outbound 1 claimed.outs_length
  obtain ⟨inClaims, inIndexes, inPositions, inKinds⟩ := place_projections .inbound (s.outbound.length + 1)
    claimed.ins_length
  have outLength := congrArg List.length outClaims
  have inLength := congrArg List.length inClaims
  rw [length_map] at outLength inLength
  have ends : pairEndPositions s.window.settlingBlock.flags =
      userPositions s.outbound.length ++ deliveryPositions s.outbound.length s.inbound.length := by
    rw [s.flags_eq, pairEndPositions_framedFlags]
  have kinds : ∀ e ∈ s.outEffects outs ++ s.inEffects ins,
      e.kind = observedKind s.window.settlingBlock.flags e.transactionIndex := by
    intro e he
    rw [s.flags_eq]
    rcases mem_append.mp he with he | he
    · have position := mem_map_of_mem (f := transactionIndex) he
      rw [outEffects, outPositions] at position
      have observed := mem_map_of_mem
        (f := observedKind (framedFlags s.outbound.length s.inbound.length)) position
      rw [observedKind_userPositions] at observed
      rw [outKinds e he, eq_of_mem_replicate observed]
    · have position := mem_map_of_mem (f := transactionIndex) he
      rw [inEffects, inPositions] at position
      have observed := mem_map_of_mem
        (f := observedKind (framedFlags s.outbound.length s.inbound.length)) position
      rw [observedKind_deliveryPositions] at observed
      rw [inKinds e he, eq_of_mem_replicate observed]
  have shapes : ∀ e ∈ s.outEffects outs ++ s.inEffects ins,
      classifyClaimedEntry ext.keccak256 e.claimedEntry e.claimedStateUpdate s.rollup = e.kind.claimedShape := by
    intro e he
    rcases mem_append.mp he with he | he
    · obtain ⟨_, _, _, finalizes⟩ := forall₂_exists_right claimed.outEffects_forall₂.flip e he
      rw [outKinds e he]
      exact finalizes.outbound_shape
    · obtain ⟨_, _, _, finalizes⟩ := forall₂_exists_right claimed.inEffects_forall₂.flip e he
      rw [inKinds e he]
      exact finalizes.inbound_shape
  refine ⟨claimed.anchor.anchor, claimed.anchor.delta, ?_, ?_, ?_, kinds, shapes, s.checkpointPositions,
    claimed.newRoots.symm⟩
  · rw [map_append]
    exact congrArg₂ _ outClaims inClaims
  · rw [map_append, outEffects, inEffects, outIndexes, inIndexes, length_append, outLength, inLength,
      ← range'_append_1, ← claimed.outbound.length_eq, Nat.add_comm 1]
  · rw [map_append, ends]
    exact congrArg₂ _ outPositions inPositions

theorem Claimed.calls : CallsMatch ext.keccak256 s.rollup s.systemAddress s.window.settlingBlock.flags
    (s.outEffects outs ++ s.inEffects ins) (s.outEffects outs) (s.inEffects ins) s.window.settlingBlock.events := by
  obtain ⟨_, _, outPositions, outKinds⟩ := place_projections .outbound 1 claimed.outs_length
  obtain ⟨_, _, _, inKinds⟩ := place_projections .inbound (s.outbound.length + 1) claimed.ins_length
  refine ⟨rfl, outKinds, inKinds, ?_, ?_⟩
  · intro e he
    have position := mem_map_of_mem (f := transactionIndex) he
    rw [outEffects, outPositions] at position
    obtain ⟨j, hj, hposition⟩ := mem_map.mp position
    have inside := mem_range.mp hj
    refine precedingSystemPosition_eq_some.mpr ⟨by omega, ?_⟩
    rw [s.flags_eq, framedFlags_getElem?, if_pos (by omega), ← hposition, Nat.add_sub_cancel, Nat.mul_mod_right]
    rfl
  · refine (forall₂_join claimed.outEffects_forall₂ s.events).imp ?_
    rintro e o ⟨⟨position, c⟩, _, ⟨hposition, finalizes⟩, hevent, event⟩
    exact ⟨hevent.trans hposition, _, finalizes.settlesCall event⟩

theorem Claimed.delivered : Forall₂ (fun e b => b.transactionIndex = e.transactionIndex ∧
    SettlesDelivery ext.keccak256 s.rollup e.claim b.observation) (s.inEffects ins) s.authorized := by
  rw [authorized, forall₂_map_right_iff]
  refine claimed.inEffects_forall₂.flip.imp ?_
  rintro e x ⟨position, finalizes⟩
  exact ⟨position, finalizes.settlesDelivery⟩

end

end HonestSettlement

end Eez.Signer
