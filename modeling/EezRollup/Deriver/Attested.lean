import EezRollup.Deriver.Resume
import EezRollup.Signer.Framed

/-! On every payload the signer accepts, the deriver gets the signer's window back. -/
open List
namespace Eez.Deriver
open Octets Outcome Codec Signer

section
variable {keccak : Bytes → B256} {cfg : SystemTxContext} {ref : BatchRef}

theorem rebuildEntriesFrom_eq_ok : rebuildEntriesFrom keccak cfg ref i actions = .ok entries ↔
      Forall₂ (fun action entry => entryFromAction keccak action cfg.thisRollupId = .ok entry) actions
        entries := by
  induction actions generalizing i entries with
  | nil =>
    simp only [rebuildEntriesFrom, Except.ok.injEq, forall₂_nil_left_iff]
    exact eq_comm
  | cons action actions ih =>
    simp only [rebuildEntriesFrom, bind_eq_ok, mapError_eq_ok, ih, pure_eq_ok, forall₂_cons_left_iff]
    constructor
    · rintro ⟨entry, hentry, rest, hrest, rfl⟩
      exact ⟨entry, rest, hentry, hrest, rfl⟩
    · rintro ⟨entry, rest, hentry, hrest, rfl⟩
      exact ⟨entry, hentry, rest, hrest, rfl⟩

theorem rebuiltDirections_eq_ok
    (rebuilt : Forall₂ (fun action entry => entryFromAction keccak action cfg.thisRollupId = .ok entry) actions
      (outbound ++ inbound))
    (calls : ∀ entry ∈ outbound ++ inbound, entry.l2ToL1Calls ≠ [])
    (outward : ∀ entry ∈ outbound, entry.proxyEntryHash = 0) (inward : ∀ entry ∈ inbound, entry.proxyEntryHash ≠ 0) :
    rebuiltDirections keccak cfg ref actions = .ok (outbound, inbound) := by
  have kept : (outbound ++ inbound).filter (fun e => e.l2ToL1Calls ≠ []) = outbound ++ inbound :=
    filter_eq_self.mpr fun e he => decide_eq_true (calls e he)
  have outs : (outbound ++ inbound).filter (fun e => e.proxyEntryHash = 0) = outbound := by
    rw [filter_append, filter_eq_self.mpr fun e he => decide_eq_true (outward e he),
      filter_eq_nil_iff.mpr fun e he h => inward e he (of_decide_eq_true h), append_nil]
  have ins : (outbound ++ inbound).filter (not ∘ fun e => e.proxyEntryHash = 0) = inbound := by
    rw [filter_append, filter_eq_nil_iff.mpr fun e he h => ?_, filter_eq_self.mpr fun e he => ?_, nil_append]
    · simpa using inward e he
    · simp [outward e he] at h
  simp only [rebuiltDirections, rebuildEntriesFrom_eq_ok.mpr rebuilt, ok_bind, kept,
    partition_eq_filter_filter, outs, ins]
  rfl

end

theorem blockSlices_append
    (h : counts.map UInt32.toNat = blocks.map List.length) (others : List UInt32) (rest : List RawTx) :
    blockSlices (counts ++ others) (blocks.flatten ++ rest) = blocks ++ blockSlices others rest := by
  induction blocks generalizing counts with
  | nil =>
    obtain rfl := map_eq_nil_iff.mp h
    rfl
  | cons block blocks ih =>
    obtain ⟨count, counts, rfl, first, h⟩ := map_eq_cons_iff.mp h
    rw [cons_append, blockSlices, first, flatten_cons, append_assoc, take_left, drop_left, ih h, cons_append]

def contents (block : ValidatedBlock) : List Bytes × BlockHeaderInputs :=
  (block.decoded.encodedTransactions, ⟨block.decoded.header.beneficiary, block.decoded.header.extraData⟩)

theorem fromSpan_contents {span} {blocks : List ValidatedBlock}
    (beneficiaries : span.beneficiaries.drop i = blocks.map fun block => block.decoded.header.beneficiary)
    (extraData : span.extraData.drop i = blocks.map fun block => block.decoded.header.extraData) :
    Forall₂ (fun (slice : List Bytes × Nat) block =>
      (do let header ← BlockHeaderInputs.fromSpan span slice.2; return (slice.1, header)) = Except.ok block)
      ((blocks.map fun block => block.decoded.encodedTransactions).zipIdx i) (blocks.map contents) := by
  induction blocks generalizing i with
  | nil => exact .nil
  | cons block blocks ih =>
    have beneficiary := congrArg List.head? beneficiaries
    have extra := congrArg List.head? extraData
    rw [head?_drop] at beneficiary extra
    refine .cons ?_ (ih ?_ ?_)
    · simp only [BlockHeaderInputs.fromSpan, beneficiary, extra, map_cons, head?_cons, ok_bind]
      rfl
    · rw [← drop_drop, beneficiaries]
      rfl
    · rw [← drop_drop, extraData]
      rfl

end Eez.Deriver

namespace Eez.Signer.Settled
open Octets Outcome Codec Deriver

variable {ext : Externals} {input : SettlementInput} (s : Settled ext input)

theorem span_slices : (blockSlices s.container.span.blockTxCounts s.container.span.transactions).dropLast =
    input.validatedWindow.precedingBlocks.map fun block => block.decoded.encodedTransactions := by
  obtain ⟨counts, last, hcounts, preceding, final⟩ := map_eq_append_iff.mp s.published.counts
  obtain ⟨count, rfl, _⟩ := map_eq_singleton_iff.mp final
  have lengths : counts.map UInt32.toNat =
      (input.validatedWindow.precedingBlocks.map fun block => block.decoded.encodedTransactions).map List.length := by
    rw [preceding, map_map]
    exact map_congr_left fun block _ => (length_map _).symm
  rw [hcounts, s.published.transactions, encodedAll, flatMap_def, blockSlices_append lengths]
  exact dropLast_concat

theorem span_users : syncUserTxs s.container.span = s.users := by
  have last : (s.container.span.blockTxCounts.getLast?.map UInt32.toNat) = some s.pairs.length := by
    rw [← getLast?_map, s.published.counts, getLast?_concat]
  rw [syncUserTxs, last, s.published.transactions, Option.getD_some, length_append, length_map,
    Nat.add_sub_cancel, drop_left]
  rfl

/-- The deriver's split of the published actions is the signer's. -/
theorem directions (ref : BatchRef) :
    rebuiltDirections ext.keccak256 (systemTransactionReconstructor input.l2ChainId input.expectedRollupId) ref
      s.container.actions = .ok (s.entries, s.sidecars) := by
  obtain ⟨incoming, hincoming, allIncoming⟩ := s.sidecars_incoming
  have inward : ∀ entry ∈ s.sidecars, entry.proxyEntryHash ≠ 0 ∧ entry.l2ToL1Calls ≠ [] := by
    rw [hincoming]
    intro entry hentry
    obtain ⟨i, hi, rfl⟩ := mem_map.mp hentry
    exact ⟨(allIncoming i hi).callHash_ne_zero, cons_ne_nil _ _⟩
  refine rebuiltDirections_eq_ok ?_ ?_ (fun entry h => (s.entries_outward h).1) (fun entry h => (inward entry h).1)
  · rw [s.published.actions.split, sidecars]
    refine rel_append s.published.actions.rebuilt ?_
    rw [forall₂_map_right_iff]
    exact s.published.actions.delivered
  · intro entry hentry
    rcases mem_append.mp hentry with h | h
    · obtain ⟨call, sole⟩ := (s.entries_outward h).2
      rw [sole]
      exact cons_ne_nil _ _
    · exact (inward entry h).2

include s in
theorem find?_system (h : input.validatedWindow.settlingBlock.decoded.transactions.head? = some first) :
    input.validatedWindow.settlingBlock.decoded.transactions.find? isSystemTx = some first := by
  obtain ⟨rest, htxs⟩ := head?_eq_some_iff.mp h
  have flags := s.flags_eq
  have txs := input.validatedWindow.settlingBlock.inspected_tx
  rw [← input.validatedWindow.settlingBlock.inspected_flag] at flags
  rw [htxs] at txs ⊢
  obtain ⟨t, ts, hinspected, rfl, rfl⟩ := map_eq_cons_iff.mp txs
  have system : t.isSystemSender = true := by
    rw [hinspected] at flags
    have opening := congrArg (fun l => l[0]?) flags
    simp only [map_cons, getElem?_cons_zero, framedFlags_getElem?] at opening
    split at opening
    · exact Option.some.inj opening
    · split at opening
      · exact Option.some.inj opening
      · cases opening
  have native := (s.regular t (hinspected ▸ mem_cons_self)).native system
  rw [find?_cons_of_pos native.1]

section
variable {nonce : UInt64}
  (parent : ∀ tx, input.validatedWindow.settlingBlock.decoded.transactions.find? isSystemTx = some tx →
    tx.nonce = nonce)

include parent in
theorem rebuilt : ∃ built,
    buildCrossChainSyncPairs ext.keccak256 (systemTransactionReconstructor input.l2ChainId input.expectedRollupId)
      (s.entries.zip s.users) s.sidecars nonce = .ok built ∧
    interleaveSyncBlockTxs built = input.validatedWindow.settlingBlock.decoded.encodedTransactions := by
  by_cases effects : (s.outs.map (BoundEffect.authorized ext.keccak256)).length + s.deliveries.length = 0
  · have outs : s.entries = [] := by
      refine length_eq_zero_iff.mp ?_
      rw [s.entries_length, ← length_map (BoundEffect.authorized ext.keccak256)]
      omega
    have ins : s.sidecars = [] := by
      refine length_eq_zero_iff.mp ?_
      rw [sidecars, length_map]
      omega
    have empty : input.validatedWindow.settlingBlock.decoded.encodedTransactions = [] := by
      refine length_eq_zero_iff.mp ?_
      rw [s.layout.transactions, framedList_length, s.pairs_length, s.rest_length, s.delivered.length_eq,
        ← length_map (BoundEffect.authorized ext.keccak256)]
      omega
    refine ⟨[], ?_, empty.symm⟩
    rw [outs, ins, zip_nil_left]
    rfl
  · obtain ⟨first, built, head, hbuilt, same⟩ := s.published.rebuilt effects
    rw [parent first (s.find?_system head)] at hbuilt
    exact ⟨built, hbuilt, same⟩

end

end Eez.Signer.Settled

namespace Eez.Deriver
open Octets Outcome Codec Signer

/-- What the signer accepts, the deriver rebuilds from the payload alone. -/
theorem runSettlement_derivable {ext : Externals} {input : SettlementInput} {hash : B256} (ref : BatchRef)
    {nonce : UInt64} (h : runSettlement ext input = .ok hash)
    (parent : ∀ tx, input.validatedWindow.settlingBlock.decoded.transactions.find? isSystemTx = some tx →
      tx.nonce = nonce) :
    ∃ batch container outbound inbound pairs,
      decodeCanonicalPostBatch ext input.submittedPostBatchCalldata = .ok ⟨batch⟩ ∧
      decodeContainer batch.callData = .ok container ∧
      container.rollupId = input.expectedRollupId ∧
      container.span.blockCount = input.validatedWindow.blocks.length ∧
      rebuiltDirections ext.keccak256 (systemTransactionReconstructor input.l2ChainId input.expectedRollupId) ref
        container.actions = .ok (outbound, inbound) ∧
      buildCrossChainSyncPairs ext.keccak256
        (systemTransactionReconstructor input.l2ChainId input.expectedRollupId)
        (outbound.zip (syncUserTxs container.span)) inbound nonce = .ok pairs ∧
      interleaveSyncBlockTxs pairs ++ (syncUserTxs container.span).drop outbound.length =
        input.validatedWindow.settlingBlock.decoded.encodedTransactions ∧
      rangeBlocks container.span
        (interleaveSyncBlockTxs pairs ++ (syncUserTxs container.span).drop outbound.length) =
          .ok (input.validatedWindow.blocks.map contents) := by
  obtain ⟨s⟩ := runSettlement_settled h
  obtain ⟨built, hbuilt, same⟩ := s.rebuilt parent
  have whole : interleaveSyncBlockTxs built ++ s.users.drop s.entries.length =
      input.validatedWindow.settlingBlock.decoded.encodedTransactions := by
    rw [drop_of_length_le (by rw [s.users_length, s.entries_length]), append_nil, same]
  have consistent := decodeContainer_consistent s.payload
  refine ⟨s.batch, s.container, s.entries, s.sidecars, built, s.decoded, s.payload, s.published.rollupId, ?_,
    s.directions ref, ?_, ?_, ?_⟩
  · rw [s.published.blockCount, ValidatedWindow.blocks, length_append, length_singleton]
  · rw [s.span_users]
    exact hbuilt
  · rw [s.span_users]
    exact whole
  · rw [s.span_users, whole, rangeBlocks, s.span_slices, mapM_eq_ok, ValidatedWindow.blocks]
    have headers := fromSpan_contents (i := 0) (s.published.beneficiaries consistent)
      (s.published.extraData consistent)
    rwa [map_append] at headers

theorem sampleSettling_nonce : ∀ tx, sampleSettling.decoded.transactions.find? isSystemTx = some tx → tx.nonce = 6 := by
  intro tx h
  have opening : sampleSettling.decoded.transactions.find? isSystemTx =
      some (.system (loadTransaction Keccak.keccak256 sampleContext 6 sampleWithdrawal.entry)) := rfl
  obtain rfl := Option.some.inj (opening.symm.trans h)
  rfl

theorem derivable_sample : ∃ batch container outbound inbound pairs,
    decodeCanonicalPostBatch sampleExternals sampleSubmission.input.submittedPostBatchCalldata = .ok ⟨batch⟩ ∧
    decodeContainer batch.callData = .ok container ∧ container.rollupId = 7 ∧ container.span.blockCount = 2 ∧
    rebuiltDirections Keccak.keccak256 sampleContext ⟨1, 0⟩ container.actions = .ok (outbound, inbound) ∧
    buildCrossChainSyncPairs Keccak.keccak256 sampleContext (outbound.zip (syncUserTxs container.span)) inbound 6 =
      .ok pairs ∧
    interleaveSyncBlockTxs pairs ++ (syncUserTxs container.span).drop outbound.length =
      sampleSettling.decoded.encodedTransactions ∧
    rangeBlocks container.span (interleaveSyncBlockTxs pairs ++ (syncUserTxs container.span).drop outbound.length) =
      .ok [contents samplePreceding, contents sampleSettling] := by
  obtain ⟨_, accepted⟩ := sampleSubmission.run_ok
  exact runSettlement_derivable ⟨1, 0⟩ accepted sampleSettling_nonce

/-- Entries `0` to `m` with their roles, as L1 reports them when it applied
exactly these. -/
def appliedThrough (entries : List ExecutionEntrySol) (rollupId : UInt64) (m : Nat) : List AppliedEntry :=
  (List.range (m + 1)).filterMap fun i => ((entryRoles entries rollupId)[i]?.join).map (AppliedEntry.mk i)

def sealedCount : CheckpointAt → Nat
  | .preExecution => 0
  | .transaction index => index + 1

theorem entryRolesFrom_outbound
    (h : ∀ e ∈ entries, updatesRollup r e = true ∧ e.proxyEntryHash = 0 ∧ e.l2ToL1Calls ≠ [])
    (rest : List ExecutionEntrySol) (o i : Nat) :
    entryRolesFrom r o i (entries ++ rest) = (List.range' o entries.length).map (fun k => some (.outbound k)) ++
        entryRolesFrom r (o + entries.length) i rest := by
  induction entries generalizing o with
  | nil => rfl
  | cons e entries ih =>
    obtain ⟨⟨updates, zero, calls⟩, others⟩ := forall_mem_cons.mp h
    rw [cons_append, entryRolesFrom, if_neg (by simp [updates]), if_neg (by simp [zero]), if_neg calls,
      ih others, length_cons, range'_succ, Nat.add_right_comm, Nat.add_assoc]
    rfl

theorem entryRolesFrom_inbound (h : ∀ e ∈ entries, updatesRollup r e = true ∧ e.proxyEntryHash ≠ 0) (o i : Nat) :
    entryRolesFrom r o i entries = (List.range' i entries.length).map fun k => some (.inbound k) := by
  induction entries generalizing i with
  | nil => rfl
  | cons e entries ih =>
    obtain ⟨⟨updates, nonzero⟩, others⟩ := forall_mem_cons.mp h
    rw [entryRolesFrom, if_neg (by simp [updates]), if_pos nonzero, ih others, length_cons, range'_succ]
    rfl

/-- A candidate sealed at the `m`-th pair end of a framed block holds the first
`m` effects. -/
theorem sealedCount_framed
    (h : (CheckpointAt.preExecution :: (pairEndPositions (framedFlags k n)).map .transaction)[m]? = some position) :
    sealedCount position = 2 * min m k + (m - k) := by
  rw [pairEndPositions_framedFlags] at h
  cases m with
  | zero =>
    obtain rfl := Option.some.inj h
    simp [sealedCount]
  | succ m =>
    rw [getElem?_cons_succ, getElem?_map, Option.map_eq_some_iff] at h
    obtain ⟨i, hi, rfl⟩ := h
    rw [sealedCount]
    rcases Nat.lt_or_ge m k with user | delivery
    · rw [getElem?_append_left (by rwa [userPositions_length])] at hi
      simp only [userPositions, getElem?_map, getElem?_range user, Option.map_some, Option.some.injEq] at hi
      omega
    · rw [getElem?_append_right (by rwa [userPositions_length]), userPositions_length] at hi
      obtain ⟨j, hj, rfl⟩ := Option.map_eq_some_iff.mp (getElem?_map ▸ hi)
      have same := (List.getElem?_eq_some_iff.mp hj).2
      rw [getElem_range] at same
      omega

end Eez.Deriver

namespace Eez.Signer.Settled
open Octets Outcome Codec Deriver

variable {ext : Externals} {input : SettlementInput} (s : Settled ext input)

theorem updates (h : e ∈ s.outs ++ s.ins) : updatesRollup input.expectedRollupId e.claimedEntry = true := by
  have trailing : e.claim ∈ s.chain.leading :: s.chain.trailing := by
    rw [← s.bound.claims]
    exact mem_cons_of_mem _ (mem_map_of_mem h)
  rw [BoundEffect.claimedEntry, updatesRollup, e.claim.sole]
  simp [s.updated _ trailing]

theorem roles : entryRoles s.batch.entries input.expectedRollupId =
    some .anchor :: ((List.range' 0 s.outs.length).map (fun k => some (.outbound k)) ++
      (List.range' 0 s.ins.length).map fun k => some (.inbound k)) := by
  have leading : updatesRollup input.expectedRollupId s.anchor = true := by
    rw [anchor, updatesRollup, s.chain.leading.sole]
    simp [s.updated _ mem_cons_self]
  have anchored : ClaimedEntryShape.anchor.Admits s.anchor := by
    rw [← s.bound.anchor]
    exact classifyClaimedEntry_admits _ _ _ _
  have outs : ∀ e ∈ s.outbound, updatesRollup input.expectedRollupId e = true ∧ e.proxyEntryHash = 0 ∧
      e.l2ToL1Calls ≠ [] := by
    intro entry hentry
    obtain ⟨e, he, rfl⟩ := mem_map.mp hentry
    obtain ⟨zero, call, sole⟩ := s.admits_out he
    exact ⟨s.updates (mem_append_left _ he), zero, by rw [sole]; exact cons_ne_nil _ _⟩
  have ins : ∀ e ∈ s.inbound, updatesRollup input.expectedRollupId e = true ∧ e.proxyEntryHash ≠ 0 := by
    intro entry hentry
    obtain ⟨e, he, rfl⟩ := mem_map.mp hentry
    exact ⟨s.updates (mem_append_right _ he), (s.admits_in he).1⟩
  rw [s.entries_eq, entryRoles, entryRolesFrom, if_neg (by simp [leading]), if_neg (not_not.mpr anchored.1),
    if_pos anchored.2, entryRolesFrom_outbound outs, entryRolesFrom_inbound ins, outbound, inbound, length_map,
    length_map]

theorem appliedThrough_eq (hm : m ≤ s.outs.length + s.ins.length) :
    appliedThrough s.batch.entries input.expectedRollupId m = [⟨0, .anchor⟩] ++ effectsApplied s.outs.length 0 m := by
  have effect : ∀ i ∈ List.range m, (((entryRoles s.batch.entries input.expectedRollupId)[i + 1]?.join).map
      (AppliedEntry.mk (i + 1))) = some ⟨i + 1, effectRole s.outs.length i⟩ := by
    intro i hi
    have inside := mem_range.mp hi
    rw [s.roles, getElem?_cons_succ, effectRole]
    rcases Nat.lt_or_ge i s.outs.length with first | second
    · rw [getElem?_append_left (by simpa using first), if_pos first]
      simp [first]
    · rw [getElem?_append_right (by simpa using second), if_neg (Nat.not_lt.mpr second)]
      have rest : i - s.outs.length < s.ins.length := by omega
      simp [rest]
  have effects : (List.range m).filterMap ((fun i => ((entryRoles s.batch.entries input.expectedRollupId)[i]?.join).map
      (AppliedEntry.mk i)) ∘ Nat.succ) = effectsApplied s.outs.length 0 m := by
    refine (filterMap_congr effect).trans ?_
    rw [filterMap_eq_map', effectsApplied, Nat.sub_zero, range_eq_range']
  rw [appliedThrough, range_succ_eq_map, filterMap_cons, filterMap_map, effects, s.roles]
  rfl

theorem rebuilt_prefix (ref : BatchRef)
    (parent : ∀ tx, input.validatedWindow.settlingBlock.decoded.transactions.find? isSystemTx = some tx →
      tx.nonce = nonce)
    (hm : m ≤ s.outs.length + s.ins.length) :
    rebuildSyncBlock ext.keccak256 (systemTransactionReconstructor input.l2ChainId input.expectedRollupId) ref
      s.entries s.sidecars s.users ([⟨0, .anchor⟩] ++ effectsApplied s.outs.length 0 m) nonce =
        .ok (input.validatedWindow.settlingBlock.decoded.encodedTransactions.take
          (2 * min m s.outs.length + (m - s.outs.length))) := by
  obtain ⟨built, hbuilt, whole⟩ := s.rebuilt parent
  obtain ⟨incoming, hincoming, allIncoming⟩ := s.sidecars_incoming
  have lengths : s.entries.length = s.users.length := by rw [s.entries_length, s.users_length]
  have count : (s.entries.zip s.users).length = s.outs.length := by
    rw [length_zip, ← lengths, Nat.min_self, s.entries_length]
  -- all effects are the slots from 0 to the end, which split at `m`
  have all : effectSlots (s.entries.zip s.users) s.sidecars 0 (s.outs.length + s.ins.length) =
      ⟨s.entries.zip s.users, s.sidecars⟩ := by
    have full := s.sidecars_length
    rw [effectSlots, count, drop_zero, Nat.zero_sub, drop_zero, take_of_length_le (by omega),
      take_of_length_le (by omega)]
  obtain ⟨first, t, second, hfirst, _, _, rfl⟩ := (buildCrossChainSyncPairs_split ext.keccak256
    (systemTransactionReconstructor input.l2ChainId input.expectedRollupId) (s.entries.zip s.users) s.sidecars nonce
    hm).mp (by rw [all]; exact hbuilt)
  have occupied : (interleaveSyncBlockTxs first).length = 2 * min m s.outs.length + (m - s.outs.length) := by
    have delivered := s.sidecars_length
    rw [hincoming, length_map] at delivered
    have built := hfirst
    rw [effectSlots, hincoming, ← map_take, Nat.zero_sub, drop_zero, drop_zero] at built
    obtain ⟨_, _, rfl⟩ := (buildCrossChainSyncPairs_eq_blockPairs ext.keccak256 rfl
      (fun i hi => (allIncoming i (mem_of_mem_take hi)).deliverable)
      (fun i hi => (allIncoming i (mem_of_mem_take hi)).rollup)).mp built
    rw [interleaveSyncBlockTxs_blockPairs, framedList_length, length_zip, length_map, loads_length,
      length_map, length_map, length_map, deliveries_length, length_take, length_take, count]
    omega
  have rebuilt := (@rebuildSyncBlock_fresh ext.keccak256
    (systemTransactionReconstructor input.l2ChainId input.expectedRollupId) ref (s.entries.zip s.users) s.sidecars
    [⟨0, .anchor⟩] (by simp) nonce (interleaveSyncBlockTxs first) m
    (by rw [count, s.sidecars_length]; exact hm)).mpr ⟨first, hfirst, rfl⟩
  rw [map_fst_zip (Nat.le_of_eq lengths), map_snd_zip (Nat.le_of_eq lengths.symm), count] at rebuilt
  rw [rebuilt, ← whole, interleaveSyncBlockTxs_append, ← occupied, take_left]

end Eez.Signer.Settled

namespace Eez.Deriver
open Octets Outcome Codec Signer

/-- After any number of applied entries the deriver holds exactly the
transactions over which the last of them was sealed. -/
theorem runSettlement_prefix {ext : Externals} {input : SettlementInput} {hash : B256} (ref : BatchRef)
    {nonce : UInt64} (h : runSettlement ext input = .ok hash)
    (parent : ∀ tx, input.validatedWindow.settlingBlock.decoded.transactions.find? isSystemTx = some tx →
      tx.nonce = nonce) :
    ∃ batch container, decodeCanonicalPostBatch ext input.submittedPostBatchCalldata = .ok ⟨batch⟩ ∧
      decodeContainer batch.callData = .ok container ∧
      ∀ m entry, batch.entries[m]? = some entry → ∃ checkpoint update,
          input.validatedWindow.settlingBlock.transactionStateCheckpoints[m]? = some checkpoint ∧
          (CheckpointAt.preExecution ::
            (pairEndPositions input.validatedWindow.settlingBlock.flags).map .transaction)[m]? =
              some checkpoint.position ∧
          entry.rollupUpdates = [update] ∧ update.newRoot = checkpoint.blockHash ∧
          ∀ settlement : Settlement, settlement.applied = appliedThrough batch.entries input.expectedRollupId m →
            syncBlockTxs ext.keccak256 (systemTransactionReconstructor input.l2ChainId input.expectedRollupId) ref
              container.span container.actions settlement nonce =
                .ok (input.validatedWindow.settlingBlock.decoded.encodedTransactions.take
                  (sealedCount checkpoint.position)) := by
  obtain ⟨s⟩ := runSettlement_settled h
  refine ⟨s.batch, s.container, s.decoded, s.payload, ?_⟩
  intro m entry hentry
  have hm : m ≤ s.outs.length + s.ins.length := by
    have inside := (List.getElem?_eq_some_iff.mp hentry).1
    rw [s.batch_length] at inside
    omega
  have positions := congrArg (fun l => l[m]?) s.bound.checkpointPositions
  have hashes := congrArg (fun l => l[m]?) s.bound.checkpointHashes
  rw [s.claimed, getElem?_map, Option.map_eq_some_iff] at hentry
  obtain ⟨v, hv, rfl⟩ := hentry
  simp only [getElem?_map, hv, Option.map_some, Option.map_eq_some_iff] at positions hashes
  obtain ⟨checkpoint, hcheckpoint, hash⟩ := hashes
  rw [hcheckpoint, Option.map_some] at positions
  refine ⟨checkpoint, v.claimedUpdate, hcheckpoint, positions.symm, v.sole, hash.symm, ?_⟩
  intro settlement applied
  have sealed := positions.symm
  rw [s.flags_eq] at sealed
  rw [syncBlockTxs, s.directions ref, ok_bind, applied, s.appliedThrough_eq hm, s.span_users, sealedCount_framed sealed]
  exact s.rebuilt_prefix ref parent hm

theorem prefix_sample : ∃ batch container,
    decodeCanonicalPostBatch sampleExternals sampleSubmission.input.submittedPostBatchCalldata = .ok ⟨batch⟩ ∧
    decodeContainer batch.callData = .ok container ∧
    ∀ m entry, batch.entries[m]? = some entry →
      ∃ checkpoint update, sampleSettling.transactionStateCheckpoints[m]? = some checkpoint ∧
        (CheckpointAt.preExecution :: (pairEndPositions [true, false, true]).map .transaction)[m]? =
          some checkpoint.position ∧
        entry.rollupUpdates = [update] ∧ update.newRoot = checkpoint.blockHash ∧
        ∀ settlement : Settlement, settlement.applied = appliedThrough batch.entries 7 m →
          syncBlockTxs Keccak.keccak256 sampleContext ⟨1, 0⟩ container.span container.actions settlement 6 =
            .ok (sampleSettling.decoded.encodedTransactions.take (sealedCount checkpoint.position)) := by
  obtain ⟨_, accepted⟩ := sampleSubmission.run_ok
  exact runSettlement_prefix ⟨1, 0⟩ accepted sampleSettling_nonce

end Eez.Deriver
