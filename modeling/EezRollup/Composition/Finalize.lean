import Mathlib.Data.List.Sort
import EezRollup.Composition.Builder

/-! The source batch over every recorded call, and one batch for each rollup that was called, by
rollup id. -/
open List
namespace Eez
open Octets Outcome

def Entries.selfCall : String := "same-chain cross-chain calls are not supported"

def ensureMaterializableCalls : List ExecutedAction → Except ProtocolError Unit
  | [] => .ok ()
  | call :: calls => do
    ensure (call.sourceRollupId ≠ call.targetRollupId) (.unsupported Entries.selfCall)
    let _ ← supportedReturnData call
    ensureMaterializableCalls calls

def ensureSourceSideCalls (calls : List ExecutedAction) (sourceRollupId : UInt64) : Except ProtocolError Unit :=
  ensure (∀ call ∈ calls, call.sourceRollupId = sourceRollupId) (.unsupported nestedCall)

section
variable (keccak : Bytes → B256)

def sourceSideCallHash (call : ExecutedAction) : B256 :=
  commonCrossChainCallHash keccak ⟨call.callMode, call.sourceAddress, call.sourceRollupId, call.targetAddress,
    call.targetRollupId, call.value, call.data⟩

/-- The source entry of a call. On L1 its hash is set after the updates are attached. -/
def sourceEntry (sourceRollupId : UInt64) (call : ExecutedAction) (returnData : Bytes) : ExecutionEntrySol where
  rollupUpdates := []
  proxyEntryHash := sourceSideCallHash keccak call
  l2ToL1Calls := []
  expectedL1ToL2Calls := []
  rollingHash := if sourceRollupId = mainnet then 0 else seedForL2 keccak (sourceSideCallHash keccak call)
  destinationRollupId := call.targetRollupId
  success := true
  returnData := returnData

def buildBatch (recorded : List ExecutedAction) (sourceRollupId : UInt64) : Except ProtocolError EvmBatch := do
  ensureMaterializableCalls recorded
  let group := recorded.filter fun call => call.sourceRollupId = sourceRollupId ∨ call.targetRollupId = sourceRollupId
  ensureSourceSideCalls group sourceRollupId
  let entries ← group.mapM fun call => do
    let returnData ← supportedReturnData call
    return sourceEntry keccak sourceRollupId call returnData
  return batchWithEntries entries 0

/-- Errors of finalization; the first two are raised nowhere else. -/
inductive CompositionError where
  | emptyCalls
  | unknownTarget (got : UInt64)
  | protocol (e : ProtocolError)

structure TargetComposition where
  rollupId : UInt64
  batch : EvmBatch

structure Composition where
  source : TargetComposition
  targets : List TargetComposition

namespace CompositionBuilder
variable {σ : Type} (b : CompositionBuilder σ)

def groupCallsForTargetRollupId (rollupId : UInt64) : List ExecutedAction :=
  b.recorded.filter fun call => call.targetRollupId = rollupId

def targetBatch (rollupId : UInt64) : ChainDialect → Except ProtocolError EvmBatch
  | .evmL1Style => buildL1Postbatch (b.groupCallsForTargetRollupId rollupId) b.entryRollupId
  | .evmL2Style => buildInboundTargetEntries keccak (b.groupCallsForTargetRollupId rollupId) rollupId

def targetCompositions : List (UInt64 × ChainDialect) → Except ProtocolError (List TargetComposition)
  | [] => .ok []
  | (rollupId, dialect) :: plan =>
    if rollupId = b.entryRollupId ∨ b.groupCallsForTargetRollupId rollupId = [] then targetCompositions plan
    else do
      let batch ← b.targetBatch keccak rollupId dialect
      let targets ← targetCompositions plan
      return ⟨rollupId, batch⟩ :: targets

def plan : List (UInt64 × ChainDialect) := b.rollups.entries.insertionSort fun x y => x.1 ≤ y.1

def finalize : Except CompositionError Composition := do
  ensure (¬(b.recorded = [] ∨ b.rollups.entries = [])) .emptyCalls
  b.recorded.forM fun call => ensure (b.rollups.contains call.targetRollupId = true)
    (.unknownTarget call.targetRollupId)
  (ensureMaterializableCalls b.recorded).mapError .protocol
  (ensureSourceSideCalls b.recorded b.entryRollupId).mapError .protocol
  let targets ← (b.targetCompositions keccak b.plan).mapError .protocol
  let entryBatch ← (buildBatch keccak b.recorded b.entryRollupId).mapError .protocol
  return ⟨⟨b.entryRollupId, entryBatch⟩, targets⟩

end CompositionBuilder

end

theorem ensureMaterializableCalls_eq_ok : ensureMaterializableCalls calls = .ok u ↔
      ∀ call ∈ calls, call.sourceRollupId ≠ call.targetRollupId ∧ ∃ returnData, call.Returned returnData := by
  induction calls with
  | nil => simp [ensureMaterializableCalls]
  | cons call calls ih =>
    simp only [ensureMaterializableCalls, bind_eq_ok, ensure_eq_ok, exists_const, supportedReturnData_eq_ok, ih,
      forall_mem_cons, exists_and_right, and_assoc]

variable {keccak : Bytes → B256}

def targetEntry (keccak : Bytes → B256) (source rollupId : UInt64) (call : ExecutedAction) (returnData : Bytes) :
    ChainDialect → ExecutionEntrySol
  | .evmL1Style => outboundEntry source call returnData
  | .evmL2Style => sidecarEntry keccak (call.incoming rollupId returnData)

namespace CompositionBuilder
variable {σ : Type} {b : CompositionBuilder σ}

theorem targetBatch_eq_ok (built : b.targetBatch keccak rollupId dialect = .ok batch) :
    Forall₂ (fun call entry => ∃ returnData, call.Returned returnData ∧
        entry = targetEntry keccak b.entryRollupId rollupId call returnData dialect)
      (b.groupCallsForTargetRollupId rollupId) batch.entries := by
  cases dialect with
  | evmL1Style =>
    simp only [targetBatch, buildL1Postbatch, bind_eq_ok, mapM_eq_ok, pure_eq_ok] at built
    obtain ⟨entries, each, rfl⟩ := built
    refine each.imp fun call entry one => ?_
    obtain ⟨returnData, returned, -, -, rfl⟩ := buildL1PostbatchEntry_eq_ok.mp one
    exact ⟨returnData, returned, rfl⟩
  | evmL2Style =>
    simp only [targetBatch, buildInboundTargetEntries, bind_eq_ok, mapM_eq_ok, pure_eq_ok] at built
    obtain ⟨entries, each, rfl⟩ := built
    refine each.imp fun call entry one => ?_
    obtain ⟨returnData, returned, -, -, rfl⟩ := buildInboundTargetEntry_eq_ok.mp one
    exact ⟨returnData, returned, rfl⟩

theorem targetCompositions_eq_ok {plan targets} (built : b.targetCompositions keccak plan = .ok targets) :
    (targets.map TargetComposition.rollupId).Sublist (plan.map Prod.fst) ∧
    (∀ target ∈ targets, ∃ dialect, (target.rollupId, dialect) ∈ plan ∧
      b.targetBatch keccak target.rollupId dialect = .ok target.batch) ∧
    ∀ id ∈ plan.map Prod.fst, id ≠ b.entryRollupId → b.groupCallsForTargetRollupId id ≠ [] →
      id ∈ targets.map TargetComposition.rollupId := by
  induction plan generalizing targets with
  | nil =>
    obtain rfl := Except.ok.inj built
    simp
  | cons head plan ih =>
    obtain ⟨rollupId, dialect⟩ := head
    rw [targetCompositions] at built
    split_ifs at built with skipped
    · obtain ⟨below, each, listed⟩ := ih built
      refine ⟨below.cons _, fun target mem => ?_, fun id mem other called => ?_⟩
      · obtain ⟨dialect, planned, batch⟩ := each target mem
        exact ⟨dialect, .tail _ planned, batch⟩
      · obtain rfl | mem := mem_cons.mp mem
        · exact absurd skipped (not_or.mpr ⟨other, called⟩)
        · exact listed id mem other called
    · simp only [bind_eq_ok, pure_eq_ok] at built
      obtain ⟨batch, one, targets, later, rfl⟩ := built
      obtain ⟨below, each, listed⟩ := ih later
      refine ⟨below.cons_cons _, fun target mem => ?_, fun id mem other called => ?_⟩
      · obtain rfl | mem := mem_cons.mp mem
        · exact ⟨dialect, .head _, one⟩
        · obtain ⟨dialect, planned, batch⟩ := each target mem
          exact ⟨dialect, .tail _ planned, batch⟩
      · obtain rfl | mem := mem_cons.mp mem
        · exact .head _
        · exact .tail _ (listed id mem other called)

theorem plan_ascends : (b.plan.map Prod.fst).Pairwise (· < ·) := by
  have sorted : b.plan.Pairwise fun x y => x.1 ≤ y.1 :=
    pairwise_insertionSort (fun x y : UInt64 × ChainDialect => x.1 ≤ y.1) _
  have distinct : (b.plan.map Prod.fst).Nodup :=
    ((perm_insertionSort _ b.rollups.entries).map Prod.fst).nodup_iff.mpr b.rollups.nodup
  refine (pairwise_map.mpr sorted).imp₂ (fun x y le ne => ?_) distinct
  exact UInt64.lt_of_le_of_ne le ne

/-- The composition lists every recorded call once in the source batch and once
in the batch of its target, in the order they were recorded. -/
structure Partitioned (keccak : Bytes → B256) (b : CompositionBuilder σ) (composition : Composition) : Prop where
  entry : composition.source.rollupId = b.entryRollupId
  source : Forall₂ (fun call entry => ∃ returnData, call.Returned returnData ∧
    entry = sourceEntry keccak b.entryRollupId call returnData) b.recorded composition.source.batch.entries
  ascending : (composition.targets.map TargetComposition.rollupId).Pairwise (· < ·)
  target : ∀ target ∈ composition.targets, ∃ dialect, Forall₂ (fun call entry => ∃ returnData,
      call.Returned returnData ∧ entry = targetEntry keccak b.entryRollupId target.rollupId call returnData dialect)
    (b.recorded.filter fun call => call.targetRollupId = target.rollupId) target.batch.entries
  covered : ∀ call ∈ b.recorded, call.targetRollupId ∈ composition.targets.map TargetComposition.rollupId
  returned : ∀ call ∈ b.recorded, ∃ returnData, call.Returned returnData

theorem finalize_partitions {composition} (finalized : b.finalize keccak = .ok composition) :
    Partitioned keccak b composition := by
  simp only [finalize, buildBatch, ensureSourceSideCalls, bind_eq_ok, ensure_eq_ok, exists_const, mapError_eq_ok,
    ensureMaterializableCalls_eq_ok, forM_eq_ok, mapM_eq_ok, supportedReturnData_eq_ok, pure_eq_ok] at finalized
  obtain ⟨-, registered, materializable, sourced, targets, planned, _, ⟨-, -, entries, each, rfl⟩, rfl⟩ := finalized
  obtain ⟨below, built, listed⟩ := targetCompositions_eq_ok planned
  have all : b.recorded.filter (fun call => call.sourceRollupId = b.entryRollupId ∨ call.targetRollupId =
    b.entryRollupId) =
      b.recorded := filter_eq_self.mpr fun call mem => by simp [sourced call mem]
  refine ⟨rfl, ?_, plan_ascends.sublist below, fun target mem => ?_, fun call mem => ?_, fun call mem =>
    (materializable call mem).2⟩
  · rw [all] at each
    refine each.imp fun call entry one => ?_
    obtain ⟨returnData, returned, rfl⟩ := one
    exact ⟨returnData, returned, rfl⟩
  · obtain ⟨dialect, -, batch⟩ := built target mem
    exact ⟨dialect, targetBatch_eq_ok batch⟩
  · have known : call.targetRollupId ∈ b.plan.map Prod.fst :=
      ((perm_insertionSort _ b.rollups.entries).map Prod.fst).mem_iff.mpr (by
        simpa [Rollups.contains] using registered call mem)
    refine listed _ known ?_ (ne_nil_of_mem (mem_filter.mpr ⟨mem, by simp⟩))
    rw [← sourced call mem]
    exact (materializable call mem).1.symm

end CompositionBuilder
end Eez
