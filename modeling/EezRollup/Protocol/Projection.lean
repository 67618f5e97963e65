import EezRollup.Protocol.Builders

/-! The data publishes actions and a follower rebuilds the entries. What the builders emit comes
back in all fields. -/
namespace Eez
open Octets Outcome Codec

variable {keccak : Bytes → B256} {r : UInt64}

def Projects (keccak : Bytes → B256) (r : UInt64) (entry : ExecutionEntrySol) : Prop :=
  ∃ action, actionFromEntry entry r = .ok action ∧ entryFromAction keccak action r = .ok entry

def describedAs (entry : ExecutionEntrySol) (call : L2ToL1CallSol) (r : UInt64) : Action :=
  ⟨call.sourceRollupId, if call.sourceRollupId = r then mainnet else r, call.sourceAddress, call.targetAddress,
    call.value, call.gas, call.data, entry.success, entry.returnData⟩

theorem actionFromEntry_of_flat {entry : ExecutionEntrySol} {call : L2ToL1CallSol} (sole : entry.l2ToL1Calls = [call])
    (expected : entry.expectedL1ToL2Calls = []) (flat : call.isStatic = false ∧ call.revertNextNCalls = 0)
    (ours : call.sourceRollupId = r ∨ entry.destinationRollupId = r) :
    actionFromEntry entry r = .ok (describedAs entry call r) := by
  unfold actionFromEntry
  rw [sole]
  dsimp only
  rw [ensure_pos expected, ok_bind, ensure_pos (by simp [flat]), ok_bind, ensure_pos ours, ok_bind]
  rfl

theorem outboundEntry_projects {call : ExecutedAction} (source : call.sourceRollupId = r) :
    Projects keccak r (outboundEntry r call returnData) := by
  have described : actionFromEntry (outboundEntry r call returnData) r =
      .ok (describedAs (outboundEntry r call returnData) (l1CallFromAction call) r) :=
    actionFromEntry_of_flat rfl rfl ⟨rfl, rfl⟩ (.inl source)
  exact ⟨_, described, entryFromAction_outbound source described⟩

theorem sidecarEntry_projects {incoming : IncomingEntry} (rollup : incoming.l2RollupId = r)
    (source : incoming.sourceRollupId ≠ r) : Projects keccak r (sidecarEntry keccak incoming) := by
  have described : actionFromEntry (sidecarEntry keccak incoming) r =
      .ok (describedAs (sidecarEntry keccak incoming) ⟨0, false, 0, incoming.source, incoming.sourceRollupId,
        incoming.target, incoming.value, incoming.data⟩ r) :=
    actionFromEntry_of_flat rfl rfl ⟨rfl, rfl⟩ (.inr rollup)
  exact ⟨_, described, entryFromAction_inbound rollup source described⟩

theorem buildL1Postbatch_projects (h : buildL1Postbatch calls r = .ok batch) :
    ∀ entry ∈ batch.entries, Projects keccak r entry := by
  simp only [buildL1Postbatch, bind_eq_ok, pure_eq_ok, mapM_eq_ok] at h
  obtain ⟨entries, built, rfl⟩ := h
  intro entry mem
  obtain ⟨call, _, emitted⟩ := forall₂_exists_right built.flip entry mem
  obtain ⟨returnData, _, source, _, rfl⟩ := buildL1PostbatchEntry_eq_ok.mp emitted
  exact outboundEntry_projects source

theorem buildInboundTargetEntries_projects (h : buildInboundTargetEntries keccak calls r = .ok batch) :
    ∀ entry ∈ batch.entries, Projects keccak r entry := by
  simp only [buildInboundTargetEntries, bind_eq_ok, pure_eq_ok, mapM_eq_ok] at h
  obtain ⟨entries, built, rfl⟩ := h
  intro entry mem
  obtain ⟨call, _, emitted⟩ := forall₂_exists_right built.flip entry mem
  obtain ⟨returnData, _, _, deliverable, rfl⟩ := buildInboundTargetEntry_eq_ok.mp emitted
  exact sidecarEntry_projects rfl deliverable.2.1

theorem actionFromEntry_of_entryFromAction (h : entryFromAction keccak a r = .ok entry) :
    actionFromEntry entry r = .ok { a with targetRollupId := if a.sourceRollupId = r then mainnet else r } := by
  obtain ⟨_, carries, _, expected, destination, _⟩ := entryFromAction_eq_ok.mp h
  rw [actionFromEntry_of_flat carries.call expected ⟨rfl, rfl⟩ (.inr destination), describedAs, carries.success,
    carries.returnData]

theorem actionFromEntry_iff (nonzero : r ≠ 0) (h : entryFromAction keccak a r = .ok entry) :
    actionFromEntry entry r = .ok a ↔ ¬(a.sourceRollupId = r ∧ a.targetRollupId = r) := by
  have direction := (entryFromAction_eq_ok.mp h).1
  rw [actionFromEntry_of_entryFromAction h]
  constructor
  · intro same ⟨source, target⟩
    have eq := congrArg Action.targetRollupId (Except.ok.inj same)
    simp only [source, if_true, target] at eq
    exact nonzero eq.symm
  · intro other
    congr 1
    by_cases source : a.sourceRollupId = r
    · have target : a.targetRollupId = mainnet := by
        cases direction with
        | inl outward => exact outward.2
        | inr inward => exact absurd ⟨source, inward⟩ other
      rw [if_pos source, ← target]
    · have target : a.targetRollupId = r := direction.resolve_left fun outward => source outward.1
      rw [if_neg source, ← target]

/-- What the builders emit is described without loss, and an action survives the
way through its entry exactly when it does not name this rollup on both sides. -/
theorem projection_lossless (keccak : Bytes → B256) {r : UInt64} (nonzero : r ≠ 0) :
    (∀ calls batch, buildInboundTargetEntries keccak calls r = .ok batch →
      ∀ entry ∈ batch.entries, Projects keccak r entry) ∧
    (∀ calls batch, buildL1Postbatch calls r = .ok batch → ∀ entry ∈ batch.entries, Projects keccak r entry) ∧
    ∀ action entry, entryFromAction keccak action r = .ok entry →
      (actionFromEntry entry r = .ok action ↔ ¬(action.sourceRollupId = r ∧ action.targetRollupId = r)) :=
  ⟨fun _ _ built => buildInboundTargetEntries_projects built, fun _ _ built => buildL1Postbatch_projects built,
    fun _ _ rebuilt => actionFromEntry_iff nonzero rebuilt⟩

theorem projection_lossless_one : (∀ calls batch, buildInboundTargetEntries Keccak.keccak256 calls 1 = .ok batch →
      ∀ entry ∈ batch.entries, Projects Keccak.keccak256 1 entry) ∧
    (∀ calls batch, buildL1Postbatch calls 1 = .ok batch → ∀ entry ∈ batch.entries, Projects Keccak.keccak256 1 entry) ∧
    ∀ action entry, entryFromAction Keccak.keccak256 action 1 = .ok entry →
      (actionFromEntry entry 1 = .ok action ↔ ¬(action.sourceRollupId = 1 ∧ action.targetRollupId = 1)) :=
  projection_lossless Keccak.keccak256 (by decide)

def selfCall : Action := ⟨1, 1, 5, 6, 0, 0, [], true, []⟩

/-- A call of the rollup to itself is rebuilt as inbound and described as outbound. -/
theorem selfCall_retargeted : ∃ entry, entryFromAction Keccak.keccak256 selfCall 1 = .ok entry ∧
      actionFromEntry entry 1 = .ok { selfCall with targetRollupId := 0 } ∧
      actionFromEntry entry 1 ≠ .ok selfCall := by
  cases rebuilt : entryFromAction Keccak.keccak256 selfCall 1 with
  | error e =>
    simp only [entryFromAction, bind, Except.bind,
      ensure_pos (show _ ∨ selfCall.targetRollupId = 1 from .inr rfl)] at rebuilt
    cases rebuilt
  | ok entry =>
    refine ⟨entry, rfl, ?_, ?_⟩ <;> rw [actionFromEntry_of_entryFromAction rebuilt] <;> decide

end Eez
