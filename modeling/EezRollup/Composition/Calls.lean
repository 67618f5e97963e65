import EezRollup.Composition.Dispatch

/-! The recorded calls are the dispatches that opened one, in the order they did. -/
open List
namespace Eez
open ExecutedAction
open CompositionBuilder Octets

def ExecutedAction.request (call : ExecutedAction) : UInt64 × ExecutionRequest :=
  (call.targetRollupId, ⟨call.callMode, call.targetAddress, call.data, call.value, call.sourceAddress,
    call.sourceRollupId⟩)

namespace Script
variable {σ : Type}

/-- The dispatches that open a call, each before the ones nested in it. -/
def opened : Script σ → CompositionBuilder σ → List (UInt64 × ExecutionRequest)
  | .done, _ => []
  | .dispatch target req a body rest, b =>
    (match b.enter target req a with
      | (.ok _, c) => (target, req) :: body.opened c
      | (.error _, _) => []) ++ rest.opened (b.dispatchCall target req a body.run).2
  | .frame reverted body rest, b =>
    body.opened b ++ rest.opened ((body.run b).endFrame b.recorded.length reverted)

/-- No call lies in a frame that reverts. -/
def Unreverted : Script σ → CompositionBuilder σ → Prop
  | .done, _ => True
  | .dispatch target req a body rest, b =>
    (∀ r c, b.enter target req a = (.ok r, c) → body.Unreverted c) ∧
    rest.Unreverted (b.dispatchCall target req a body.run).2
  | .frame reverted body rest, b =>
    (reverted = true → (body.run b).recorded.length = b.recorded.length) ∧ body.Unreverted b ∧
    rest.Unreverted ((body.run b).endFrame b.recorded.length reverted)

end Script

namespace CompositionBuilder
variable {σ : Type} {b c : CompositionBuilder σ} {target : UInt64} {req : ExecutionRequest} {a : Answers σ}
  {session : TargetSession σ}

theorem endFrame_requests (b : CompositionBuilder σ) (start : Nat) (reverted : Bool) :
    (b.endFrame start reverted).recorded.map request = b.recorded.map request := by
  obtain ⟨same, -⟩ | ⟨call, span, -, found, same⟩ := b.endFrame_cases start reverted <;> rw [same]
  exact map_set_same found rfl

end CompositionBuilder

namespace Script
variable {σ : Type}

theorem run_requests (script : Script σ) (b : CompositionBuilder σ) :
    (script.run b).recorded.map request = b.recorded.map request ++ script.opened b := by
  induction script generalizing b with
  | done => simp [run, opened]
  | dispatch target req a body rest body_ih rest_ih =>
    rw [run, rest_ih, opened, ← append_assoc]
    congr 1
    obtain ⟨⟨result, c⟩, handed⟩ : ∃ out, b.enter target req a = out := ⟨_, rfl⟩
    cases result with
    | error e =>
      rw [show b.dispatchCall target req a body.run = (.error e, c) by simp only [dispatchCall, handed], handed]
      simp [(enter_failed handed).2.1]
    | ok opened =>
      obtain ⟨slot, dispatched⟩ := dispatchCall_opened body.run_conserves handed
      obtain ⟨d, -, -, rfl, recorded, -⟩ := enter_opened handed
      rw [dispatched, handed]
      have request : ({ pendingAction target req with outcome := a.outcome } : ExecutedAction).request =
          (pendingAction target req).request := rfl
      refine (map_set_same slot request).trans ?_
      rw [body_ih, entered, recorded, map_append, append_assoc]
      rfl
  | frame reverted body rest body_ih rest_ih =>
    rw [run, rest_ih, endFrame_requests, body_ih, opened, append_assoc]

theorem unreverted_of_run (script : Script σ) (b : CompositionBuilder σ)
    (clean : ∀ call ∈ (script.run b).recorded, call.revertSpan = none) : script.Unreverted b := by
  induction script generalizing b with
  | done => trivial
  | dispatch target req a body rest body_ih rest_ih =>
    refine ⟨fun opened c handed => body_ih c fun call mem => ?_, rest_ih _ clean⟩
    obtain ⟨slot, dispatched⟩ := dispatchCall_opened body.run_conserves handed
    have before : ∀ call ∈ (b.dispatchCall target req a body.run).2.recorded, call.revertSpan = none :=
      fun call mem => clean call ((rest.run_conserves _).recorded.subset mem)
    rw [dispatched] at before
    obtain ⟨j, found⟩ := mem_iff_getElem?.mp mem
    by_cases own : opened.1 = j
    · subst own
      obtain rfl := Option.some.inj (slot.symm.trans found)
      rfl
    · refine before call (mem_of_getElem? (i := j) ?_)
      exact (getElem?_set_ne own).trans found
  | frame reverted body rest body_ih rest_ih =>
    have before : ∀ call ∈ ((body.run b).endFrame b.recorded.length reverted).recorded, call.revertSpan = none :=
      fun call mem => clean call ((rest.run_conserves _).recorded.subset mem)
    obtain ⟨same, ends⟩ | ⟨call, span, -, found, same⟩ := (body.run b).endFrame_cases b.recorded.length reverted
    · refine ⟨fun isReverted => ?_, body_ih b fun call mem => ?_, rest_ih _ clean⟩
      · exact Nat.le_antisymm (ends isReverted) (body.run_conserves b).recorded.length_le
      · rw [same] at before
        exact before call mem
    · obtain ⟨inside, -⟩ := List.getElem?_eq_some_iff.mp found
      rw [same] at before
      exact absurd (before _ (mem_set inside _)) (by simp)

end Script

/-- Whatever was dispatched, if the builder finalizes: every call that was opened
is once in the source batch and once in the batch of its target, in the order of
dispatch; the targets ascend; every call returned successfully, and none lay in a
frame that reverted. -/
theorem finalize_partitions_run {σ : Type} {entry : UInt64} {rollups : Rollups}
    {seeds : UInt64 → Option (TargetSession σ)} {script : Script σ} {keccak : Bytes → B256} {composition : Composition}
    (finalized : (script.run ((new entry rollups).withSessions seeds)).finalize keccak = .ok composition) :
    (script.run ((new entry rollups).withSessions seeds)).recorded.map request =
      script.opened ((new entry rollups).withSessions seeds) ∧
    script.Unreverted ((new entry rollups).withSessions seeds) ∧
    Partitioned keccak (script.run ((new entry rollups).withSessions seeds)) composition := by
  have partitioned := finalize_partitions finalized
  refine ⟨script.run_requests _, script.unreverted_of_run _ fun call mem => ?_, partitioned⟩
  obtain ⟨returnData, returned⟩ := partitioned.returned call mem
  exact returned.revertSpan

def sampleScript : Script Nat :=
  .dispatch 3 (sampleRequest 1) (sampleAnswers (.ok (.resolved [4] true))) .done
    (.frame false (.dispatch 0 (sampleRequest 1) (sampleAnswers (.ok (.resolved [] true))) .done .done) .done)

theorem finalize_partitions_sample : ∃ composition,
    (sampleScript.run (sampleBuilder.withSessions fun _ => none)).finalize (fun _ => 9) = .ok composition ∧
    composition.targets.map TargetComposition.rollupId = [0, 3] ∧
    sampleScript.Unreverted (sampleBuilder.withSessions fun _ => none) := by
  obtain ⟨composition, finalized, targets⟩ : ∃ composition,
      (sampleScript.run (sampleBuilder.withSessions fun _ => none)).finalize (fun _ => 9) = .ok composition ∧
      composition.targets.map TargetComposition.rollupId = [0, 3] := ⟨_, rfl, rfl⟩
  exact ⟨composition, finalized, targets, (finalize_partitions_run finalized).2.1⟩

inductive FrameKind where
  | call
  | delegateCall
  | create
  deriving DecidableEq

inductive FrameEnd where
  | success
  | revert
  | halt
  deriving DecidableEq

/-- An inspected execution in order: the proxy calls it dispatches, each with the
execution of its target, and its frames. What follows a frame runs however it ended. -/
inductive Frames (σ : Type) where
  | done
  | dispatch (target : UInt64) (req : ExecutionRequest) (a : Answers σ) (body rest : Frames σ)
  | frame (kind : FrameKind) (ends : FrameEnd) (body rest : Frames σ)

namespace Frames
variable {σ : Type}

/-- A target that failed is a revert to the frame that called it. -/
def failed (a : Answers σ) : Bool :=
  match a.result with
  | .ok (.resolved _ success) => !success
  | .ok .pending => true
  | .error _ => false

/-- The end of a frame that `call_end` annotates; a creation has no hooks. -/
def annotated (kind : FrameKind) (ends : FrameEnd) : Bool := kind ≠ .create ∧ ends = .revert

/-- What the hooks make of the frames while no error is recorded. -/
def script : Frames σ → Script σ
  | .done => .done
  | .dispatch target req a body rest => .frame (failed a) (.dispatch target req a body.script .done) rest.script
  | .frame kind ends body rest => .frame (annotated kind ends) body.script rest.script

/-- No call was dispatched in a frame that comes to such an end, nor for a target
that failed. -/
def Free (lost : FrameKind → FrameEnd → Prop) : Frames σ → CompositionBuilder σ → Prop
  | .done, _ => True
  | .dispatch target req a body rest, b =>
    (failed a = true → (b.dispatchCall target req a body.script.run).2.recorded.length = b.recorded.length) ∧
    (∀ r c, b.enter target req a = (.ok r, c) → body.Free lost c) ∧
    rest.Free lost ((b.dispatchCall target req a body.script.run).2.endFrame b.recorded.length (failed a))
  | .frame kind ends body rest, b =>
    (lost kind ends → (body.script.run b).recorded.length = b.recorded.length) ∧ body.Free lost b ∧
    rest.Free lost ((body.script.run b).endFrame b.recorded.length (annotated kind ends))

/-- The calls in frames that fail are those in frames that are annotated and those
in frames that fail in another way. -/
theorem free_of_unreverted {frames : Frames σ} {b} (unreverted : frames.script.Unreverted b)
    (others : frames.Free (fun kind ends => ends ≠ .success ∧ annotated kind ends = false) b) :
    frames.Free (fun _ ends => ends ≠ .success) b := by
  induction frames generalizing b with
  | done => trivial
  | dispatch target req a body rest body_ih rest_ih =>
    obtain ⟨called, ⟨nested, -⟩, after⟩ := unreverted
    exact ⟨called, fun r c handed => body_ih (nested r c handed) (others.2.1 r c handed), rest_ih after others.2.2⟩
  | frame kind ends body rest body_ih rest_ih =>
    refine ⟨fun fails => ?_, body_ih unreverted.2.1 others.2.1, rest_ih unreverted.2.2 others.2.2⟩
    cases seen : annotated kind ends with
    | true => exact unreverted.1 seen
    | false => exact others.1 ⟨fails, seen⟩

end Frames

/-- Over all frame trees: if the builder finalizes, and no call was dispatched in a
frame that halted or in a creation that reverted, then every call was dispatched in
frames that all succeeded. -/
theorem finalize_only_succeeded {σ : Type} {entry : UInt64} {rollups : Rollups}
    {seeds : UInt64 → Option (TargetSession σ)} {frames : Frames σ} {keccak : Bytes → B256} {composition : Composition}
    (bracketed : frames.Free (fun kind ends => ends = .halt ∨ kind = .create ∧ ends = .revert)
      ((new entry rollups).withSessions seeds))
    (finalized : (frames.script.run ((new entry rollups).withSessions seeds)).finalize keccak = .ok composition) :
    frames.Free (fun _ ends => ends ≠ .success) ((new entry rollups).withSessions seeds) := by
  have same : (fun kind ends => ends ≠ .success ∧ Frames.annotated kind ends = false) =
      fun kind ends => ends = .halt ∨ kind = .create ∧ ends = .revert := by
    funext kind ends
    cases kind <;> cases ends <;> simp [Frames.annotated]
  refine Frames.free_of_unreverted (frames.script.unreverted_of_run _ fun call mem => ?_) (same ▸ bracketed)
  obtain ⟨returnData, returned⟩ := (finalize_partitions finalized).returned call mem
  exact returned.revertSpan

def sampleFrames (ends : FrameEnd) : Frames Nat :=
  .frame .call ends (.dispatch 3 (sampleRequest 1) (sampleAnswers (.ok (.resolved [4] true))) .done .done) .done

theorem finalize_only_succeeded_sample : (sampleFrames .success).Free (fun _ ends => ends ≠ .success)
    (sampleBuilder.withSessions fun _ => none) := by
  obtain ⟨composition, finalized⟩ : ∃ composition,
      ((sampleFrames .success).script.run (sampleBuilder.withSessions fun _ => none)).finalize (fun _ => 9) =
        .ok composition := ⟨_, rfl⟩
  refine finalize_only_succeeded ⟨?_, ⟨?_, fun _ _ _ => trivial, trivial⟩, trivial⟩ finalized
  · rintro (halted | ⟨created, -⟩)
    · cases halted
    · cases created
  · intro failed
    cases failed

/-- A call in a frame that runs out of gas is part of the composition. -/
theorem finalize_keeps_halted : ∃ composition,
    ((sampleFrames .halt).script.run (sampleBuilder.withSessions fun _ => none)).finalize (fun _ => 9) =
      .ok composition ∧
    composition.targets.map TargetComposition.rollupId = [3] ∧
    ¬ (sampleFrames .halt).Free (fun _ ends => ends ≠ .success) (sampleBuilder.withSessions fun _ => none) := by
  refine ⟨_, rfl, rfl, fun free => ?_⟩
  cases free.1 (by decide)

end Eez
