import EezRollup.Protocol.Builders

/-! Dispatch of cross-chain calls during one source simulation. What sessions and clients answer is
data of the run. -/
namespace Eez
open Octets Outcome

inductive ExecutorError where
  | unavailable (reason : String)
  | invalidReentry (caller target : UInt64)
  -- what a client or a session reports
  | failed (reason : String)
  deriving DecidableEq

structure ExecutionRequest where
  callMode : CallMode
  targetAddress : Address
  data : Bytes
  value : U256
  sourceAddress : Address
  sourceRollupId : UInt64

inductive ChainDialect where
  | evmL2Style
  | evmL1Style

/-- The dispatchable targets, fixed when the builder is made. -/
structure Rollups where
  entries : List (UInt64 × ChainDialect)
  nodup : (entries.map Prod.fst).Nodup

def Rollups.contains (rollups : Rollups) (id : UInt64) : Bool := (rollups.entries.map Prod.fst).contains id

/-- An open session: which one it is, and the state a checkpoint of it captures. -/
structure TargetSession (σ : Type) where
  serial : Nat
  state : σ
  deriving DecidableEq

structure CompositionBuilder (σ : Type) where
  entryRollupId : UInt64
  rollups : Rollups
  sessions : UInt64 → Option (TargetSession σ)
  recorded : List ExecutedAction
  pendingSnapshots : Nat → Option σ
  checkedOut : UInt64 → Bool
  pendingRollbacks : List Nat

/-- What the target's client and session answer to one dispatch, and what the
execution makes of the session's state. -/
structure Answers (σ : Type) where
  rollback : Nat → Option ExecutorError
  beginExecutionSession : Except ExecutorError (TargetSession σ)
  checkpoint : Option ExecutorError
  write : σ → σ
  result : Except ExecutorError ExecutionOutcome

inductive Failure where
  | executor (e : ExecutorError)
  | panicked (expected : String)

namespace CompositionBuilder
variable {σ : Type}

def new (entryRollupId : UInt64) (rollups : Rollups) : CompositionBuilder σ :=
  ⟨entryRollupId, rollups, fun _ => none, [], fun _ => none, fun _ => false, []⟩

/-- Sessions for rollups that are not registered are dropped. -/
def withSessions (b : CompositionBuilder σ) (sessions : UInt64 → Option (TargetSession σ)) : CompositionBuilder σ :=
  { b with sessions := fun id => if b.rollups.contains id then sessions id <|> b.sessions id else none }

def setSession (b : CompositionBuilder σ) (id : UInt64) (session : Option (TargetSession σ)) : CompositionBuilder σ :=
  { b with sessions := Function.update b.sessions id session }

def dropSnapshot (b : CompositionBuilder σ) (idx : Nat) : CompositionBuilder σ :=
  { b with pendingSnapshots := Function.update b.pendingSnapshots idx none }

/-- The queued checkpoints in order, the first one of each rollup applied. -/
def rollBack (faults : Nat → Option ExecutorError) :
    List Nat → List UInt64 → CompositionBuilder σ → Except ExecutorError Unit × CompositionBuilder σ
  | [], _, b => (.ok (), b)
  | idx :: queued, handled, b =>
    match b.pendingSnapshots idx with
    | none => rollBack faults queued handled b
    | some snap =>
      match b.recorded[idx]? with
      | none => rollBack faults queued handled (b.dropSnapshot idx)
      | some call =>
        if call.targetRollupId ∈ handled then rollBack faults queued handled (b.dropSnapshot idx)
        else match b.sessions call.targetRollupId with
          | none => rollBack faults queued (call.targetRollupId :: handled) (b.dropSnapshot idx)
          | some session =>
            match faults idx with
            | some e => (.error e, b.dropSnapshot idx)
            | none => rollBack faults queued (call.targetRollupId :: handled)
                ((b.dropSnapshot idx).setSession call.targetRollupId (some { session with state := snap }))

/-- The queue is taken even if a rollback fails. -/
def processPendingRollbacks (b : CompositionBuilder σ) (faults : Nat → Option ExecutorError) :
    Except ExecutorError Unit × CompositionBuilder σ :=
  rollBack faults b.pendingRollbacks [] { b with pendingRollbacks := [] }

def annotateRevertSpan (b : CompositionBuilder σ) (idx span : Nat) : CompositionBuilder σ :=
  match b.recorded[idx]? with
  | none => b
  | some call =>
    if span = 0 then b
    else { b with
      -- only the head carries the scope
      recorded := b.recorded.set idx { call with revertSpan := some (UInt32.ofNat span) }
      pendingRollbacks := b.pendingRollbacks ++
        (List.range' idx (min (idx + span) b.recorded.length - idx)).filter fun i => (b.pendingSnapshots i).isSome }

/-- Why a call to the target is refused before its session is looked up. -/
def refusal (b : CompositionBuilder σ) (target source : UInt64) : Option ExecutorError :=
  if target = source ∧ target ≠ b.entryRollupId then some (.invalidReentry source target)
  else if b.checkedOut target then some (.invalidReentry source target)
  else if b.rollups.contains target = false then some (.unavailable s!"no rollup registered for {target}")
  else none

def pendingAction (target : UInt64) (req : ExecutionRequest) : ExecutedAction :=
  ⟨req.callMode, req.targetAddress, target, req.sourceRollupId, req.sourceAddress, req.data, req.value, .pending, none⟩

/-- The session a call runs on: the one the builder has, or a new one. -/
def admission (b : CompositionBuilder σ) (target : UInt64) (req : ExecutionRequest) (a : Answers σ) :
    Except ExecutorError (TargetSession σ) :=
  match b.refusal target req.sourceRollupId with
  | some e => .error e
  | none =>
    match b.sessions target with
    | some session => .ok session
    | none => a.beginExecutionSession

def openCall (b : CompositionBuilder σ) (target : UInt64) (req : ExecutionRequest) (a : Answers σ) :
    Except ExecutorError Nat × CompositionBuilder σ :=
  match b.admission target req a with
  | .error e => (.error e, b)
  | .ok session =>
    let b := b.setSession target (some session)
    match a.checkpoint with
    | some e => (.error e, b)
    | none => (.ok b.recorded.length, { b with
        recorded := b.recorded ++ [pendingAction target req]
        pendingSnapshots := Function.update b.pendingSnapshots b.recorded.length (some session.state) })

def checkOut (b : CompositionBuilder σ) (target : UInt64) : CompositionBuilder σ :=
  { b.setSession target none with checkedOut := Function.update b.checkedOut target true }

def checkIn (b : CompositionBuilder σ) (target : UInt64) (session : TargetSession σ) : CompositionBuilder σ :=
  { b.setSession target (some session) with checkedOut := Function.update b.checkedOut target false }

/-- The slot is overwritten; a slot that is missing or resolved is a panic. -/
def closeCall (b : CompositionBuilder σ) (idx : Nat) (outcome : ExecutionOutcome) :
    Except Failure ExecutionOutcome × CompositionBuilder σ :=
  match b.recorded[idx]? with
  | none => (.error (.panicked "index out of bounds"), b)
  | some slot =>
    if slot.outcome = .pending then (.ok outcome, { b with recorded := b.recorded.set idx { slot with outcome } })
    else (.error (.panicked s!"close_call called on already-resolved slot {idx}"), b)

/-- Up to the target's execution: its slot, its session, and the builder that the
execution is handed. -/
def enter (b : CompositionBuilder σ) (target : UInt64) (req : ExecutionRequest) (a : Answers σ) :
    Except Failure (Nat × TargetSession σ) × CompositionBuilder σ :=
  match b.processPendingRollbacks a.rollback with
  | (.error e, b) => (.error (.executor e), b)
  | (.ok (), b) =>
    match b.openCall target req a with
    | (.error e, b) => (.error (.executor e), b)
    | (.ok idx, b) =>
      match b.sessions target with
      | none => (.error (.panicked "session opened by open_call"), b)
      | some session => (.ok (idx, session), b.checkOut target)

/-- The session is back before the result of its execution is looked at. -/
def dispatchCall (b : CompositionBuilder σ) (target : UInt64) (req : ExecutionRequest) (a : Answers σ)
    (execute : CompositionBuilder σ → CompositionBuilder σ) : Except Failure ExecutionOutcome × CompositionBuilder σ :=
  match b.enter target req a with
  | (.error e, b) => (.error e, b)
  | (.ok (idx, session), b) =>
    let b := (execute b).checkIn target { session with state := a.write session.state }
    match a.result with
    | .error e => (.error (.executor e), b)
    | .ok outcome => b.closeCall idx outcome

end CompositionBuilder

/-- What happens to a builder: dispatches with the ones nested in their
execution, and call frames, in the order of execution. -/
inductive Script (σ : Type) where
  | done
  | dispatch (target : UInt64) (req : ExecutionRequest) (a : Answers σ) (body rest : Script σ)
  | frame (reverted : Bool) (body rest : Script σ)

/-- A frame that reverts is annotated with the calls recorded since it began. -/
def CompositionBuilder.endFrame {σ : Type} (b : CompositionBuilder σ) (start : Nat) (reverted : Bool) :
    CompositionBuilder σ :=
  if reverted then b.annotateRevertSpan start (min (b.recorded.length - start) (2 ^ 32 - 1)) else b

def Script.run {σ : Type} : Script σ → CompositionBuilder σ → CompositionBuilder σ
  | .done, b => b
  | .dispatch target req a body rest, b => rest.run (b.dispatchCall target req a body.run).2
  | .frame reverted body rest, b => rest.run ((body.run b).endFrame b.recorded.length reverted)

end Eez
