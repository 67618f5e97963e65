import EezRollup.Protocol.Header

/-! One actor serves a command channel in order, each command against the answers the engine gives.
-/
namespace Eez.Driver

def commandBuffer : Nat := 16

inductive DriverError where
  | staleParent (expected actual : B256)
  | engineRpc (reason : String)
  | invalidForkchoice (reason : String)
  | engineNotReady (reason : String)
  | invalidPayload (reason : String)
  | payloadMissing
  deriving DecidableEq

/-- The answer to a forkchoice update; `valid` carries the id of the payload
that attributes started. -/
inductive ForkchoiceAnswer where
  | valid (payloadId : Option UInt64)
  | syncing
  | invalid (reason : String)
  | invalidState
  | failed (reason : String)
  deriving DecidableEq

inductive PayloadAnswer where
  | valid
  | syncing
  | accepted
  | invalid (reason : String)
  | failed (reason : String)
  deriving DecidableEq

structure PayloadAttributes where
  timestamp : UInt64

inductive ForkchoiceOutcome where
  | valid
  | syncing
  | invalidState

structure Actor where
  head : SealedHeader
  safe : SealedHeader
  finalizedHash : B256

namespace Actor
variable (a : Actor)

def setHead (header : SealedHeader) : Actor := { a with head := header }

/-- A syncing or invalid answer applies nothing. -/
def classify : ForkchoiceAnswer → Except DriverError ForkchoiceOutcome
  | .valid _ => .ok .valid
  | .syncing => .ok .syncing
  | .invalid reason => .error (.invalidForkchoice reason)
  | .invalidState => .error (.engineRpc "invalid state")
  | .failed reason => .error (.engineRpc reason)

def processReorgTo (target : SealedHeader) : ForkchoiceAnswer → Except DriverError Unit × Actor
  | .valid _ => (.ok (), a.setHead target)
  | .syncing => (.error (.engineNotReady "reorg_to"), a)
  | .invalid reason => (.error (.invalidForkchoice reason), a)
  | .invalidState => (.error (.engineRpc "invalid state"), a)
  | .failed reason => (.error (.engineRpc reason), a)

/-- On an inconsistent forkchoice the head is demoted to the safe anchor, and
the update is sent once more. -/
def forkchoiceOrDemoteHead (safe : SealedHeader) (first second : ForkchoiceAnswer) : ForkchoiceAnswer × Actor :=
  match first with
  | .invalidState => if a.head.hash ≠ safe.hash then (second, a.setHead safe) else (.failed "invalid state", a)
  | first => (first, a)

/-- Only a valid answer moves an anchor. -/
def requireValidForkchoice (answer : ForkchoiceAnswer) : Except DriverError Unit :=
  match classify answer with
  | .ok .valid => .ok ()
  | .ok _ => .error (.engineNotReady "forkchoice")
  | .error e => .error e

def processRefreshForkchoice (first second : ForkchoiceAnswer) : Except DriverError Unit × Actor :=
  let (answer, a) := a.forkchoiceOrDemoteHead a.safe first second
  (requireValidForkchoice answer, a)

def processAdvanceSafeFinalized (safe : SealedHeader) (finalized : B256) (first second : ForkchoiceAnswer) :
    Except DriverError Unit × Actor :=
  let (answer, a) := a.forkchoiceOrDemoteHead safe first second
  match requireValidForkchoice answer with
  | .ok () => (.ok (), { a with safe, finalizedHash := finalized })
  | .error e => (.error e, a)

def processSyncTo : ForkchoiceAnswer → Except DriverError ForkchoiceOutcome × Actor
  | .invalidState => (.ok .invalidState, a)
  | answer => (classify answer, a)

def processAdvanceHead (header : SealedHeader) : ForkchoiceAnswer → Except DriverError ForkchoiceOutcome × Actor
  | .invalidState => (.ok .invalidState, a)
  | answer =>
    match classify answer with
    | .ok .valid => (.ok .valid, a.setHead header)
    | result => (result, a)

def processAdoptSynced (header : SealedHeader) : Actor :=
  ({ a with finalizedHash := header.hash, safe := header } : Actor).setHead header

def processDerive (header : SealedHeader) (imported : PayloadAnswer) (canonicalized : ForkchoiceAnswer) :
    Except DriverError B256 × Actor :=
  match imported with
  | .failed reason => (.error (.engineRpc reason), a)
  | .syncing | .accepted => (.error (.engineNotReady "newPayload"), a)
  | .invalid reason => (.error (.invalidPayload reason), a)
  | .valid =>
    match canonicalized with
    | .valid _ => (.ok header.hash, a.setHead header)
    | .syncing => (.error (.engineNotReady "forkchoice"), a)
    | .invalid reason => (.error (.invalidForkchoice reason), a)
    | .invalidState => (.error (.engineRpc "invalid state"), a)
    | .failed reason => (.error (.engineRpc reason), a)

structure SequenceAnswers where
  opened : ForkchoiceAnswer
  resolved : Option (Except String SealedHeader)
  imported : PayloadAnswer
  canonicalized : ForkchoiceAnswer

/-- The payload is started on the head the actor has now. -/
def processSequence (answers : SequenceAnswers) : Except DriverError SealedHeader × Actor :=
  match answers.opened with
  | .valid none => (.error .payloadMissing, a)
  | .valid (some _) =>
    match answers.resolved with
    | none => (.error .payloadMissing, a)
    | some (.error reason) => (.error (.engineRpc reason), a)
    | some (.ok header) =>
      match answers.imported with
      | .valid =>
        match answers.canonicalized with
        | .valid _ => (.ok header, a.setHead header)
        | .failed reason => (.error (.engineRpc reason), a)
        | .invalidState => (.error (.engineRpc "invalid state"), a)
        | .syncing => (.error (.invalidForkchoice "syncing"), a)
        | .invalid reason => (.error (.invalidForkchoice reason), a)
      | .failed reason => (.error (.engineRpc reason), a)
      | .syncing | .accepted => (.error (.invalidPayload "not imported"), a)
      | .invalid reason => (.error (.invalidPayload reason), a)
  | .syncing => (.error (.invalidForkchoice "syncing"), a)
  | .invalid reason => (.error (.invalidForkchoice reason), a)
  | .invalidState => (.error (.engineRpc "invalid state"), a)
  | .failed reason => (.error (.engineRpc reason), a)

theorem processSequence_cases (answers : SequenceAnswers) :
    (∃ id header id', answers = ⟨.valid (some id), some (.ok header), .valid, .valid id'⟩ ∧
        a.processSequence answers = (.ok header, a.setHead header)) ∨
      ∃ e, a.processSequence answers = (.error e, a) := by
  obtain ⟨opened, resolved, imported, canonicalized⟩ := answers
  unfold processSequence
  split
  case h_2 id opened =>
    split
    case h_3 header resolved =>
      split
      case h_1 imported =>
        split
        case h_1 id' canonicalized => exact .inl ⟨id, header, id', by simp_all, rfl⟩
        all_goals exact .inr ⟨_, rfl⟩
      all_goals exact .inr ⟨_, rfl⟩
    all_goals exact .inr ⟨_, rfl⟩
  all_goals exact .inr ⟨_, rfl⟩

theorem processDerive_cases (header : SealedHeader) (imported : PayloadAnswer) (canonicalized : ForkchoiceAnswer) :
    a.processDerive header imported canonicalized = (.ok header.hash, a.setHead header) ∨
      ∃ e, a.processDerive header imported canonicalized = (.error e, a) := by
  unfold processDerive
  split
  case h_5 =>
    split
    · exact .inl rfl
    all_goals exact .inr ⟨_, rfl⟩
  all_goals exact .inr ⟨_, rfl⟩

theorem processReorgTo_cases (target : SealedHeader) (answer : ForkchoiceAnswer) :
    a.processReorgTo target answer = (.ok (), a.setHead target) ∨ ∃ e, a.processReorgTo target answer =
    (.error e, a) := by
  unfold processReorgTo
  split
  · exact .inl rfl
  all_goals exact .inr ⟨_, rfl⟩

end Actor

structure Call where
  parentHash : B256
  attrs : PayloadAttributes

def saturatingAdd (a b : UInt64) : UInt64 := if a.toNat + b.toNat < 2 ^ 64 then a + b else UInt64.ofNat (2 ^ 64 - 1)

/-- The call the Sequencer makes on a parent, one block time later. -/
def commitOne (parent : SealedHeader) (blockTime : UInt64) : Call :=
  ⟨parent.hash, ⟨saturatingAdd parent.timestamp blockTime⟩⟩

inductive Command where
  | sequence (call : Call)
  | refreshForkchoice
  | advanceSafeFinalized (safe : SealedHeader) (finalized : B256)
  | advanceHead (header : SealedHeader)
  | syncTo (target : B256)
  | adoptSynced (header : SealedHeader)
  | derive (header : SealedHeader)
  | reorgTo (target : SealedHeader)

inductive TaskState where
  | idle
  | checked (call : Call)
  | queued (call : Call)

/-- One executed sequence command: its task and call, who held the guard, and
what the head was and became. -/
structure Sequenced where
  task : Nat
  call : Call
  guard : Option Nat
  before : SealedHeader
  after : SealedHeader
  result : Except DriverError SealedHeader

structure Committer where
  actor : Actor
  channel : List (Nat × Command)
  /-- The task that holds the guard of `begin_reconcile`. -/
  guard : Option Nat
  tasks : Nat → TaskState
  sequenced : List Sequenced
  refused : List (Nat × DriverError)

structure Answers where
  first : ForkchoiceAnswer
  second : ForkchoiceAnswer
  imported : PayloadAnswer
  sequence : Actor.SequenceAnswers

inductive Step where
  | beginReconcile (task : Nat)
  | endReconcile (task : Nat)
  | check (task : Nat) (call : Call)
  | enqueueSequence (task : Nat)
  | enqueue (task : Nat) (command : Command)
  | serve (answers : Answers)

namespace Committer
variable (c : Committer)

/-- What a command other than a sequence does to the actor. -/
def serveOther (answers : Answers) : Command → Actor
  | .sequence _ => c.actor
  | .refreshForkchoice => (c.actor.processRefreshForkchoice answers.first answers.second).2
  | .advanceSafeFinalized safe finalized =>
    (c.actor.processAdvanceSafeFinalized safe finalized answers.first answers.second).2
  | .advanceHead header => (c.actor.processAdvanceHead header answers.first).2
  | .syncTo _ => (c.actor.processSyncTo answers.first).2
  | .adoptSynced header => c.actor.processAdoptSynced header
  | .derive header => (c.actor.processDerive header answers.imported answers.first).2
  | .reorgTo target => (c.actor.processReorgTo target answers.first).2

def setTask (task : Nat) (state : TaskState) : Nat → TaskState := fun t => if t = task then state else c.tasks t

def step : Step → Committer
  | .beginReconcile task => { c with guard := some task }
  | .endReconcile _ => { c with guard := none }
  | .check task call =>
    if c.actor.head.hash ≠ call.parentHash then
      { c with refused := c.refused ++ [(task, .staleParent call.parentHash c.actor.head.hash)] }
    else { c with tasks := c.setTask task (.checked call) }
  | .enqueueSequence task =>
    match c.tasks task with
    | .checked call => { c with
        channel := c.channel ++ [(task, .sequence call)]
        tasks := c.setTask task (.queued call) }
    | _ => c
  | .enqueue task command => { c with channel := c.channel ++ [(task, command)] }
  | .serve answers =>
    match c.channel with
    | [] => c
    | (task, .sequence call) :: rest =>
      let (result, actor) := c.actor.processSequence answers.sequence
      { c with
        actor
        channel := rest
        tasks := c.setTask task .idle
        sequenced := c.sequenced ++ [⟨task, call, c.guard, c.actor.head, actor.head, result⟩] }
    | (_, command) :: rest => { c with actor := c.serveOther answers command, channel := rest }

/-- The mutex, the bounded channel and one call at a time for each task. The
payload builder seals what it was asked for: the attributes, on the head of the
forkchoice update. -/
def Schedules : Step → Prop
  | .beginReconcile task => c.guard = none ∧ c.tasks task = .idle
  | .endReconcile task => c.guard = some task
  | .check task _ => c.guard = none ∧ c.tasks task = .idle
  | .enqueueSequence task => (∃ call, c.tasks task = .checked call) ∧ c.channel.length < commandBuffer
  | .enqueue _ command => (∀ call, command ≠ .sequence call) ∧ c.channel.length < commandBuffer
  | .serve answers => ∀ task call rest header, c.channel = (task, .sequence call) :: rest →
      answers.sequence.resolved = some (.ok header) →
        header.parentHash = c.actor.head.hash ∧ header.timestamp = call.attrs.timestamp

end Committer

end Eez.Driver
