import EezRollup.Lib.Runs
import EezRollup.Sessions.Session
import EezRollup.Signer.SettlementJob

/-! Sessions live behind their own locks; the registry maps identifiers to the retained ones. A step
is one critical section of one operation, so a run is an interleaving of operations of any number of
streams. -/
namespace Eez.Sessions
open Octets Outcome Signer

def maxRetainedSessions : Nat := 64

abbrev SessionId := B256

abbrev ObjectId := Nat

structure BoundSession where
  id : SessionId
  epoch : UInt64
  deriving DecidableEq

structure Registry where
  sessions : List (SessionId × ObjectId)
  insertionOrder : List SessionId

namespace Registry

def get (r : Registry) (id : SessionId) : Option ObjectId := r.sessions.lookup id

def remove (r : Registry) (id : SessionId) : Registry :=
  ⟨r.sessions.filter fun entry => entry.1 ≠ id, r.insertionOrder.filter fun retained => retained ≠ id⟩

def insert (r : Registry) (id : SessionId) (o : ObjectId) : Registry :=
  ⟨(id, o) :: r.sessions.filter fun entry => entry.1 ≠ id, r.insertionOrder ++ [id]⟩

/-- The oldest retained session that has no stream. -/
def eviction (connected : ObjectId → Bool) (r : Registry) : Option SessionId :=
  r.insertionOrder.find? fun id =>
    match r.get id with
    | some o => !connected o
    | none => false

/-- Every round of the loop evicts one session, so their number bounds the rounds. -/
def makeRoom (connected : ObjectId → Bool) : Nat → Registry → Registry
  | 0, r => r
  | rounds + 1, r =>
    if r.sessions.length < maxRetainedSessions then r
    else
      match r.eviction connected with
      | none => r
      | some id => makeRoom connected rounds (r.remove id)

theorem mem_of_get {r : Registry} {id o} (h : r.get id = some o) : (id, o) ∈ r.sessions := by
  unfold get at h
  obtain ⟨before, after, eq, _⟩ := List.lookup_eq_some_iff.mp h
  rw [eq]
  exact List.mem_append_right _ List.mem_cons_self

theorem makeRoom_rule {P : Registry → Prop} (keep : ∀ r id, P r → P (r.remove id)) (rounds : Nat)
    (h : P r) : P (r.makeRoom connected rounds) := by
  induction rounds generalizing r with
  | zero => exact h
  | succ rounds ih =>
    unfold makeRoom
    split
    case isTrue => exact h
    case isFalse =>
      split
      case h_1 => exact h
      case h_2 id _ => exact ih (keep r id h)

end Registry

structure Begin where
  rollupId : UInt64
  anchorNumber : UInt64
  anchorHash : Bytes
  anchorStateRoot : Bytes

structure Settlement where
  abiCalldata : Bytes
  blobs : List Bytes
  postingContext : Option Bytes

structure Finalize where
  fromBlock : UInt64
  toBlock : UInt64
  terminalHash : Bytes
  settlement : Option Settlement

inductive FrameKind where
  | ready
  | validated
  | proof
  | rejected
  | cancelled
  deriving DecidableEq

structure ServerFrame where
  sessionId : Bytes
  epoch : UInt64
  kind : FrameKind

/-- Frames that are only published under the epoch they carry. -/
def ServerFrame.guarded (frame : ServerFrame) : Bool := frame.kind = .validated ∨ frame.kind = .proof

inductive ClientWork where
  | rewind (ancestorHash : Bytes)
  | block (data : Option SubmittedBlock)
  | finalize (request : Finalize)

inductive Request where
  | rewind (ancestor : B256)
  | block (submitted : SubmittedBlock) (witnessItems : Nat)
  | finalize (fromBlock toBlock : UInt64) (terminalHash : B256) (calldata : Bytes)
  | send (frame : ServerFrame)
  | detach

/-- The checks made before the session is fetched. -/
def parseWork : ClientWork → Except Status Request
  | .rewind ancestorHash => return .rewind (← parseB256 "rewind ancestor hash" ancestorHash)
  | .block data => do
    let submitted ← require data ⟨.invalidArgument, "Block carries no block data"⟩
    let items ← require submitted.witnessItems ⟨.invalidArgument, "Block carries no execution witness"⟩
    return .block submitted items
  | .finalize request => do
    let terminalHash ← parseB256 "terminal hash" request.terminalHash
    let settlement ← require request.settlement
      ⟨.invalidArgument, "Finalize carries no settlement input"⟩
    ensure (settlement.blobs = [] ∧ settlement.postingContext = none)
      ⟨.unimplemented, "this Rollup0 deployment uses calldata settlement without posting context"⟩
    return .finalize request.fromBlock request.toBlock terminalHash settlement.abiCalldata

inductive Failure where
  | status (status : Status)
  | settlement (error : SettlementPipelineError)

inductive Reply where
  | validated (validated : Validated)
  | proof (publicInputsHash : B256) (signature : Bytes)
  | ready (validatedThrough : UInt64) (validatedHash : B256)
  | sent (published : Bool)
  | detached

structure Selection where
  fromBlock : UInt64
  toBlock : UInt64
  calldata : Bytes
  anchor : BlockAnchor
  window : ValidatedWindow
  startIndex : Nat
  token : Token

inductive Flight where
  /-- The session is fetched and not yet locked. -/
  | fetched (o : ObjectId) (bound : BoundSession) (request : Request)
  | validating (o : ObjectId) (bound : BoundSession) (admission : Admission)
  | finalizing (o : ObjectId) (bound : BoundSession) (selection : Selection)
  | settled (o : ObjectId) (bound : BoundSession) (selection : Selection) (publicInputsHash : B256)
  | finished (result : Except Failure Reply)

/-- What a step does, with the epoch it was started under. -/
inductive Act where
  | began (o : ObjectId) (id : SessionId)
  | installed (o : ObjectId) (epoch : UInt64)
  | appended (o : ObjectId) (epoch : UInt64) (block : SessionBlock)
  | selected (o : ObjectId) (epoch : UInt64) (session : Session) (selection : Selection)
  | settles (o : ObjectId) (epoch : UInt64) (selection : Selection)
  | signed (o : ObjectId) (epoch : UInt64) (before after : Session) (selection : Selection)
  | published (o : Option ObjectId) (frame : ServerFrame)

structure Runtime where
  registry : Registry
  heap : List Session
  tokens : List Bool
  flights : List Flight
  log : List Act

def Runtime.initial : Runtime := ⟨⟨[], []⟩, [], [], [], []⟩

/-- The rollup served, its limits, and the settlement job: calldata, window, and what
the two reads of the cancellation token give. -/
structure Service where
  expectedRollupId : UInt64
  limits : ServiceLimits
  settle : Bytes → ValidatedWindow → Bool → Bool → Except SettlementPipelineError B256

inductive Event where
  /-- `anchored` is the backend's answer on the anchor, `draws` the identifiers drawn
  until the source of randomness fails. -/
  | begin (request : Begin) (anchored : Except ValidationError Unit) (draws : List SessionId)
  | resume (id : SessionId)
  | cancel (bound : BoundSession)
  | work (bound : BoundSession) (frame : ClientWork)
  | send (frame : ServerFrame)
  | detach (bound : BoundSession)
  /-- The operation gets the lock of the session it fetched. -/
  | enter (flight : Nat)
  /-- The backend answers, and the operation gets the lock again. -/
  | validated (flight : Nat) (answer : Except ValidationError (Artifact × Bool))
  | settle (flight : Nat) (prepared : Except ValidationError Unit) (cancelledAtStart cancelledBeforeDa : Bool)
  /-- The deadline of a `finalize`, while its attestation is prepared or later. -/
  | expire (flight : Nat) (preparing : Bool)
  | sign (flight : Nat) (signature : Option Bytes)

def notRetained : Status := ⟨.notFound, "prover session is not retained"⟩

namespace Runtime

def refuse (rt : Runtime) (status : Status) : Runtime :=
  { rt with flights := rt.flights ++ [.finished (.error (.status status))] }

def retire (rt : Runtime) (i : Nat) (result : Except Failure Reply) : Runtime :=
  { rt with flights := rt.flights.set i (.finished result) }

def install (rt : Runtime) (o : ObjectId) (s s' : Session) : Runtime :=
  { rt with heap := rt.heap.set o s', tokens := rt.tokens.set s.cancellation true ++ [false] }

def connected (rt : Runtime) (o : ObjectId) : Bool := ((rt.heap[o]?).map Session.connected).getD false

def parseAnchor (service : Service) (request : Begin) (anchored : Except ValidationError Unit) :
    Except Status BlockAnchor := do
  ensure (request.rollupId = service.expectedRollupId) ⟨.unimplemented, "session rollup identity rejected"⟩
  let _ ← require (checkedAdd request.anchorNumber 1)
    ⟨.invalidArgument, "anchor block number cannot be incremented"⟩
  let hash ← parseB256 "anchor hash" request.anchorHash
  let stateRoot ← parseB256 "anchor state root" request.anchorStateRoot
  anchored.mapError validationStatus
  return ⟨request.anchorNumber, hash, stateRoot⟩

def begin (rt : Runtime) (service : Service) (request : Begin) (anchored : Except ValidationError Unit)
    (draws : List SessionId) : Runtime :=
  match parseAnchor service request anchored with
  | .error status => rt.refuse status
  | .ok anchor =>
    let registry := rt.registry.makeRoom rt.connected rt.registry.sessions.length
    if registry.sessions.length < maxRetainedSessions then
      match draws.find? fun id => id ≠ 0 ∧ registry.get id = none with
      | none => { rt.refuse ⟨.internal, "unable to allocate a prover session ID"⟩ with registry }
      | some id =>
        { rt with
          registry := registry.insert id rt.heap.length
          heap := rt.heap ++ [⟨anchor, [], anchor.number, 1, true, rt.tokens.length⟩]
          tokens := rt.tokens ++ [false]
          log := rt.log ++ [.began rt.heap.length id] }
    else { rt.refuse ⟨.resourceExhausted, "too many retained prover sessions"⟩ with registry }

def resume (rt : Runtime) (o : ObjectId) (s : Session) : Runtime :=
  { rt.install o s (s.resume rt.tokens.length) with log := rt.log ++ [.installed o (nextEpoch s.epoch)] }

def cancel (rt : Runtime) (id : SessionId) (s : Session) : Runtime :=
  { rt with registry := rt.registry.remove id, tokens := rt.tokens.set s.cancellation true }

def fetch (rt : Runtime) (bound : BoundSession) (request : Request) : Runtime :=
  match rt.registry.get bound.id with
  | none => rt.refuse notRetained
  | some o => { rt with flights := rt.flights ++ [.fetched o bound request] }

def send (rt : Runtime) (frame : ServerFrame) : Runtime :=
  if frame.guarded then
    match parseB256 "session ID" frame.sessionId with
    | .error status => rt.refuse status
    | .ok id => rt.fetch ⟨id, frame.epoch⟩ (.send frame)
  else { rt with log := rt.log ++ [.published none frame] }

def rewind (rt : Runtime) (i : Nat) (o : ObjectId) (s s' : Session) : Runtime :=
  { (rt.install o s s').retire i (.ok (.ready s'.tip.number s'.tip.hash)) with
    log := rt.log ++ [.installed o s'.epoch] }

def select (rt : Runtime) (i : Nat) (o : ObjectId) (bound : BoundSession) (s : Session) (selection : Selection) :
    Runtime :=
  { rt.install o s { s with cancellation := selection.token } with
    flights := rt.flights.set i (.finalizing o bound selection)
    log := rt.log ++ [.selected o bound.epoch s selection] }

def publish (rt : Runtime) (i : Nat) (o : ObjectId) (frame : ServerFrame) : Runtime :=
  { rt.retire i (.ok (.sent true)) with log := rt.log ++ [.published (some o) frame] }

def detach (rt : Runtime) (i : Nat) (o : ObjectId) (s : Session) : Runtime :=
  { rt.retire i (.ok .detached) with heap := rt.heap.set o { s with connected := false } }

def enter (rt : Runtime) (service : Service) (i : Nat) (o : ObjectId) (bound : BoundSession) (s : Session) :
    Request → Runtime
  | .rewind ancestor =>
    match s.rewind bound.epoch ancestor rt.tokens.length with
    | .error status => rt.retire i (.error (.status status))
    | .ok s' => rt.rewind i o s s'
  | .block submitted witnessItems =>
    match s.snapshot service.limits bound.epoch submitted witnessItems with
    | .error status => rt.retire i (.error (.status status))
    | .ok (.inl validated) => rt.retire i (.ok (.validated validated))
    | .ok (.inr admission) => { rt with flights := rt.flights.set i (.validating o bound admission) }
  | .finalize fromBlock toBlock terminalHash calldata =>
    match s.requireEpoch bound.epoch with
    | .error status => rt.retire i (.error (.status status))
    | .ok _ =>
      match s.selectWindow service.limits fromBlock toBlock terminalHash with
      | .error status => rt.retire i (.error (.status status))
      | .ok (anchor, window, startIndex) =>
        rt.select i o bound s ⟨fromBlock, toBlock, calldata, anchor, window, startIndex, rt.tokens.length⟩
  | .send frame => if s.epoch = frame.epoch then rt.publish i o frame else rt.retire i (.ok (.sent false))
  | .detach => if s.epoch = bound.epoch then rt.detach i o s else rt.retire i (.ok .detached)

def append (rt : Runtime) (i : Nat) (o : ObjectId) (bound : BoundSession) (block : SessionBlock) (reused : Bool)
    (s' : Session) : Runtime :=
  { rt.retire i (.ok (.validated (validatedResponse block.validated reused))) with
    heap := rt.heap.set o s'
    log := rt.log ++ [.appended o bound.epoch block] }

/-- The window goes to the settlement job, whatever comes of it. -/
def settle (rt : Runtime) (i : Nat) (o : ObjectId) (bound : BoundSession) (selection : Selection)
    (outcome : Except SettlementPipelineError B256) : Runtime :=
  let flight := match outcome with
    | .error e => Flight.finished (.error (.settlement e))
    | .ok hash => .settled o bound selection hash
  { rt with
    flights := rt.flights.set i flight
    log := rt.log ++ [.settles o bound.epoch selection] }

def deadlineExceeded (preparing : Bool) : Status :=
  ⟨.deadlineExceeded, if preparing then "ProveStream Finalize attestation preparation deadline exceeded"
    else "ProveStream Finalize deadline exceeded"⟩

def expire (rt : Runtime) (i : Nat) (selection : Selection) (preparing : Bool) : Runtime :=
  { rt.retire i (.error (.status (deadlineExceeded preparing))) with
    tokens := rt.tokens.set selection.token true }

def sign (rt : Runtime) (i : Nat) (o : ObjectId) (bound : BoundSession) (selection : Selection) (hash : B256)
    (signature : Bytes) (s s' : Session) : Runtime :=
  { rt.retire i (.ok (.proof hash signature)) with
    heap := rt.heap.set o s'
    log := rt.log ++ [.signed o bound.epoch s s' selection] }

def cancelled (rt : Runtime) (token : Token) : Bool := (rt.tokens[token]?).getD false

end Runtime

/-- One step; an event that does not fit the state leaves it as it is. -/
def step (service : Service) (rt : Runtime) : Event → Runtime
  | .begin request anchored draws => rt.begin service request anchored draws
  | .resume id =>
    match rt.registry.get id with
    | none => rt.refuse notRetained
    | some o =>
      match rt.heap[o]? with
      | none => rt
      | some s => rt.resume o s
  | .cancel bound =>
    match rt.registry.get bound.id with
    | none => rt.refuse notRetained
    | some o =>
      match rt.heap[o]? with
      | none => rt
      | some s => if s.epoch = bound.epoch then rt.cancel bound.id s else rt.refuse staleEpoch
  | .work bound frame =>
    match parseWork frame with
    | .error status => rt.refuse status
    | .ok request => rt.fetch bound request
  | .send frame => rt.send frame
  | .detach bound => rt.fetch bound .detach
  | .enter i =>
    match rt.flights[i]? with
    | some (.fetched o bound request) =>
      match rt.heap[o]? with
      | none => rt
      | some s => rt.enter service i o bound s request
    | _ => rt
  | .validated i answer =>
    match rt.flights[i]? with
    | some (.validating o bound admission) =>
      match answer with
      | .error e => rt.retire i (.error (.status (validationStatus e)))
      | .ok (artifact, reused) =>
        match rt.heap[o]? with
        | none => rt
        | some s =>
          let block : SessionBlock := ⟨artifact, admission.payloadBytes, admission.witnessItems⟩
          match s.append bound.epoch admission.parent block with
          | .error status => rt.retire i (.error (.status status))
          | .ok s' => rt.append i o bound block reused s'
    | _ => rt
  | .settle i prepared cancelledAtStart cancelledBeforeDa =>
    match rt.flights[i]? with
    | some (.finalizing o bound selection) =>
      match prepared with
      | .error e => rt.retire i (.error (.status (validationStatus e)))
      | .ok _ => rt.settle i o bound selection
          (service.settle selection.calldata selection.window cancelledAtStart cancelledBeforeDa)
    | _ => rt
  | .expire i preparing =>
    match rt.flights[i]? with
    | some (.finalizing _ _ selection) => rt.expire i selection preparing
    | _ => rt
  | .sign i signature =>
    match rt.flights[i]? with
    | some (.settled o bound selection hash) =>
      match rt.heap[o]? with
      | none => rt
      | some s =>
        match s.sign bound.epoch (rt.cancelled selection.token) signature selection.anchor selection.startIndex
            selection.toBlock with
        | .error status => rt.retire i (.error (.status status))
        | .ok (s', signature) => rt.sign i o bound selection hash signature s s'
    | _ => rt

end Eez.Sessions
