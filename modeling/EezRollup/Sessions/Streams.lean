import EezRollup.Sessions.Cancelled

/-! Each RPC stream has one task, and at most one block or finalization worked on at a time, in a
task of its own. -/
namespace Eez.Sessions
open Octets Outcome Signer

def maxActiveStreams : Nat := 2 * maxRetainedSessions

inductive ClientKind where
  | begin (request : Begin)
  | resume
  | rewind (ancestorHash : Bytes)
  | block (data : Option SubmittedBlock)
  | finalize (request : Finalize)
  | cancel

structure ClientFrame where
  sessionId : Bytes
  epoch : UInt64
  kind : Option ClientKind
  encodedLen : Nat

def requireBound (bound : Option BoundSession) (submitted : Bytes) (epoch : UInt64) : Except Status BoundSession := do
  let id ← parseB256 "session ID" submitted
  let bound ← require bound ⟨.permissionDenied, "stream is not bound to a session"⟩
  ensure (¬(bound.id ≠ id ∨ bound.epoch ≠ epoch))
    ⟨.permissionDenied, "frame does not belong to this stream's session"⟩
  return bound

theorem requireBound_eq_ok (found : requireBound bound submitted epoch = .ok b) : bound = some b := by
  simp only [requireBound, bind_eq_ok, require_eq_ok, ensure_eq_ok, pure_eq_ok, exists_const] at found
  obtain ⟨_, _, _, has, _, rfl⟩ := found
  exact has

def authorizedBound (bound : Option BoundSession) (submitted : Bytes) (epoch : UInt64) : Option BoundSession :=
  bound.filter fun bound => bound.epoch = epoch ∧ submitted = b256Bytes bound.id

def serverFrame (bound : BoundSession) (kind : FrameKind) : ServerFrame := ⟨b256Bytes bound.id, bound.epoch, kind⟩

/-- Names a session only to a stream that is still attached to it. -/
def rejectedFrame (rt : Runtime) (authorized : Option BoundSession) : ServerFrame :=
  match authorized with
  | none => ⟨[], 0, .rejected⟩
  | some bound =>
    match (rt.registry.get bound.id).bind fun o => rt.heap[o]? with
    | some s => if s.epoch = bound.epoch then serverFrame bound .rejected else ⟨[], 0, .rejected⟩
    | none => ⟨[], 0, .rejected⟩

/-- A frame with whether the stream closes after it, or a refusal with whom it may be told to. -/
abbrev Response := Except (Option BoundSession) (ServerFrame × Bool)

/-- Requests that wait their turn, so that they cannot overtake each other. -/
inductive QueuedWork where
  | block (data : Option SubmittedBlock)
  | finalize (request : Finalize)

def QueuedWork.frame : QueuedWork → ClientWork
  | .block data => .block data
  | .finalize request => .finalize request

structure Queued where
  sessionId : Bytes
  epoch : UInt64
  work : QueuedWork
  bytes : Nat
  items : Nat

/-- The work of a stream, in its own task. -/
inductive Operation where
  /-- The task has not run yet; it goes by the binding there was when it was spawned. -/
  | spawned (bound : Option BoundSession) (request : Queued)
  | running (flight : Nat) (bound : BoundSession)
  | refused (status : Status)

/-- Where the task of the stream is. -/
inductive Phase where
  | serving
  /-- A rewind it handles has fetched its session. -/
  | rewinding (flight : Nat)
  /-- A guarded frame is to be published. -/
  | sending (flight : Nat) (close : Bool)
  /-- Out of the loop, the output dropped. -/
  | closing
  | detaching (flight : Nat)
  | closed
  deriving DecidableEq

structure Stream where
  bound : Option BoundSession
  pending : List Queued
  pendingBytes : Nat
  pendingItems : Nat
  operation : Option Operation
  inputClosed : Bool
  phase : Phase

def Stream.fresh : Stream := ⟨none, [], 0, 0, none, false, .serving⟩

structure System where
  runtime : Runtime
  streams : List Stream

def System.initial : System := ⟨.initial, []⟩

/-- What happens to a stream. `room` is whether the output has room in time. -/
inductive Signal where
  /-- The next queued request gets a task. -/
  | spawn
  | run
  /-- Of `begin`: the backend's answer on the anchor, and the identifiers drawn. -/
  | input (frame : ClientFrame) (anchored : Except ValidationError Unit) (draws : List SessionId) (room : Bool)
  | eof
  | inputFailed
  | idle
  | outputClosed
  | completed (room : Bool)
  | panicked
  | rewound (room : Bool)
  | sent
  | drained
  | finish
  | detached

inductive SystemEvent where
  | connect
  | stream (k : Nat) (signal : Signal)
  /-- An operation gets a lock, or an answer. -/
  | operation (event : Event)

namespace Stream

/-- At the `select`: nothing to start, and not yet drained. -/
def selecting (st : Stream) : Bool :=
  st.phase = .serving ∧ (st.operation.isSome ∨ (st.pending = [] ∧ st.inputClosed = false))

/-- Frames that need no session go out at once. -/
def respond (service : Service) (rt : Runtime) (st : Stream) (response : Response) (room : Bool) : Runtime × Stream :=
  if room then
    match response with
    | .ok (frame, close) =>
      (Sessions.step service rt (.send frame), { st with phase := if close then .closing else .serving })
    | .error authorized => (Sessions.step service rt (.send (rejectedFrame rt authorized)),
      { st with phase := .serving })
  else (rt, { st with phase := .closing })

def spawn (st : Stream) : Stream :=
  match st.operation, st.pending with
  | none, request :: rest =>
    { st with
      operation := some (.spawned st.bound request)
      pending := rest
      pendingBytes := st.pendingBytes - request.bytes
      pendingItems := st.pendingItems - request.items }
  | _, _ => st

def run (service : Service) (rt : Runtime) (st : Stream) : Runtime × Stream :=
  match st.operation with
  | some (.spawned bound request) =>
    match requireBound bound request.sessionId request.epoch with
    | .error status => (rt, { st with operation := some (.refused status) })
    | .ok bound =>
      (Sessions.step service rt (.work bound request.work.frame),
        { st with operation := some (.running rt.flights.length bound) })
  | _ => (rt, st)

/-- Queued work is bounded before it reaches its session; a stream that overflows is closed. -/
def enqueue (service : Service) (st : Stream) (frame : ClientFrame) (work : QueuedWork) (items : Nat) : Stream :=
  if st.pending.length ≥ service.limits.maxBlocks + 1 ∨ items > service.limits.maxWitnessItems - st.pendingItems ∨
      frame.encodedLen > service.limits.maxPayloadBytes * 2 - st.pendingBytes then
    { st with phase := .closing }
  else
    { st with
      pending := st.pending ++ [⟨frame.sessionId, frame.epoch, work, frame.encodedLen, items⟩]
      pendingBytes := st.pendingBytes + frame.encodedLen
      pendingItems := st.pendingItems + items }

def begunId (rt rt' : Runtime) : Option SessionId :=
  match rt'.log[rt.log.length]? with
  | some (.began _ id) => some id
  | _ => none

def begin (service : Service) (rt : Runtime) (st : Stream) (frame : ClientFrame) (request : Begin)
    (anchored : Except ValidationError Unit) (draws : List SessionId) (room : Bool) : Runtime × Stream :=
  if st.bound.isSome ∨ frame.sessionId ≠ [] ∨ frame.epoch ≠ 0 then respond service rt st (.error none) room
  else
    let rt' := Sessions.step service rt (.begin request anchored draws)
    match begunId rt rt' with
    | some id => respond service rt' { st with bound := some ⟨id, 1⟩ } (.ok (serverFrame ⟨id, 1⟩ .ready, false)) room
    | none => respond service rt' st (.error none) room

def retained (rt : Runtime) (id : SessionId) : Option Session := (rt.registry.get id).bind fun o => rt.heap[o]?

def resume (service : Service) (rt : Runtime) (st : Stream) (frame : ClientFrame) (room : Bool) : Runtime × Stream :=
  if st.bound.isSome ∨ frame.epoch ≠ 0 then respond service rt st (.error none) room
  else
    match parseB256 "session ID" frame.sessionId with
    | .error _ => respond service rt st (.error none) room
    | .ok id =>
      let rt' := Sessions.step service rt (.resume id)
      match retained rt id with
      | none => respond service rt' st (.error none) room
      | some s =>
        let bound : BoundSession := ⟨id, nextEpoch s.epoch⟩
        respond service rt' { st with bound := some bound } (.ok (serverFrame bound .ready, false)) room

/-- The stream's own task waits for the lock of the session it rewinds. -/
def rewind (service : Service) (rt : Runtime) (st : Stream) (frame : ClientFrame) (ancestorHash : Bytes) (room : Bool) :
    Runtime × Stream :=
  match requireBound st.bound frame.sessionId frame.epoch with
  | .error _ => respond service rt st (.error none) room
  | .ok bound =>
    (Sessions.step service rt (.work bound (.rewind ancestorHash)), { st with phase := .rewinding rt.flights.length })

def cancel (service : Service) (rt : Runtime) (st : Stream) (frame : ClientFrame) (room : Bool) : Runtime × Stream :=
  match requireBound st.bound frame.sessionId frame.epoch with
  | .error _ => respond service rt st (.error none) room
  | .ok bound =>
    let rt' := Sessions.step service rt (.cancel bound)
    if (retained rt bound.id).any fun s => s.epoch = bound.epoch then
      respond service rt' { st with bound := none } (.ok (serverFrame bound .cancelled, true)) room
    else respond service rt' st (.error none) room

def input (service : Service) (rt : Runtime) (st : Stream) (frame : ClientFrame)
    (anchored : Except ValidationError Unit)
    (draws : List SessionId) (room : Bool) : Runtime × Stream :=
  match frame.kind with
  | some (.block data) => (rt, st.enqueue service frame (.block data) ((data.bind SubmittedBlock.witnessItems).getD 0))
  | some (.finalize request) => (rt, st.enqueue service frame (.finalize request) 0)
  | some (.begin request) => st.begin service rt frame request anchored draws room
  | some .resume => st.resume service rt frame room
  | some (.rewind ancestorHash) => st.rewind service rt frame ancestorHash room
  | some .cancel => st.cancel service rt frame room
  | none => respond service rt st (.error (authorizedBound st.bound frame.sessionId frame.epoch)) room

/-- What the work of the stream has come to, when it is through. -/
def outcome (rt : Runtime) : Operation → Option Response
  | .spawned _ _ => none
  | .refused _ => some (.error none)
  | .running i bound =>
    match rt.flights[i]? with
    | some (.finished (.ok (.validated _))) => some (.ok (serverFrame bound .validated, false))
    | some (.finished (.ok (.proof _ _))) => some (.ok (serverFrame bound .proof, true))
    | some (.finished (.error _)) => some (.error (some bound))
    | _ => none

/-- Replies that do not belong to the current binding are suppressed. -/
def deliver (service : Service) (rt : Runtime) (st : Stream) (room : Bool) : Response → Runtime × Stream
  | .ok (frame, close) =>
    if st.bound.any fun bound => frame.sessionId = b256Bytes bound.id ∧ frame.epoch = bound.epoch then
      if room then (Sessions.step service rt (.send frame), { st with phase := .sending rt.flights.length close })
      else (rt, { st with phase := .closing })
    else (rt, st)
  | .error authorized =>
    if authorized = none ∨ authorized = st.bound then respond service rt st (.error authorized) room else (rt, st)

def completed (service : Service) (rt : Runtime) (st : Stream) (room : Bool) : Runtime × Stream :=
  match st.operation.bind (outcome rt) with
  | none => (rt, st)
  | some response => { st with operation := none }.deliver service rt room response

def rewound (service : Service) (rt : Runtime) (st : Stream) (i : Nat) (room : Bool) : Runtime × Stream :=
  match rt.flights[i]?, st.bound with
  | some (.finished (.ok (.ready _ _))), some bound =>
    let bound : BoundSession := ⟨bound.id, nextEpoch bound.epoch⟩
    respond service rt { st with bound := some bound, pending := [], pendingBytes := 0, pendingItems := 0 }
      (.ok (serverFrame bound .ready, false)) room
  | some (.finished _), bound => respond service rt st (.error bound) room
  | _, _ => (rt, st)

def sent (rt : Runtime) (st : Stream) (i : Nat) (close : Bool) : Stream :=
  match rt.flights[i]? with
  | some (.finished (.ok (.sent true))) => { st with phase := if close then .closing else .serving }
  | some (.finished _) => { st with phase := .closing }
  | _ => st

/-- Outstanding work is awaited before the session is let go. -/
def finish (service : Service) (rt : Runtime) (st : Stream) : Runtime × Stream :=
  if st.operation.all fun operation => (outcome rt operation).isSome then
    match st.bound with
    | some bound => (Sessions.step service rt (.detach bound), { st with phase := .detaching rt.flights.length })
    | none => (rt, { st with phase := .closed })
  else (rt, st)

def detached (rt : Runtime) (st : Stream) (i : Nat) : Stream :=
  match rt.flights[i]? with
  | some (.finished _) => { st with phase := .closed }
  | _ => st

/-- One step; a signal that does not fit the stream leaves everything as it is. -/
def step (service : Service) (rt : Runtime) (st : Stream) (signal : Signal) : Runtime × Stream :=
  match signal, st.phase with
  | .spawn, .serving => (rt, st.spawn)
  | .run, _ => st.run service rt
  | .input frame anchored draws room, .serving =>
    if st.selecting ∧ st.inputClosed = false then st.input service rt frame anchored draws room else (rt, st)
  | .eof, .serving => if st.selecting ∧ st.inputClosed = false then (rt, { st with inputClosed := true }) else (rt, st)
  | .inputFailed, .serving =>
    if st.selecting ∧ st.inputClosed = false then (rt, { st with phase := .closing }) else (rt, st)
  | .idle, .serving => if st.selecting ∧ st.operation = none then (rt, { st with phase := .closing }) else (rt, st)
  | .outputClosed, .serving => if st.selecting then (rt, { st with phase := .closing }) else (rt, st)
  | .completed room, .serving => if st.selecting then st.completed service rt room else (rt, st)
  | .panicked, .serving =>
    if st.selecting ∧ st.operation.isSome then (rt, { st with operation := none, phase := .closing }) else (rt, st)
  | .panicked, .closing => (rt, { st with operation := none })
  | .rewound room, .rewinding i => st.rewound service rt i room
  | .sent, .sending i close => (rt, st.sent rt i close)
  | .drained, .serving =>
    if st.operation = none ∧ st.pending = [] ∧ st.inputClosed then (rt, { st with phase := .closing }) else (rt, st)
  | .finish, .closing => st.finish service rt
  | .detached, .detaching i => (rt, st.detached rt i)
  | _, _ => (rt, st)

end Stream

def System.active (sys : System) : Nat := sys.streams.countP fun st => st.phase ≠ .closed

def System.step (service : Service) (sys : System) : SystemEvent → System
  | .connect => if sys.active < maxActiveStreams then { sys with streams := sys.streams ++ [.fresh] } else sys
  | .stream k signal =>
    match sys.streams[k]? with
    | none => sys
    | some st =>
      let (rt, st) := st.step service sys.runtime signal
      ⟨rt, sys.streams.set k st⟩
  | .operation event =>
    if event.operation?.isSome then { sys with runtime := Sessions.step service sys.runtime event } else sys

def System.after (service : Service) (run : List SystemEvent) : System := run.foldl (System.step service) .initial

end Eez.Sessions
