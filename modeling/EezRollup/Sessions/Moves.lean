import EezRollup.Sessions.Runtime

/-! Every step of the runtime is one of the moves below. The proofs about runs look at these, and
not into the steps. -/
open List
namespace Eez.Sessions
open Octets Outcome Signer

variable {α : Type} {a b : α} {i : Nat} {l : List α}

theorem getElem?_set_cases {j : Nat} (h : (l.set i a)[j]? = some b) : (i = j ∧ b = a) ∨ (i ≠ j ∧ l[j]? = some b) := by
  rw [getElem?_set] at h
  split at h
  case isTrue same =>
    split at h
    case isTrue => exact .inl ⟨same, (Option.some.inj h).symm⟩
    case isFalse => cases h
  case isFalse other => exact .inr ⟨other, h⟩

theorem getElem?_concat_cases {j : Nat} (h : (l ++ [a])[j]? = some b) : l[j]? = some b ∨ (j = l.length ∧ b = a) := by
  rw [getElem?_append] at h
  split at h
  case isTrue => exact .inl h
  case isFalse out =>
    obtain ⟨bound, eq⟩ := List.getElem?_eq_some_iff.mp h
    rw [length_singleton] at bound
    exact .inr ⟨by omega, eq.symm.trans (getElem_singleton _)⟩

theorem getElem?_set_held (h : l[i]? = some a) : (l.set i b)[i]? = some b :=
  getElem?_set_self (List.getElem?_eq_some_iff.mp h).1

theorem getElem?_concat_held (h : l[i]? = some a) : (l ++ [b])[i]? = some a := by
  rw [getElem?_append_left (List.getElem?_eq_some_iff.mp h).1]
  exact h

def Flight.carries : Flight → Option (ObjectId × BoundSession × Selection)
  | .finalizing o bound selection => some (o, bound, selection)
  | .settled o bound selection _ => some (o, bound, selection)
  | _ => none

/-- A finished operation does nothing any more. -/
def Flight.Done (f : Flight) : Prop := ∃ result, f = .finished result

/-- `H` is what the backend has to keep to for a block it returned. -/
inductive Moves (service : Service) (H : Prop) (rt : Runtime) : Runtime → Prop where
  /-- No session and no flag changes; the registry may have evicted. -/
  | quiet {registry : Registry} {flights : List Flight}
      (room : registry = rt.registry ∨ registry = rt.registry.makeRoom rt.connected rt.registry.sessions.length)
      (kept : ∀ {i : Nat} {f : Flight}, flights[i]? = some f → rt.flights[i]? = some f ∨ f.Done) :
      Moves service H rt { rt with registry, flights }
  | begin {registry : Registry} {id : SessionId} (anchor : BlockAnchor)
      (room : registry = rt.registry.makeRoom rt.connected rt.registry.sessions.length)
      (few : registry.sessions.length < maxRetainedSessions) (fresh : registry.get id = none) :
      Moves service H rt
        { rt with
          registry := registry.insert id rt.heap.length
          heap := rt.heap ++ [⟨anchor, [], anchor.number, 1, true, rt.tokens.length⟩]
          tokens := rt.tokens ++ [false]
          log := rt.log ++ [.began rt.heap.length id] }
  | resume {o : ObjectId} {s : Session} (held : rt.heap[o]? = some s) : Moves service H rt (rt.resume o s)
  | cancel {s : Session} (id : SessionId) : Moves service H rt (rt.cancel id s)
  | fetch {o : ObjectId} {bound : BoundSession} {request : Request} (retained : rt.registry.get bound.id = some o)
      (sends : ∀ frame, request = .send frame → parseB256 "session ID" frame.sessionId = .ok bound.id) :
      Moves service H rt { rt with flights := rt.flights ++ [.fetched o bound request] }
  | say {frame : ServerFrame} (free : frame.guarded = false) :
      Moves service H rt { rt with log := rt.log ++ [.published none frame] }
  | rewind {i : Nat} {o : ObjectId} {bound : BoundSession} {ancestor : B256} {s s' : Session}
      (held : rt.heap[o]? = some s) (cut : s.rewind bound.epoch ancestor rt.tokens.length = .ok s') :
      Moves service H rt (rt.rewind i o s s')
  | snapshot {i : Nat} {o : ObjectId} {bound : BoundSession} {submitted : SubmittedBlock} {witnessItems : Nat}
      {s : Session} {admission : Admission} (held : rt.heap[o]? = some s)
      (taken : s.snapshot service.limits bound.epoch submitted witnessItems = .ok (.inr admission)) :
      Moves service H rt { rt with flights := rt.flights.set i (.validating o bound admission) }
  | select {i : Nat} {o : ObjectId} {bound : BoundSession} {s : Session} {selection : Selection} {terminalHash : B256}
      (held : rt.heap[o]? = some s) (current : s.epoch = bound.epoch) (token : selection.token = rt.tokens.length)
      (taken : s.selectWindow service.limits selection.fromBlock selection.toBlock terminalHash =
        .ok (selection.anchor, selection.window, selection.startIndex)) :
      Moves service H rt (rt.select i o bound s selection)
  | publish {i : Nat} {o : ObjectId} {bound : BoundSession} {frame : ServerFrame} {s : Session}
      (flight : rt.flights[i]? = some (.fetched o bound (.send frame))) (held : rt.heap[o]? = some s)
      (current : s.epoch = frame.epoch) : Moves service H rt (rt.publish i o frame)
  | detach {i : Nat} {o : ObjectId} {s : Session} (held : rt.heap[o]? = some s) : Moves service H rt (rt.detach i o s)
  | append {i : Nat} {o : ObjectId} {bound : BoundSession} {admission : Admission} {artifact : Artifact} {reused : Bool}
      {s s' : Session} (flight : rt.flights[i]? = some (.validating o bound admission)) (held : rt.heap[o]? = some s)
      (linked : H → artifact.Follows admission.parent)
      (taken : s.append bound.epoch admission.parent ⟨artifact, admission.payloadBytes, admission.witnessItems⟩ =
        .ok s') :
      Moves service H rt
        (rt.append i o bound ⟨artifact, admission.payloadBytes, admission.witnessItems⟩ reused s')
  | settle {i : Nat} {o : ObjectId} {bound : BoundSession} {selection : Selection}
      {outcome : Except SettlementPipelineError B256} (flight : rt.flights[i]? = some (.finalizing o bound selection)) :
      Moves service H rt (rt.settle i o bound selection outcome)
  | expire {i : Nat} {selection : Selection} {preparing : Bool} : Moves service H rt (rt.expire i selection preparing)
  | sign {i : Nat} {o : ObjectId} {bound : BoundSession} {selection : Selection} {hash : B256}
    {signature : Option Bytes}
      {made : Bytes} {s s' : Session} (flight : rt.flights[i]? = some (.settled o bound selection hash))
      (held : rt.heap[o]? = some s)
      (taken : s.sign bound.epoch (rt.cancelled selection.token) signature selection.anchor selection.startIndex
        selection.toBlock = .ok (s', made)) :
      Moves service H rt (rt.sign i o bound selection hash made s s')

/-- The backend returns a block only for the parent it was asked about. -/
def Event.Honest (rt : Runtime) : Event → Prop
  | .validated i (.ok (artifact, _)) =>
    ∀ o bound admission, rt.flights[i]? = some (.validating o bound admission) → artifact.Follows admission.parent
  | _ => True

theorem parseWork_ne_send : parseWork work ≠ .ok (.send frame) := by
  cases work <;> simp only [parseWork, ne_eq, bind_eq_ok, pure_eq_ok, reduceCtorEq, and_false, exists_false,
    not_false_eq_true]

namespace Moves
variable {service : Service} {H : Prop} {rt : Runtime}

theorem stay : Moves service H rt rt := .quiet (.inl rfl) fun at_i => .inl at_i

theorem refuse_kept {i : Nat} (at_i : (rt.refuse status).flights[i]? = some f) : rt.flights[i]? = some f ∨ f.Done := by
  cases getElem?_concat_cases at_i with
  | inl old => exact .inl old
  | inr new => exact .inr ⟨_, new.2⟩

theorem refuse : Moves service H rt (rt.refuse status) := .quiet (.inl rfl) refuse_kept

theorem retire : Moves service H rt (rt.retire i result) := by
  refine .quiet (.inl rfl) fun {j f} at_j => ?_
  cases getElem?_set_cases at_j with
  | inl here => exact .inr ⟨_, here.2⟩
  | inr other => exact .inl other.2

theorem fetched {bound : BoundSession}
    (sends : ∀ frame, request = .send frame → parseB256 "session ID" frame.sessionId = .ok bound.id) :
    Moves service H rt (rt.fetch bound request) := by
  unfold Runtime.fetch
  split
  case h_1 => exact refuse
  case h_2 o found => exact .fetch found sends

theorem sent : Moves service H rt (rt.send frame) := by
  unfold Runtime.send
  split
  case isTrue =>
    split
    case h_1 => exact refuse
    case h_2 id parsed =>
      refine fetched fun other eq => ?_
      cases eq
      exact parsed
  case isFalse free => exact .say (Bool.eq_false_of_not_eq_true free)

theorem began : Moves service H rt (rt.begin service request anchored draws) := by
  unfold Runtime.begin
  split
  case h_1 => exact refuse
  case h_2 anchor _ =>
    dsimp only
    split
    case isTrue few =>
      split
      case h_1 => exact .quiet (.inr rfl) refuse_kept
      case h_2 id drawn =>
        have accepted := find?_some drawn
        exact .begin anchor rfl few (of_decide_eq_true accepted).2
    case isFalse => exact .quiet (.inr rfl) refuse_kept

theorem entered {i : Nat} (flight : rt.flights[i]? = some (.fetched o bound request)) (held : rt.heap[o]? = some s) :
    Moves service H rt (rt.enter service i o bound s request) := by
  cases request with
  | rewind ancestor =>
    simp only [Runtime.enter]
    split
    case h_1 => exact retire
    case h_2 s' cut => exact .rewind held cut
  | block submitted witnessItems =>
    simp only [Runtime.enter]
    split
    case h_1 => exact retire
    case h_2 => exact retire
    case h_3 admission taken => exact .snapshot held taken
  | finalize fromBlock toBlock terminalHash calldata =>
    simp only [Runtime.enter]
    split
    case h_1 => exact retire
    case h_2 current =>
      split
      case h_1 => exact retire
      case h_2 anchor window startIndex taken => exact .select held (ensure_eq_ok.mp current) rfl taken
  | send frame =>
    simp only [Runtime.enter]
    split
    case isTrue current => exact .publish flight held current
    case isFalse => exact retire
  | detach =>
    simp only [Runtime.enter]
    split
    case isTrue => exact .detach held
    case isFalse => exact retire

end Moves

theorem step_moves (ev : Event) : Moves service (ev.Honest rt) rt (step service rt ev) := by
  cases ev with
  | begin request anchored draws => exact Moves.began
  | resume id =>
    simp only [step]
    split
    case h_1 => exact Moves.refuse
    case h_2 o _ =>
      split
      case h_1 => exact Moves.stay
      case h_2 s held => exact .resume held
  | cancel bound =>
    simp only [step]
    split
    case h_1 => exact Moves.refuse
    case h_2 o _ =>
      split
      case h_1 => exact Moves.stay
      case h_2 s held =>
        split
        case isTrue => exact .cancel bound.id
        case isFalse => exact Moves.refuse
  | work bound frame =>
    simp only [step]
    split
    case h_1 => exact Moves.refuse
    case h_2 request parsed =>
      refine Moves.fetched fun other eq => ?_
      exact absurd (eq ▸ parsed) parseWork_ne_send
  | send frame => exact Moves.sent
  | detach bound => exact Moves.fetched fun other eq => by cases eq
  | enter i =>
    simp only [step]
    split
    case h_1 o bound request flight =>
      split
      case h_1 => exact Moves.stay
      case h_2 s held => exact Moves.entered flight held
    case h_2 => exact Moves.stay
  | validated i answer =>
    simp only [step]
    split
    case h_1 o bound admission flight =>
      split
      case h_1 => exact Moves.retire
      case h_2 artifact reused =>
        split
        case h_1 => exact Moves.stay
        case h_2 s held =>
          split
          case h_1 => exact Moves.retire
          case h_2 s' taken => exact .append flight held (fun honest => honest o bound admission flight) taken
    case h_2 => exact Moves.stay
  | settle i prepared cancelledAtStart cancelledBeforeDa =>
    simp only [step]
    split
    case h_1 o bound selection flight =>
      split
      case h_1 => exact Moves.retire
      case h_2 => exact .settle flight
    case h_2 => exact Moves.stay
  | expire i preparing =>
    simp only [step]
    split
    case h_1 => exact .expire
    case h_2 => exact Moves.stay
  | sign i signature =>
    simp only [step]
    split
    case h_1 o bound selection hash flight =>
      split
      case h_1 => exact Moves.stay
      case h_2 s held =>
        split
        case h_1 => exact Moves.retire
        case h_2 s' made taken => exact .sign flight held taken
    case h_2 => exact Moves.stay

inductive Session.Arises (service : Service) (H : Prop) (rt : Runtime) (o : ObjectId) : Session → Prop where
  | began (anchor : BlockAnchor) (token : Token) : Arises service H rt o ⟨anchor, [], anchor.number, 1, true, token⟩
  | relabelled {s : Session} (held : rt.heap[o]? = some s) (epoch : UInt64) (connected : Bool) (token : Token) :
      Arises service H rt o { s with epoch, connected, cancellation := token }
  | rewound {s s' : Session} {epoch : UInt64} {ancestor : B256} {token : Token} (held : rt.heap[o]? = some s)
      (cut : s.rewind epoch ancestor token = .ok s') : Arises service H rt o s'
  | appended {i : Nat} {bound : BoundSession} {admission : Admission} {artifact : Artifact} {s s' : Session}
      (flight : rt.flights[i]? = some (.validating o bound admission)) (held : rt.heap[o]? = some s)
      (linked : H → artifact.Follows admission.parent)
      (taken : s.append bound.epoch admission.parent ⟨artifact, admission.payloadBytes, admission.witnessItems⟩ =
        .ok s') :
      Arises service H rt o s'
  | signed {i : Nat} {bound : BoundSession} {selection : Selection} {hash : B256} {signature : Option Bytes}
    {made : Bytes}
      {s s' : Session} (flight : rt.flights[i]? = some (.settled o bound selection hash)) (held : rt.heap[o]? = some s)
      (taken : s.sign bound.epoch (rt.cancelled selection.token) signature selection.anchor selection.startIndex
        selection.toBlock = .ok (s', made)) : Arises service H rt o s'

inductive Flight.Arises (service : Service) (rt : Runtime) : Flight → Prop where
  | finished (result : Except Failure Reply) : Arises service rt (.finished result)
  | fetched {o : ObjectId} {bound : BoundSession} {request : Request} (retained : rt.registry.get bound.id = some o)
      (sends : ∀ frame, request = .send frame → parseB256 "session ID" frame.sessionId = .ok bound.id) :
      Arises service rt (.fetched o bound request)
  | validating {o : ObjectId} {bound : BoundSession} {submitted : SubmittedBlock} {witnessItems : Nat} {s : Session}
      {admission : Admission} (held : rt.heap[o]? = some s)
      (taken : s.snapshot service.limits bound.epoch submitted witnessItems = .ok (.inr admission)) :
      Arises service rt (.validating o bound admission)
  | finalizing (o : ObjectId) (bound : BoundSession) (selection : Selection) :
      Arises service rt (.finalizing o bound selection)
  | settled (o : ObjectId) (bound : BoundSession) (selection : Selection) (hash : B256) :
      Arises service rt (.settled o bound selection hash)

namespace Moves
variable {service : Service} {H : Prop} {rt rt' : Runtime}

variable (move : Moves service H rt rt')
include move

theorem session {o : ObjectId} (held : rt'.heap[o]? = some s') : rt.heap[o]? = some s' ∨ s'.Arises service H rt o := by
  have put {o' : ObjectId} {t : Session} (held : (rt.heap.set o' t)[o]? = some s')
      (here : o' = o → t.Arises service H rt o) : rt.heap[o]? = some s' ∨ s'.Arises service H rt o := by
    cases getElem?_set_cases held with
    | inl set =>
      rw [set.2]
      exact .inr (here set.1)
    | inr other => exact .inl other.2
  cases move with
  | begin anchor =>
    cases getElem?_concat_cases held with
    | inl old => exact .inl old
    | inr new =>
      rw [new.2]
      exact .inr (.began anchor _)
  | resume held' => exact put held fun eq => .relabelled (eq ▸ held') _ _ _
  | rewind held' cut => exact put held fun eq => .rewound (eq ▸ held') cut
  | select held' | detach held' => exact put held fun eq => .relabelled (eq ▸ held') _ _ _
  | append flight held' linked taken => exact put held fun eq => .appended (eq ▸ flight) (eq ▸ held') linked taken
  | sign flight held' taken => exact put held fun eq => .signed (eq ▸ flight) (eq ▸ held') taken
  | _ => exact .inl held

theorem flight {i : Nat} (at_i : rt'.flights[i]? = some f) : rt.flights[i]? = some f ∨ f.Arises service rt := by
  have put {j : Nat} {g : Flight} (arises : g.Arises service rt) (at_i : (rt.flights.set j g)[i]? = some f) :
      rt.flights[i]? = some f ∨ f.Arises service rt := by
    cases getElem?_set_cases at_i with
    | inl here =>
      rw [here.2]
      exact .inr arises
    | inr other => exact .inl other.2
  cases move with
  | quiet _ kept =>
    cases kept at_i with
    | inl old => exact .inl old
    | inr done =>
      obtain ⟨result, rfl⟩ := done
      exact .inr (.finished result)
  | fetch retained sends =>
    cases getElem?_concat_cases at_i with
    | inl old => exact .inl old
    | inr new =>
      rw [new.2]
      exact .inr (.fetched retained sends)
  | snapshot held taken => exact put (.validating held taken) at_i
  | select => exact put (.finalizing _ _ _) at_i
  | @settle j o bound selection outcome =>
    refine put ?_ at_i
    cases outcome with
    | error e => exact .finished _
    | ok hash => exact .settled o bound selection hash
  | rewind | publish | detach | append | expire | sign => exact put (.finished _) at_i
  | _ => exact .inl at_i

theorem log_cases : rt'.log = rt.log ∨ ∃ act, rt'.log = rt.log ++ [act] := by
  cases move with
  | quiet | cancel | fetch | snapshot | detach | expire => exact .inl rfl
  | _ => exact .inr ⟨_, rfl⟩

theorem log_mono : ∀ act ∈ rt.log, act ∈ rt'.log := by
  intro act mem
  cases move.log_cases with
  | inl same => rwa [same]
  | inr more =>
    obtain ⟨new, eq⟩ := more
    rw [eq]
    exact mem_append_left _ mem

theorem published (mem : Act.published o frame ∈ rt'.log) :
    Act.published o frame ∈ rt.log ∨ (o = none ∧ frame.guarded = false) ∨
      ∃ (i : Nat) (o' : ObjectId) (bound : BoundSession), o = some o' ∧
        rt.flights[i]? = some (.fetched o' bound (.send frame)) := by
  have add {act : Act} (mem : Act.published o frame ∈ rt.log ++ [act]) :
      Act.published o frame ∈ rt.log ∨ Act.published o frame = act := by
    rwa [mem_append, mem_singleton] at mem
  cases move with
  | quiet | cancel | fetch | snapshot | detach | expire => exact .inl mem
  | say free =>
    refine (add mem).imp_right fun new => ?_
    cases new
    exact .inl ⟨rfl, free⟩
  | publish flight =>
    refine (add mem).imp_right fun new => ?_
    cases new
    exact .inr ⟨_, _, _, rfl, flight⟩
  | _ => exact (add mem).imp_right nofun

end Moves

end Eez.Sessions
