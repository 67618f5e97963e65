import EezRollup.Sessions.Fencing

/-! `Cancel` takes a session out of the registry and cancels the token it has; it does not touch the
epoch. -/
open List
namespace Eez.Sessions
open Octets Outcome Signer

/-- What an act takes: a retained session, or an operation in the state before it. -/
inductive Act.Origin (rt : Runtime) : Act → Prop where
  | began {id : SessionId} : Origin rt (.began rt.heap.length id)
  | resumed {id : SessionId} {o : ObjectId} {e : UInt64} (retained : rt.registry.get id = some o) :
      Origin rt (.installed o e)
  | rewound {i : Nat} {o : ObjectId} {bound : BoundSession} {ancestor : B256} {s : Session} {e : UInt64}
      (flight : rt.flights[i]? = some (.fetched o bound (.rewind ancestor))) (held : rt.heap[o]? = some s)
      (current : s.epoch = bound.epoch) : Origin rt (.installed o e)
  | appended {o : ObjectId} {e : UInt64} {block : SessionBlock} : Origin rt (.appended o e block)
  | selected {i : Nat} {o : ObjectId} {bound : BoundSession} {fromBlock toBlock : UInt64} {terminalHash : B256}
      {calldata : Bytes} {e : UInt64} {s : Session} {selection : Selection}
      (flight : rt.flights[i]? = some (.fetched o bound (.finalize fromBlock toBlock terminalHash calldata))) :
      Origin rt (.selected o e s selection)
  | settles {o : ObjectId} {e : UInt64} {selection : Selection} : Origin rt (.settles o e selection)
  | signed {i : Nat} {o : ObjectId} {bound : BoundSession} {selection : Selection} {hash : B256} {e : UInt64}
      {s s' : Session} (flight : rt.flights[i]? = some (.settled o bound selection hash))
      (live : rt.cancelled selection.token = false) : Origin rt (.signed o e s s' selection)
  | published {i : Nat} {o : ObjectId} {bound : BoundSession} {frame : ServerFrame} {s : Session}
      (flight : rt.flights[i]? = some (.fetched o bound (.send frame))) (held : rt.heap[o]? = some s)
      (current : s.epoch = frame.epoch) : Origin rt (.published (some o) frame)
  | said {frame : ServerFrame} : Origin rt (.published none frame)

/-- What an event fetches a session for. -/
def Event.Fetches (bound : BoundSession) (request : Request) : Event → Prop
  | .work bound' frame => bound = bound' ∧ parseWork frame = .ok request
  | .send frame => frame.guarded = true ∧ request = .send frame ∧ bound.epoch = frame.epoch ∧ Names frame bound.id
  | .detach bound' => bound = bound' ∧ request = .detach
  | _ => False

def Event.Leaves (rt : Runtime) (ev : Event) (flights : List Flight) : Prop :=
  ∀ i o bound request, flights[i]? = some (.fetched o bound request) →
    rt.flights[i]? = some (.fetched o bound request) ∨
      (i = rt.flights.length ∧ rt.registry.get bound.id = some o ∧ ev.Fetches bound request)

def Event.operation? : Event → Option Nat
  | .enter i => some i
  | .validated i _ => some i
  | .settle i _ _ _ => some i
  | .expire i _ => some i
  | .sign i _ => some i
  | _ => none

/-- A section moves its operation on, unless that is finished, and no other. -/
def Event.Advances (rt : Runtime) (ev : Event) (flights : List Flight) : Prop :=
  ∀ i f, rt.flights[i]? = some f → flights[i]? = some f ∨ (ev.operation? = some i ∧ ¬f.Done)

/-- A step logs at most one act, which has an origin; so have the operations it leaves. -/
structure Runtime.Traces (rt : Runtime) (ev : Event) (rt' : Runtime) : Prop where
  logs : rt'.log = rt.log ∨ ∃ act, rt'.log = rt.log ++ [act] ∧ act.Origin rt
  leaves : ev.Leaves rt rt'.flights
  advances : ev.Advances rt rt'.flights

namespace Runtime.Traces
variable {service : Service} {rt rt' : Runtime} {ev : Event}

theorem still (logs : rt'.log = rt.log ∨ ∃ act, rt'.log = rt.log ++ [act] ∧ act.Origin rt)
    (same : rt'.flights = rt.flights) : rt.Traces ev rt' := by
  refine ⟨logs, ?_, ?_⟩ <;> rw [same]
  · exact fun _ _ _ _ at_i => .inl at_i
  · exact fun _ _ at_i => .inl at_i

theorem refused (silent : rt'.log = rt.log) (more : rt'.flights = rt.flights ++ [.finished result]) :
    rt.Traces ev rt' := by
  refine ⟨.inl silent, ?_, ?_⟩ <;> rw [more]
  · intro i o bound request at_i
    cases getElem?_concat_cases at_i with
    | inl old => exact .inl old
    | inr new => cases new.2
  · exact fun _ _ at_i => .inl (getElem?_concat_held at_i)

section
variable (logs : rt'.log = rt.log ∨ ∃ act, rt'.log = rt.log ++ [act] ∧ act.Origin rt)
include logs

variable (here : ev.operation? = some i) (flight : rt.flights[i]? = some f) (live : ¬f.Done)
include here flight live

theorem moved
    (later : ∀ o bound request, g ≠ .fetched o bound request) (put : rt'.flights = rt.flights.set i g) :
    rt.Traces ev rt' := by
  refine ⟨logs, ?_, ?_⟩ <;> rw [put]
  · intro j o bound request at_j
    cases getElem?_set_cases at_j with
    | inl here => exact absurd here.2.symm (later o bound request)
    | inr other => exact .inl other.2
  · intro j f' at_j
    by_cases same : i = j
    · subst same
      obtain rfl := Option.some.inj (flight.symm.trans at_j)
      exact .inr ⟨here, live⟩
    · exact .inl ((getElem?_set_ne same).trans at_j)

theorem retired
    (put : rt'.flights = rt.flights.set i (.finished result)) : rt.Traces ev rt' :=
  moved logs here flight live (fun _ _ _ eq => by cases eq) put

end

theorem fetch (fetches : ev.Fetches bound request) : rt.Traces ev (rt.fetch bound request) := by
  unfold Runtime.fetch
  split
  case h_1 => exact refused rfl rfl
  case h_2 o found =>
    refine ⟨.inl rfl, fun i o bound request at_i => ?_, fun _ _ at_i => .inl (getElem?_concat_held at_i)⟩
    cases getElem?_concat_cases at_i with
    | inl old => exact .inl old
    | inr new =>
      obtain ⟨at_end, eq⟩ := new
      cases eq
      exact .inr ⟨at_end, found, fetches⟩

theorem enter {i : Nat} (flight : rt.flights[i]? = some (.fetched o bound request)) (held : rt.heap[o]? = some s) :
    rt.Traces (.enter i) (rt.enter service i o bound s request) := by
  have live : ¬(Flight.fetched o bound request).Done := by
    rintro ⟨result, eq⟩
    cases eq
  cases request with
  | rewind ancestor =>
    simp only [Runtime.enter]
    split
    case h_1 => exact retired (.inl rfl) rfl flight live rfl
    case h_2 s' cut =>
      obtain ⟨current, _⟩ := Session.rewind_eq_ok.mp cut
      exact retired (.inr ⟨_, rfl, .rewound flight held current⟩) rfl flight live rfl
  | block submitted witnessItems =>
    simp only [Runtime.enter]
    split
    case h_1 => exact retired (.inl rfl) rfl flight live rfl
    case h_2 => exact retired (.inl rfl) rfl flight live rfl
    case h_3 => exact moved (.inl rfl) rfl flight live (fun _ _ _ eq => by cases eq) rfl
  | finalize fromBlock toBlock terminalHash calldata =>
    simp only [Runtime.enter]
    split
    case h_1 => exact retired (.inl rfl) rfl flight live rfl
    case h_2 =>
      split
      case h_1 => exact retired (.inl rfl) rfl flight live rfl
      case h_2 => exact moved (.inr ⟨_, rfl, .selected flight⟩) rfl flight live (fun _ _ _ eq => by cases eq) rfl
  | send frame =>
    simp only [Runtime.enter]
    split
    case isTrue current => exact retired (.inr ⟨_, rfl, .published flight held current⟩) rfl flight live rfl
    case isFalse => exact retired (.inl rfl) rfl flight live rfl
  | detach =>
    simp only [Runtime.enter]
    split
    case isTrue => exact retired (.inl rfl) rfl flight live rfl
    case isFalse => exact retired (.inl rfl) rfl flight live rfl

theorem begin : rt.Traces ev (rt.begin service request anchored draws) := by
  unfold Runtime.begin
  split
  case h_1 => exact refused rfl rfl
  case h_2 anchor _ =>
    dsimp only
    split
    case isTrue =>
      split
      case h_1 => exact refused rfl rfl
      case h_2 => exact still (.inr ⟨_, rfl, .began⟩) rfl
    case isFalse => exact refused rfl rfl

end Runtime.Traces

open Runtime.Traces in
theorem step_traces {rt : Runtime} (ev : Event) : rt.Traces ev (step service rt ev) := by
  have stays : rt.Traces ev rt := still (.inl rfl) rfl
  cases ev with
  | begin request anchored draws => exact Runtime.Traces.begin
  | resume id =>
    simp only [step]
    split
    case h_1 => exact refused rfl rfl
    case h_2 o retained =>
      split
      case h_1 => exact stays
      case h_2 => exact still (.inr ⟨_, rfl, .resumed retained⟩) rfl
  | cancel bound =>
    simp only [step]
    split
    case h_1 => exact refused rfl rfl
    case h_2 =>
      split
      case h_1 => exact stays
      case h_2 =>
        split
        case isTrue => exact still (.inl rfl) rfl
        case isFalse => exact refused rfl rfl
  | work bound frame =>
    simp only [step]
    split
    case h_1 => exact refused rfl rfl
    case h_2 request parsed => exact fetch ⟨rfl, parsed⟩
  | send frame =>
    simp only [step, Runtime.send]
    split
    case isTrue guarded =>
      split
      case h_1 => exact refused rfl rfl
      case h_2 id parsed => exact fetch ⟨guarded, rfl, rfl, parsed⟩
    case isFalse => exact still (.inr ⟨_, rfl, .said⟩) rfl
  | detach bound => exact fetch ⟨rfl, rfl⟩
  | enter i =>
    simp only [step]
    split
    case h_1 o bound request flight =>
      split
      case h_1 => exact stays
      case h_2 s held => exact enter flight held
    case h_2 => exact stays
  | validated i answer =>
    simp only [step]
    split
    case h_1 o bound admission flight =>
      have live : ¬(Flight.validating o bound admission).Done := by
        rintro ⟨result, eq⟩
        cases eq
      split
      case h_1 => exact retired (.inl rfl) rfl flight live rfl
      case h_2 =>
        split
        case h_1 => exact stays
        case h_2 =>
          split
          case h_1 => exact retired (.inl rfl) rfl flight live rfl
          case h_2 => exact retired (.inr ⟨_, rfl, .appended⟩) rfl flight live rfl
    case h_2 => exact stays
  | settle i prepared cancelledAtStart cancelledBeforeDa =>
    simp only [step]
    split
    case h_1 o bound selection flight =>
      have live : ¬(Flight.finalizing o bound selection).Done := by
        rintro ⟨result, eq⟩
        cases eq
      split
      case h_1 => exact retired (.inl rfl) rfl flight live rfl
      case h_2 =>
        refine moved (.inr ⟨_, rfl, .settles⟩) rfl flight live ?_ rfl
        intro o bound request eq
        split at eq <;> cases eq
    case h_2 => exact stays
  | expire i preparing =>
    simp only [step]
    split
    case h_1 o bound selection flight =>
      have live : ¬(Flight.finalizing o bound selection).Done := by
        rintro ⟨result, eq⟩
        cases eq
      exact retired (.inl rfl) rfl flight live rfl
    case h_2 => exact stays
  | sign i signature =>
    simp only [step]
    split
    case h_1 o bound selection hash flight =>
      have live : ¬(Flight.settled o bound selection hash).Done := by
        rintro ⟨result, eq⟩
        cases eq
      split
      case h_1 => exact stays
      case h_2 s held =>
        split
        case h_1 => exact retired (.inl rfl) rfl flight live rfl
        case h_2 s' made taken =>
          obtain ⟨_, open_token, _⟩ := Session.sign_eq_ok.mp taken
          exact retired (.inr ⟨_, rfl, .signed flight open_token⟩) rfl flight live rfl
    case h_2 => exact stays

theorem cancelled_eq_true {rt : Runtime} : rt.cancelled t = true ↔ rt.tokens[t]? = some true := by
  unfold Runtime.cancelled
  cases rt.tokens[t]? with
  | none | some b => simp

theorem getElem?_raise {tokens : List Bool} {t u : Token} (raised : tokens[t]? = some true) :
    (tokens.set u true)[t]? = some true := by
  by_cases same : u = t
  · subst same
    exact getElem?_set_held raised
  · exact (getElem?_set_ne same).trans raised

namespace Moves
variable {service : Service} {H : Prop} {rt rt' : Runtime}

variable (move : Moves service H rt rt')
include move

theorem cancelled (raised : rt.cancelled t = true) : rt'.cancelled t = true := by
  rw [cancelled_eq_true] at raised ⊢
  cases move with
  | begin => exact getElem?_concat_held raised
  | resume => exact getElem?_concat_held (getElem?_raise raised)
  | cancel => exact getElem?_raise raised
  | rewind | select => exact getElem?_concat_held (getElem?_raise raised)
  | expire => exact getElem?_raise raised
  | _ => exact raised

theorem registered {id o} (mem : (id, o) ∈ rt'.registry.sessions) :
    (id, o) ∈ rt.registry.sessions ∨ o = rt.heap.length := by
  have room {registry : Registry}
      (made : registry = rt.registry ∨ registry = rt.registry.makeRoom rt.connected rt.registry.sessions.length)
      (mem : (id, o) ∈ registry.sessions) : (id, o) ∈ rt.registry.sessions := by
    cases made with
    | inl same => rwa [same] at mem
    | inr made =>
      rw [made] at mem
      exact Registry.makeRoom_rule (P := fun r => ∀ e ∈ r.sessions, e ∈ rt.registry.sessions)
        (fun r id sub e mem => sub e (mem_of_mem_filter mem)) _ (fun e mem => mem) _ mem
  cases move with
  | quiet made => exact .inl (room made mem)
  | begin anchor made =>
    cases mem_cons.mp mem with
    | inl new =>
      cases new
      exact .inr rfl
    | inr old => exact .inl (room (.inr made) (mem_of_mem_filter old))
  | cancel => exact .inl (mem_of_mem_filter mem)
  | _ => exact .inl mem

theorem token {o : ObjectId} (held : rt.heap[o]? = some s) (within : s.cancellation < rt.tokens.length) :
    (∃ s', rt'.heap[o]? = some s' ∧ s'.cancellation = s.cancellation) ∨ rt'.cancelled s.cancellation = true := by
  have raised : (rt.tokens.set s.cancellation true)[s.cancellation]? = some true := getElem?_set_self within
  have replaced {o' : ObjectId} {t t' : Session} (held' : rt.heap[o']? = some t) :
      (∃ s', (rt.install o' t t').heap[o]? = some s' ∧ s'.cancellation = s.cancellation) ∨
        (rt.install o' t t').tokens[s.cancellation]? = some true := by
    by_cases same : o' = o
    · subst same
      obtain rfl : s = t := Option.some.inj (held.symm.trans held')
      exact .inr (getElem?_concat_held raised)
    · exact .inl ⟨s, (getElem?_set_ne same).trans held, rfl⟩
  have kept {o' : ObjectId} {t t' : Session} (held' : rt.heap[o']? = some t) (same : t'.cancellation = t.cancellation) :
      ∃ s', (rt.heap.set o' t')[o]? = some s' ∧ s'.cancellation = s.cancellation := by
    by_cases eq : o' = o
    · subst eq
      obtain rfl : s = t := Option.some.inj (held.symm.trans held')
      exact ⟨t', getElem?_set_held held', same⟩
    · exact ⟨s, (getElem?_set_ne eq).trans held, rfl⟩
  rw [cancelled_eq_true]
  cases move with
  | begin => exact .inl ⟨s, getElem?_concat_held held, rfl⟩
  | resume held' | rewind held' | select held' => exact replaced held'
  | detach held' => exact .inl (kept held' rfl)
  | append flight held' linked taken =>
    obtain ⟨_, _, rfl⟩ := Session.append_eq_ok.mp taken
    exact .inl (kept held' rfl)
  | sign flight held' taken =>
    obtain ⟨_, _, _, rfl⟩ := Session.sign_eq_ok.mp taken
    exact .inl (kept held' rfl)
  | _ => exact .inl ⟨s, held, rfl⟩

theorem token_lt (known : ∀ {o : ObjectId} {s : Session}, rt.heap[o]? = some s → s.cancellation < rt.tokens.length)
    {o : ObjectId} (held : rt'.heap[o]? = some s') : s'.cancellation < rt'.tokens.length := by
  have replaced {o' : ObjectId} {t t' : Session} (fresh : t'.cancellation = rt.tokens.length)
      (held : (rt.install o' t t').heap[o]? = some s') : s'.cancellation < (rt.install o' t t').tokens.length := by
    have grown : (rt.install o' t t').tokens.length = rt.tokens.length + 1 := by
      simp [Runtime.install]
    rw [grown]
    cases getElem?_set_cases held with
    | inl here =>
      rw [here.2, fresh]
      exact Nat.lt_succ_self _
    | inr other => exact Nat.lt_succ_of_lt (known other.2)
  have kept {o' : ObjectId} {t t' : Session} (held' : rt.heap[o']? = some t)
      (held : (rt.heap.set o' t')[o]? = some s') (same : t'.cancellation = t.cancellation) :
      s'.cancellation < rt.tokens.length := by
    cases getElem?_set_cases held with
    | inl here =>
      rw [here.2, same]
      exact known held'
    | inr other => exact known other.2
  cases move with
  | begin =>
    change s'.cancellation < (rt.tokens ++ [false]).length
    rw [length_append, length_singleton]
    cases getElem?_concat_cases held with
    | inl old => exact Nat.lt_succ_of_lt (known old)
    | inr new =>
      rw [new.2]
      exact Nat.lt_succ_self _
  | resume => exact replaced rfl held
  | rewind held' cut =>
    obtain ⟨_, _, _, rfl⟩ := Session.rewind_eq_ok.mp cut
    exact replaced rfl held
  | select held' current token => exact replaced token held
  | cancel | expire =>
    change s'.cancellation < (rt.tokens.set _ true).length
    rw [length_set]
    exact known held
  | detach held' => exact kept held' held rfl
  | append flight held' linked taken =>
    obtain ⟨_, _, rfl⟩ := Session.append_eq_ok.mp taken
    exact kept held' held rfl
  | sign flight held' taken =>
    obtain ⟨_, _, _, rfl⟩ := Session.sign_eq_ok.mp taken
    exact kept held' held rfl
  | _ => exact known held

theorem began_log : (∀ {o : ObjectId} {id : SessionId}, Act.began o id ∈ rt'.log → Act.began o id ∈ rt.log) ∨
      ∃ id, rt'.log = rt.log ++ [.began rt.heap.length id] ∧ rt'.heap.length = rt.heap.length + 1 := by
  have other {act : Act} (no : ∀ o id, act ≠ .began o id) {o : ObjectId} {id : SessionId}
      (mem : Act.began o id ∈ rt.log ++ [act]) : Act.began o id ∈ rt.log := by
    rw [mem_append, mem_singleton] at mem
    exact mem.resolve_right fun eq => no o id eq.symm
  cases move with
  | begin => exact .inr ⟨_, rfl, length_append⟩
  | resume | say | rewind | select | publish | append | settle | sign => exact .inl (other fun _ _ eq => by cases eq)
  | _ => exact .inl fun mem => mem

theorem carried {i : Nat} (at_i : rt'.flights[i]? = some f) (carries : f.carries = some (o, bound, selection)) :
    (∃ (j : Nat) (g : Flight), rt.flights[j]? = some g ∧ g.carries = some (o, bound, selection)) ∨
      ((∃ s, rt'.log = rt.log ++ [.selected o bound.epoch s selection]) ∧
        ∃ s', rt'.heap[o]? = some s' ∧ s'.cancellation = selection.token) := by
  have put {j : Nat} {g : Flight} (none : g.carries = none) (at_i : (rt.flights.set j g)[i]? = some f) :
      ∃ (j : Nat) (g : Flight), rt.flights[j]? = some g ∧ g.carries = some (o, bound, selection) := by
    cases getElem?_set_cases at_i with
    | inl here =>
      rw [here.2, none] at carries
      cases carries
    | inr other => exact ⟨i, f, other.2, carries⟩
  cases move with
  | quiet _ kept =>
    cases kept at_i with
    | inl old => exact .inl ⟨i, f, old, carries⟩
    | inr done =>
      obtain ⟨result, rfl⟩ := done
      cases carries
  | fetch =>
    cases getElem?_concat_cases at_i with
    | inl old => exact .inl ⟨i, f, old, carries⟩
    | inr new =>
      rw [new.2] at carries
      cases carries
  | select held =>
    cases getElem?_set_cases at_i with
    | inl here =>
      rw [here.2] at carries
      cases carries
      exact .inr ⟨⟨_, rfl⟩, _, getElem?_set_held held, rfl⟩
    | inr other => exact .inl ⟨i, f, other.2, carries⟩
  | @settle j o' bound' selection' outcome flight =>
    cases getElem?_set_cases at_i with
    | inl here =>
      cases outcome with
      | error e =>
        rw [here.2] at carries
        cases carries
      | ok hash =>
        rw [here.2] at carries
        cases carries
        exact .inl ⟨j, _, flight, rfl⟩
    | inr other => exact .inl ⟨i, f, other.2, carries⟩
  | snapshot | rewind | publish | detach | append | expire | sign => exact .inl (put rfl at_i)
  | _ => exact .inl ⟨i, f, at_i, carries⟩

end Moves

structure Tokened (rt : Runtime) : Prop where
  known : ∀ {o : ObjectId} {s : Session}, rt.heap[o]? = some s → s.cancellation < rt.tokens.length
  carried : ∀ {i : Nat} {f : Flight} {o : ObjectId} {bound : BoundSession} {selection : Selection},
    rt.flights[i]? = some f → f.carries = some (o, bound, selection) →
      (∃ s, rt.heap[o]? = some s ∧ s.cancellation = selection.token) ∨ rt.cancelled selection.token = true

namespace Tokened
variable {service : Service} {H : Prop} {rt rt' : Runtime}

theorem initial : Tokened .initial := by
  constructor <;> intros <;> simp_all [Runtime.initial]

theorem step (h : Tokened rt) (move : Moves service H rt rt') : Tokened rt' := by
  refine ⟨fun held => move.token_lt h.known held, fun at_i carries => ?_⟩
  cases move.carried at_i carries with
  | inr new => exact .inl new.2
  | inl old =>
    obtain ⟨j, g, at_j, carries⟩ := old
    cases h.carried at_j carries with
    | inr done => exact .inr (move.cancelled done)
    | inl own =>
      obtain ⟨s, held, token⟩ := own
      rw [← token]
      exact move.token held (h.known held)

end Tokened

structure Born (rt : Runtime) : Prop where
  known : ∀ {o : ObjectId} {id : SessionId}, Act.began o id ∈ rt.log → o < rt.heap.length
  once : ∀ {o : ObjectId} {id id' : SessionId}, Act.began o id ∈ rt.log → Act.began o id' ∈ rt.log → id = id'

namespace Born
variable {service : Service} {rt : Runtime}

theorem initial : Born .initial := by
  constructor <;> intros <;> simp_all [Runtime.initial]

theorem step {H : Prop} (h : Born rt) (move : Moves service H rt rt') : Born rt' := by
  have grown {o : ObjectId} (old : o < rt.heap.length) : o < rt'.heap.length := by
    obtain ⟨s', held, _⟩ := move.epoch (getElem?_eq_getElem old)
    exact (List.getElem?_eq_some_iff.mp held).1
  rcases move.began_log with same | ⟨new, eq, longer⟩
  · exact ⟨fun mem => grown (h.known (same mem)), fun mem mem' => h.once (same mem) (same mem')⟩
  · have cases_of {o : ObjectId} {id : SessionId} (mem : Act.began o id ∈ rt'.log) :
        Act.began o id ∈ rt.log ∨ (o = rt.heap.length ∧ id = new) := by
      rw [eq, mem_append, mem_singleton, Act.began.injEq] at mem
      exact mem
    constructor
    case known =>
      intro o id mem
      rcases cases_of mem with old | ⟨rfl, _⟩
      · exact grown (h.known old)
      · rw [longer]
        exact Nat.lt_succ_self _
    case once =>
      intro o id id' mem mem'
      rcases cases_of mem with old | ⟨rfl, rfl⟩
      · rcases cases_of mem' with old' | ⟨rfl, _⟩
        · exact h.once old old'
        · exact absurd (h.known old) (Nat.lt_irrefl _)
      · rcases cases_of mem' with old' | ⟨_, rfl⟩
        · exact absurd (h.known old') (Nat.lt_irrefl _)
        · rfl

end Born

structure Gone (rt : Runtime) (o : ObjectId) : Prop where
  known : o < rt.heap.length
  gone : ∀ id, (id, o) ∉ rt.registry.sessions

/-- What has fetched the session to publish a frame or to rewind it goes by another epoch. -/
structure Silent (rt : Runtime) (o : ObjectId) : Prop extends Gone rt o where
  sends : ∀ {i : Nat} {bound : BoundSession} {frame : ServerFrame} {s : Session},
    rt.flights[i]? = some (.fetched o bound (.send frame)) → rt.heap[o]? = some s → s.epoch ≠ frame.epoch
  rewinds : ∀ {i : Nat} {bound : BoundSession} {ancestor : B256} {s : Session},
    rt.flights[i]? = some (.fetched o bound (.rewind ancestor)) → rt.heap[o]? = some s → s.epoch ≠ bound.epoch

/-- No `finalize` of the session is live. -/
structure Disarmed (rt : Runtime) (o : ObjectId) : Prop extends Gone rt o where
  fetched : ∀ (i : Nat) (bound : BoundSession) (fromBlock toBlock : UInt64) (terminalHash : B256) (calldata : Bytes),
    rt.flights[i]? ≠ some (.fetched o bound (.finalize fromBlock toBlock terminalHash calldata))
  carried : ∀ {i : Nat} {f : Flight} {bound : BoundSession} {selection : Selection},
    rt.flights[i]? = some f → f.carries = some (o, bound, selection) → rt.cancelled selection.token = true

section
variable {service : Service} {rt : Runtime} {o : ObjectId}

theorem Gone.kept (h : Gone rt o) (ev : Event) : Gone (step service rt ev) o := by
  have move : Moves service (ev.Honest rt) rt (step service rt ev) := step_moves ev
  obtain ⟨s', held, _⟩ := move.epoch (getElem?_eq_getElem h.known)
  refine ⟨(List.getElem?_eq_some_iff.mp held).1, fun id mem => ?_⟩
  cases move.registered mem with
  | inl old => exact h.gone id old
  | inr new => exact absurd new (Nat.ne_of_lt h.known)

theorem Gone.fetched (h : Gone rt o) {i : Nat}
    (at_i : (step service rt ev).flights[i]? = some (.fetched o bound request)) :
    rt.flights[i]? = some (.fetched o bound request) := by
  rcases (step_traces ev).leaves i o bound request at_i with old | ⟨_, retained, _⟩
  · exact old
  · exact absurd (Registry.mem_of_get retained) (h.gone bound.id)

theorem Silent.epoch (h : Silent rt o) (ev : Event) (held : rt.heap[o]? = some s) :
    ∃ s', (step service rt ev).heap[o]? = some s' ∧ s'.epoch = s.epoch := by
  have move : Moves service (ev.Honest rt) rt (step service rt ev) := step_moves ev
  have traces : rt.Traces ev (step service rt ev) := step_traces ev
  obtain ⟨s', held', change⟩ := move.epoch held
  refine ⟨s', held', ?_⟩
  cases change with
  | inl same => exact same.1
  | inr next =>
    exfalso
    rcases traces.logs with same | ⟨act, eq, origin⟩
    · have counted := next.2
      rw [same] at counted
      omega
    · have counted := next.2
      rw [eq, installs_concat] at counted
      have installing : act.installs o = true := by
        by_contra no
        rw [if_neg no] at counted
        omega
      cases origin with
      | @resumed id o' e retained =>
        obtain rfl : o' = o := of_decide_eq_true installing
        exact h.gone id (Registry.mem_of_get retained)
      | @rewound i o' bound ancestor t e flight held'' current =>
        obtain rfl : o' = o := of_decide_eq_true installing
        exact h.rewinds flight held'' current
      | _ => cases installing

theorem Silent.kept (h : Silent rt o) (ev : Event) : Silent (step service rt ev) o := by
  obtain ⟨s, held⟩ : ∃ s, rt.heap[o]? = some s := ⟨_, getElem?_eq_getElem h.known⟩
  obtain ⟨s', held', same⟩ : ∃ s', (step service rt ev).heap[o]? = some s' ∧ s'.epoch = s.epoch := h.epoch ev held
  refine ⟨h.toGone.kept ev, fun at_i held'' => ?_, fun at_i held'' => ?_⟩
  · obtain rfl := Option.some.inj (held'.symm.trans held'')
    rw [same]
    exact h.sends (h.toGone.fetched at_i) held
  · obtain rfl := Option.some.inj (held'.symm.trans held'')
    rw [same]
    exact h.rewinds (h.toGone.fetched at_i) held

theorem Silent.not_published (h : Silent rt o) {act : Act} (origin : act.Origin rt) (frame : ServerFrame) :
    act ≠ .published (some o) frame := by
  rintro rfl
  cases origin with
  | published flight held current => exact h.sends flight held current

theorem Disarmed.kept (h : Disarmed rt o) (ev : Event) : Disarmed (step service rt ev) o := by
  have move : Moves service (ev.Honest rt) rt (step service rt ev) := step_moves ev
  have traces : rt.Traces ev (step service rt ev) := step_traces ev
  refine ⟨h.toGone.kept ev, fun i bound fromBlock toBlock terminalHash calldata at_i => ?_, fun at_i carries => ?_⟩
  · exact h.fetched i bound fromBlock toBlock terminalHash calldata (h.toGone.fetched at_i)
  · rcases move.carried at_i carries with ⟨j, g, at_j, carries⟩ | ⟨⟨s, eq⟩, _⟩
    · exact move.cancelled (h.carried at_j carries)
    · rcases traces.logs with same | ⟨act, eq', origin⟩
      · rw [same] at eq
        cases self_eq_append_right.mp eq
      · obtain rfl := singleton_inj.mp (append_cancel_left (eq'.symm.trans eq))
        cases origin with
        | selected flight => exact absurd flight (h.fetched _ _ _ _ _ _)

theorem Disarmed.not_signed (h : Disarmed rt o) {act : Act} (origin : act.Origin rt) (e : UInt64)
    (before after : Session) (selection : Selection) : act ≠ .signed o e before after selection := by
  rintro rfl
  cases origin with
  | signed flight live =>
    have cancelled := h.carried flight rfl
    rw [live] at cancelled
    cases cancelled

end

end Eez.Sessions
