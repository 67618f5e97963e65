import EezRollup.Sessions.Ownership

/-! A step of a stream is a few steps of the runtime, and leaves it clear which stream waits for
what. -/
open List
namespace Eez.Sessions
open Octets Outcome Signer

section
variable {service : Service} {rt rt' : Runtime} {st : Stream}

namespace Stream

theorem respond_evolves (h : Evolves service rt rt') : Evolves service rt (st.respond service rt' response room).1 := by
  unfold Stream.respond
  split
  · split
    · dsimp only
      exact h.next _
    · dsimp only
      exact h.next _
  · exact h

theorem input_evolves : Evolves service rt (st.input service rt frame anchored draws room).1 := by
  unfold Stream.input
  split
  case h_3 request _ =>
    unfold Stream.begin
    split
    · exact respond_evolves .still
    · dsimp only
      split <;> exact respond_evolves (.once _)
  case h_4 =>
    unfold Stream.resume
    split
    · exact respond_evolves .still
    · split
      · exact respond_evolves .still
      · dsimp only
        split <;> exact respond_evolves (.once _)
  case h_5 =>
    unfold Stream.rewind
    split
    · exact respond_evolves .still
    · dsimp only
      exact .once _
  case h_6 =>
    unfold Stream.cancel
    split
    · exact respond_evolves .still
    · dsimp only
      split <;> exact respond_evolves (.once _)
  case h_7 => exact respond_evolves .still
  all_goals exact .still

theorem completed_evolves : Evolves service rt (st.completed service rt room).1 := by
  unfold Stream.completed
  split
  · exact .still
  · unfold Stream.deliver
    split
    · split
      · split
        · dsimp only
          exact .once _
        · exact .still
      · exact .still
    · split
      · exact respond_evolves .still
      · exact .still

theorem step_evolves (signal : Signal) : Evolves service rt (st.step service rt signal).1 := by
  unfold Stream.step
  split
  case h_2 =>
    unfold Stream.run
    split
    · split
      · exact .still
      · dsimp only
        exact .once _
    · exact .still
  case h_3 =>
    split
    · exact input_evolves
    · exact .still
  case h_8 =>
    split
    · exact completed_evolves
    · exact .still
  case h_11 =>
    unfold Stream.rewound
    split
    · exact respond_evolves .still
    · exact respond_evolves .still
    · exact .still
  case h_14 =>
    unfold Stream.finish
    split
    · split
      · dsimp only
        exact .once _
      · exact .still
    · exact .still
  -- The others leave the runtime alone.
  all_goals first | exact .still | (split <;> exact .still)

end Stream

theorem System.step_evolves {sys : System} (ev : SystemEvent) :
    Evolves service sys.runtime (sys.step service ev).runtime := by
  unfold System.step
  split
  · split <;> exact .still
  · split
    · exact .still
    · exact Stream.step_evolves _
  · split
    · exact .once _
    · exact .still

theorem System.foldl_evolves (run : List SystemEvent) (sys : System) :
    Evolves service sys.runtime (run.foldl (System.step service) sys).runtime := by
  induction run generalizing sys with
  | nil => exact .still
  | cons ev run ih => exact (System.step_evolves ev).trans (ih (sys.step service ev))

end

structure Kept (streams : List Stream) (k : Nat) (result : Runtime × Stream) : Prop where
  regular : Regular result.1
  owned : Owned result.1 (streams.set k result.2)

structure Turn (rt : Runtime) (streams : List Stream) (k : Nat) (st : Stream) : Prop where
  regular : Regular rt
  owned : Owned rt streams
  at_k : streams[k]? = some st

theorem rejectedFrame_free (rt : Runtime) (authorized : Option BoundSession) :
    (rejectedFrame rt authorized).guarded = false := by
  unfold rejectedFrame
  split
  · rfl
  · split
    · split <;> rfl
    · rfl

theorem not_fetches_send {frame : ServerFrame} (free : frame.guarded = false) (bound : BoundSession)
    (request : Request) :
    ¬Event.Fetches bound request (.send frame) := by
  rintro ⟨guarded, _⟩
  cases free.symm.trans guarded

theorem QueuedWork.parseWork_ne_rewind (work : QueuedWork) : parseWork work.frame ≠ .ok (.rewind ancestor) := by
  cases work <;> simp only [QueuedWork.frame, parseWork, ne_eq, bind_eq_ok, pure_eq_ok, reduceCtorEq, and_false,
    exists_false, not_false_eq_true]

section
variable {service : Service} {rt : Runtime} {streams : List Stream} {k : Nat} {st : Stream}

namespace Turn

theorem same (turn : Turn rt streams k st) (phase : st'.phase = st.phase) (bound : st'.bound = st.bound) :
    Kept streams k (rt, st') := ⟨turn.regular, turn.owned.same turn.at_k phase bound⟩

theorem close (turn : Turn rt streams k st) (serving : st.phase = .serving) (closing : st'.phase = .closing)
    (bound : st'.bound = st.bound) : Kept streams k (rt, st') :=
  ⟨turn.regular, turn.owned.close turn.at_k serving closing bound⟩

/-- The runtime moves on, and nothing that waits for the stream is fetched. -/
theorem next (turn : Turn rt streams k st) (tame : Tame (Sessions.step service rt ev))
    (sends : ∀ bound frame, ¬ev.Fetches bound (.send frame))
    (rewinds : ∀ bound ancestor, ¬ev.Fetches bound (.rewind ancestor)) :
    Turn (Sessions.step service rt ev) streams k st :=
  have regular := turn.regular.next tame
  ⟨regular, turn.owned.runtime turn.regular regular sends rewinds, turn.at_k⟩

end Turn

namespace Stream

variable {room : Bool} {frame : ClientFrame} {i : Nat}

section
variable (turn : Turn rt streams k st)
include turn

theorem respond_kept {st' : Stream} (settled : st.Settled rt)
    (holds : ∀ bound, st'.bound = some bound → st.held rt = some bound ∨ Fresh rt streams bound)
    (free : ∀ frame close, response = .ok (frame, close) → frame.guarded = false) :
    Tame (st'.respond service rt response room).1 → Kept streams k (st'.respond service rt response room) := by
  -- The stream goes on or closes, and then the frame goes out.
  have moved (phase : Phase) (plain : ∀ i, phase ≠ .rewinding i) : Owned rt (streams.set k { st' with phase }) := by
    refine turn.owned.replace turn.at_k settled plain fun bound has => holds bound ?_
    rwa [held_of_plain plain] at has
  have said {frame : ServerFrame} {phase : Phase} (plain : ∀ i, phase ≠ .rewinding i) (free : frame.guarded = false)
      (tame : Tame (Sessions.step service rt (.send frame))) :
      Kept streams k (Sessions.step service rt (.send frame), { st' with phase }) := by
    have regular := turn.regular.next tame
    refine ⟨regular, (moved phase plain).runtime turn.regular regular ?_ ?_⟩
    · exact fun bound _ => not_fetches_send free bound _
    · exact fun bound _ => not_fetches_send free bound _
  unfold Stream.respond
  split
  · split
    · next frame close =>
      refine said ?_ (free frame close rfl)
      intro i
      split <;> exact Phase.noConfusion
    · exact said (fun i => Phase.noConfusion) (rejectedFrame_free rt _)
  · exact fun _ => ⟨turn.regular, moved .closing fun i => Phase.noConfusion⟩

theorem run_kept : Tame (st.run service rt).1 → Kept streams k (st.run service rt) := by
  unfold Stream.run
  split
  · next bound request eq =>
    split
    · exact fun _ => turn.same rfl rfl
    · intro tame
      refine (turn.next tame ?_ ?_).same rfl rfl
      · rintro bound' frame ⟨_, parsed⟩
        exact parseWork_ne_send parsed
      · rintro bound' ancestor ⟨_, parsed⟩
        exact request.work.parseWork_ne_rewind parsed
  · exact fun _ => turn.same rfl rfl

theorem enqueue_kept (serving : st.phase = .serving) (frame : ClientFrame)
    (work : QueuedWork) (items : Nat) : Kept streams k (rt, st.enqueue service frame work items) := by
  unfold Stream.enqueue
  split
  · exact turn.close serving rfl rfl
  · exact turn.same rfl rfl

theorem refuse_kept (serving : st.phase = .serving) : Tame (st.respond service rt (.error authorized) room).1 →
      Kept streams k (st.respond service rt (.error authorized) room) := by
  refine respond_kept turn (settled_serving serving) ?_ ?_
  · intro bound has
    left
    rw [Stream.held, serving]
    exact has
  · intro frame close eq
    cases eq

/-- A step outside the session's work, then a frame that goes out at once. -/
theorem stepped_kept {st' : Stream} (serving : st.phase = .serving) (quiet : ∀ bound request, ¬ev.Fetches bound request)
    (holds : Regular (Sessions.step service rt ev) → ∀ bound, st'.bound = some bound →
      st.held (Sessions.step service rt ev) = some bound ∨ Fresh (Sessions.step service rt ev) streams bound)
    (free : ∀ frame close, response = .ok (frame, close) → frame.guarded = false)
    (tame : Tame (st'.respond service (Sessions.step service rt ev) response room).1) :
    Kept streams k (st'.respond service (Sessions.step service rt ev) response room) := by
  have after := turn.next (tame.of_evolves (respond_evolves .still)) (fun _ _ => quiet _ _) fun _ _ => quiet _ _
  exact respond_kept after (settled_serving serving) (holds after.regular) free tame

end

theorem begunId_eq_some {ev id} (begun : begunId rt (Sessions.step service rt ev) = some id) :
    Act.began rt.heap.length id ∈ (Sessions.step service rt ev).log := by
  have traces : rt.Traces ev (Sessions.step service rt ev) := step_traces ev
  unfold begunId at begun
  split at begun
  · next o id' at_end =>
    cases begun
    rcases traces.logs with same | ⟨act, eq, origin⟩
    · rw [same, getElem?_eq_none (Nat.le_refl _)] at at_end
      cases at_end
    · rw [eq, getElem?_concat_length] at at_end
      cases at_end
      rw [eq]
      cases origin
      exact mem_append_right _ mem_cons_self
  · cases begun

theorem begin_kept {request anchored draws} (turn : Turn rt streams k st) (serving : st.phase = .serving) :
    Tame (st.begin service rt frame request anchored draws room).1 →
      Kept streams k (st.begin service rt frame request anchored draws room) := by
  have quiet (bound : BoundSession) (r : Request) :
    ¬Event.Fetches bound r (.begin request anchored draws) := fun no => no
  unfold Stream.begin
  split
  · exact refuse_kept turn serving
  dsimp only
  split
  · next id begun =>
    refine stepped_kept turn serving quiet ?_ ?_
    · intro regular bound has
      cases has
      have logged := begunId_eq_some begun
      have within := regular.born.known logged
      refine .inr ⟨⟨_, _, logged, getElem?_eq_getElem within, ?_⟩, fun at_j has => ?_⟩
      · rw [regular.fenced.epochs (getElem?_eq_getElem within)]
        exact Nat.le_add_right _ _
      · rw [turn.owned.held_outside at_j rfl] at has
        obtain ⟨o, s, old, held, _⟩ := turn.owned.known at_j has
        have move : Moves service _ rt (Sessions.step service rt (.begin request anchored draws)) := step_moves _
        have same : o = rt.heap.length := regular.distinct (move.log_mono _ old) logged
        exact absurd same (Nat.ne_of_lt (turn.regular.born.known old))
    · intro frame close eq
      cases eq
      rfl
  · exact fun tame => refuse_kept (turn.next (tame.of_evolves (respond_evolves .still)) (fun _ _ => quiet _ _)
      fun _ _ => quiet _ _) serving tame

theorem resume_kept (turn : Turn rt streams k st) (serving : st.phase = .serving) :
    Tame (st.resume service rt frame room).1 → Kept streams k (st.resume service rt frame room) := by
  unfold Stream.resume
  split
  · exact refuse_kept turn serving
  split
  · exact refuse_kept turn serving
  next id parsed =>
  have quiet (bound : BoundSession) (r : Request) : ¬Event.Fetches bound r (.resume id) := fun no => no
  dsimp only
  split
  · exact fun tame => refuse_kept (turn.next (tame.of_evolves (respond_evolves .still)) (fun _ _ => quiet _ _)
      fun _ _ => quiet _ _) serving tame
  · next s found =>
    obtain ⟨o, retained, held⟩ := Option.bind_eq_some_iff.mp found
    have stepped : Sessions.step service rt (.resume id) = rt.resume o s := by
      simp only [Sessions.step, retained, held]
    have held₁ : (Sessions.step service rt (.resume id)).heap[o]? = some (s.resume rt.tokens.length) := by
      rw [stepped]
      exact getElem?_set_held held
    have begun : Act.began o id ∈ rt.log := turn.regular.named.retained (Registry.mem_of_get retained)
    have move : Moves service _ rt (Sessions.step service rt (.resume id)) := step_moves _
    refine stepped_kept turn serving quiet ?_ ?_
    · intro regular bound has
      cases has
      refine .inr ⟨⟨o, _, move.log_mono _ begun, held₁, Nat.le_refl _⟩, fun at_j has => ?_⟩
      rw [turn.owned.held_outside at_j rfl] at has
      exact turn.owned.above turn.regular regular begun held held₁ rfl rfl at_j has
    · intro frame close eq
      cases eq
      rfl

theorem work_arrives (service : Service) (rt : Runtime) (bound : BoundSession) (work : ClientWork) :
    (∃ o request, parseWork work = .ok request ∧
        (Sessions.step service rt (.work bound work)).flights[rt.flights.length]? = some (.fetched o bound request)) ∨
      ∃ status, (Sessions.step service rt (.work bound work)).flights[rt.flights.length]? =
        some (.finished (.error (.status status))) := by
  simp only [Sessions.step]
  split
  case h_1 => exact .inr ⟨_, getElem?_concat_length⟩
  case h_2 request parsed =>
    unfold Runtime.fetch
    split
    case h_1 => exact .inr ⟨_, getElem?_concat_length⟩
    case h_2 o _ => exact .inl ⟨o, request, parsed, getElem?_concat_length⟩

section
variable (turn : Turn rt streams k st) (serving : st.phase = .serving)
include turn serving

theorem rewind_kept : Tame (st.rewind service rt frame ancestorHash room).1 →
      Kept streams k (st.rewind service rt frame ancestorHash room) := by
  unfold Stream.rewind
  split
  · exact refuse_kept turn serving
  next bound found =>
  intro tame
  have has := requireBound_eq_ok found
  have regular : Regular (Sessions.step service rt (.work bound (.rewind ancestorHash))) := turn.regular.next tame
  have arrived : (∃ o ancestor, (Sessions.step service rt
    (.work bound (.rewind ancestorHash))).flights[rt.flights.length]? =
      some (.fetched o bound (.rewind ancestor))) ∨
      ∃ status, (Sessions.step service rt (.work bound (.rewind ancestorHash))).flights[rt.flights.length]? =
        some (.finished (.error (.status status))) := by
    rcases work_arrives service rt bound (.rewind ancestorHash) with ⟨o, request, parsed, at_end⟩ | failed
    · simp only [parseWork, bind_eq_ok, pure_eq_ok] at parsed
      obtain ⟨ancestor, _, rfl⟩ := parsed
      exact .inl ⟨o, ancestor, at_end⟩
    · exact .inr failed
  refine ⟨regular, turn.owned.take turn.regular regular rfl turn.at_k serving ?_ ?_ ?_ ?_⟩
  · rcases arrived with ⟨o, ancestor, at_end⟩ | ⟨status, at_end⟩ <;> simp only [Stream.held, at_end]
  · rintro bound' frame' ⟨_, parsed⟩
    exact absurd parsed parseWork_ne_send
  · rintro bound' ancestor ⟨rfl, _⟩
    exact ⟨rfl, has⟩
  · intro i phase
    cases phase
    rcases arrived with ⟨o, ancestor, at_end⟩ | ⟨status, at_end⟩
    · exact .inl ⟨o, bound, ancestor, at_end, has⟩
    · exact .inr ⟨_, at_end⟩

theorem cancel_kept : Tame (st.cancel service rt frame room).1 → Kept streams k (st.cancel service rt frame room) := by
  unfold Stream.cancel
  split
  · exact refuse_kept turn serving
  next bound found =>
  have quiet (b : BoundSession) (r : Request) : ¬Event.Fetches b r (.cancel bound) := fun no => no
  dsimp only
  split
  · refine stepped_kept turn serving quiet ?_ ?_
    · intro _ bound has
      cases has
    · intro frame close eq
      cases eq
      rfl
  · exact fun tame => refuse_kept (turn.next (tame.of_evolves (respond_evolves .still)) (fun _ _ => quiet _ _)
      fun _ _ => quiet _ _) serving tame

theorem input_kept : Tame (st.input service rt frame anchored draws room).1 →
      Kept streams k (st.input service rt frame anchored draws room) := by
  unfold Stream.input
  split
  · exact fun _ => enqueue_kept turn serving frame _ _
  · exact fun _ => enqueue_kept turn serving frame _ _
  · exact begin_kept turn serving
  · exact resume_kept turn serving
  · exact rewind_kept turn serving
  · exact cancel_kept turn serving
  · exact refuse_kept turn serving

theorem deliver_kept :
    Tame (st.deliver service rt room response).1 → Kept streams k (st.deliver service rt room response) := by
  unfold Stream.deliver
  split
  · next frame close =>
    split
    · next belongs =>
      split <;> intro tame
      · simp only [Option.any_eq_true, decide_eq_true_eq] at belongs
        obtain ⟨bound, has, named, current⟩ := belongs
        have regular : Regular (Sessions.step service rt (.send frame)) := turn.regular.next tame
        refine ⟨regular, turn.owned.take turn.regular regular rfl turn.at_k serving rfl ?_ ?_ ?_⟩
        · rintro bound' frame' ⟨_, eq, _, names⟩
          cases eq
          refine ⟨⟨close, rfl⟩, ?_⟩
          have id : bound.id = bound'.id := b256Bytes_injective (named.symm.trans (parseB256_eq_ok.mp names))
          rw [has, current, ← id]
        · rintro bound' ancestor ⟨_, eq, _⟩
          cases eq
        · intro i phase
          cases phase
      · exact turn.close serving rfl rfl
    · exact fun _ => turn.same rfl rfl
  · split
    · exact refuse_kept turn serving
    · exact fun _ => turn.same rfl rfl

theorem completed_kept : Tame (st.completed service rt room).1 → Kept streams k (st.completed service rt room) := by
  unfold Stream.completed
  split <;> intro tame
  · exact turn.same rfl rfl
  · -- The slot is free first.
    have freed : Kept streams k (rt, { st with operation := none }) := turn.same rfl rfl
    have kept := deliver_kept ⟨turn.regular, freed.owned, getElem?_set_held turn.at_k⟩ serving tame
    refine ⟨kept.regular, ?_⟩
    have owned := kept.owned
    rwa [set_set] at owned

end

variable (turn : Turn rt streams k st)
include turn

theorem rewound_kept (rewinding : st.phase = .rewinding i) :
    Tame (st.rewound service rt i room).1 → Kept streams k (st.rewound service rt i room) := by
  have settled {result : Except Failure Reply} (flight : rt.flights[i]? = some (.finished result)) : st.Settled rt := by
    constructor
    · simp [rewinding]
    · intro j phase
      cases rewinding.symm.trans phase
      simp [flight]
  unfold Stream.rewound
  split
  · next through bound flight has =>
    refine respond_kept turn (settled flight) ?_ ?_
    · intro bound' eq
      cases eq
      left
      simp only [Stream.held, rewinding, flight, has, Option.map_some]
    · intro frame close eq
      cases eq
      rfl
  · next result flight not_ready =>
    refine respond_kept turn (settled flight) ?_ ?_
    · intro bound has
      left
      simp only [Stream.held, rewinding, flight]
      split
      · next number hash eq =>
        cases eq
        exact (not_ready number hash bound has rfl).elim
      · exact has
    · intro frame close eq
      cases eq
  · exact fun _ => turn.same rfl rfl

theorem sent_kept {close : Bool} (sending : st.phase = .sending i close) : Kept streams k (rt, st.sent rt i close) := by
  have settled {result : Except Failure Reply} (flight : rt.flights[i]? = some (.finished result)) : st.Settled rt := by
    constructor
    · intro j close' phase
      cases sending.symm.trans phase
      simp [flight]
    · simp [sending]
  unfold Stream.sent
  split
  · next flight =>
    refine ⟨turn.regular, turn.owned.turn turn.at_k (settled flight) (by simp [sending]) ?_ rfl⟩
    intro j
    dsimp only
    split <;> exact Phase.noConfusion
  · next flight =>
    exact ⟨turn.regular, turn.owned.turn turn.at_k (settled flight) (by simp [sending])
      (fun j => Phase.noConfusion) rfl⟩
  · exact turn.same rfl rfl

theorem finish_kept (closing : st.phase = .closing) :
    Tame (st.finish service rt).1 → Kept streams k (st.finish service rt) := by
  have moved {rt' : Runtime} {phase} (turn : Turn rt' streams k st) (plain : ∀ i, phase ≠ .rewinding i) :
      Kept streams k (rt', { st with phase }) := by
    refine ⟨turn.regular, turn.owned.turn turn.at_k (settled_of_phase ?_ ?_) ?_ plain rfl⟩ <;> simp [closing]
  unfold Stream.finish
  split
  · split <;> intro tame
    · refine moved (turn.next tame ?_ ?_) fun i => Phase.noConfusion
      · rintro bound' frame ⟨_, eq⟩
        cases eq
      · rintro bound' ancestor ⟨_, eq⟩
        cases eq
    · exact moved turn fun i => Phase.noConfusion
  · exact fun _ => turn.same rfl rfl

theorem detached_kept (detaching : st.phase = .detaching i) : Kept streams k (rt, st.detached rt i) := by
  unfold Stream.detached
  split
  · refine ⟨turn.regular, turn.owned.turn turn.at_k (settled_of_phase ?_ ?_) ?_ (fun j => Phase.noConfusion) rfl⟩ <;>
      simp [detaching]
  · exact turn.same rfl rfl

theorem spawn_kept : Kept streams k (rt, st.spawn) := by
  unfold Stream.spawn
  split <;> exact turn.same rfl rfl

theorem step_kept : Tame (st.step service rt signal).1 → Kept streams k (st.step service rt signal) := by
  have stays : Kept streams k (rt, st) := turn.same rfl rfl
  have closes (p : Prop) [Decidable p] (serving : st.phase = .serving) :
      Tame (if p then (rt, { st with phase := .closing }) else (rt, st)).1 →
        Kept streams k (if p then (rt, { st with phase := .closing }) else (rt, st)) := by
    split
    · exact fun _ => turn.close serving rfl rfl
    · exact fun _ => stays
  unfold Stream.step
  split
  · exact fun _ => spawn_kept turn
  · exact run_kept turn
  · next serving =>
    split
    · exact input_kept turn serving
    · exact fun _ => stays
  · split
    · exact fun _ => turn.same rfl rfl
    · exact fun _ => stays
  · next serving => exact closes _ serving
  · next serving => exact closes _ serving
  · next serving => exact closes _ serving
  · next serving =>
    split
    · exact completed_kept turn serving
    · exact fun _ => stays
  · next serving =>
    split
    · exact fun _ => turn.close serving rfl rfl
    · exact fun _ => stays
  · exact fun _ => turn.same rfl rfl
  · next rewinding => exact rewound_kept turn rewinding
  · next sending => exact fun _ => sent_kept turn sending
  · next serving => exact closes _ serving
  · next closing => exact finish_kept turn closing
  · next detaching => exact fun _ => detached_kept turn detaching
  · exact fun _ => stays

end Stream

end

structure System.Orderly (sys : System) : Prop where
  regular : Regular sys.runtime
  owned : Owned sys.runtime sys.streams

namespace System
variable {service : Service}

theorem Orderly.next {sys : System} (h : sys.Orderly) (tame : Tame (sys.step service ev).runtime) :
    (sys.step service ev).Orderly := by
  revert tame
  unfold System.step
  split
  · split
    · exact fun _ => ⟨h.regular, h.owned.connect⟩
    · exact fun _ => h
  · split
    · exact fun _ => h
    · next st at_k =>
      intro tame
      have kept := Stream.step_kept ⟨h.regular, h.owned, at_k⟩ tame
      exact ⟨kept.regular, kept.owned⟩
  · split <;> intro tame
    · next event operation =>
      have regular : Regular (Sessions.step service sys.runtime event) := h.regular.next tame
      have fetches (bound : BoundSession) (request : Request) : ¬event.Fetches bound request := by
        cases event <;> simp_all [Event.Fetches, Event.operation?]
      exact ⟨regular, h.owned.runtime h.regular regular (fun _ _ => fetches _ _) fun _ _ => fetches _ _⟩
    · exact h

theorem after_append (run later : List SystemEvent) :
    after service (run ++ later) = later.foldl (System.step service) (after service run) := foldl_append

theorem after_evolves (run later : List SystemEvent) :
    Evolves service (after service run).runtime (after service (run ++ later)).runtime := by
  rw [after_append]
  exact foldl_evolves later _

theorem orderly_after (run : List SystemEvent) (tame : Tame (after service run).runtime) :
    (after service run).Orderly := by
  induction run using List.reverseRecOn with
  | nil => exact ⟨.initial, .initial⟩
  | append_singleton run ev ih =>
    have orderly := ih (tame.of_evolves (after_evolves run [ev]))
    rw [after_append] at tame ⊢
    exact orderly.next tame

end System

end Eez.Sessions
