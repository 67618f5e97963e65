import EezRollup.Sessions.Streams
import Mathlib.Logic.Relation

/-! A frame that waits to be published, and a rewind that waits for its session, belong to the one
stream whose task waits for them. -/
namespace Eez.Sessions
open Octets Outcome Signer

structure Tame (rt : Runtime) : Prop where
  few : rt.Few
  distinct : rt.Distinct

structure Regular (rt : Runtime) : Prop extends Tame rt where
  fenced : Fenced rt
  named : Named rt
  born : Born rt
  tokened : Tokened rt
  fetched : ∀ {i : Nat} {o : ObjectId} {bound : BoundSession} {request : Request},
    rt.flights[i]? = some (.fetched o bound request) → Act.began o bound.id ∈ rt.log

section
variable {service : Service} {rt : Runtime}

theorem Tame.of_step (h : Tame (step service rt ev)) : Tame rt := by
  have move : Moves service (ev.Honest rt) rt (step service rt ev) := step_moves ev
  exact ⟨move.few h.few, fun mem mem' => h.distinct (move.log_mono _ mem) (move.log_mono _ mem')⟩

theorem Regular.initial : Regular .initial := by
  refine ⟨⟨Runtime.few_of_length (by decide), ?_⟩, .initial, .initial, .initial, .initial, ?_⟩
  · intro o o' id mem
    cases mem
  · intro i o bound request at_i
    cases at_i

theorem Regular.next (h : Regular rt) (tame : Tame (step service rt ev)) : Regular (step service rt ev) := by
  have move : Moves service (ev.Honest rt) rt (step service rt ev) := step_moves ev
  refine ⟨tame, h.fenced.step tame.few move, h.named.step move, h.born.step move, h.tokened.step move, ?_⟩
  intro i o bound request at_i
  rcases (step_traces ev).leaves i o bound request at_i with old | ⟨_, retained, _⟩
  · exact move.log_mono _ (h.fetched old)
  · exact move.log_mono _ (h.named.retained (Registry.mem_of_get retained))

def Evolves (service : Service) : Runtime → Runtime → Prop :=
  Relation.ReflTransGen fun rt rt' => ∃ ev, step service rt ev = rt'

theorem Evolves.still : Evolves service rt rt := .refl

theorem Evolves.once (ev : Event) : Evolves service rt (step service rt ev) := .single ⟨ev, rfl⟩

theorem Evolves.next (h : Evolves service rt rt') (ev : Event) : Evolves service rt (step service rt' ev) :=
  h.tail ⟨ev, rfl⟩

theorem Evolves.log_mono (h : Evolves service rt rt') (mem : act ∈ rt.log) : act ∈ rt'.log := by
  induction h with
  | refl => exact mem
  | @tail mid _ _ last ih =>
    obtain ⟨ev, rfl⟩ := last
    have move : Moves service (ev.Honest mid) mid (step service mid ev) := step_moves ev
    exact move.log_mono _ ih

theorem Tame.of_evolves (h : Evolves service rt rt') (tame : Tame rt') : Tame rt := by
  induction h with
  | refl => exact tame
  | tail _ last ih =>
    obtain ⟨ev, rfl⟩ := last
    exact ih tame.of_step

end

theorem nextEpoch_ne (e : UInt64) : nextEpoch e ≠ e := by
  have word := e.toNat_lt
  intro same
  by_cases room : e.toNat + 1 < 2 ^ 64
  · have counted := nextEpoch_toNat room
    rw [same] at counted
    omega
  · obtain rfl : e = 18446744073709551615 := UInt64.toNat_inj.mp (show e.toNat = 18446744073709551615 by omega)
    revert same
    decide

variable {rt : Runtime} {st : Stream}

theorem step_rewind (service : Service) {ev : Event} {i : Nat}
    (flight : rt.flights[i]? = some (.fetched o bound (.rewind ancestor))) (here : ev.operation? = some i) :
    step service rt ev = rt ∨ (∃ status, step service rt ev = rt.retire i (.error (.status status))) ∨
      ∃ s s', rt.heap[o]? = some s ∧ s.epoch = bound.epoch ∧ s'.epoch = nextEpoch bound.epoch ∧
        step service rt ev = rt.rewind i o s s' := by
  cases ev with
  | enter j =>
    cases here
    simp only [step, flight]
    cases held : rt.heap[o]? with
    | none => exact .inl rfl
    | some s =>
      simp only [Runtime.enter]
      split
      case h_1 status _ => exact .inr (.inl ⟨status, rfl⟩)
      case h_2 s' cut =>
        obtain ⟨current, _, _, rfl⟩ := Session.rewind_eq_ok.mp cut
        exact .inr (.inr ⟨s, _, rfl, current, current ▸ rfl, rfl⟩)
  | validated j answer | settle j prepared cancelledAtStart cancelledBeforeDa | expire j preparing | sign j signature =>
    cases here
    simp only [step, flight]
    exact .inl trivial
  | _ => cases here

/-- The binding a stream has, or gets as soon as its task hears of the rewind that went through. -/
def Stream.held (rt : Runtime) (st : Stream) : Option BoundSession :=
  match st.phase with
  | .rewinding i =>
    match rt.flights[i]? with
    | some (.finished (.ok (.ready _ _))) => st.bound.map fun bound => ⟨bound.id, nextEpoch bound.epoch⟩
    | _ => st.bound
  | _ => st.bound

theorem Stream.held_of_plain (plain : ∀ i, st.phase ≠ .rewinding i) : st.held rt = st.bound := by
  unfold Stream.held
  split
  · next i phase => exact absurd phase (plain i)
  · rfl

/-- Who waits for a frame or a rewind, and who holds which epoch. -/
structure Owned (rt : Runtime) (streams : List Stream) : Prop where
  sends : ∀ {i : Nat} {o : ObjectId} {bound : BoundSession} {frame : ServerFrame},
    rt.flights[i]? = some (.fetched o bound (.send frame)) → ∃ (k : Nat) (st : Stream) (close : Bool),
      streams[k]? = some st ∧ st.phase = .sending i close ∧ st.bound = some ⟨bound.id, frame.epoch⟩
  rewinds : ∀ {i : Nat} {o : ObjectId} {bound : BoundSession} {ancestor : B256},
    rt.flights[i]? = some (.fetched o bound (.rewind ancestor)) → ∃ (k : Nat) (st : Stream),
      streams[k]? = some st ∧ st.phase = .rewinding i ∧ st.bound = some bound
  rewinding : ∀ {k : Nat} {st : Stream} {i : Nat}, streams[k]? = some st → st.phase = .rewinding i →
    (∃ o bound ancestor, rt.flights[i]? = some (.fetched o bound (.rewind ancestor)) ∧ st.bound = some bound) ∨
      ∃ result, rt.flights[i]? = some (.finished result)
  known : ∀ {k : Nat} {st : Stream} {bound : BoundSession}, streams[k]? = some st → st.held rt = some bound →
    ∃ o s, Act.began o bound.id ∈ rt.log ∧ rt.heap[o]? = some s ∧ bound.epoch.toNat ≤ s.epoch.toNat
  alone : ∀ {k k' : Nat} {st st' : Stream} {bound : BoundSession}, streams[k]? = some st → streams[k']? = some st' →
    st.held rt = some bound → st'.held rt = some bound → k = k'

/-- The stream's task waits for nothing that is still under way. -/
structure Stream.Settled (rt : Runtime) (st : Stream) : Prop where
  sent : ∀ i close, st.phase = .sending i close → ∀ o bound frame,
    rt.flights[i]? ≠ some (.fetched o bound (.send frame))
  rewound : ∀ i, st.phase = .rewinding i → ∀ o bound ancestor,
    rt.flights[i]? ≠ some (.fetched o bound (.rewind ancestor))

theorem Stream.settled_of_phase (unsent : ∀ i close, st.phase ≠ .sending i close)
    (plain : ∀ i, st.phase ≠ .rewinding i) : st.Settled rt :=
  ⟨fun i close phase => absurd phase (unsent i close), fun i phase => absurd phase (plain i)⟩

theorem settled_serving (serving : st.phase = .serving) : st.Settled rt := by
  refine Stream.settled_of_phase ?_ ?_ <;> simp [serving]

/-- An epoch that no stream holds, of a session there is. -/
structure Fresh (rt : Runtime) (streams : List Stream) (bound : BoundSession) : Prop where
  known : ∃ o s, Act.began o bound.id ∈ rt.log ∧ rt.heap[o]? = some s ∧ bound.epoch.toNat ≤ s.epoch.toNat
  free : ∀ {k : Nat} {st : Stream}, streams[k]? = some st → st.held rt ≠ some bound

namespace Owned
variable {service : Service} {rt : Runtime} {streams : List Stream}

theorem initial : Owned .initial [] := by
  constructor <;> intros <;> simp_all [Runtime.initial]

variable {k : Nat} {st st' : Stream} {ev : Event}

variable (h : Owned rt streams)
include h

/-- A stream whose task waits for nothing, and holds after it what it held before or what is free. -/
theorem replace (at_k : streams[k]? = some st) (settled : st.Settled rt) (plain : ∀ i, st'.phase ≠ .rewinding i)
    (holds : ∀ bound, st'.held rt = some bound → st.held rt = some bound ∨ Fresh rt streams bound) :
    Owned rt (streams.set k st') := by
  have others {j : Nat} {t : Stream} (at_j : streams[j]? = some t) (ne : t ≠ st) :
      (streams.set k st')[j]? = some t := by
    have other : k ≠ j := by
      rintro rfl
      exact ne (Option.some.inj (at_j.symm.trans at_k))
    exact (List.getElem?_set_ne other).trans at_j
  have unshared {j : Nat} {t : Stream} {bound : BoundSession} (at_j : streams[j]? = some t)
    (has : t.held rt = some bound)
      (has' : st'.held rt = some bound) : k = j := by
    cases holds bound has' with
    | inl old => exact h.alone at_k at_j old has
    | inr fresh => exact absurd has (fresh.free at_j)
  constructor
  case sends =>
    intro i o bound frame at_i
    obtain ⟨j, t, close, at_j, phase, has⟩ := h.sends at_i
    refine ⟨j, t, close, others at_j ?_, phase, has⟩
    rintro rfl
    exact settled.sent i close phase o bound frame at_i
  case rewinds =>
    intro i o bound ancestor at_i
    obtain ⟨j, t, at_j, phase, has⟩ := h.rewinds at_i
    refine ⟨j, t, others at_j ?_, phase, has⟩
    rintro rfl
    exact settled.rewound i phase o bound ancestor at_i
  case rewinding =>
    intro j t i at_j phase
    cases getElem?_set_cases at_j with
    | inl here => exact absurd (here.2 ▸ phase) (plain i)
    | inr other => exact h.rewinding other.2 phase
  case known =>
    intro j t bound at_j has
    cases getElem?_set_cases at_j with
    | inl here =>
      rw [here.2] at has
      cases holds bound has with
      | inl old => exact h.known at_k old
      | inr fresh => exact fresh.known
    | inr other => exact h.known other.2 has
  case alone =>
    intro j j' t t' bound at_j at_j' has has'
    cases getElem?_set_cases at_j with
    | inl here =>
      rw [here.2] at has
      cases getElem?_set_cases at_j' with
      | inl here' => exact here.1.symm.trans here'.1
      | inr other' => exact here.1.symm.trans (unshared other'.2 has' has)
    | inr other =>
      cases getElem?_set_cases at_j' with
      | inl here' =>
        rw [here'.2] at has'
        exact (unshared other.2 has has').symm.trans here'.1
      | inr other' => exact h.alone other.2 other'.2 has has'

theorem same (at_k : streams[k]? = some st)
    (phase : st'.phase = st.phase) (bound : st'.bound = st.bound) : Owned rt (streams.set k st') := by
  have held : st'.held rt = st.held rt := by
    unfold Stream.held
    rw [phase, bound]
  have before {j : Nat} {t : Stream} (at_j : (streams.set k st')[j]? = some t) :
      ∃ u, streams[j]? = some u ∧ t.phase = u.phase ∧ t.bound = u.bound ∧ t.held rt = u.held rt := by
    cases getElem?_set_cases at_j with
    | inl here =>
      obtain ⟨rfl, rfl⟩ := here
      exact ⟨st, at_k, phase, bound, held⟩
    | inr other => exact ⟨t, other.2, rfl, rfl, rfl⟩
  have now {j : Nat} {t : Stream} (at_j : streams[j]? = some t) :
      ∃ u, (streams.set k st')[j]? = some u ∧ u.phase = t.phase ∧ u.bound = t.bound := by
    by_cases here : k = j
    · subst here
      obtain rfl := Option.some.inj (at_k.symm.trans at_j)
      exact ⟨st', getElem?_set_held at_k, phase, bound⟩
    · exact ⟨t, (List.getElem?_set_ne here).trans at_j, rfl, rfl⟩
  constructor
  case sends =>
    intro i o b frame at_i
    obtain ⟨j, t, close, at_j, phase, has⟩ := h.sends at_i
    obtain ⟨u, at_u, phase', bound'⟩ := now at_j
    exact ⟨j, u, close, at_u, phase'.trans phase, bound'.trans has⟩
  case rewinds =>
    intro i o b ancestor at_i
    obtain ⟨j, t, at_j, phase, has⟩ := h.rewinds at_i
    obtain ⟨u, at_u, phase', bound'⟩ := now at_j
    exact ⟨j, u, at_u, phase'.trans phase, bound'.trans has⟩
  case rewinding =>
    intro j t i at_j waits
    obtain ⟨u, at_u, phase', bound', _⟩ := before at_j
    rw [bound']
    exact h.rewinding at_u (phase'.symm.trans waits)
  case known =>
    intro j t b at_j has
    obtain ⟨u, at_u, _, _, held'⟩ := before at_j
    exact h.known at_u (held'.symm.trans has)
  case alone =>
    intro j j' t t' b at_j at_j' has has'
    obtain ⟨u, at_u, _, _, held'⟩ := before at_j
    obtain ⟨u', at_u', _, _, held''⟩ := before at_j'
    exact h.alone at_u at_u' (held'.symm.trans has) (held''.symm.trans has')

theorem held_step (at_k : streams[k]? = some st) (ev : Event) : st.held (step service rt ev) = st.held rt ∨
      ∃ i o bound ancestor s s', ev.operation? = some i ∧ rt.flights[i]? = some (.fetched o bound (.rewind ancestor)) ∧
        rt.heap[o]? = some s ∧ s.epoch = bound.epoch ∧ (step service rt ev).heap[o]? = some s' ∧
        s'.epoch = nextEpoch bound.epoch ∧ st.held rt = some bound ∧
        st.held (step service rt ev) = some ⟨bound.id, nextEpoch bound.epoch⟩ := by
  have traces : rt.Traces ev (step service rt ev) := step_traces ev
  cases phase : st.phase with
  | rewinding i =>
    have unmoved (same : (step service rt ev).flights[i]? = rt.flights[i]?) :
        st.held (step service rt ev) = st.held rt := by
      simp only [Stream.held, phase, same]
    rcases h.rewinding at_k phase with ⟨o, bound, ancestor, flight, has⟩ | ⟨result, flight⟩
    · rcases traces.advances i _ flight with same | ⟨here, _⟩
      · exact .inl (unmoved (same.trans flight.symm))
      · have waiting : st.held rt = some bound := by
          simp only [Stream.held, phase, flight, has]
        rcases step_rewind service flight here with same | ⟨status, failed⟩ | ⟨s, s', held, current, next, through⟩
        · rw [same]
          exact .inl rfl
        · left
          rw [waiting, failed]
          have at_i : (rt.retire i (.error (.status status))).flights[i]? =
            some (.finished (.error (.status status))) :=
            getElem?_set_held flight
          simp only [Stream.held, phase, at_i, has]
        · right
          have at_i : (rt.rewind i o s s').flights[i]? = some (.finished (.ok (.ready s'.tip.number s'.tip.hash))) :=
            getElem?_set_held flight
          refine ⟨i, o, bound, ancestor, s, s', here, flight, held, current, ?_, next, waiting, ?_⟩
          · rw [through]
            exact getElem?_set_held held
          · rw [through]
            simp only [Stream.held, phase, at_i, has, Option.map_some]
    · rcases traces.advances i _ flight with same | ⟨_, live⟩
      · exact .inl (unmoved (same.trans flight.symm))
      · exact absurd ⟨result, rfl⟩ live
  | _ =>
    left
    simp only [Stream.held, phase]

theorem held_outside {j : Nat} {t : Stream} (at_j : streams[j]? = some t)
    (outside : ev.operation? = none) : t.held (step service rt ev) = t.held rt := by
  rcases h.held_step at_j ev with same | ⟨i, _, _, _, _, _, here, _⟩
  · exact same
  · cases outside.symm.trans here

/-- The epoch that is installed next is above every epoch that is held. -/
theorem above (regular : Regular rt) (regular' : Regular (step service rt ev)) {o id s s' e}
    (begun : Act.began o id ∈ rt.log) (held : rt.heap[o]? = some s) (held' : (step service rt ev).heap[o]? = some s')
    (next : s'.epoch = nextEpoch s.epoch) (installed : e = nextEpoch s.epoch) (at_k : streams[k]? = some st) :
    st.held rt ≠ some ⟨id, e⟩ := by
  have move : Moves service (ev.Honest rt) rt (step service rt ev) := step_moves ev
  intro has
  obtain ⟨o', t, begun', at_o, reached⟩ := h.known at_k has
  obtain rfl := regular.distinct begun begun'
  obtain rfl := Option.some.inj (held.symm.trans at_o)
  obtain ⟨t', held'', _, grown⟩ := regular.fenced.grows regular'.few move held
  obtain rfl := Option.some.inj (held'.symm.trans held'')
  rw [next] at grown
  rw [installed] at reached
  exact nextEpoch_ne s.epoch (UInt64.toNat_inj.mp (Nat.le_antisymm reached grown))

theorem runtime (regular : Regular rt) (regular' : Regular (step service rt ev))
    (sends : ∀ bound frame, ¬ev.Fetches bound (.send frame))
    (rewinds : ∀ bound ancestor, ¬ev.Fetches bound (.rewind ancestor)) : Owned (step service rt ev) streams := by
  have traces : rt.Traces ev (step service rt ev) := step_traces ev
  have move : Moves service (ev.Honest rt) rt (step service rt ev) := step_moves ev
  constructor
  case sends =>
    intro i o bound frame at_i
    rcases traces.leaves i o bound _ at_i with old | ⟨_, _, fetches⟩
    · exact h.sends old
    · exact absurd fetches (sends bound frame)
  case rewinds =>
    intro i o bound ancestor at_i
    rcases traces.leaves i o bound _ at_i with old | ⟨_, _, fetches⟩
    · exact h.rewinds old
    · exact absurd fetches (rewinds bound ancestor)
  case rewinding =>
    intro k st i at_k phase
    rcases h.rewinding at_k phase with ⟨o, bound, ancestor, flight, has⟩ | ⟨result, flight⟩
    · rcases traces.advances i _ flight with same | ⟨here, _⟩
      · exact .inl ⟨o, bound, ancestor, same, has⟩
      · rcases step_rewind service flight here with same | ⟨status, failed⟩ | ⟨s, s', _, _, _, through⟩
        · rw [same]
          exact .inl ⟨o, bound, ancestor, flight, has⟩
        · rw [failed]
          exact .inr ⟨_, getElem?_set_held flight⟩
        · rw [through]
          exact .inr ⟨_, getElem?_set_held flight⟩
    · rcases traces.advances i _ flight with same | ⟨_, live⟩
      · exact .inr ⟨result, same⟩
      · exact absurd ⟨result, rfl⟩ live
  case known =>
    intro k st bound at_k has
    rcases h.held_step at_k ev with same | ⟨i, o, b, ancestor, s, s', _, flight, _, _, held', next, _, holds⟩
    · rw [same] at has
      obtain ⟨o, s, begun, held, reached⟩ := h.known at_k has
      obtain ⟨s', held', _, grown⟩ := regular.fenced.grows regular'.few move held
      exact ⟨o, s', move.log_mono _ begun, held', reached.trans grown⟩
    · obtain rfl := Option.some.inj (holds.symm.trans has)
      have begun : Act.began o b.id ∈ rt.log := regular.fetched flight
      exact ⟨o, s', move.log_mono _ begun, held', Nat.le_of_eq (congrArg UInt64.toNat next.symm)⟩
  case alone =>
    intro k k' st st' bound at_k at_k' has has'
    rcases h.held_step at_k ev with same | ⟨i, o, b, ancestor, s, s', here, flight, held, current, held', next,
      waiting, holds⟩
    · rcases h.held_step at_k' ev with same' | ⟨i', o', b', _, s, s', _, flight', held, current, held', next, _, holds'⟩
      · exact h.alone at_k at_k' (same.symm.trans has) (same'.symm.trans has')
      · obtain rfl := Option.some.inj (holds'.symm.trans has')
        exact absurd (same.symm.trans has)
          (h.above regular regular' (regular.fetched flight') held held' (next.trans (current ▸ rfl))
            (current ▸ rfl) at_k)
    · obtain rfl := Option.some.inj (holds.symm.trans has)
      rcases h.held_step at_k' ev with same' | ⟨i', o', b', _, _, _, here', flight', _, _, _, _, waiting', _⟩
      · exact absurd (same'.symm.trans has')
          (h.above regular regular' (regular.fetched flight) held held' (next.trans (current ▸ rfl))
            (current ▸ rfl) at_k')
      · obtain rfl := Option.some.inj (here.symm.trans here')
        cases Option.some.inj (flight.symm.trans flight')
        exact h.alone at_k at_k' waiting waiting'

theorem connect : Owned rt (streams ++ [.fresh]) := by
  have before {j : Nat} {t : Stream} (at_j : (streams ++ [.fresh])[j]? = some t) : streams[j]? = some t ∨ t = .fresh :=
    (getElem?_concat_cases at_j).imp_right And.right
  constructor
  case sends =>
    intro i o bound frame at_i
    obtain ⟨j, t, close, at_j, phase, has⟩ := h.sends at_i
    exact ⟨j, t, close, getElem?_concat_held at_j, phase, has⟩
  case rewinds =>
    intro i o bound ancestor at_i
    obtain ⟨j, t, at_j, phase, has⟩ := h.rewinds at_i
    exact ⟨j, t, getElem?_concat_held at_j, phase, has⟩
  case rewinding =>
    intro j t i at_j phase
    rcases before at_j with old | rfl
    · exact h.rewinding old phase
    · cases phase
  case known =>
    intro j t bound at_j has
    rcases before at_j with old | rfl
    · exact h.known old has
    · cases has
  case alone =>
    intro j j' t t' bound at_j at_j' has has'
    rcases before at_j with old | rfl
    · rcases before at_j' with old' | rfl
      · exact h.alone old old' has has'
      · cases has'
    · cases has

theorem take (regular : Regular rt) (regular' : Regular (step service rt ev))
    (outside : ev.operation? = none) (at_k : streams[k]? = some st)
    (serving : st.phase = .serving) (kept : st'.held (step service rt ev) = st.bound)
    (sends : ∀ bound frame, ev.Fetches bound (.send frame) →
      (∃ close, st'.phase = .sending rt.flights.length close) ∧ st'.bound = some ⟨bound.id, frame.epoch⟩)
    (rewinds : ∀ bound ancestor, ev.Fetches bound (.rewind ancestor) →
      st'.phase = .rewinding rt.flights.length ∧ st'.bound = some bound)
    (rewinding : ∀ i, st'.phase = .rewinding i →
      (∃ o bound ancestor, (step service rt ev).flights[i]? = some (.fetched o bound (.rewind ancestor)) ∧
        st'.bound = some bound) ∨ ∃ result, (step service rt ev).flights[i]? = some (.finished result)) :
    Owned (step service rt ev) (streams.set k st') := by
  have traces : rt.Traces ev (step service rt ev) := step_traces ev
  have move : Moves service (ev.Honest rt) rt (step service rt ev) := step_moves ev
  have others {j : Nat} {t : Stream} (at_j : streams[j]? = some t) (waits : t.phase ≠ .serving) :
      (streams.set k st')[j]? = some t := by
    have other : k ≠ j := by
      rintro rfl
      obtain rfl := Option.some.inj (at_k.symm.trans at_j)
      exact waits serving
    exact (List.getElem?_set_ne other).trans at_j
  -- What any stream holds now, it held before.
  have before {j : Nat} {t : Stream} {bound : BoundSession} (at_j : (streams.set k st')[j]? = some t)
      (has : t.held (step service rt ev) = some bound) : ∃ u, streams[j]? = some u ∧ u.held rt = some bound := by
    cases getElem?_set_cases at_j with
    | inl here =>
      obtain ⟨rfl, rfl⟩ := here
      refine ⟨st, at_k, ?_⟩
      unfold Stream.held
      rw [serving]
      exact kept.symm.trans has
    | inr other =>
      refine ⟨t, other.2, ?_⟩
      rwa [h.held_outside other.2 outside] at has
  constructor
  case sends =>
    intro i o bound frame at_i
    rcases traces.leaves i o bound _ at_i with old | ⟨rfl, _, fetches⟩
    · obtain ⟨j, t, close, at_j, phase, has⟩ := h.sends old
      refine ⟨j, t, close, others at_j ?_, phase, has⟩
      rw [phase]
      exact Phase.noConfusion
    · obtain ⟨⟨close, phase⟩, has⟩ := sends bound frame fetches
      exact ⟨k, st', close, getElem?_set_held at_k, phase, has⟩
  case rewinds =>
    intro i o bound ancestor at_i
    rcases traces.leaves i o bound _ at_i with old | ⟨rfl, _, fetches⟩
    · obtain ⟨j, t, at_j, phase, has⟩ := h.rewinds old
      refine ⟨j, t, others at_j ?_, phase, has⟩
      rw [phase]
      exact Phase.noConfusion
    · obtain ⟨phase, has⟩ := rewinds bound ancestor fetches
      exact ⟨k, st', getElem?_set_held at_k, phase, has⟩
  case rewinding =>
    intro j t i at_j phase
    cases getElem?_set_cases at_j with
    | inl here =>
      obtain ⟨rfl, rfl⟩ := here
      exact rewinding i phase
    | inr other =>
      rcases h.rewinding other.2 phase with ⟨o, bound, ancestor, flight, has⟩ | ⟨result, flight⟩
      · rcases traces.advances i _ flight with same | ⟨here, _⟩
        · exact .inl ⟨o, bound, ancestor, same, has⟩
        · cases outside.symm.trans here
      · rcases traces.advances i _ flight with same | ⟨here, _⟩
        · exact .inr ⟨result, same⟩
        · cases outside.symm.trans here
  case known =>
    intro j t bound at_j has
    obtain ⟨u, at_u, holds⟩ := before at_j has
    obtain ⟨o, s, begun, held, reached⟩ := h.known at_u holds
    obtain ⟨s', held', _, grown⟩ := regular.fenced.grows regular'.few move held
    exact ⟨o, s', move.log_mono _ begun, held', reached.trans grown⟩
  case alone =>
    intro j j' t t' bound at_j at_j' has has'
    obtain ⟨u, at_u, holds⟩ := before at_j has
    obtain ⟨u', at_u', holds'⟩ := before at_j' has'
    exact h.alone at_u at_u' holds holds'

theorem turn (at_k : streams[k]? = some st) (settled : st.Settled rt)
    (plain : ∀ i, st.phase ≠ .rewinding i) (plain' : ∀ i, st'.phase ≠ .rewinding i) (bound : st'.bound = st.bound) :
    Owned rt (streams.set k st') := by
  refine h.replace at_k settled plain' fun b has => .inl ?_
  rwa [Stream.held_of_plain plain, ← bound, ← Stream.held_of_plain plain']

theorem close (at_k : streams[k]? = some st)
    (serving : st.phase = .serving) (closing : st'.phase = .closing) (bound : st'.bound = st.bound) :
    Owned rt (streams.set k st') := by
  refine h.turn at_k (settled_serving serving) ?_ ?_ bound
  · simp [serving]
  · simp [closing]

end Owned

end Eez.Sessions
