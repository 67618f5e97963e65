import EezRollup.Sessions.Chain
import Mathlib.Logic.Function.Iterate

/-! Every effect of an operation is checked against the epoch it was started under, under the lock
that `resume` and `rewind` take to install the next one. -/
open List
namespace Eez.Sessions
open Session
open Octets Outcome Signer

theorem nextEpoch_toNat {e : UInt64} (room : e.toNat + 1 < 2 ^ 64) : (nextEpoch e).toNat = e.toNat + 1 := by
  have sum : (e + 1).toNat = e.toNat + 1 := by
    rw [UInt64.toNat_add]
    exact Nat.mod_eq_of_lt room
  unfold nextEpoch
  rw [toNat_max, sum]
  exact Nat.max_eq_left (Nat.le_add_left _ _)

def Act.installs (o : ObjectId) : Act → Bool
  | .installed o' _ => o' = o
  | _ => false

def installs (log : List Act) (o : ObjectId) : Nat := log.countP (Act.installs o)

/-- The session a step has locked, and the epoch it goes by. -/
def Act.under : Act → Option (ObjectId × UInt64)
  | .installed o epoch => some (o, epoch)
  | .appended o epoch _ => some (o, epoch)
  | .selected o epoch _ _ => some (o, epoch)
  | .signed o epoch _ _ _ => some (o, epoch)
  | .published (some o) frame => some (o, frame.epoch)
  | _ => none

/-- The epoch counter of no session has come round. -/
def Runtime.Few (rt : Runtime) : Prop := ∀ o, installs rt.log o < 2 ^ 64 - 1

theorem installs_concat {log : List Act} {act : Act} :
    installs (log ++ [act]) o = installs log o + if act.installs o then 1 else 0 := by
  unfold installs
  rw [countP_append, countP_singleton]

namespace Moves
variable {service : Service} {H : Prop} {rt rt' : Runtime}

variable (move : Moves service H rt rt')
include move

theorem few (h : rt'.Few) : rt.Few := by
  intro o
  refine Nat.lt_of_le_of_lt ?_ (h o)
  cases move.log_cases with
  | inl same => rw [same]
  | inr more =>
    obtain ⟨act, eq⟩ := more
    rw [eq, installs_concat]
    exact Nat.le_add_right _ _

theorem epoch {o : ObjectId} (held : rt.heap[o]? = some s) :
    ∃ s', rt'.heap[o]? = some s' ∧ ((s'.epoch = s.epoch ∧ installs rt'.log o = installs rt.log o) ∨
      (s'.epoch = nextEpoch s.epoch ∧ installs rt'.log o = installs rt.log o + 1)) := by
  have put {o' : ObjectId} {t t' : Session} {log : List Act} (held' : rt.heap[o']? = some t)
      (here : o' = o → t = s → (t'.epoch = s.epoch ∧ installs log o = installs rt.log o) ∨
        (t'.epoch = nextEpoch s.epoch ∧ installs log o = installs rt.log o + 1))
      (elsewhere : o' ≠ o → installs log o = installs rt.log o) :
      ∃ s', (rt.heap.set o' t')[o]? = some s' ∧ ((s'.epoch = s.epoch ∧ installs log o = installs rt.log o) ∨
        (s'.epoch = nextEpoch s.epoch ∧ installs log o = installs rt.log o + 1)) := by
    by_cases eq : o' = o
    · subst eq
      exact ⟨t', getElem?_set_held held', here rfl (Option.some.inj (held'.symm.trans held))⟩
    · exact ⟨s, (getElem?_set_ne eq).trans held, .inl ⟨rfl, elsewhere eq⟩⟩
  have silent {act : Act} (none : act.installs o = false) : installs (rt.log ++ [act]) o = installs rt.log o := by
    rw [installs_concat, none]
    rfl
  have installing {o' : ObjectId} {e : UInt64} (eq : o' = o) :
      installs (rt.log ++ [.installed o' e]) o = installs rt.log o + 1 := by
    rw [installs_concat, Act.installs, decide_eq_true eq]
    rfl
  have aside {o' : ObjectId} {e : UInt64} (ne : o' ≠ o) :
      installs (rt.log ++ [.installed o' e]) o = installs rt.log o := silent (decide_eq_false ne)
  cases move with
  | quiet => exact ⟨s, held, .inl ⟨rfl, rfl⟩⟩
  | begin => exact ⟨s, getElem?_concat_held held, .inl ⟨rfl, silent rfl⟩⟩
  | resume held' => exact put held' (fun eq same => .inr ⟨same ▸ rfl, installing eq⟩) aside
  | cancel | fetch => exact ⟨s, held, .inl ⟨rfl, rfl⟩⟩
  | say => exact ⟨s, held, .inl ⟨rfl, silent rfl⟩⟩
  | rewind held' cut =>
    obtain ⟨_, n, _, rfl⟩ := rewind_eq_ok.mp cut
    exact put held' (fun eq same => .inr ⟨same ▸ rfl, installing eq⟩) aside
  | snapshot => exact ⟨s, held, .inl ⟨rfl, rfl⟩⟩
  | select held' => exact put held' (fun _ same => .inl ⟨same ▸ rfl, silent rfl⟩) fun _ => silent rfl
  | publish => exact ⟨s, held, .inl ⟨rfl, silent rfl⟩⟩
  | detach held' => exact put held' (fun _ same => .inl ⟨same ▸ rfl, rfl⟩) fun _ => rfl
  | append flight held' linked taken =>
    obtain ⟨_, _, rfl⟩ := append_eq_ok.mp taken
    exact put held' (fun _ same => .inl ⟨same ▸ rfl, silent rfl⟩) fun _ => silent rfl
  | settle => exact ⟨s, held, .inl ⟨rfl, silent rfl⟩⟩
  | expire => exact ⟨s, held, .inl ⟨rfl, rfl⟩⟩
  | sign flight held' taken =>
    obtain ⟨_, _, _, rfl⟩ := sign_eq_ok.mp taken
    exact put held' (fun _ same => .inl ⟨same ▸ rfl, silent rfl⟩) fun _ => silent rfl

theorem born {o : ObjectId} (held : rt'.heap[o]? = some s')
    (new : rt.heap[o]? = none) : s'.epoch = 1 ∧ installs rt'.log o = installs rt.log o := by
  have put {o' : ObjectId} {t t' : Session} (held' : rt.heap[o']? = some t) (held : (rt.heap.set o' t')[o]? = some s') :
      False := by
    cases getElem?_set_cases held with
    | inl here =>
      rw [here.1] at held'
      exact Option.some_ne_none _ (held'.symm.trans new)
    | inr other => exact Option.some_ne_none _ (other.2.symm.trans new)
  cases move with
  | begin =>
    cases getElem?_concat_cases held with
    | inl old => exact absurd (old.symm.trans new) (Option.some_ne_none _)
    | inr fresh =>
      rw [fresh.2, installs_concat]
      exact ⟨rfl, rfl⟩
  | resume held' | rewind held' | select held' | detach held' | append _ held' | sign _ held' =>
    exact (put held' held).elim
  | _ => exact absurd (held.symm.trans new) (Option.some_ne_none _)

theorem under : rt'.log = rt.log ∨ ∃ act, rt'.log = rt.log ++ [act] ∧
    ∀ {o e}, act.under = some (o, e) → ∃ s', rt'.heap[o]? = some s' ∧ s'.epoch = e := by
  have locked {act : Act} {o : ObjectId} {s' : Session} (act_under : act.under = some (o, s'.epoch))
      (held' : rt'.heap[o]? = some s') {o' : ObjectId} {e : UInt64} (h : act.under = some (o', e)) :
      ∃ s', rt'.heap[o']? = some s' ∧ s'.epoch = e := by
    cases act_under.symm.trans h
    exact ⟨s', held', rfl⟩
  cases move with
  | quiet | cancel | fetch | snapshot | detach | expire => exact .inl rfl
  | begin | say | settle => exact .inr ⟨_, rfl, fun h => by cases h⟩
  | resume held | rewind held => exact .inr ⟨_, rfl, locked rfl (getElem?_set_held held)⟩
  | select held current => exact .inr ⟨_, rfl, locked (by rw [Act.under, ← current]) (getElem?_set_held held)⟩
  | publish flight held current => exact .inr ⟨_, rfl, locked (by rw [Act.under, ← current]) held⟩
  | append flight held linked taken =>
    obtain ⟨current, _, rfl⟩ := append_eq_ok.mp taken
    exact .inr ⟨_, rfl, locked (by rw [Act.under, ← current]) (getElem?_set_held held)⟩
  | sign flight held taken =>
    obtain ⟨current, _, _, rfl⟩ := sign_eq_ok.mp taken
    exact .inr ⟨_, rfl, locked (by rw [Act.under, ← current]) (getElem?_set_held held)⟩

end Moves

structure Fenced (rt : Runtime) : Prop where
  epochs : ∀ {o : ObjectId} {s : Session}, rt.heap[o]? = some s → s.epoch.toNat = 1 + installs rt.log o
  unborn : ∀ {o : ObjectId}, rt.heap[o]? = none → installs rt.log o = 0
  reached : ∀ act ∈ rt.log, ∀ {o e}, act.under = some (o, e) → ∃ s, rt.heap[o]? = some s ∧ e.toNat ≤ s.epoch.toNat
  ordered : rt.log.Pairwise fun a b => ∀ o e e', a.under = some (o, e) → b.under = some (o, e') → e.toNat ≤ e'.toNat

namespace Fenced
variable {service : Service} {H : Prop} {rt rt' : Runtime}

theorem initial : Fenced .initial :=
  ⟨fun held => by simp [Runtime.initial] at held, fun _ => rfl, fun act mem => by simp [Runtime.initial] at mem, .nil⟩

theorem grows (h : Fenced rt) (few : rt'.Few) (move : Moves service H rt rt') {o : ObjectId}
    (held : rt.heap[o]? = some s) : ∃ s', rt'.heap[o]? = some s' ∧ s'.epoch.toNat = 1 + installs rt'.log o ∧
      s.epoch.toNat ≤ s'.epoch.toNat := by
  have before := h.epochs held
  obtain ⟨s', held', change⟩ := move.epoch held
  refine ⟨s', held', ?_⟩
  cases change with
  | inl same => rw [same.1, same.2, before]; exact ⟨rfl, Nat.le_refl _⟩
  | inr next =>
    have bound := few o
    rw [next.2] at bound
    have counted := nextEpoch_toNat (e := s.epoch) (by omega)
    rw [next.1, next.2, counted]
    omega

theorem step (h : Fenced rt) (few : rt'.Few) (move : Moves service H rt rt') : Fenced rt' := by
  have old {act : Act} (mem : act ∈ rt.log) {o : ObjectId} {e : UInt64} (act_under : act.under = some (o, e)) :
      ∃ s', rt'.heap[o]? = some s' ∧ e.toNat ≤ s'.epoch.toNat := by
    obtain ⟨s, held, le⟩ := h.reached act mem act_under
    obtain ⟨s', held', _, grown⟩ := h.grows few move held
    exact ⟨s', held', le.trans grown⟩
  constructor
  case epochs =>
    intro o s' held'
    cases before : rt.heap[o]? with
    | some s =>
      obtain ⟨t, held, counted, _⟩ := h.grows few move before
      obtain rfl : t = s' := Option.some.inj (held.symm.trans held')
      exact counted
    | none =>
      obtain ⟨first, same⟩ := move.born held' before
      rw [first, same, h.unborn before]
      rfl
  case unborn =>
    intro o gone
    have before : rt.heap[o]? = none := by
      cases held : rt.heap[o]? with
      | none => rfl
      | some s =>
        obtain ⟨s', held', _⟩ := h.grows few move held
        exact absurd (held'.symm.trans gone) (Option.some_ne_none _)
    cases move.under with
    | inl same => rw [same]; exact h.unborn before
    | inr more =>
      obtain ⟨act, eq, locked⟩ := more
      rw [eq, installs_concat, h.unborn before]
      cases act with
      | installed o' e =>
        have other : o' ≠ o := by
          rintro rfl
          obtain ⟨s', held', _⟩ := locked rfl
          exact Option.some_ne_none _ (held'.symm.trans gone)
        simp [Act.installs, other]
      | _ => rfl
  case reached =>
    intro act mem o e act_under
    cases move.under with
    | inl same => exact old (same ▸ mem) act_under
    | inr more =>
      obtain ⟨new, eq, locked⟩ := more
      rw [eq] at mem
      cases mem_append.mp mem with
      | inl mem => exact old mem act_under
      | inr mem =>
        obtain rfl := mem_singleton.mp mem
        obtain ⟨s', held', rfl⟩ := locked act_under
        exact ⟨s', held', Nat.le_refl _⟩
  case ordered =>
    cases move.under with
    | inl same => rw [same]; exact h.ordered
    | inr more =>
      obtain ⟨new, eq, locked⟩ := more
      rw [eq]
      refine pairwise_append.mpr ⟨h.ordered, pairwise_singleton _ _, ?_⟩
      intro a mem b mem' o e e' a_under b_under
      obtain rfl := mem_singleton.mp mem'
      obtain ⟨s', held', rfl⟩ := locked b_under
      obtain ⟨t, held, le⟩ := old mem a_under
      obtain rfl : t = s' := Option.some.inj (held.symm.trans held')
      exact le

end Fenced

def Names (frame : ServerFrame) (id : SessionId) : Prop := parseB256 "session ID" frame.sessionId = .ok id

structure Named (rt : Runtime) : Prop where
  retained : ∀ {id o}, (id, o) ∈ rt.registry.sessions → Act.began o id ∈ rt.log
  sending : ∀ {i : Nat} {o bound frame}, rt.flights[i]? = some (Flight.fetched o bound (.send frame)) →
    Act.began o bound.id ∈ rt.log ∧ Names frame bound.id
  published : ∀ {o frame}, Act.published (some o) frame ∈ rt.log → ∃ id, Act.began o id ∈ rt.log ∧ Names frame id
  free : ∀ {frame}, Act.published none frame ∈ rt.log → frame.guarded = false

namespace Named
variable {service : Service} {H : Prop} {rt rt' : Runtime}

theorem initial : Named .initial := by
  constructor <;> intros <;> simp_all [Runtime.initial]

theorem retained_room (h : Named rt) {registry}
    (room : registry = rt.registry ∨ registry = rt.registry.makeRoom rt.connected rt.registry.sessions.length) {id o}
    (mem : (id, o) ∈ registry.sessions) : Act.began o id ∈ rt.log := by
  cases room with
  | inl same => rw [same] at mem; exact h.retained mem
  | inr room =>
    rw [room] at mem
    have sub : ∀ e ∈ (rt.registry.makeRoom rt.connected rt.registry.sessions.length).sessions,
      e ∈ rt.registry.sessions :=
      Registry.makeRoom_rule (P := fun r => ∀ e ∈ r.sessions, e ∈ rt.registry.sessions)
        (fun r id sub e mem => sub e (mem_of_mem_filter mem)) _ fun e mem => mem
    exact h.retained (sub _ mem)

variable (h : Named rt) (move : Moves service H rt rt')
include h move

theorem retained_step {id o} (mem : (id, o) ∈ rt'.registry.sessions) : Act.began o id ∈ rt'.log := by
  have grown := move.log_mono
  cases move with
  | quiet room => exact h.retained_room room mem
  | begin anchor room =>
    cases mem_cons.mp mem with
    | inl new =>
      cases new
      exact mem_append_right _ mem_cons_self
    | inr old => exact grown _ (h.retained_room (.inr room) (mem_of_mem_filter old))
  | cancel => exact h.retained (mem_of_mem_filter mem)
  | _ => exact grown _ (h.retained mem)

theorem sending_step {i : Nat} (at_i : rt'.flights[i]? = some (.fetched o bound (.send frame))) :
    Act.began o bound.id ∈ rt'.log ∧ Names frame bound.id := by
  have grown := move.log_mono
  cases move.flight at_i with
  | inl old => exact ⟨grown _ (h.sending old).1, (h.sending old).2⟩
  | inr arises =>
    cases arises with
    | fetched retained sends => exact ⟨grown _ (h.retained (Registry.mem_of_get retained)), sends frame rfl⟩

theorem step : Named rt' := by
  have grown := move.log_mono
  constructor
  case retained => exact h.retained_step move
  case sending => exact h.sending_step move
  case published =>
    intro o frame mem
    rcases move.published mem with old | ⟨none, _⟩ | ⟨i, o', bound, same, flight⟩
    · obtain ⟨id, begun, names⟩ := h.published old
      exact ⟨id, grown _ begun, names⟩
    · cases none
    · cases same
      obtain ⟨begun, names⟩ := h.sending flight
      exact ⟨bound.id, grown _ begun, names⟩
  case free =>
    intro frame mem
    rcases move.published mem with old | ⟨_, free⟩ | ⟨i, o', bound, same, _⟩
    · exact h.free old
    · exact free
    · cases same

end Named

def Runtime.after (service : Service) (run : List Event) : Runtime := run.foldl (step service) .initial

/-- Random identifiers do not repeat. -/
def Runtime.Distinct (rt : Runtime) : Prop := ∀ {o o' id}, Act.began o id ∈ rt.log → Act.began o' id ∈ rt.log → o = o'

/-- Effects of work started under epoch `e` of session `o`: a block appended, a
signature with what it drops and proves, a guarded frame published. -/
def Act.Effect (log : List Act) (o : ObjectId) (e : UInt64) : Act → Prop
  | .appended o' e' _ => o' = o ∧ e' = e
  | .signed o' e' _ _ _ => o' = o ∧ e' = e
  | .published _ frame => frame.guarded = true ∧ frame.epoch = e ∧ ∃ id, .began o id ∈ log ∧ Names frame id
  | _ => False

theorem fenced_after (few : (Runtime.after service run).Few) :
    Fenced (.after service run) ∧ Named (.after service run) := by
  have anything : Runs.Along (step service) (fun _ _ => True) .initial run := Runs.along_of_forall fun _ _ => trivial
  have throughout : Runs.Throughout (step service) (fun rt => (rt.Few → Fenced rt) ∧ Named rt) .initial run := by
    refine Runs.throughout_of_invariant (fun {rt ev} h _ => ?_) ⟨fun _ => .initial, .initial⟩ anything
    have move : Moves service (ev.Honest rt) rt (step service rt ev) := step_moves ev
    exact ⟨fun few => (h.1 (move.few few)).step few move, h.2.step move⟩
  have last := throughout.last
  exact ⟨last.1 few, last.2⟩

/-- After a later epoch has been installed, nothing more comes of work under `e`. -/
theorem fenced {service : Service} {run : List Event} (few : (Runtime.after service run).Few)
    (distinct : (Runtime.after service run).Distinct) {before later : List Act} {o : ObjectId} {e e' : UInt64}
    (installed : (Runtime.after service run).log = before ++ .installed o e' :: later) (newer : e < e') :
    ∀ act ∈ later, ¬ act.Effect (Runtime.after service run).log o e := by
  obtain ⟨fenced, named⟩ := fenced_after few
  intro act mem effect
  have logged : act ∈ (Runtime.after service run).log := by
    rw [installed]
    exact mem_append_right _ (mem_cons_of_mem _ mem)
  have act_under : act.under = some (o, e) := by
    cases act with
    | appended o₁ e₁ block | signed o₁ e₁ s s' selection =>
      obtain ⟨rfl, rfl⟩ := effect
      rfl
    | published locked frame =>
      obtain ⟨guarded, rfl, id, begun, names⟩ := effect
      cases locked with
      | none => exact absurd (guarded.symm.trans (named.free logged)) (by decide)
      | some o₁ =>
        obtain ⟨id', begun', names'⟩ := named.published logged
        obtain rfl : id = id' := Except.ok.inj (names.symm.trans names')
        rw [Act.under, distinct begun' begun]
    | began | installed | selected | settles => cases effect
  have ordered := fenced.ordered
  rw [installed] at ordered
  have first := (pairwise_append.mp ordered).2.1
  have le := (pairwise_cons.mp first).1 act mem o e' e rfl act_under
  exact absurd (UInt64.lt_iff_toNat_lt.mp newer) (Nat.not_lt.mpr le)

def resumedRun : List Event :=
  [sampleBegin, .work ⟨5, 1⟩ (sampleBlock 1 11 0), .enter 0, .resume 5,
    .validated 0 (.ok (sampleArtifact 1 11 0, false)),
    .work ⟨5, 2⟩ (sampleBlock 1 11 0), .enter 1, .validated 1 (.ok (sampleArtifact 1 11 0, true))]

theorem Runtime.few_of_length {rt : Runtime} (short : rt.log.length < 2 ^ 64 - 1) : rt.Few :=
  fun _ => Nat.lt_of_le_of_lt countP_le_length short

theorem fenced_resumed : (Runtime.after sampleService resumedRun).log =
      [.began 0 5] ++ .installed 0 2 :: [.appended 0 2 ⟨sampleArtifact 1 11 0, 10, 1⟩] ∧
    ∀ act ∈ [Act.appended 0 2 ⟨sampleArtifact 1 11 0, 10, 1⟩],
      ¬ act.Effect (Runtime.after sampleService resumedRun).log 0 1 := by
  have log : (Runtime.after sampleService resumedRun).log =
    [.began 0 5] ++ .installed 0 2 :: [.appended 0 2 ⟨sampleArtifact 1 11 0, 10, 1⟩] := rfl
  have few : (Runtime.after sampleService resumedRun).Few := by
    refine Runtime.few_of_length ?_
    rw [log]
    decide
  have distinct : (Runtime.after sampleService resumedRun).Distinct := by
    intro o o' id mem mem'
    rw [log] at mem mem'
    simp only [cons_append, nil_append, mem_cons, Act.began.injEq, reduceCtorEq, not_mem_nil, or_false] at mem mem'
    exact mem.1.trans mem'.1.symm
  exact ⟨log, fenced few distinct log (by decide)⟩

theorem nextEpoch_iterate {n : Nat} {e : UInt64} (room : e.toNat + n < 2 ^ 64) :
    (nextEpoch^[n] e).toNat = e.toNat + n := by
  induction n with
  | zero => rfl
  | succ n ih =>
    rw [Function.iterate_succ_apply', nextEpoch_toNat (by rw [ih (by omega)]; omega), ih (by omega)]
    rfl

theorem nextEpoch_iterate_round {e : UInt64} (round : e.toNat + n = 2 ^ 64) (positive : 0 < n) :
    nextEpoch^[n] e = 1 := by
  obtain ⟨m, rfl⟩ := Nat.exists_eq_add_one_of_ne_zero (Nat.ne_of_gt positive)
  rw [Function.iterate_succ_apply']
  have last : (nextEpoch^[m] e).toNat = 2 ^ 64 - 1 := by
    rw [nextEpoch_iterate (by omega)]
    omega
  rw [show nextEpoch^[m] e = 18446744073709551615 from UInt64.toNat_inj.mp last]
  decide

theorem resumes (service : Service) {id o} (n : Nat) {rt : Runtime} {s} (retained : rt.registry.get id = some o)
    (held : rt.heap[o]? = some s) :
    ∃ rt' s' log, (replicate n (Event.resume id)).foldl (step service) rt = rt' ∧ rt'.registry = rt.registry ∧
      rt'.flights = rt.flights ∧ rt'.heap[o]? = some s' ∧ s'.anchor = s.anchor ∧ s'.blocks = s.blocks ∧
      s'.provedThrough = s.provedThrough ∧ s'.epoch = nextEpoch^[n] s.epoch ∧ rt'.log = rt.log ++ log ∧
      log.length = n ∧ (∀ act ∈ log, ∃ e, act = .installed o e) ∧ (0 < n → .installed o (nextEpoch s.epoch) ∈ log) := by
  induction n generalizing rt s with
  | zero => exact ⟨rt, s, [], rfl, rfl, rfl, held, rfl, rfl, rfl, rfl, (append_nil _).symm, rfl, by simp, by simp⟩
  | succ n ih =>
    have first : step service rt (.resume id) = rt.resume o s := by
      simp only [step, retained, held]
    obtain ⟨rt', s', log, run, registry, flights, held', anchor, blocks, proved, epoch, logged, length, all, _⟩ :=
      ih (s := s.resume rt.tokens.length) (show (rt.resume o s).registry.get id = some o from retained)
        (getElem?_set_held held)
    refine ⟨rt', s', .installed o (nextEpoch s.epoch) :: log, ?_, registry, flights, held', anchor, blocks,
      proved, epoch, ?_,
      ?_, ?_, fun _ => mem_cons_self⟩
    · rw [replicate_succ, foldl_cons, first, run]
    · rw [logged]
      exact append_assoc _ [Act.installed o (nextEpoch s.epoch)] _
    · rw [length_cons, length]
    · intro act mem
      cases mem_cons.mp mem with
      | inl here => exact ⟨_, here⟩
      | inr later => exact all act later

/-- Work of the first epoch, held back until the counter comes round. -/
theorem append_round (service : Service) (rt : Runtime) (id : SessionId) (artifact : Artifact) (reused : Bool)
    {o i n : Nat} {s : Session} {admission : Admission} (retained : rt.registry.get id = some o)
    (held : rt.heap[o]? = some s) (flight : rt.flights[i]? = some (.validating o ⟨id, 1⟩ admission))
    (tip : s.tip = admission.parent) (round : s.epoch.toNat + n = 2 ^ 64) (positive : 0 < n) :
    ∃ rt' s' log,
      (replicate n (Event.resume id) ++ [Event.validated i (.ok (artifact, reused))]).foldl (step service) rt = rt' ∧
      rt'.heap[o]? = some s' ∧ s'.provedThrough = s.provedThrough ∧
      s'.blocks = s.blocks ++ [⟨artifact, admission.payloadBytes, admission.witnessItems⟩] ∧
      rt'.log = rt.log ++ log ++ [.appended o 1 ⟨artifact, admission.payloadBytes, admission.witnessItems⟩] ∧
      log.length = n ∧ (∀ act ∈ log, ∃ e, act = .installed o e) ∧ .installed o (nextEpoch s.epoch) ∈ log ∧
      (artifact.Follows admission.parent → Runs.Along (step service) (fun rt ev => ev.Honest rt) rt
        (replicate n (Event.resume id) ++ [Event.validated i (.ok (artifact, reused))])) := by
  obtain ⟨rt₁, s₁, log, run, _, flights, held₁, anchor, blocks, proved, epoch, logged, length, all, first⟩ :=
    resumes service n retained held
  have current : s₁.epoch = 1 := epoch.trans (nextEpoch_iterate_round round positive)
  have tip₁ : s₁.tip = admission.parent := by
    rw [← tip, tip_eq, tip_eq, anchor, blocks]
  have taken : s₁.append 1 admission.parent ⟨artifact, admission.payloadBytes, admission.witnessItems⟩ = .ok _ :=
    append_eq_ok.mpr ⟨current, tip₁, rfl⟩
  have last : step service rt₁ (.validated i (.ok (artifact, reused))) =
      rt₁.append i o ⟨id, 1⟩ ⟨artifact, admission.payloadBytes, admission.witnessItems⟩ reused
        { s₁ with blocks := s₁.blocks ++ [⟨artifact, admission.payloadBytes, admission.witnessItems⟩] } := by
    simp only [step, flights, flight, held₁, taken]
  have ran : (replicate n (Event.resume id) ++ [Event.validated i (.ok (artifact, reused))]).foldl (step service) rt =
      step service rt₁ (.validated i (.ok (artifact, reused))) := by
    rw [foldl_append, run, foldl_cons, foldl_nil]
  refine ⟨_, _, log, ran.trans last, getElem?_set_held held₁, proved, ?_, ?_, length, all, first positive,
    fun follows => Runs.along_append.mpr ⟨?_, ?_, trivial⟩⟩
  · change s₁.blocks ++ _ = _
    rw [blocks]
  · change rt₁.log ++ _ = _
    rw [logged]
  · refine Runs.along_of_each fun ev mem rt => ?_
    cases (mem_replicate.mp mem).2
    trivial
  · rw [run]
    exact Event.honest_validated (flights ▸ flight) follows

/-- A block is submitted, and its session resumed `n` times before the backend answers. -/
def heldBackRun (n : Nat) : List Event :=
  [sampleBegin, .work ⟨5, 1⟩ (sampleBlock 1 11 0), .enter 0] ++
    (replicate n (.resume 5) ++ [.validated 0 (.ok (sampleArtifact 1 11 0, false))])

/-- One resumption short of 2 ^ 64, and the first epoch is back: what was validated
under it before is appended. -/
theorem fence_wraps : ∃ run before later block, installs (Runtime.after sampleService run).log 0 < 2 ^ 64 ∧
    (Runtime.after sampleService run).Distinct ∧
    (Runtime.after sampleService run).log = before ++ .installed 0 2 :: later ∧ .appended 0 1 block ∈ later := by
  obtain ⟨n, round⟩ : ∃ n, 1 + n = 2 ^ 64 := ⟨2 ^ 64 - 1, by decide⟩
  obtain ⟨rt, s, log, run, _, _, _, logged, length, all, first, _⟩ :=
    append_round sampleService (.after sampleService [sampleBegin, .work ⟨5, 1⟩ (sampleBlock 1 11 0), .enter 0]) 5
      (sampleArtifact 1 11 0) false (i := 0) rfl rfl rfl rfl round (by omega)
  have final : (Runtime.after sampleService (heldBackRun n)).log =
      .began 0 5 :: log ++ [.appended 0 1 ⟨sampleArtifact 1 11 0, 10, 1⟩] := by
    rw [Runtime.after, heldBackRun, foldl_append]
    exact (congrArg Runtime.log run).trans logged
  have acts : ∀ o id, Act.began o id ∈ (Runtime.after sampleService (heldBackRun n)).log → o = 0 := by
    intro o id mem
    rw [final] at mem
    simp only [cons_append, mem_cons, Act.began.injEq, mem_append, reduceCtorEq, not_mem_nil, or_false]
      at mem
    cases mem with
    | inl here => exact here.1
    | inr later =>
      obtain ⟨e, eq⟩ := all _ later
      cases eq
  obtain ⟨older, newer, split⟩ := append_of_mem first
  refine ⟨heldBackRun n, .began 0 5 :: older, newer ++ [.appended 0 1 ⟨sampleArtifact 1 11 0, 10, 1⟩], _, ?_,
    fun mem mem' => (acts _ _ mem).trans (acts _ _ mem').symm, ?_, mem_append_right _ mem_cons_self⟩
  · have counted : installs log 0 ≤ log.length := countP_le_length
    rw [final, installs_concat]
    change installs log 0 + 0 + 0 < _
    omega
  · rw [final, split]
    simp only [cons_append, append_assoc]
    rfl

end Eez.Sessions
