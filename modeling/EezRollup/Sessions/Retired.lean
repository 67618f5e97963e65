import EezRollup.Sessions.Serving

/-! When a stream cancels its session, no other stream holds the epoch the session has. A
finalization is not the task of the stream. -/
namespace Eez.Sessions
open List Octets Outcome Signer

def Stream.cancels (rt : Runtime) (st : Stream) : Signal → Option SessionId
  | .input ⟨sessionId, epoch, some .cancel, _⟩ _ _ _ =>
    if st.selecting ∧ st.inputClosed = false then
      match requireBound st.bound sessionId epoch with
      | .error _ => none
      | .ok bound => if (retained rt bound.id).any fun s => s.epoch = bound.epoch then some bound.id else none
    else none
  | _ => none

def System.cancels (sys : System) : SystemEvent → Option SessionId
  | .stream k signal => (sys.streams[k]?).bind fun st => st.cancels sys.runtime signal
  | _ => none

section
variable {service : Service} {rt : Runtime}

/-- `Cancel` for a session of the stream's own epoch, and then an answer. -/
structure Stream.Cancels (service : Service) (rt : Runtime) (st : Stream) (signal : Signal) (id : SessionId)
    (o : ObjectId)
    (s : Session) : Prop where
  serving : st.phase = .serving
  bound : st.bound = some ⟨id, s.epoch⟩
  retained : rt.registry.get id = some o
  held : rt.heap[o]? = some s
  evolves : Evolves service (rt.cancel id s) (st.step service rt signal).1

variable {id : SessionId} {o : ObjectId} {s : Session} {rt' : Runtime}

theorem Stream.cancels_eq_some (service : Service) {st : Stream} (cancels : st.cancels rt signal = some id) :
    ∃ o s, st.Cancels service rt signal id o s := by
  unfold Stream.cancels at cancels
  split at cancels
  case h_1 sessionId epoch _ _ _ _ =>
    split at cancels
    case isTrue selects =>
      split at cancels
      case h_1 => cases cancels
      case h_2 bound found =>
        split at cancels
        case isTrue current =>
          cases cancels
          have has := requireBound_eq_ok found
          have serving : st.phase = .serving := (of_decide_eq_true selects.1).1
          obtain ⟨s, found', same⟩ := (Option.any_eq_true _ _).mp current
          obtain ⟨o, retained, held⟩ := Option.bind_eq_some_iff.mp found'
          have epoch : s.epoch = bound.epoch := of_decide_eq_true same
          refine ⟨o, s, serving, ?_, retained, held, ?_⟩
          · rw [has, epoch]
          · have stepped : Sessions.step service rt (.cancel bound) = rt.cancel bound.id s := by
              simp only [Sessions.step, retained, held, if_pos epoch]
            simp only [Stream.step, serving, if_pos selects, Stream.input, Stream.cancel, found,
              if_pos current, stepped]
            exact respond_evolves .still
        case isFalse => cases cancels
    case isFalse => cases cancels
  case h_2 => cases cancels

theorem Regular.gone_cancel (regular : Regular rt)
    (retained : rt.registry.get id = some o) (held : rt.heap[o]? = some s) : Gone (rt.cancel id s) o := by
  refine ⟨(List.getElem?_eq_some_iff.mp held).1, fun id' mem => ?_⟩
  obtain ⟨old, other⟩ := mem_filter.mp mem
  have begun := regular.named.retained old
  have begun' := regular.named.retained (Registry.mem_of_get retained)
  exact of_decide_eq_true other (regular.born.once begun begun')

/-- What waits under the epoch of the session would be the cancelling stream's own. -/
theorem Stream.Cancels.silent {st : Stream} {k : Nat} (h : st.Cancels service rt signal id o s)
    (regular : Regular rt) (owned : Owned rt streams) (at_k : streams[k]? = some st) : Silent (rt.cancel id s) o := by
  have holds : st.held rt = some ⟨id, s.epoch⟩ := by
    rw [Stream.held, h.serving]
    exact h.bound
  have begun : Act.began o id ∈ rt.log := regular.named.retained (Registry.mem_of_get h.retained)
  refine ⟨regular.gone_cancel h.retained h.held, fun {i bound frame s'} at_i held current => ?_,
    fun {i bound ancestor s'} at_i held current => ?_⟩
  · obtain rfl := Option.some.inj (h.held.symm.trans held)
    obtain ⟨j, t, close, at_j, phase, has⟩ := owned.sends at_i
    have named : bound.id = id := regular.born.once (regular.fetched at_i) begun
    have waits : t.held rt = some ⟨id, s.epoch⟩ := by
      rw [Stream.held, phase, current, ← named]
      exact has
    obtain rfl := owned.alone at_k at_j holds waits
    obtain rfl := Option.some.inj (at_k.symm.trans at_j)
    cases h.serving.symm.trans phase
  · obtain rfl := Option.some.inj (h.held.symm.trans held)
    obtain ⟨j, t, at_j, phase, has⟩ := owned.rewinds at_i
    have named : bound.id = id := regular.born.once (regular.fetched at_i) begun
    have at_i' : rt.flights[i]? = some (.fetched o bound (.rewind ancestor)) := at_i
    have waits : t.held rt = some ⟨id, s.epoch⟩ := by
      simp only [Stream.held, phase, at_i', has, current, ← named]
    obtain rfl := owned.alone at_k at_j holds waits
    obtain rfl := Option.some.inj (at_k.symm.trans at_j)
    cases h.serving.symm.trans phase

/-- A `finalize` that has locked the session carries the token that is cancelled. -/
theorem Regular.disarmed_cancel (regular : Regular rt)
    (retained : rt.registry.get id = some o) (held : rt.heap[o]? = some s)
    (locked : ∀ (i : Nat) (bound : BoundSession) (fromBlock toBlock : UInt64) (terminalHash : B256) (calldata : Bytes),
      rt.flights[i]? ≠ some (.fetched o bound (.finalize fromBlock toBlock terminalHash calldata))) :
    Disarmed (rt.cancel id s) o := by
  refine ⟨regular.gone_cancel retained held, locked, fun {i f bound selection} at_i carries => ?_⟩
  rw [cancelled_eq_true]
  rcases regular.tokened.carried at_i carries with ⟨s', held', token⟩ | raised
  · obtain rfl := Option.some.inj (held.symm.trans held')
    rw [← token]
    exact getElem?_set_self (regular.tokened.known held)
  · exact getElem?_raise (cancelled_eq_true.mp raised)

theorem Evolves.adds {I : Runtime → Prop} {B : Act → Prop} (keep : ∀ {rt : Runtime} ev, I rt → I (step service rt ev))
    (never : ∀ {rt : Runtime} {act : Act}, I rt → act.Origin rt → ¬B act) (h : Evolves service rt rt')
    (inv : I rt) : I rt' ∧ ∃ acts, rt'.log = rt.log ++ acts ∧ ∀ act ∈ acts, ¬B act := by
  induction h with
  | refl => exact ⟨inv, [], (append_nil _).symm, fun act mem => absurd mem not_mem_nil⟩
  | @tail mid _ _ last ih =>
    obtain ⟨ev, rfl⟩ := last
    obtain ⟨inv', acts, eq, good⟩ := ih
    have traces : mid.Traces ev (step service mid ev) := step_traces ev
    refine ⟨keep ev inv', ?_⟩
    rcases traces.logs with same | ⟨act, more, origin⟩
    · exact ⟨acts, same.trans eq, good⟩
    · refine ⟨acts ++ [act], ?_, ?_⟩
      · rw [more, eq, append_assoc]
      · intro act' mem
        rcases mem_append.mp mem with old | new
        · exact good act' old
        · rw [mem_singleton.mp new]
          exact never inv' origin

theorem Silent.adds (h : Silent rt o) (evolves : Evolves service rt rt') :
    Silent rt' o ∧ ∃ acts, rt'.log = rt.log ++ acts ∧ ∀ frame, .published (some o) frame ∉ acts := by
  have never {rt : Runtime} {act : Act} (h : Silent rt o) (origin : act.Origin rt) :
      ¬∃ frame, act = .published (some o) frame := by
    rintro ⟨frame, eq⟩
    exact h.not_published origin frame eq
  obtain ⟨silent, acts, eq, good⟩ := Evolves.adds (I := (Silent · o)) (fun ev h => h.kept ev) never evolves h
  exact ⟨silent, acts, eq, fun frame mem => good _ mem ⟨frame, rfl⟩⟩

theorem Disarmed.adds (h : Disarmed rt o) (evolves : Evolves service rt rt') :
    Disarmed rt' o ∧ ∃ acts, rt'.log = rt.log ++ acts ∧ ∀ epoch s s' selection,
    .signed o epoch s s' selection ∉ acts := by
  have never {rt : Runtime} {act : Act} (h : Disarmed rt o) (origin : act.Origin rt) :
      ¬∃ epoch s s' selection, act = .signed o epoch s s' selection := by
    rintro ⟨epoch, s, s', selection, eq⟩
    exact h.not_signed origin epoch s s' selection eq
  obtain ⟨disarmed, acts, eq, good⟩ := Evolves.adds (I := (Disarmed · o)) (fun ev h => h.kept ev) never evolves h
  exact ⟨disarmed, acts, eq, fun epoch s s' selection mem => good _ mem ⟨epoch, s, s', selection, rfl⟩⟩

theorem Regular.not_named (regular : Regular rt) (begun : Act.began o id ∈ rt.log) {acts : List Act}
    (logged : ∀ act ∈ acts, act ∈ rt.log) (silent : ∀ frame, .published (some o) frame ∉ acts)
    {sender : Option ObjectId} {frame : ServerFrame} (mem : .published sender frame ∈ acts)
    (guarded : frame.guarded = true) :
    ¬Names frame id := by
  intro names
  cases sender with
  | none => cases guarded.symm.trans (regular.named.free (logged _ mem))
  | some o' =>
    obtain ⟨id', begun', names'⟩ := regular.named.published (logged _ mem)
    obtain rfl : id = id' := Except.ok.inj (names.symm.trans names')
    obtain rfl := regular.distinct begun begun'
    exact silent frame mem

end

/-- Once `Cancel` is through for a session, no `Validated` or `Proof` frame names it any
more. Nor is there a signature for it, unless a finalization had fetched the session by
then and not yet locked it. -/
theorem cancel_retires (service : Service) {before later : List SystemEvent} {cancel : SystemEvent} {id : SessionId}
    (cancels : (System.after service before).cancels cancel = some id)
    (tame : Tame (System.after service (before ++ cancel :: later)).runtime) :
    ∃ o acts, (System.after service before).runtime.registry.get id = some o ∧
      (System.after service (before ++ cancel :: later)).runtime.log =
        (System.after service (before ++ [cancel])).runtime.log ++ acts ∧
      (∀ sender frame, .published sender frame ∈ acts → frame.guarded = true → ¬Names frame id) ∧
      ((∀ (i : Nat) (bound : BoundSession) (fromBlock toBlock : UInt64) (terminalHash : B256) (calldata : Bytes),
          (System.after service before).runtime.flights[i]? ≠
            some (.fetched o bound (.finalize fromBlock toBlock terminalHash calldata))) →
        ∀ epoch session session' selection, .signed o epoch session session' selection ∉ acts) := by
  have before_cancel : Evolves service (System.after service before).runtime
      (System.after service (before ++ cancel :: later)).runtime := System.after_evolves before _
  have orderly := System.orderly_after before (tame.of_evolves before_cancel)
  have final := System.orderly_after _ tame
  cases cancel with
  | connect | operation event => cases cancels
  | stream k signal =>
    obtain ⟨st, at_k, cancels⟩ := Option.bind_eq_some_iff.mp cancels
    obtain ⟨o, s, h⟩ := Stream.cancels_eq_some service cancels
    -- The state in which the branch has completed, and what comes after it.
    have through : (System.after service (before ++ [.stream k signal])).runtime =
        (st.step service (System.after service before).runtime signal).1 := by
      rw [System.after_append, foldl_cons, foldl_nil, System.step, at_k]
    have onwards : Evolves service (System.after service (before ++ [.stream k signal])).runtime
        (System.after service (before ++ .stream k signal :: later)).runtime := by
      rw [append_cons before _ later]
      exact System.after_evolves _ later
    have answered := h.evolves
    rw [← through] at answered
    obtain ⟨_, acts, eq, unpublished⟩ := ((h.silent orderly.regular orderly.owned at_k).adds answered).1.adds onwards
    refine ⟨o, acts, h.retained, eq, fun sender frame mem guarded => ?_, fun locked => ?_⟩
    · have begun := orderly.regular.named.retained (Registry.mem_of_get h.retained)
      refine final.regular.not_named (before_cancel.log_mono begun) (fun act mem => ?_) unpublished mem guarded
      rw [eq]
      exact mem_append_right _ mem
    · obtain ⟨_, acts', eq', unsigned⟩ :=
        ((orderly.regular.disarmed_cancel h.retained h.held locked).adds answered).1.adds onwards
      obtain rfl := append_cancel_left (eq.symm.trans eq')
      exact unsigned

def sampleFrame (kind : ClientKind) : SystemEvent :=
  .stream 0 (.input ⟨b256Bytes 5, 1, some kind, 10⟩ (.ok ()) [] true)

/-- One stream: a session with one block, and a finalization of it that has fetched the session. -/
def fetchedRun : List SystemEvent :=
  [.connect, .stream 0 (.input ⟨[], 0, some (.begin ⟨7, 0, b256Bytes 0, b256Bytes 0⟩), 10⟩ (.ok ()) [5] true),
    sampleFrame (.block (some ⟨1, b256Bytes 11, b256Bytes 0, [], some 1, 10⟩)), .stream 0 .spawn, .stream 0 .run,
    .operation (.enter 0), .operation (.validated 0 (.ok (sampleArtifact 1 11 0, false))),
    .stream 0 (.completed true), .operation (.enter 1), .stream 0 .sent,
    sampleFrame (.finalize ⟨1, 1, b256Bytes 11, some ⟨[], [], none⟩⟩), .stream 0 .spawn, .stream 0 .run]

def settleAndSign : List SystemEvent :=
  [.operation (.settle 2 (.ok ()) false false), .operation (.sign 2 (some [1])), .stream 0 .finish]

def Act.birth? : Act → Option (ObjectId × SessionId)
  | .began o id => some (o, id)
  | _ => none

theorem Runtime.distinct_of_births {rt : Runtime} {birth : ObjectId × SessionId}
    (births : rt.log.filterMap Act.birth? = [birth]) : rt.Distinct := by
  have first {o : ObjectId} {id : SessionId} (mem : Act.began o id ∈ rt.log) : (o, id) = birth := by
    have listed : (o, id) ∈ rt.log.filterMap Act.birth? := mem_filterMap.mpr ⟨_, mem, rfl⟩
    rwa [births, mem_singleton] at listed
  intro o o' id mem mem'
  exact congrArg Prod.fst ((first mem).trans (first mem').symm)

/-- The finalization locks the session after `Cancel` is through, under the epoch it
still has, and signs with a token of its own. -/
def overtakenRun : List SystemEvent := fetchedRun ++ sampleFrame .cancel :: .operation (.enter 2) :: settleAndSign

theorem cancel_overtaken : (System.after sampleService fetchedRun).cancels (sampleFrame .cancel) = some 5 ∧
    (System.after sampleService fetchedRun).runtime.registry.get 5 = some 0 ∧
    Tame (System.after sampleService overtakenRun).runtime ∧
    ∃ acts session session' selection, (System.after sampleService overtakenRun).runtime.log =
        (System.after sampleService (fetchedRun ++ [sampleFrame .cancel])).runtime.log ++ acts ∧
      .signed 0 1 session session' selection ∈ acts := by
  have tame : Tame (System.after sampleService overtakenRun).runtime :=
    ⟨Runtime.few_of_length (by decide), Runtime.distinct_of_births rfl⟩
  exact ⟨rfl, rfl, tame, (System.after sampleService overtakenRun).runtime.log.drop 5, _, _, _, rfl,
    .tail _ (.tail _ (.head _))⟩

/-- Had it locked the session before, it would find its token cancelled. -/
def lockedRun : List SystemEvent := fetchedRun ++ [.operation (.enter 2)]

theorem cancel_locked : (System.after sampleService lockedRun).cancels (sampleFrame .cancel) = some 5 ∧
    (System.after sampleService lockedRun).runtime.registry.get 5 = some 0 ∧
    ∃ acts, (System.after sampleService (lockedRun ++ sampleFrame .cancel :: settleAndSign)).runtime.log =
        (System.after sampleService (lockedRun ++ [sampleFrame .cancel])).runtime.log ++ acts ∧
      (∀ sender frame, .published sender frame ∈ acts → frame.guarded = true → ¬Names frame 5) ∧
      ∀ epoch session session' selection, .signed 0 epoch session session' selection ∉ acts := by
  have tame : Tame (System.after sampleService (lockedRun ++ sampleFrame .cancel :: settleAndSign)).runtime :=
    ⟨Runtime.few_of_length (by decide), Runtime.distinct_of_births rfl⟩
  obtain ⟨o, acts, retained, eq, unpublished, unsigned⟩ := cancel_retires sampleService rfl tame
  cases Option.some.inj (retained.symm.trans rfl : some o = some 0)
  refine ⟨rfl, rfl, acts, eq, unpublished, unsigned ?_⟩
  intro i bound fromBlock toBlock terminalHash calldata
  match i with
  | 0 | 1 | 2 | i + 3 => exact fun eq => by cases eq

/-- Two streams never hold one epoch of a session, and only its holder sends a frame under it. -/
theorem epoch_exclusive {service run} {sys : System} (reached : System.after service run = sys)
    (tame : Tame sys.runtime) :
    (∀ (k k' : Nat) (st st' : Stream) bound, sys.streams[k]? = some st → sys.streams[k']? = some st' →
      st.held sys.runtime = some bound → st'.held sys.runtime = some bound → k = k') ∧
    ∀ (i : Nat) o bound frame, sys.runtime.flights[i]? = some (.fetched o bound (.send frame)) →
      ∃! k : Nat, ∃ (st : Stream) (close : Bool), sys.streams[k]? = some st ∧ st.phase = .sending i close ∧
        st.bound = some ⟨bound.id, frame.epoch⟩ := by
  obtain ⟨_, owned⟩ : sys.Orderly := reached ▸ System.orderly_after run (reached ▸ tame)
  refine ⟨fun _ _ _ _ _ => owned.alone, ?_⟩
  intro i o bound frame waits
  obtain ⟨k, st, close, at_k, phase, has⟩ := owned.sends waits
  refine ⟨k, ⟨st, close, at_k, phase, has⟩, ?_⟩
  rintro k' ⟨st', close', at_k', phase', has'⟩
  -- a stream that sends holds what it is bound to
  exact owned.alone at_k' at_k ((Stream.held_of_plain (by simp [phase'])).trans has')
    ((Stream.held_of_plain (by simp [phase])).trans has)

theorem epoch_exclusive_ready : ∃! k : Nat, ∃ (st : Stream) (close : Bool),
    (System.after sampleService (fetchedRun.take 8)).streams[k]? = some st ∧ st.phase = .sending 1 close ∧
      st.bound = some ⟨5, 1⟩ :=
  (@epoch_exclusive sampleService (fetchedRun.take 8) _ rfl ⟨Runtime.few_of_length (by decide),
    Runtime.distinct_of_births rfl⟩).2 1 0 ⟨5, 1⟩ _ rfl

end Eez.Sessions
