import EezRollup.Composition.Dispatch

/-! A frame that reverts queues the checkpoints of its calls, and the next dispatch applies the
first one of each rollup. -/
open List
namespace Eez
open ExecutedAction
namespace CompositionBuilder
variable {σ : Type}

/-- The checkpoint of a call, if it is to the rollup. -/
def snapshotOf (b : CompositionBuilder σ) (id : UInt64) (i : Nat) : Option σ :=
  if b.recorded[i]?.map targetRollupId = some id then b.pendingSnapshots i else none

def restored (session : Option (TargetSession σ)) (state : Option σ) : Option (TargetSession σ) :=
  match state with
  | some state => session.map fun s => { s with state }
  | none => session

def settled (b : CompositionBuilder σ) : CompositionBuilder σ :=
  { b with
    sessions := fun id => restored (b.sessions id) (b.pendingRollbacks.findSome? (b.snapshotOf id))
    pendingSnapshots := fun i => if i ∈ b.pendingRollbacks then none else b.pendingSnapshots i
    pendingRollbacks := [] }

variable {b b' c d : CompositionBuilder σ} {target : UInt64} {req : ExecutionRequest} {a : Answers σ}
  {session : TargetSession σ} {faults : Nat → Option ExecutorError}

theorem snapshotOf_of_target (found : b.recorded[i]? = some call) (id : UInt64) :
    b.snapshotOf id i = if call.targetRollupId = id then b.pendingSnapshots i else none := by
  simp [snapshotOf, found]

theorem rollBack_cons_eq_ok
    (ok : rollBack faults (idx :: queued) handled b = (.ok (), d)) :
    ∃ handled' sessions, rollBack faults queued handled'
        { b with sessions, pendingSnapshots := Function.update b.pendingSnapshots idx none } = (.ok (), d) ∧
      ∀ id, (id ∈ handled ∨ b.snapshotOf id idx = none) ∧ (id ∈ handled' ↔ id ∈ handled) ∧ sessions id = b.sessions id ∨
        id ∉ handled ∧ id ∈ handled' ∧ ∃ state, b.snapshotOf id idx = some state ∧
          sessions id = restored (b.sessions id) (some state) := by
  rw [rollBack] at ok
  split at ok
  next dead =>
    refine ⟨handled, b.sessions, ?_, fun id => .inl ⟨.inr ?_, .rfl, rfl⟩⟩
    · simpa only [← dead, Function.update_eq_self] using ok
    · simp [snapshotOf, dead]
  next snap live =>
    split at ok
    next missing =>
      refine ⟨handled, b.sessions, ok, fun id => .inl ⟨.inr ?_, .rfl, rfl⟩⟩
      simp [snapshotOf, missing]
    next call found =>
      have other : ∀ id, id ≠ call.targetRollupId → b.snapshotOf id idx = none := fun id ne => by
        rw [snapshotOf_of_target found, if_neg ne.symm]
      have own : b.snapshotOf call.targetRollupId idx = some snap := by
        rw [snapshotOf_of_target found, if_pos rfl, live]
      split_ifs at ok with done
      · refine ⟨handled, b.sessions, ok, fun id => .inl ⟨?_, .rfl, rfl⟩⟩
        obtain rfl | ne := eq_or_ne id call.targetRollupId
        · exact .inl done
        · exact .inr (other id ne)
      · have marks : ∀ id, id ≠ call.targetRollupId → (id ∈ call.targetRollupId :: handled ↔ id ∈ handled) :=
          fun id ne => by simp [ne]
        split at ok
        next absent =>
          refine ⟨call.targetRollupId :: handled, b.sessions, ok, fun id => ?_⟩
          obtain rfl | ne := eq_or_ne id call.targetRollupId
          · exact .inr ⟨done, .head _, snap, own, by rw [absent]; rfl⟩
          · exact .inl ⟨.inr (other id ne), marks id ne, rfl⟩
        next session here =>
          split at ok
          · cases ok
          · refine ⟨call.targetRollupId :: handled, _, ok, fun id => ?_⟩
            obtain rfl | ne := eq_or_ne id call.targetRollupId
            · exact .inr ⟨done, .head _, snap, own, by rw [here]; exact Function.update_self ..⟩
            · exact .inl ⟨.inr (other id ne), marks id ne, Function.update_of_ne ne _ _⟩

theorem rollBack_eq_ok (ok : rollBack faults queued handled b = (.ok (), d)) : d = { b with
      sessions := fun id => if id ∈ handled then b.sessions id
        else restored (b.sessions id) (queued.findSome? (b.snapshotOf id))
      pendingSnapshots := fun i => if i ∈ queued then none else b.pendingSnapshots i } := by
  induction queued generalizing b handled with
  | nil =>
    obtain rfl := (Prod.mk.inj ok).2
    simp [restored]
  | cons idx queued ih =>
    obtain ⟨handled', sessions, ok, each⟩ := rollBack_cons_eq_ok ok
    rw [ih ok]
    congr 1
    · funext id
      dsimp only
      obtain ⟨idle, marks, same⟩ | ⟨fresh, marked, state, own, applied⟩ := each id
      · by_cases done : id ∈ handled
        · rw [if_pos done, if_pos (marks.mpr done), same]
        · have silent := idle.resolve_left done
          have later : ∀ i, ({ b with sessions, pendingSnapshots := Function.update b.pendingSnapshots idx none } :
              CompositionBuilder σ).snapshotOf id i = b.snapshotOf id i := fun i => by
            obtain rfl | ne := eq_or_ne i idx
            · rw [silent]
              simp [snapshotOf]
            · simp only [snapshotOf, Function.update_of_ne ne]
          rw [if_neg done, if_neg (mt marks.mp done), same, findSome?_cons, silent, funext later]
      · rw [if_pos marked, if_neg fresh, applied, findSome?_cons, own]
    · funext i
      obtain rfl | ne := eq_or_ne i idx
      · simp
      · simp only [Function.update_of_ne ne, mem_cons, ne, false_or]

theorem processPendingRollbacks_eq_ok (ok : b.processPendingRollbacks faults = (.ok (), d)) : d = b.settled := by
  rw [rollBack_eq_ok ok, settled]
  simp only [not_mem_nil, if_false]
  rfl

theorem settled_of_drained (drained : b.pendingRollbacks = []) : b.settled = b := by
  obtain ⟨_, _, _, _, _, _, _⟩ := b
  obtain rfl : _ = [] := drained
  simp [settled, restored]

def restore (b : CompositionBuilder σ) (first : UInt64 → Option σ) : CompositionBuilder σ :=
  { b with sessions := fun id => restored (b.sessions id) (first id) }

/-- A dispatch, with the state of each session before its earliest call in it. -/
def idealDispatch (b : CompositionBuilder σ) (target : UInt64) (req : ExecutionRequest) (a : Answers σ)
    (execute : CompositionBuilder σ → CompositionBuilder σ × (UInt64 → Option σ)) :
    CompositionBuilder σ × (UInt64 → Option σ) :=
  match b.enter target req a with
  | (.error _, b) => (b, fun _ => none)
  | (.ok (_, session), b) =>
    ((execute b).1.checkIn target { session with state := a.write session.state },
      Function.update (execute b).2 target (some session.state))

end CompositionBuilder

open CompositionBuilder

/-- The run in which a frame that reverts puts back, at once, the state that each
session had before its earliest call in the frame; with these states. -/
def Script.ideal {σ : Type} : Script σ → CompositionBuilder σ → CompositionBuilder σ × (UInt64 → Option σ)
  | .done, b => (b, fun _ => none)
  | .dispatch target req a body rest, b =>
    let now := b.idealDispatch target req a body.ideal
    ((rest.ideal now.1).1, fun id => now.2 id <|> (rest.ideal now.1).2 id)
  | .frame reverted body rest, b =>
    let now := if reverted then (body.ideal b).1.restore (body.ideal b).2 else (body.ideal b).1
    ((rest.ideal now).1, fun id => (body.ideal b).2 id <|> (rest.ideal now).2 id)

namespace CompositionBuilder
variable {σ : Type} {b b' b₁ b₂ c i i' i₁ i₂ : CompositionBuilder σ} {first first₁ first₂ : UInt64 → Option σ}
  {target : UInt64} {req : ExecutionRequest} {a : Answers σ} {session : TargetSession σ}

/-- `first` has the state of each session before its earliest call of a run from
`i` to `i'`, and a session that was not called is as it was. -/
structure Touches (i i' : CompositionBuilder σ) (first : UInt64 → Option σ) : Prop where
  drained : i'.pendingRollbacks = []
  held : ∀ id session, i.sessions id = some session →
    first id = none ∧ i'.sessions id = some session ∨ first id = some session.state
  there : ∀ id state, first id = some state → ∃ session, i'.sessions id = some session

theorem Touches.seq (one : Touches i i₁ first₁) (two : Touches i₁ i₂ first₂) :
    Touches i i₂ fun id => first₁ id <|> first₂ id := by
  refine ⟨two.drained, fun id session held => ?_, fun id state some => ?_⟩
  · obtain ⟨silent, same⟩ | called := one.held id session held
    · simpa [silent] using two.held id session same
    · simp [called]
  · cases called : first₁ id with
    | none => exact two.there id state (by simpa [called] using some)
    | some state₁ =>
      obtain ⟨session, held⟩ := one.there id state₁ called
      obtain ⟨-, same⟩ | called := two.held id session held
      · exact ⟨session, same⟩
      · exact two.there id _ called

theorem Touches.restore (touches : Touches i i' first) : Touches i (i'.restore first) first := by
  refine ⟨touches.drained, fun id session held => ?_, fun id state called => ?_⟩
  · obtain ⟨silent, same⟩ | called := touches.held id session held
    · exact .inl ⟨silent, by simp [CompositionBuilder.restore, restored, silent, same]⟩
    · exact .inr called
  · obtain ⟨session, held⟩ := touches.there id state called
    exact ⟨{ session with state }, by simp [CompositionBuilder.restore, restored, called, held]⟩

theorem process_drained (drained : b.pendingRollbacks = []) : b.processPendingRollbacks a.rollback = (.ok (), b) := by
  obtain ⟨_, _, _, _, _, _, _⟩ := b
  obtain rfl : _ = [] := drained
  rfl

theorem idealDispatch_touches {execute : CompositionBuilder σ → CompositionBuilder σ × (UInt64 → Option σ)}
    (touches : ∀ c, c.pendingRollbacks = [] → Touches c (execute c).1 (execute c).2)
    (drained : i.pendingRollbacks = []) :
    Touches i (i.idealDispatch target req a execute).1 (i.idealDispatch target req a execute).2 := by
  unfold idealDispatch
  have enters : Enters i target req a (i.enter target req a) := enter_enters
  generalize i.enter target req a = outcome at enters
  cases enters with
  | stuck failed => simp [process_drained drained] at failed
  | refused drain refused =>
    obtain rfl := (Prod.mk.inj ((process_drained drained).symm.trans drain)).2
    exact ⟨drained, fun _ _ held => .inl ⟨rfl, held⟩, fun _ _ contra => by simp at contra⟩
  | unmarked drain admitted failed =>
    obtain rfl := (Prod.mk.inj ((process_drained drained).symm.trans drain)).2
    refine ⟨drained, fun id old held => .inl ⟨rfl, ?_⟩, fun _ _ contra => by simp at contra⟩
    obtain rfl | ne := eq_or_ne id target
    · obtain rfl := (admission_eq_ok admitted).2.2 old held
      exact Function.update_self ..
    · exact (Function.update_of_ne ne _ _).trans held
  | @opened d session drain admitted marked =>
    obtain rfl := (Prod.mk.inj ((process_drained drained).symm.trans drain)).2
    have inner := touches (i.entered target req session) drained
    refine ⟨inner.drained, fun id old held => ?_, fun id state called => ?_⟩
    · obtain rfl | ne := eq_or_ne id target
      · obtain rfl := (admission_eq_ok admitted).2.2 old held
        exact .inr (Function.update_self ..)
      · simp only [checkIn, setSession, Function.update_of_ne ne]
        exact inner.held id old ((Function.update_of_ne ne _ _).trans held)
    · obtain rfl | ne := eq_or_ne id target
      · exact ⟨_, Function.update_self ..⟩
      · simp only [checkIn, setSession, Function.update_of_ne ne] at called ⊢
        exact inner.there id state called

end CompositionBuilder

theorem Script.ideal_touches (script : Script σ) (i : CompositionBuilder σ)
    (drained : i.pendingRollbacks = []) :
    Touches i (script.ideal i).1 (script.ideal i).2 := by
  induction script generalizing i with
  | done => exact ⟨drained, fun _ _ held => .inl ⟨rfl, held⟩, fun _ _ contra => by simp [ideal] at contra⟩
  | frame reverted body rest body_ih rest_ih =>
    have now : Touches i (if reverted then (body.ideal i).1.restore (body.ideal i).2 else (body.ideal i).1)
        (body.ideal i).2 := by
      split_ifs
      · exact (body_ih i drained).restore
      · exact body_ih i drained
    exact now.seq (rest_ih _ now.drained)
  | dispatch target req a body rest body_ih rest_ih =>
    have now : Touches i (i.idealDispatch target req a body.ideal).1 (i.idealDispatch target req a body.ideal).2 :=
      idealDispatch_touches body_ih drained
    exact now.seq (rest_ih _ now.drained)

namespace CompositionBuilder
variable {σ : Type} {b b' b₁ b₂ c i i' i₁ i₂ : CompositionBuilder σ} {first first₁ first₂ : UInt64 → Option σ}
  {target : UInt64} {req : ExecutionRequest} {a : Answers σ} {session : TargetSession σ} {id : UInt64}

/-- `b` with its queue applied holds what `i` holds. With a queued checkpoint,
every later one is queued. -/
structure Linked (b i : CompositionBuilder σ) : Prop where
  entryRollupId : b.entryRollupId = i.entryRollupId
  rollups : b.rollups = i.rollups
  sessions : b.settled.sessions = i.sessions
  checkedOut : b.checkedOut = i.checkedOut
  bounded : ∀ k, b.recorded.length ≤ k → b.pendingSnapshots k = none
  closed : ∀ k ∈ b.pendingRollbacks, ∀ j, k < j → (b.pendingSnapshots j).isSome → j ∈ b.pendingRollbacks
  drained : i.pendingRollbacks = []

def firstLive (b : CompositionBuilder σ) (start : Nat) (id : UInt64) : Option σ :=
  (List.range' start (b.recorded.length - start)).findSome? (b.settled.snapshotOf id)

/-- A run from `b` to `b'` follows one to `i'` that touched `first`. If the calls
since `b` were undone now, the checkpoint applied to a session would be the state
it is put back to, or it is in this state and has no checkpoint left. -/
structure Tracks (b b' i' : CompositionBuilder σ) (first : UInt64 → Option σ) : Prop where
  linked : Linked b' i'
  grown : b.recorded <+: b'.recorded
  older : ∀ k < b.recorded.length, b'.settled.pendingSnapshots k = b.settled.pendingSnapshots k
  queued : ∀ k ∈ b'.pendingRollbacks, k ∈ b.pendingRollbacks ∨ b.recorded.length ≤ k
  targets : ∀ k call, b.recorded.length ≤ k → b'.recorded[k]? = some call → b.checkedOut call.targetRollupId = false
  live : ∀ id state, b'.firstLive b.recorded.length id = some state → first id = some state
  undone : ∀ id state, b'.firstLive b.recorded.length id = none → first id = some state →
    ∃ session, i'.sessions id = some session ∧ session.state = state

theorem findSome_congr {α β : Type*} {f g : α → Option β} {l : List α} (same : ∀ x ∈ l, f x = g x) :
    l.findSome? f = l.findSome? g := by
  induction l with
  | nil => rfl
  | cons x l ih =>
    obtain ⟨head, rest⟩ := forall_mem_cons.mp same
    rw [findSome?_cons, findSome?_cons, head, ih rest]

theorem snapshotOf_grown (grown : b.recorded <+: b'.recorded) (inside : k < b.recorded.length)
    (same : b'.pendingSnapshots k = b.pendingSnapshots k) : b'.snapshotOf id k = b.snapshotOf id k := by
  obtain ⟨later, grown⟩ := grown
  simp only [snapshotOf, ← grown, getElem?_append_left inside, same]

theorem firstLive_seq (two : Tracks b₁ b₂ i₂ first₂) (start : Nat) (le : start ≤ b₁.recorded.length) :
    b₂.firstLive start id = (b₁.firstLive start id).or (b₂.firstLive b₁.recorded.length id) := by
  have longer := two.grown.length_le
  have split : List.range' start (b₂.recorded.length - start) = List.range' start (b₁.recorded.length - start) ++
        List.range' b₁.recorded.length (b₂.recorded.length - b₁.recorded.length) := by
    rw [show b₂.recorded.length - start =
      (b₁.recorded.length - start) + (b₂.recorded.length - b₁.recorded.length) by omega, ← range'_append_1]
    congr 2
    omega
  rw [firstLive, split, findSome?_append]
  congr 1
  refine findSome_congr fun k mem => ?_
  have inside : k < b₁.recorded.length := by
    have := mem_range'_1.mp mem
    omega
  have grown : b₁.settled.recorded <+: b₂.settled.recorded := two.grown
  exact snapshotOf_grown grown inside (two.older k inside)

theorem Tracks.seq (one : Tracks b b₁ i₁ first₁) (two : Tracks b₁ b₂ i₂ first₂) (touches : Touches i₁ i₂ first₂)
    (checkedOut : b₁.checkedOut = b.checkedOut) : Tracks b b₂ i₂ fun id => first₁ id <|> first₂ id where
  linked := two.linked
  grown := one.grown.trans two.grown
  older k inside := (two.older k (inside.trans_le one.grown.length_le)).trans (one.older k inside)
  queued k mem := by
    obtain before | later := two.queued k mem
    · exact one.queued k before
    · exact .inr (one.grown.length_le.trans later)
  targets k call since found := by
    obtain inside | later := Nat.lt_or_ge k b₁.recorded.length
    · obtain ⟨rest, grown⟩ := two.grown
      rw [← grown, getElem?_append_left inside] at found
      exact one.targets k call since found
    · exact checkedOut ▸ two.targets k call later found
  live id state found := by
    rw [firstLive_seq two _ one.grown.length_le, Option.or_eq_some_iff] at found
    obtain found | ⟨none₁, found⟩ := found
    · simp [one.live id state found]
    · have called := two.live id state found
      cases before : first₁ id with
      | none => simpa [before] using called
      | some state₁ =>
        -- the session was already put back, so the later call began where the first one did
        obtain ⟨session, held, rfl⟩ := one.undone id state₁ none₁ before
        obtain ⟨silent, -⟩ | again := touches.held id session held
        · simp [silent] at called
        · simpa [before] using again.symm.trans called
  undone id state none called := by
    rw [firstLive_seq two _ one.grown.length_le, Option.or_eq_none_iff] at none
    cases before : first₁ id with
    | none => exact two.undone id state none.2 (by simpa [before] using called)
    | some state₁ =>
      obtain rfl : state₁ = state := by simpa [before] using called
      obtain ⟨session, held, rfl⟩ := one.undone id _ none.1 before
      obtain ⟨-, same⟩ | again := touches.held id session held
      · exact ⟨session, same, rfl⟩
      · exact two.undone id _ none.2 again

theorem Tracks.still (linked : Linked b' i) (recorded : b'.recorded = b.recorded)
    (older : b'.settled.pendingSnapshots = b.settled.pendingSnapshots)
    (queued : ∀ k ∈ b'.pendingRollbacks, k ∈ b.pendingRollbacks) : Tracks b b' i fun _ => none := by
  have silent : ∀ id, b'.firstLive b.recorded.length id = none := fun id => by
    simp [firstLive, recorded]
  refine ⟨linked, recorded ▸ prefix_rfl, fun k _ => congrFun older k, fun k mem => .inl (queued k mem), ?_, ?_, ?_⟩
  · intro k call since found
    rw [recorded, getElem?_eq_none since] at found
    cases found
  · intro id state found
    simp [silent] at found
  · intro id state _ called
    cases called

/-- The calls that are older than a queued one to the same rollup, from `start`
on, are queued. -/
def Unshadowed (b : CompositionBuilder σ) (start : Nat) : Prop :=
  ∀ k ∈ b.pendingRollbacks, ∀ j, start ≤ j → j < k → ∀ id state older, b.snapshotOf id k = some state →
    b.snapshotOf id j = some older → j ∈ b.pendingRollbacks

theorem snapshotOf_settled :
    b.settled.snapshotOf id k = if k ∈ b.pendingRollbacks then none else b.snapshotOf id k := by
  by_cases queued : k ∈ b.pendingRollbacks <;> simp [snapshotOf, settled, queued]

theorem snapshotOf_isSome (found : b.snapshotOf id k = some state) : (b.pendingSnapshots k).isSome := by
  simp only [snapshotOf] at found
  split_ifs at found
  simp [found]

theorem target_of_snapshotOf (found : b.snapshotOf id k = some state) :
    b.recorded[k]?.map targetRollupId = some id := by
  simp only [snapshotOf] at found
  split_ifs at found with isTarget
  exact isTarget

theorem Tracks.restored_eq (tracks : Tracks b b' i' first) (none : b'.firstLive b.recorded.length id = none) :
    restored (i'.sessions id) (first id) = i'.sessions id := by
  cases called : first id with
  | none => rfl
  | some state =>
    obtain ⟨session, held, rfl⟩ := tracks.undone id state none called
    rw [held]
    rfl

theorem Tracks.reverted_sessions (tracks : Tracks b b' i' first) (unshadowed : b'.Unshadowed b.recorded.length)
    (id : UInt64) :
    restored (b'.sessions id) ((b'.pendingRollbacks.findSome? (b'.snapshotOf id)).or
      ((List.range' b.recorded.length (b'.recorded.length - b.recorded.length)).findSome? (b'.snapshotOf id))) =
    restored (i'.sessions id) (first id) := by
  have now : restored (b'.sessions id) (b'.pendingRollbacks.findSome? (b'.snapshotOf id)) = i'.sessions id :=
    congrFun tracks.linked.sessions id
  cases queued : b'.pendingRollbacks.findSome? (b'.snapshotOf id) with
  | some state =>
    -- one of its checkpoints was queued already, so all of them were
    have left : b'.firstLive b.recorded.length id = none := by
      refine findSome?_eq_none_iff.mpr fun j mem => ?_
      obtain ⟨since, -⟩ := mem_range'_1.mp mem
      rw [snapshotOf_settled]
      split_ifs with isQueued
      · rfl
      · cases found : b'.snapshotOf id j with
        | none => rfl
        | some older =>
          obtain ⟨k, isQueued', at_k⟩ := exists_of_findSome?_eq_some queued
          refine absurd ?_ isQueued
          obtain before | rfl | after := Nat.lt_trichotomy j k
          · exact unshadowed k isQueued' j since before id state older at_k found
          · exact isQueued'
          · exact tracks.linked.closed k isQueued' j after (snapshotOf_isSome found)
    rw [tracks.restored_eq left, ← now, queued]
    rfl
  | none =>
    have raw : b'.firstLive b.recorded.length id =
        (List.range' b.recorded.length (b'.recorded.length - b.recorded.length)).findSome? (b'.snapshotOf id) := by
      refine findSome_congr fun k _ => ?_
      rw [snapshotOf_settled]
      split_ifs with isQueued
      · exact (findSome?_eq_none_iff.mp queued k isQueued).symm
      · rfl
    rw [queued] at now
    rw [Option.none_or, ← raw, ← now]
    cases found : b'.firstLive b.recorded.length id with
    | none => exact now.trans (now ▸ (tracks.restored_eq found).symm)
    | some state =>
      rw [tracks.live id state found]
      rfl

theorem findSome_live (b : CompositionBuilder σ) (id : UInt64) (ks : List Nat) :
    (ks.filter fun k => (b.pendingSnapshots k).isSome).findSome? (b.snapshotOf id) =
    ks.findSome? (b.snapshotOf id) := by
  induction ks with
  | nil => rfl
  | cons k ks ih =>
    rw [filter_cons]
    split_ifs with live
    · rw [findSome?_cons, findSome?_cons, ih]
    · have dead : b.snapshotOf id k = none := by
        cases found : b.snapshotOf id k with
        | none => rfl
        | some state => exact absurd (snapshotOf_isSome found) live
      rw [findSome?_cons, dead, ih]

theorem Tracks.revert (tracks : Tracks b b' i' first) (touches : Touches i i' first)
    (unshadowed : b'.Unshadowed b.recorded.length) {call span} (found : b'.recorded[b.recorded.length]? = some call) :
    Tracks b { b' with
      recorded := b'.recorded.set b.recorded.length { call with revertSpan := some span }
      pendingRollbacks := b'.pendingRollbacks ++
        (List.range' b.recorded.length (b'.recorded.length - b.recorded.length)).filter
          fun k => (b'.pendingSnapshots k).isSome } (i'.restore first) first := by
  generalize marked : b'.recorded.set b.recorded.length { call with revertSpan := some span } = recorded
  have length : recorded.length = b'.recorded.length := by rw [← marked, length_set]
  have sameTarget : ∀ k : Nat, recorded[k]?.map targetRollupId = b'.recorded[k]?.map targetRollupId := fun k => by
    have same := map_set_same (f := targetRollupId) (x := { call with revertSpan := some span }) found rfl
    rw [← getElem?_map, ← getElem?_map, ← marked, same]
  have sameSnapshot : ∀ queue, ({ b' with recorded, pendingRollbacks := queue } : CompositionBuilder σ).snapshotOf =
      b'.snapshotOf := fun queue => by
    funext id k
    simp only [snapshotOf, sameTarget]
  have ranged : ∀ k, k ∈ (List.range' b.recorded.length (b'.recorded.length - b.recorded.length)).filter
      (fun k => (b'.pendingSnapshots k).isSome) ↔ b.recorded.length ≤ k ∧ (b'.pendingSnapshots k).isSome := by
    intro k
    rw [mem_filter, mem_range'_1]
    refine ⟨fun h => ⟨h.1.1, h.2⟩, fun h => ⟨⟨h.1, ?_⟩, h.2⟩⟩
    by_contra beyond
    have := tracks.linked.bounded k (by omega)
    simp [this] at h
  refine ⟨⟨tracks.linked.entryRollupId, tracks.linked.rollups, ?_, tracks.linked.checkedOut, ?_, ?_,
    tracks.linked.drained⟩,
    ?_, ?_, ?_, ?_, ?_, ?_⟩
  · funext id
    refine Eq.trans ?_ (tracks.reverted_sessions unshadowed id)
    simp only [settled, sameSnapshot, findSome?_append, findSome_live]
  · intro k beyond
    exact tracks.linked.bounded k (length ▸ beyond)
  · intro k mem j after live
    obtain mem | mem := mem_append.mp mem
    · exact mem_append_left _ (tracks.linked.closed k mem j after live)
    · exact mem_append_right _ ((ranged j).mpr ⟨((ranged k).mp mem).1.trans after.le, live⟩)
  · exact marked ▸ grown_set tracks.grown _
  · intro k before
    refine Eq.trans ?_ (tracks.older k before)
    have notRanged : k ∉ (List.range' b.recorded.length (b'.recorded.length - b.recorded.length)).filter
        (fun k => (b'.pendingSnapshots k).isSome) := fun mem => absurd ((ranged k).mp mem).1 (Nat.not_le.mpr before)
    simp only [settled, mem_append, notRanged, or_false]
  · intro k mem
    obtain mem | mem := mem_append.mp mem
    · exact tracks.queued k mem
    · exact .inr ((ranged k).mp mem).1
  · intro k call' since found'
    have target := sameTarget k
    rw [found', Option.map_some] at target
    obtain ⟨call, found, target⟩ := Option.map_eq_some_iff.mp target.symm
    exact target ▸ tracks.targets k call since found
  · intro id state some
    refine absurd (Eq.trans (Eq.symm ?_) some) (Option.some_ne_none state).symm
    refine findSome?_eq_none_iff.mpr fun k mem => ?_
    rw [length] at mem
    rw [snapshotOf_settled, sameSnapshot]
    split_ifs with isQueued
    · rfl
    · cases live : b'.snapshotOf id k with
      | none => rfl
      | some state =>
        have since := (mem_range'_1.mp mem).1
        exact absurd (mem_append_right _ ((ranged k).mpr ⟨since, snapshotOf_isSome live⟩)) isQueued
  · intro id state _ called
    obtain ⟨session, held⟩ := touches.there id state called
    exact ⟨{ session with state }, by simp [CompositionBuilder.restore, restored, called, held], rfl⟩

theorem Tracks.endFrame (tracks : Tracks b b' i' first) (touches : Touches i i' first)
    (orderly : reverted = true → b'.recorded.length - b.recorded.length < 2 ^ 32 ∧ b'.Unshadowed b.recorded.length) :
    Tracks b (b'.endFrame b.recorded.length reverted) (if reverted then i'.restore first else i') first := by
  obtain ⟨same, ends⟩ | ⟨call, span, rfl, found, same⟩ := b'.endFrame_cases b.recorded.length reverted <;> rw [same]
  · split_ifs with isReverted
    · have none : ∀ id, b'.firstLive b.recorded.length id = none := fun id => by
        simp [firstLive, Nat.sub_eq_zero_of_le (ends isReverted)]
      have kept : i'.restore first = i' := by
        simp only [CompositionBuilder.restore, tracks.restored_eq (none _)]
      rw [kept]
      exact tracks
    · exact tracks
  · obtain ⟨short, unshadowed⟩ := orderly rfl
    obtain ⟨inside, -⟩ := List.getElem?_eq_some_iff.mp found
    have whole : min (b.recorded.length + min (b'.recorded.length - b.recorded.length) (2 ^ 32 - 1))
      b'.recorded.length -
        b.recorded.length = b'.recorded.length - b.recorded.length := by omega
    rw [whole]
    exact tracks.revert touches unshadowed found

theorem Linked.admission (linked : Linked b i) : b.settled.admission target req a = i.admission target req a := by
  simp only [CompositionBuilder.admission, refusal, linked.sessions]
  simp only [settled, linked.entryRollupId, linked.rollups, linked.checkedOut]

theorem Linked.drain (linked : Linked b i) : Linked b.settled i where
  entryRollupId := linked.entryRollupId
  rollups := linked.rollups
  sessions := (settled_of_drained (b := b.settled) rfl).symm ▸ linked.sessions
  checkedOut := linked.checkedOut
  bounded k beyond := by
    simp only [settled, linked.bounded k beyond, ite_self]
  closed _ queued := absurd queued not_mem_nil
  drained := linked.drained

theorem Linked.entered (linked : Linked b i) (drained : b.pendingRollbacks = []) :
    Linked (b.entered target req session) (i.entered target req session) where
  entryRollupId := linked.entryRollupId
  rollups := linked.rollups
  sessions := by
    have same := linked.sessions
    rw [settled_of_drained drained] at same
    rw [settled_of_drained (b := b.entered target req session) drained]
    simp only [CompositionBuilder.entered, same]
  checkedOut := by simp only [CompositionBuilder.entered, linked.checkedOut]
  bounded k beyond := by
    simp only [CompositionBuilder.entered, length_append, length_singleton] at beyond
    simp only [CompositionBuilder.entered, Function.update_of_ne (show k ≠ b.recorded.length by omega)]
    exact linked.bounded k (by omega)
  closed _ queued := absurd (drained ▸ queued) not_mem_nil
  drained := linked.drained

section
variable {d c' : CompositionBuilder σ} {slot : ExecutedAction} {state : σ}
  (tracks : Tracks (d.entered target req session) c' i' first)
include tracks

theorem Tracks.notTarget (since : d.recorded.length < k) : c'.snapshotOf target k = none := by
  simp only [snapshotOf]
  split_ifs with isTarget
  · obtain ⟨call, found, rfl⟩ := Option.map_eq_some_iff.mp isTarget
    have out := tracks.targets k call (by simp [CompositionBuilder.entered]; omega) found
    simp [CompositionBuilder.entered] at out
  · rfl

variable (drained : d.pendingRollbacks = []) (found : c'.recorded[d.recorded.length]? = some (pendingAction target req))
include drained found

theorem Tracks.firstLive_entered : c'.firstLive d.recorded.length id =
      (if target = id then some session.state else none).or (c'.firstLive (d.recorded.length + 1) id) := by
  obtain ⟨inside, -⟩ := List.getElem?_eq_some_iff.mp found
  have own : c'.settled.pendingSnapshots d.recorded.length = some session.state := by
    rw [tracks.older _ (by simp [CompositionBuilder.entered]),
      settled_of_drained (b := d.entered target req session) drained]
    exact Function.update_self ..
  rw [firstLive, show c'.recorded.length - d.recorded.length =
    c'.recorded.length - (d.recorded.length + 1) + 1 by omega,
    range'_succ, findSome?_cons, snapshotOf_of_target (b := c'.settled) found, own,
    show (pendingAction target req).targetRollupId = target from rfl]
  split_ifs <;> rfl

theorem Tracks.checkIn (request : slot.targetRollupId = target) (notOut : d.checkedOut target = false) :
    Tracks d { c'.checkIn target { session with state } with recorded := c'.recorded.set d.recorded.length slot }
      (i'.checkIn target { session with state }) (Function.update first target (some session.state)) := by
  have length : (d.entered target req session).recorded.length = d.recorded.length + 1 := by
    simp [CompositionBuilder.entered]
  have queued : ∀ k ∈ c'.pendingRollbacks, d.recorded.length < k := fun k mem => by
    obtain before | since := tracks.queued k mem
    · exact absurd (drained ▸ before) not_mem_nil
    · omega
  have sameTarget : ∀ k : Nat, (c'.recorded.set d.recorded.length slot)[k]?.map targetRollupId =
      c'.recorded[k]?.map targetRollupId := fun k => by
    have same := map_set_same (f := targetRollupId) (x := slot) found request
    rw [← getElem?_map, ← getElem?_map, same]
  have sameSnapshot : ({ c'.checkIn target { session with state } with
      recorded := c'.recorded.set d.recorded.length slot } : CompositionBuilder σ).snapshotOf = c'.snapshotOf := by
    funext id k
    simp only [snapshotOf, sameTarget]
    rfl
  have sameLive : ∀ id, CompositionBuilder.firstLive { c'.checkIn target { session with state } with
      recorded := c'.recorded.set d.recorded.length slot } d.recorded.length id =
        c'.firstLive d.recorded.length id := by
    intro id
    simp only [firstLive, length_set]
    refine findSome_congr fun k _ => ?_
    rw [snapshotOf_settled, snapshotOf_settled, sameSnapshot]
    rfl
  refine ⟨⟨tracks.linked.entryRollupId, tracks.linked.rollups, ?_, ?_, ?_, tracks.linked.closed, tracks.linked.drained⟩,
    grown_set ((prefix_append _ _).trans tracks.grown) _, ?_, fun k mem => .inr (queued k mem).le, ?_, ?_, ?_⟩
  · funext id
    simp only [settled, sameSnapshot]
    obtain rfl | ne := eq_or_ne id target
    · have silent : c'.pendingRollbacks.findSome? (c'.snapshotOf id) = none :=
        findSome?_eq_none_iff.mpr fun k mem => tracks.notTarget (queued k mem)
      simp only [CompositionBuilder.checkIn, setSession, Function.update_self, silent, restored]
    · simp only [CompositionBuilder.checkIn, setSession, Function.update_of_ne ne]
      exact congrFun tracks.linked.sessions id
  · simp only [CompositionBuilder.checkIn, tracks.linked.checkedOut]
  · intro k beyond
    exact tracks.linked.bounded k (by simpa using beyond)
  · intro k before
    refine (tracks.older k (by omega)).trans ?_
    rw [settled_of_drained (b := d.entered target req session) drained, settled_of_drained drained]
    exact Function.update_of_ne before.ne _ _
  · intro k call since isCall
    have target' := sameTarget k
    rw [isCall, Option.map_some] at target'
    obtain ⟨call', found', same⟩ := Option.map_eq_some_iff.mp target'.symm
    rw [← same]
    obtain rfl | later := since.eq_or_lt
    · obtain rfl := Option.some.inj (found'.symm.trans found)
      exact notOut
    · have out := tracks.targets k call' (by omega) found'
      simp only [CompositionBuilder.entered, Function.update_apply] at out
      split_ifs at out
      exact out
  · intro id old some
    rw [sameLive, tracks.firstLive_entered drained found] at some
    obtain rfl | ne := eq_or_ne id target
    · simpa using some
    · rw [if_neg ne.symm, Option.none_or, ← length] at some
      rw [Function.update_of_ne ne]
      exact tracks.live id old some
  · intro id old none called
    rw [sameLive, tracks.firstLive_entered drained found] at none
    obtain rfl | ne := eq_or_ne id target
    · simp at none
    · rw [if_neg ne.symm, Option.none_or, ← length] at none
      rw [Function.update_of_ne ne] at called
      simp only [CompositionBuilder.checkIn, setSession, Function.update_of_ne ne]
      exact tracks.undone id old none called

end

theorem Linked.setSession (linked : Linked b i) (drained : b.pendingRollbacks = []) :
    Linked (b.setSession target (some session)) (i.setSession target (some session)) where
  entryRollupId := linked.entryRollupId
  rollups := linked.rollups
  sessions := by
    have same := linked.sessions
    rw [settled_of_drained drained] at same
    rw [settled_of_drained (b := b.setSession target (some session)) drained]
    simp only [CompositionBuilder.setSession, same]
  checkedOut := linked.checkedOut
  bounded := linked.bounded
  closed := linked.closed
  drained := linked.drained

theorem Tracks.of_settled (tracks : Tracks b.settled b' i' first) : Tracks b b' i' first where
  linked := tracks.linked
  grown := tracks.grown
  older k inside := by
    rw [tracks.older k inside, settled_of_drained (b := b.settled) rfl]
  queued k mem := (tracks.queued k mem).imp_left fun none => absurd none not_mem_nil
  targets := tracks.targets
  live := tracks.live
  undone := tracks.undone

theorem Linked.dispatch
    {ideal : CompositionBuilder σ → CompositionBuilder σ × (UInt64 → Option σ)} (linked : Linked b i)
    (conserves : ∀ c, Conserves c (execute c)) (drains : (b.processPendingRollbacks a.rollback).1 = .ok ())
    (inner : ∀ r c j, b.enter target req a = (.ok r, c) → Linked c j → Tracks c (execute c) (ideal j).1 (ideal j).2) :
    Tracks b (b.dispatchCall target req a execute).2 (i.idealDispatch target req a ideal).1
      (i.idealDispatch target req a ideal).2 := by
  obtain ⟨d, drained⟩ : ∃ d, b.processPendingRollbacks a.rollback = (.ok (), d) := ⟨_, Prod.ext drains rfl⟩
  obtain rfl := processPendingRollbacks_eq_ok drained
  have handed : b.enter target req a = _ := enter_of_drained drained
  have handed' : i.enter target req a = _ := enter_of_drained (process_drained linked.drained)
  rw [linked.admission] at handed
  cases admitted : i.admission target req a with
  | error e =>
    rw [admitted] at handed handed'
    simp only [dispatchCall, idealDispatch, handed, handed']
    exact .of_settled (.still linked.drain rfl rfl fun _ mem => mem)
  | ok session =>
    cases checkpoint : a.checkpoint with
    | some e =>
      rw [admitted, checkpoint] at handed handed'
      simp only [dispatchCall, idealDispatch, handed, handed']
      exact .of_settled (.still (linked.drain.setSession rfl) rfl rfl fun _ mem => mem)
    | none =>
      rw [admitted, checkpoint] at handed handed'
      have tracks := inner _ _ (i.entered target req session) handed (linked.drain.entered rfl)
      obtain ⟨slot, dispatched⟩ := dispatchCall_opened conserves handed
      obtain ⟨notOut, -⟩ := admission_eq_ok (linked.admission.trans admitted)
      rw [dispatched]
      simp only [idealDispatch, handed']
      exact (tracks.checkIn rfl slot rfl notOut).of_settled

end CompositionBuilder

/-- Every rollback succeeds, and a frame that reverts holds fewer than `2 ^ 32`
calls, none of them older than a queued one to the same rollup without being
queued. -/
def Script.Orderly {σ : Type} : Script σ → CompositionBuilder σ → Prop
  | .done, _ => True
  | .dispatch target req a body rest, b =>
    (b.processPendingRollbacks a.rollback).1 = .ok () ∧
    (∀ r c, b.enter target req a = (.ok r, c) → body.Orderly c) ∧
    rest.Orderly (b.dispatchCall target req a body.run).2
  | .frame reverted body rest, b =>
    body.Orderly b ∧
    (reverted = true → (body.run b).recorded.length - b.recorded.length < 2 ^ 32 ∧
      (body.run b).Unshadowed b.recorded.length) ∧
    rest.Orderly ((body.run b).endFrame b.recorded.length reverted)

variable {σ : Type}

theorem Script.run_tracks (script : Script σ) (linked : Linked b i) (orderly : script.Orderly b) :
    Tracks b (script.run b) (script.ideal i).1 (script.ideal i).2 := by
  induction script generalizing b i with
  | done => exact .still linked rfl rfl fun _ mem => mem
  | dispatch target req a body rest body_ih rest_ih =>
    obtain ⟨drains, inner, later⟩ := orderly
    have now := linked.dispatch body.run_conserves drains fun r c j handed linked => body_ih linked (inner r c handed)
    have conserved : Conserves b (b.dispatchCall target req a body.run).2 := (dispatchCall_spec body.run_conserves).1
    exact now.seq (rest_ih now.linked later) (rest.ideal_touches _ now.linked.drained) conserved.checkedOut
  | frame reverted body rest body_ih rest_ih =>
    obtain ⟨inner, shape, later⟩ := orderly
    have now := (body_ih linked inner).endFrame (body.ideal_touches i linked.drained) shape
    have conserved := endFrame_conserves (body.run_conserves b) reverted
    exact now.seq (rest_ih now.linked later) (rest.ideal_touches _ now.linked.drained) conserved.checkedOut

def nestedReverts (inner : UInt64) : Script Nat :=
  .frame true (.dispatch 3 (sampleRequest 1) (sampleAnswers (.ok (.resolved [] true))) .done
    (.frame true (.dispatch inner (sampleRequest 1) (sampleAnswers (.ok (.resolved [] true))) .done .done) .done)) .done

end Eez
