import EezRollup.Driver.BlockCommitter
import EezRollup.Lib.Runs

/-! A sequenced block is built on whatever head the actor has when it serves the command; the check
is made earlier. -/
open List
namespace Eez.Driver

/-- The block of a successful call has the parent and the time that were asked
for, and no call moves the head under another task's guard. -/
structure Sequenced.Sound (e : Sequenced) : Prop where
  parent : ∀ header, e.result = .ok header → header.parentHash = e.call.parentHash
  timestamp : ∀ parent blockTime header, e.call = commitOne parent blockTime → e.result = .ok header →
    header.parentHash = parent.hash ∧ header.timestamp = saturatingAdd parent.timestamp blockTime
  guarded : ∀ holder, e.guard = some holder → holder ≠ e.task → e.after = e.before

/-- With these answers the command sets a head other than the present one. -/
def Actor.Moves (a : Actor) (answers : Answers) : Command → Prop
  | .sequence _ => ∃ id header id', answers.sequence = ⟨.valid (some id), some (.ok header), .valid, .valid id'⟩ ∧
      header.hash ≠ a.head.hash
  | .refreshForkchoice => answers.first = .invalidState ∧ a.safe.hash ≠ a.head.hash
  | .advanceSafeFinalized safe _ => answers.first = .invalidState ∧ safe.hash ≠ a.head.hash
  | .advanceHead header | .reorgTo header => (∃ id, answers.first = .valid id) ∧ header.hash ≠ a.head.hash
  | .derive header => answers.imported = .valid ∧ (∃ id, answers.first = .valid id) ∧ header.hash ≠ a.head.hash
  | .adoptSynced header => header.hash ≠ a.head.hash
  | .syncTo _ => False

namespace Committer

def spawn (head safe : SealedHeader) (finalizedHash : B256) : Committer :=
  ⟨⟨head, safe, finalizedHash⟩, [], none, fun _ => .idle, [], []⟩

/-- The call of a task is past its check and not served yet. -/
def Pending (c : Committer) (task : Nat) (call : Call) : Prop :=
  c.tasks task = .checked call ∨ c.tasks task = .queued call

/-- The guard is granted only while no call is pending, and a command that moves
the head is served only while no other task's call is. -/
def Undisturbed (c : Committer) : Step → Prop
  | .beginReconcile _ => ∀ task call, ¬c.Pending task call
  | .serve answers => ∀ p ∈ c.channel.head?, c.actor.Moves answers p.2 →
      ∀ task call, c.Pending task call → p.1 = task ∧ ∃ call, p.2 = .sequence call
  | _ => True

def sequencing (channel : List (Nat × Command)) : List (Nat × Call) :=
  channel.filterMap fun p =>
    match p.2 with
    | .sequence call => some (p.1, call)
    | _ => none

structure Faithful (c : Committer) : Prop where
  checked : ∀ task call, c.Pending task call → c.actor.head.hash = call.parentHash ∧ c.guard = none
  queued : ∀ p ∈ sequencing c.channel, c.tasks p.1 = .queued p.2
  distinct : ((sequencing c.channel).map Prod.fst).Nodup
  sound : ∀ e ∈ c.sequenced, e.Sound

theorem spawn_faithful (head safe : SealedHeader) (finalizedHash : B256) :
    (spawn head safe finalizedHash).Faithful := by
  constructor
  · rintro task call (h | h) <;> cases h
  · intro p hp
    cases hp
  · exact nodup_nil
  · intro e he
    cases he

variable {c : Committer} {task : Nat} {call : Call}

theorem setTask_self (state : TaskState) : c.setTask task state task = state := if_pos rfl

theorem setTask_other (state : TaskState) (other : t ≠ task) : c.setTask task state t = c.tasks t :=
  if_neg other

theorem pending_setTask (pending : ({ c with tasks := c.setTask task state } : Committer).Pending t call') :
    (state = .checked call' ∨ state = .queued call') ∨ t ≠ task ∧ c.Pending t call' := by
  by_cases own : t = task
  · subst own
    simp only [Pending, setTask_self] at pending
    exact .inl pending
  · simp only [Pending, setTask_other _ own] at pending
    exact .inr ⟨own, pending⟩

theorem Faithful.check (inv : c.Faithful) (free : c.guard = none) (idle : c.tasks task = .idle)
    (same : c.actor.head.hash = call.parentHash) :
    ({ c with tasks := c.setTask task (.checked call) } : Committer).Faithful := by
  refine ⟨?_, ?_, inv.distinct, inv.sound⟩
  · intro t call' pending
    rcases pending_setTask pending with (new | new) | ⟨_, old⟩
    · cases new
      exact ⟨same, free⟩
    · cases new
    · exact inv.checked t call' old
  · intro p hp
    have queued := inv.queued p hp
    by_cases own : p.1 = task
    · rw [own, idle] at queued
      cases queued
    · exact (setTask_other _ own).trans queued

theorem Faithful.enqueueSequence (inv : c.Faithful) (passed : c.tasks task = .checked call) : ({ c with
      channel := c.channel ++ [(task, .sequence call)]
      tasks := c.setTask task (.queued call) } : Committer).Faithful := by
  have absent : ∀ p ∈ sequencing c.channel, p.1 ≠ task := by
    intro p hp own
    have queued := inv.queued p hp
    rw [own, passed] at queued
    cases queued
  have channel : sequencing (c.channel ++ [(task, .sequence call)]) = sequencing c.channel ++ [(task, call)] :=
    filterMap_append
  refine ⟨?_, ?_, ?_, inv.sound⟩
  · intro t call' pending
    rcases pending_setTask pending with (new | new) | ⟨_, old⟩
    · cases new
    · cases new
      exact inv.checked task call (.inl passed)
    · exact inv.checked t call' old
  · rw [channel]
    intro p hp
    rcases mem_append.mp hp with hp | hp
    · exact (setTask_other _ (absent p hp)).trans (inv.queued p hp)
    · obtain rfl := mem_singleton.mp hp
      exact setTask_self _
  · rw [channel, map_append]
    refine nodup_append.mpr ⟨inv.distinct, pairwise_singleton _ _, ?_⟩
    intro a ha b hb same
    obtain ⟨p, hp, rfl⟩ := mem_map.mp ha
    obtain rfl := mem_singleton.mp hb
    exact absent p hp same

theorem Faithful.setActor (inv : c.Faithful) {actor channel}
    (same : sequencing channel = sequencing c.channel)
    (still : actor.head.hash ≠ c.actor.head.hash → ∀ task call, ¬c.Pending task call) :
    ({ c with actor, channel } : Committer).Faithful := by
  refine ⟨?_, ?_, ?_, inv.sound⟩
  · intro t call' pending
    obtain ⟨parent, free⟩ := inv.checked t call' pending
    refine ⟨?_, free⟩
    by_cases moved : actor.head.hash = c.actor.head.hash
    · exact moved.trans parent
    · exact absurd pending (still moved t call')
  · intro p hp
    rw [same] at hp
    exact inv.queued p hp
  · exact same ▸ inv.distinct

theorem Faithful.serveSequence (inv : c.Faithful)
    (channel : c.channel = (task, .sequence call) :: rest)
    (built : ∀ header, answers.resolved = some (.ok header) →
      header.parentHash = c.actor.head.hash ∧ header.timestamp = call.attrs.timestamp)
    (still : (c.actor.processSequence answers).2.head.hash ≠ c.actor.head.hash →
      ∀ t call, c.Pending t call → t = task) :
    ({ c with
      actor := (c.actor.processSequence answers).2
      channel := rest
      tasks := c.setTask task .idle
      sequenced := c.sequenced ++ [⟨task, call, c.guard, c.actor.head, (c.actor.processSequence answers).2.head,
        (c.actor.processSequence answers).1⟩] } : Committer).Faithful := by
  have first : sequencing c.channel = (task, call) :: sequencing rest := by
    rw [channel]
    rfl
  have distinct := inv.distinct
  rw [first, map_cons, nodup_cons] at distinct
  have queued : c.tasks task = .queued call := inv.queued (task, call) (first ▸ mem_cons_self)
  obtain ⟨parent, free⟩ := inv.checked task call (.inr queued)
  refine ⟨?_, ?_, distinct.2, ?_⟩
  · intro t call' pending
    rcases pending_setTask pending with (new | new) | ⟨other, old⟩
    · cases new
    · cases new
    · obtain ⟨parent', free⟩ := inv.checked t call' old
      refine ⟨?_, free⟩
      by_cases moved : (c.actor.processSequence answers).2.head.hash = c.actor.head.hash
      · exact moved.trans parent'
      · exact absurd (still moved t call' old) other
  · intro p hp
    have other : p.1 ≠ task := by
      intro own
      exact distinct.1 (mem_map.mpr ⟨p, hp, own⟩)
    exact (setTask_other _ other).trans (inv.queued p (first ▸ mem_cons_of_mem _ hp))
  · intro e he
    rcases mem_append.mp he with he | he
    · exact inv.sound e he
    obtain rfl := mem_singleton.mp he
    have answer : ∀ header, (c.actor.processSequence answers).1 = .ok header →
        header.parentHash = call.parentHash ∧ header.timestamp = call.attrs.timestamp := by
      intro header ok
      rcases c.actor.processSequence_cases answers with ⟨_, built', _, eq, served⟩ | ⟨e, served⟩
      · rw [served] at ok
        obtain rfl := Except.ok.inj ok
        obtain ⟨onHead, time⟩ := built _ (by rw [eq])
        exact ⟨onHead.trans parent, time⟩
      · rw [served] at ok
        cases ok
    refine ⟨fun header ok => (answer header ok).1, ?_, ?_⟩
    · rintro p blockTime header rfl ok
      exact answer header ok
    · intro holder held
      rw [free] at held
      cases held

theorem moves_of_sequence (moved : (c.actor.processSequence answers.sequence).2.head.hash ≠ c.actor.head.hash) :
    c.actor.Moves answers (.sequence call) := by
  rcases c.actor.processSequence_cases answers.sequence with ⟨id, header, id', eq, served⟩ | ⟨e, served⟩
  · rw [served] at moved
    exact ⟨id, header, id', eq, moved⟩
  · rw [served] at moved
    exact absurd rfl moved

theorem moves_of_other {command} (moved : (c.serveOther answers command).head.hash ≠ c.actor.head.hash) :
    c.actor.Moves answers command := by
  have demoted : ∀ {safe first second}, (c.actor.forkchoiceOrDemoteHead safe first second).2.head.hash ≠
      c.actor.head.hash → first = .invalidState ∧ safe.hash ≠ c.actor.head.hash := by
    intro safe first second moved
    cases first with
    | invalidState =>
      refine ⟨rfl, fun same => moved ?_⟩
      simp only [Actor.forkchoiceOrDemoteHead, same, ne_eq, not_true_eq_false, if_false]
    | _ => exact absurd rfl moved
  unfold serveOther at moved
  cases command with
  | sequence _ => exact absurd rfl moved
  | refreshForkchoice => exact demoted moved
  | advanceSafeFinalized safe finalized =>
    unfold Actor.processAdvanceSafeFinalized at moved
    dsimp only at moved
    split at moved <;> exact demoted moved
  | advanceHead header | reorgTo header =>
    cases first : answers.first with
    | valid id =>
      rw [first] at moved
      exact ⟨⟨id, first⟩, moved⟩
    | _ =>
      rw [first] at moved
      exact absurd rfl moved
  | syncTo target => cases first : answers.first <;> rw [first] at moved <;> exact absurd rfl moved
  | adoptSynced header => exact moved
  | derive header =>
    dsimp only [Actor.processDerive] at moved
    split at moved
    case h_5 imported =>
      split at moved
      case h_1 id first => exact ⟨imported, ⟨id, first⟩, moved⟩
      all_goals exact absurd rfl moved
    all_goals exact absurd rfl moved

theorem Faithful.step (inv : c.Faithful) (allowed : c.Schedules s ∧ c.Undisturbed s) : (c.step s).Faithful := by
  obtain ⟨schedules, undisturbed⟩ := allowed
  cases s with
  | beginReconcile task =>
    refine ⟨?_, inv.queued, inv.distinct, inv.sound⟩
    intro t call pending
    exact absurd pending (undisturbed t call)
  | endReconcile task =>
    refine ⟨?_, inv.queued, inv.distinct, inv.sound⟩
    intro t call pending
    exact ⟨(inv.checked t call pending).1, rfl⟩
  | check task call =>
    unfold Committer.step
    by_cases stale : c.actor.head.hash ≠ call.parentHash
    · simp only [if_pos stale]
      exact ⟨inv.checked, inv.queued, inv.distinct, inv.sound⟩
    · simp only [if_neg stale]
      exact inv.check schedules.1 schedules.2 (not_not.mp stale)
  | enqueueSequence task =>
    obtain ⟨⟨call, passed⟩, _⟩ := schedules
    simp only [Committer.step, passed]
    exact inv.enqueueSequence passed
  | enqueue task command =>
    refine inv.setActor ?_ fun moved => absurd rfl moved
    unfold sequencing
    rw [filterMap_append]
    cases command with
    | sequence call => exact absurd rfl (schedules.1 call)
    | _ => exact append_nil _
  | serve answers =>
    cases channel : c.channel with
    | nil =>
      have same : c.step (.serve answers) = c := by simp only [Committer.step, channel]
      rw [same]
      exact inv
    | cons p rest =>
      obtain ⟨task, command⟩ := p
      replace undisturbed := undisturbed (task, command) (by rw [channel]; rfl)
      cases command with
      | sequence call =>
        have next := inv.serveSequence channel (fun header => schedules task call rest header channel)
          fun moved t call' pending => (undisturbed (moves_of_sequence moved) t call' pending).1.symm
        simpa only [Committer.step, channel] using next
      | _ =>
        simp only [Committer.step, channel]
        refine inv.setActor (by rw [channel]; rfl) ?_
        intro moved t call' pending
        obtain ⟨_, _, other⟩ := undisturbed (moves_of_other moved) t call' pending
        cases other

def headerAt (hash parentHash : B256) (number timestamp : UInt64) : SealedHeader :=
  ⟨hash, parentHash, number, timestamp, 0, []⟩

def answering (header : SealedHeader) : Answers :=
  ⟨.valid none, .valid none, .valid, ⟨.valid (some 1), some (.ok header), .valid, .valid none⟩⟩

def genesis : SealedHeader := headerAt 10 0 0 100

/-- Task 1 checks its parent; task 2 takes the guard and derives a block on that
parent; then the queued call of task 1 is served under the guard. -/
def derivedBetween : List Step :=
  [.check 1 (commitOne genesis 2), .beginReconcile 2, .enqueue 2 (.derive (headerAt 11 10 1 102)),
    .serve (answering (headerAt 11 10 1 102)), .enqueueSequence 1, .serve (answering (headerAt 12 11 2 102))]

end Committer

end Eez.Driver
