import EezRollup.Composition.Finalize

/-! What a run leaves of a builder. A dispatch that fails inside its execution leaves its slot
pending for good. -/
open List
namespace Eez

/-- The outcome that is left in a call's slot. -/
def Answers.outcome {σ : Type} (a : Answers σ) : ExecutionOutcome :=
  match a.result with
  | .ok outcome => outcome
  | .error _ => .pending

namespace CompositionBuilder
variable {σ : Type} {b b' c : CompositionBuilder σ} {target : UInt64} {req : ExecutionRequest} {a : Answers σ}
  {session : TargetSession σ}

def entered (b : CompositionBuilder σ) (target : UInt64) (req : ExecutionRequest) (session : TargetSession σ) :
    CompositionBuilder σ :=
  { b with
    sessions := Function.update b.sessions target none
    recorded := b.recorded ++ [pendingAction target req]
    pendingSnapshots := Function.update b.pendingSnapshots b.recorded.length (some session.state)
    checkedOut := Function.update b.checkedOut target true }

/-- How a dispatch comes to its target's execution, or fails before it. -/
inductive Enters (b : CompositionBuilder σ) (target : UInt64) (req : ExecutionRequest) (a : Answers σ) :
    Except Failure (Nat × TargetSession σ) × CompositionBuilder σ → Prop where
  | stuck {e : ExecutorError} {d : CompositionBuilder σ}
      (failed : b.processPendingRollbacks a.rollback = (.error e, d)) : Enters b target req a (.error (.executor e), d)
  | refused {e : ExecutorError} {d : CompositionBuilder σ}
      (drained : b.processPendingRollbacks a.rollback = (.ok (), d)) (refused : d.admission target req a = .error e) :
      Enters b target req a (.error (.executor e), d)
  | unmarked {e : ExecutorError} {d : CompositionBuilder σ} {session : TargetSession σ}
      (drained : b.processPendingRollbacks a.rollback = (.ok (), d)) (admitted : d.admission target req a = .ok session)
      (failed : a.checkpoint = some e) :
      Enters b target req a (.error (.executor e), d.setSession target (some session))
  | opened {d : CompositionBuilder σ} {session : TargetSession σ}
      (drained : b.processPendingRollbacks a.rollback = (.ok (), d)) (admitted : d.admission target req a = .ok session)
      (marked : a.checkpoint = none) :
      Enters b target req a (.ok (d.recorded.length, session), d.entered target req session)

theorem enter_of_drained (drained : b.processPendingRollbacks a.rollback = (.ok (), d)) : b.enter target req a =
      match d.admission target req a, a.checkpoint with
      | .error e, _ => (.error (.executor e), d)
      | .ok session, some e => (.error (.executor e), d.setSession target (some session))
      | .ok session, none => (.ok (d.recorded.length, session), d.entered target req session) := by
  cases admitted : d.admission target req a with
  | error e => simp only [enter, drained, openCall, admitted]
  | ok session =>
    cases checkpoint : a.checkpoint with
    | some e => simp only [enter, drained, openCall, admitted, checkpoint]
    | none =>
      simp only [enter, drained, openCall, admitted, checkpoint, setSession, checkOut, Function.update_self,
        Function.update_idem, entered]

theorem enter_enters : Enters b target req a (b.enter target req a) := by
  obtain ⟨⟨result, d⟩, drained⟩ : ∃ out, b.processPendingRollbacks a.rollback = out := ⟨_, rfl⟩
  cases result with
  | error e => simpa only [enter, drained] using .stuck drained
  | ok u =>
    rw [enter_of_drained drained]
    split
    · exact .refused drained ‹_›
    · exact .unmarked drained ‹_› ‹_›
    · exact .opened drained ‹_› ‹_›

theorem admission_eq_ok (admitted : b.admission target req a = .ok session) :
    b.checkedOut target = false ∧ b.rollups.contains target = true ∧ ∀ held ∈ b.sessions target, held = session := by
  unfold admission refusal at admitted
  split at admitted
  · cases admitted
  · rename_i accepted
    split_ifs at accepted with _ out unknown
    refine ⟨by simpa using out, by simpa using unknown, ?_⟩
    intro held isHeld
    rw [Option.mem_def.mp isHeld] at admitted
    exact Except.ok.inj admitted

/-- `b` became `b'`: the same rollups are checked out, every session is still
there, none was put in the place of a checked-out one, and slots were only added. -/
structure Conserves (b b' : CompositionBuilder σ) : Prop where
  entryRollupId : b'.entryRollupId = b.entryRollupId
  rollups : b'.rollups = b.rollups
  checkedOut : b'.checkedOut = b.checkedOut
  recorded : b.recorded <+: b'.recorded
  held : ∀ id session, b.sessions id = some session → ∃ state, b'.sessions id = some ⟨session.serial, state⟩
  out : ∀ id, b.checkedOut id = true → b.sessions id = none → b'.sessions id = none

theorem Conserves.refl (b : CompositionBuilder σ) : Conserves b b :=
  ⟨rfl, rfl, rfl, prefix_rfl, fun _ session held => ⟨session.state, held⟩, fun _ _ none => none⟩

theorem Conserves.trans (first : Conserves b c) (second : Conserves c b') : Conserves b b' where
  entryRollupId := second.entryRollupId.trans first.entryRollupId
  rollups := second.rollups.trans first.rollups
  checkedOut := second.checkedOut.trans first.checkedOut
  recorded := first.recorded.trans second.recorded
  held id session held := by
    obtain ⟨state, kept⟩ := first.held id session held
    exact second.held id ⟨session.serial, state⟩ kept
  out id out none := second.out id (first.checkedOut ▸ out) (first.out id out none)

theorem rollBack_conserves :
    Conserves b (rollBack faults queued handled b).2 ∧ (rollBack faults queued handled b).2.recorded = b.recorded := by
  have dropped : ∀ (b : CompositionBuilder σ) idx, Conserves b (b.dropSnapshot idx) := fun b idx =>
    ⟨rfl, rfl, rfl, prefix_rfl, fun _ session held => ⟨session.state, held⟩, fun _ _ none => none⟩
  induction queued generalizing b handled with
  | nil => exact ⟨.refl b, rfl⟩
  | cons idx queued ih =>
    rw [rollBack]
    split
    · exact ih
    · split
      · exact ⟨(dropped b idx).trans ih.1, ih.2⟩
      · split_ifs
        · exact ⟨(dropped b idx).trans ih.1, ih.2⟩
        · split
          · exact ⟨(dropped b idx).trans ih.1, ih.2⟩
          · rename_i _ snap _ _ call _ _ _ session here
            split
            · exact ⟨dropped b idx, rfl⟩
            · refine ⟨Conserves.trans ?_ ih.1, ih.2⟩
              refine ⟨rfl, rfl, rfl, prefix_rfl, fun id old held => ?_, fun id _ none => ?_⟩
              · by_cases same : id = call.targetRollupId
                · subst same
                  obtain rfl := Option.some.inj (here.symm.trans held)
                  exact ⟨snap, Function.update_self ..⟩
                · exact ⟨old.state, (Function.update_of_ne same _ _).trans held⟩
              · have other : id ≠ call.targetRollupId := by
                  rintro rfl
                  exact absurd (here.symm.trans none) (by simp)
                exact (Function.update_of_ne other _ _).trans none

theorem processPendingRollbacks_conserves (b : CompositionBuilder σ) (faults : Nat → Option ExecutorError) :
    Conserves b (b.processPendingRollbacks faults).2 ∧ (b.processPendingRollbacks faults).2.recorded = b.recorded := by
  have emptied : Conserves b { b with pendingRollbacks := [] } :=
    ⟨rfl, rfl, rfl, prefix_rfl, fun _ session held => ⟨session.state, held⟩, fun _ _ none => none⟩
  exact ⟨emptied.trans rollBack_conserves.1, rollBack_conserves.2⟩

theorem setSession_conserves (admitted : b.admission target req a = .ok session) :
    Conserves b (b.setSession target (some session)) := by
  obtain ⟨notOut, -, same⟩ := admission_eq_ok admitted
  refine ⟨rfl, rfl, rfl, prefix_rfl, fun id old held => ?_, fun id out none => ?_⟩
  · by_cases at_target : id = target
    · subst at_target
      obtain rfl := same old held
      exact ⟨old.state, Function.update_self ..⟩
    · exact ⟨old.state, (Function.update_of_ne at_target _ _).trans held⟩
  · have other : id ≠ target := by
      rintro rfl
      exact absurd out (by simp [notOut])
    exact (Function.update_of_ne other _ _).trans none

theorem checkIn_conserves (admitted : b.admission target req a = .ok session)
    (executed : Conserves (b.entered target req session) c) (state : σ) :
    Conserves b (c.checkIn target { session with state }) := by
  obtain ⟨notOut, -, same⟩ := admission_eq_ok admitted
  refine ⟨executed.entryRollupId, executed.rollups, ?_, ?_, fun id old held => ?_, fun id out none => ?_⟩
  · simp only [checkIn, executed.checkedOut, entered, Function.update_idem]
    exact Function.update_eq_self_iff.mpr notOut.symm
  · exact (prefix_append _ _).trans executed.recorded
  · by_cases at_target : id = target
    · subst at_target
      obtain rfl := same old held
      exact ⟨state, Function.update_self ..⟩
    · obtain ⟨state, kept⟩ := executed.held id old ((Function.update_of_ne at_target _ _).trans held)
      exact ⟨state, (Function.update_of_ne at_target _ _).trans kept⟩
  · have other : id ≠ target := by
      rintro rfl
      exact absurd out (by simp [notOut])
    refine (Function.update_of_ne other _ _).trans (executed.out id ?_ ?_)
    · exact (Function.update_of_ne other _ _).trans out
    · exact (Function.update_of_ne other _ _).trans none

theorem enter_failed (handed : b.enter target req a = (.error e, c)) :
    Conserves b c ∧ c.recorded = b.recorded ∧ ∃ e', e = .executor e' := by
  have drains := processPendingRollbacks_conserves b a.rollback
  have enters : Enters b target req a (b.enter target req a) := enter_enters
  rw [handed] at enters
  cases enters with
  | stuck failed =>
    rw [failed] at drains
    exact ⟨drains.1, drains.2, _, rfl⟩
  | refused drained refused =>
    rw [drained] at drains
    exact ⟨drains.1, drains.2, _, rfl⟩
  | unmarked drained admitted failed =>
    rw [drained] at drains
    exact ⟨drains.1.trans (setSession_conserves admitted), drains.2, _, rfl⟩

theorem enter_opened (handed : b.enter target req a = (.ok (idx, session), c)) :
    ∃ d, b.processPendingRollbacks a.rollback = (.ok (), d) ∧ d.admission target req a = .ok session ∧
      c = d.entered target req session ∧ d.recorded = b.recorded ∧ idx = b.recorded.length := by
  have drains := processPendingRollbacks_conserves b a.rollback
  have enters : Enters b target req a (b.enter target req a) := enter_enters
  rw [handed] at enters
  cases enters with
  | opened drained admitted marked =>
    rw [drained] at drains
    exact ⟨_, drained, admitted, rfl, drains.2, congrArg List.length drains.2⟩

theorem map_set_same {α β : Type*} {f : α → β} {l : List α} {i} {x y : α} (found : l[i]? = some y)
    (same : f x = f y) : (l.set i x).map f = l.map f := by
  obtain ⟨inside, rfl⟩ := List.getElem?_eq_some_iff.mp found
  refine ext_getElem (by simp) fun j _ _ => ?_
  simp only [getElem_map, getElem_set]
  split_ifs with at_i
  · subst at_i
    exact same
  · rfl

theorem grown_set {α : Type*} {l r} (grown : l <+: r) (x : α) : l <+: r.set l.length x := by
  obtain ⟨later, rfl⟩ := grown
  rw [set_append_right _ _ (Nat.le_refl _)]
  exact prefix_append _ _

section
variable {execute : CompositionBuilder σ → CompositionBuilder σ} (conserves : ∀ c, Conserves c (execute c))
include conserves

theorem dispatchCall_opened (handed : b.enter target req a = (.ok (idx, session), c)) :
    (execute c).recorded[idx]? = some (pendingAction target req) ∧
    b.dispatchCall target req a execute = (a.result.mapError .executor,
      { (execute c).checkIn target { session with state := a.write session.state } with
        recorded := (execute c).recorded.set idx { pendingAction target req with outcome := a.outcome } }) := by
  obtain ⟨d, -, -, rfl, recorded, rfl⟩ := enter_opened handed
  obtain ⟨later, grown⟩ := (conserves (d.entered target req session)).recorded
  have slot : (execute (d.entered target req session)).recorded[b.recorded.length]? =
    some (pendingAction target req) := by
    rw [← grown, entered, recorded, append_assoc, getElem?_append_right (Nat.le_refl _), Nat.sub_self]
    rfl
  refine ⟨slot, ?_⟩
  simp only [dispatchCall, handed, Answers.outcome]
  cases a.result with
  | error e =>
    obtain ⟨inside, same⟩ := List.getElem?_eq_some_iff.mp slot
    simp only [Except.mapError, pendingAction] at same ⊢
    rw [← same, set_getElem_self]
    rfl
  | ok response => simp only [closeCall, checkIn, setSession, slot, pendingAction, if_true, Except.mapError]

/-- Whatever its execution does to the builder, if it conserves it so does the
dispatch. The dispatch does not panic, and one that fails has no slot or leaves
it pending. -/
theorem dispatchCall_spec : Conserves b (b.dispatchCall target req a execute).2 ∧
    (∀ expected, (b.dispatchCall target req a execute).1 ≠ .error (.panicked expected)) ∧
    ∀ e, (b.dispatchCall target req a execute).1 = .error e →
      (b.dispatchCall target req a execute).2.recorded = b.recorded ∨
      pendingAction target req ∈ (b.dispatchCall target req a execute).2.recorded := by
  obtain ⟨⟨result, c⟩, handed⟩ : ∃ out, b.enter target req a = out := ⟨_, rfl⟩
  cases result with
  | error e =>
    obtain ⟨conserved, recorded, e', rfl⟩ := enter_failed handed
    rw [show b.dispatchCall target req a execute = (.error (.executor e'), c) by simp only [dispatchCall, handed]]
    exact ⟨conserved, by simp, fun _ _ => .inl recorded⟩
  | ok opened =>
    obtain ⟨idx, session⟩ := opened
    obtain ⟨slot, dispatched⟩ := dispatchCall_opened conserves handed
    obtain ⟨d, drained, admitted, rfl, recorded, rfl⟩ := enter_opened handed
    have drains := processPendingRollbacks_conserves b a.rollback
    rw [drained] at drains
    have back := drains.1.trans (checkIn_conserves admitted (conserves _) (a.write session.state))
    rw [dispatched]
    refine ⟨⟨back.1, back.2, back.3, grown_set back.recorded _, back.5, back.6⟩, ?_, fun e failed => .inr ?_⟩
    · cases a.result <;> simp [Except.mapError]
    · obtain ⟨inside, -⟩ := List.getElem?_eq_some_iff.mp slot
      have pending : a.outcome = .pending := by
        unfold Answers.outcome
        cases result : a.result with
        | error _ => rfl
        | ok _ => simp [result, Except.mapError] at failed
      rw [pending]
      exact mem_set inside _

end

/-- The end of a frame changes nothing, or it reverted with calls in it: their
head is marked and their checkpoints are queued. -/
theorem endFrame_cases (b : CompositionBuilder σ) (start : Nat) (reverted : Bool) :
    b.endFrame start reverted = b ∧ (reverted = true → b.recorded.length ≤ start) ∨
    ∃ call span, reverted = true ∧ b.recorded[start]? = some call ∧ b.endFrame start reverted = { b with
      recorded := b.recorded.set start { call with revertSpan := some span }
      pendingRollbacks := b.pendingRollbacks ++ (List.range' start
        (min (start + min (b.recorded.length - start) (2 ^ 32 - 1)) b.recorded.length - start)).filter
          fun i => (b.pendingSnapshots i).isSome } := by
  cases reverted with
  | false => exact .inl ⟨rfl, by simp⟩
  | true =>
    cases found : b.recorded[start]? with
    | none =>
      refine .inl ⟨by simp [endFrame, annotateRevertSpan, found], fun _ => List.getElem?_eq_none_iff.mp found⟩
    | some call =>
      obtain ⟨inside, -⟩ := List.getElem?_eq_some_iff.mp found
      have span : min (b.recorded.length - start) (2 ^ 32 - 1) ≠ 0 := by omega
      refine .inr ⟨call, UInt32.ofNat (min (b.recorded.length - start) (2 ^ 32 - 1)), rfl, rfl, ?_⟩
      simp only [endFrame, annotateRevertSpan, found, if_true, if_neg span]

theorem endFrame_conserves (conserves : Conserves b c) (reverted : Bool) :
    Conserves b (c.endFrame b.recorded.length reverted) := by
  obtain ⟨same, -⟩ | ⟨call, span, -, -, same⟩ := c.endFrame_cases b.recorded.length reverted <;> rw [same]
  · exact conserves
  · exact ⟨conserves.1, conserves.2, conserves.3, grown_set conserves.recorded _, conserves.5, conserves.6⟩

/-- No rollup that is checked out has a session in the builder. -/
def Consistent (b : CompositionBuilder σ) : Prop := ∀ id, b.checkedOut id = true → b.sessions id = none

theorem Conserves.consistent (conserves : Conserves b b') (consistent : b.Consistent) : b'.Consistent := by
  intro id out
  rw [conserves.checkedOut] at out
  exact conserves.out id out (consistent id out)

theorem enter_consistent (consistent : b.Consistent) (handed : b.enter target req a = (.ok (idx, session), c)) :
    c.Consistent := by
  obtain ⟨d, drained, -, rfl, -⟩ := enter_opened handed
  have drains := (processPendingRollbacks_conserves b a.rollback).1.consistent consistent
  rw [drained] at drains
  intro id out
  by_cases at_target : id = target
  · subst at_target
    exact Function.update_self ..
  · refine (Function.update_of_ne at_target _ _).trans (drains id ?_)
    exact (Function.update_of_ne at_target _ _).symm.trans out

end CompositionBuilder

open CompositionBuilder

variable {σ : Type}

theorem Script.run_conserves (script : Script σ) (b : CompositionBuilder σ) : Conserves b (script.run b) := by
  induction script generalizing b with
  | done => exact .refl b
  | dispatch target req a body rest body_ih rest_ih => exact (dispatchCall_spec body_ih).1.trans (rest_ih _)
  | frame reverted body rest body_ih rest_ih =>
    exact (endFrame_conserves (body_ih b) reverted).trans (rest_ih _)

/-- From any builder in which checked-out rollups have no session, as new ones
are and as every execution is handed one. After a dispatch, failed or not, the
same rollups are checked out and every session is there, the target's with the
state its execution left. A slot that a failed dispatch leaves pending is never
finalized. -/
theorem dispatchCall_returns_sessions :
    (∀ entry rollups seeds, ((new entry rollups : CompositionBuilder σ).withSessions seeds).checkedOut =
      fun _ => false) ∧
    ∀ (b : CompositionBuilder σ) (target : UInt64) (req : ExecutionRequest) (a : Answers σ) (body : Script σ),
      b.Consistent →
      (b.dispatchCall target req a body.run).2.Consistent ∧ Conserves b (b.dispatchCall target req a body.run).2 ∧
      (∀ idx session c, b.enter target req a = (.ok (idx, session), c) → c.Consistent ∧
        (b.dispatchCall target req a body.run).2.sessions target = some ⟨session.serial, a.write session.state⟩) ∧
      (∀ expected, (b.dispatchCall target req a body.run).1 ≠ .error (.panicked expected)) ∧
      ∀ e, (b.dispatchCall target req a body.run).1 = .error e →
        (b.dispatchCall target req a body.run).2.recorded = b.recorded ∨
        ∀ (later : Script σ) keccak composition,
          (later.run (b.dispatchCall target req a body.run).2).finalize keccak ≠ .ok composition := by
  refine ⟨fun _ _ _ => rfl, fun b target req a body consistent => ?_⟩
  obtain ⟨conserves, quiet, fails⟩ :
      Conserves b (b.dispatchCall target req a body.run).2 ∧ _ ∧ _ := dispatchCall_spec body.run_conserves
  refine ⟨conserves.consistent consistent, conserves, ?_, quiet, fun e failed => ?_⟩
  · intro idx session c handed
    refine ⟨enter_consistent consistent handed, ?_⟩
    rw [(dispatchCall_opened body.run_conserves handed).2]
    exact Function.update_self ..
  · refine (fails e failed).imp_right fun slot later keccak composition finalized => ?_
    have kept := (later.run_conserves (b.dispatchCall target req a body.run).2).recorded
    obtain ⟨_, returned⟩ := (finalize_partitions finalized).returned _ (kept.subset slot)
    exact absurd returned.outcome (by simp [pendingAction])

def sampleBuilder : CompositionBuilder Nat := new 1 ⟨[(3, .evmL2Style), (0, .evmL1Style)], by decide⟩

def sampleRequest (source : UInt64) : ExecutionRequest := ⟨.mutable, 5, [1], 0, 6, source⟩

def sampleAnswers (result : Except ExecutorError ExecutionOutcome) : Answers Nat :=
  ⟨fun _ => none, .ok ⟨8, 20⟩, none, (· + 1), result⟩

/-- The execution of rollup 3 calls itself, which is refused, and fails. -/
theorem sessions_back_after_failure :
    (sampleBuilder.dispatchCall 3 (sampleRequest 1) (sampleAnswers (.error (.failed "halted")))
      (Script.dispatch 3 (sampleRequest 3) (sampleAnswers (.ok (.resolved [] true))) .done .done).run).2.sessions 3 =
        some ⟨8, 21⟩ ∧
    ∀ (later : Script Nat) keccak composition,
      (later.run (sampleBuilder.dispatchCall 3 (sampleRequest 1) (sampleAnswers (.error (.failed "halted")))
        (Script.dispatch 3 (sampleRequest 3) (sampleAnswers (.ok (.resolved [] true))) .done .done).run).2).finalize
        keccak ≠
          .ok composition := by
  obtain ⟨-, -, back, -, pending⟩ := dispatchCall_returns_sessions.2 sampleBuilder 3 (sampleRequest 1)
    (sampleAnswers (.error (.failed "halted")))
    (.dispatch 3 (sampleRequest 3) (sampleAnswers (.ok (.resolved [] true))) .done .done) fun _ _ => rfl
  refine ⟨(back 0 ⟨8, 20⟩ _ rfl).2, (pending _ rfl).resolve_left ?_⟩
  exact fun contra => absurd (congrArg List.length contra) (by decide)

end Eez
