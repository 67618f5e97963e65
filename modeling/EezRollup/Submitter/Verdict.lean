import EezRollup.Lib.Runs
import EezRollup.Submitter.Observe

/-! A verdict of failure is safe once the target block is known to be built without the bundle, or
the relay never had it. -/
open List
namespace Eez.Submitter
open Codec Scan

/-- A transaction that posts no batch settles nothing, and there is a last root
exactly when an entry was applied. -/
def Landing.WellFormed (l : Landing) : Prop :=
  (l.posted = false → l.settlement = Settlement.none) ∧ (l.settlement.finalState = none ↔ l.settlement.applied = [])

instance (l : Landing) : Decidable l.WellFormed := inferInstanceAs (Decidable (_ ∧ _))

namespace Watch

variable (bundle : Bundle) (w : Watch)

def handed (chain : List L1Block) : Watch := ⟨chain, false, 0, 0, .start⟩

/-- The chain grows by later blocks, our transaction is only in the target block
of a bundle the relay took and at the pin, a bundle refused with a JSON-RPC error
is not taken, and what the reads show is what the chain has. -/
def Admits : Event → Prop
  | .produce block => (∀ last ∈ w.chain.getLast?, last.timestamp < block.timestamp) ∧
      ∀ l ∈ block.landing, w.taken = true ∧ w.chain.length = w.targetBlock ∧
        (∀ pin ∈ bundle.target.pinTimestamp, block.timestamp = pin) ∧ l.WellFormed
  | .resolve (.ok head) => head = w.head
  | .post taken (.rpcError code _) => taken = false ∧ code ≠ some (-32601)
  | .readReceipt .withoutNumber => w.landed ≠ none
  | .readSettlement (.ok posts) => ∀ post ∈ posts.find? (·.txHash = bundle.txHash),
      ∀ p ∈ w.landed, p.2.posted = true ∧ post.settlement = p.2.settlement
  | _ => True

instance decidableAdmits : ∀ event, Decidable (w.Admits bundle event)
  | .produce _ => inferInstanceAs (Decidable (_ ∧ _))
  | .resolve (.ok _) => inferInstanceAs (Decidable (_ = _))
  | .resolve (.error _) => isTrue trivial
  | .post _ (.rpcError _ _) => inferInstanceAs (Decidable (_ ∧ _))
  | .post _ (.sendFailed _) | .post _ (.httpStatus _) | .post _ (.undecodable _) | .post _ .result => isTrue trivial
  | .readReceipt .withoutNumber => inferInstanceAs (Decidable (_ ≠ _))
  | .readReceipt .answered | .readReceipt .failed => isTrue trivial
  | .readSettlement (.ok _) => inferInstanceAs (Decidable (∀ _ ∈ _, _))
  | .readSettlement (.error _) => isTrue trivial
  | .readPinned _ | .readHead _ | .mark _ => isTrue trivial

/-- The event decides nothing that the chain has left open: a POST without an
answer means that the relay did not take the bundle, a receipt has its block
number, the scan does not give up, and the head is past the target only if the
target block was there at the receipt read before it. -/
def Conclusive : Event → Prop
  | .post taken (.sendFailed _) | .post taken (.httpStatus _) | .post taken (.undecodable _) => taken = false
  | .readReceipt read => read ≠ .withoutNumber
  | .readSettlement (.error e) => e.isTerminal = false
  | .readHead answered => answered = true → w.targetBlock < w.head → w.targetBlock < w.seen
  | _ => True

instance decidableConclusive : ∀ event, Decidable (w.Conclusive event)
  | .post _ (.sendFailed _) | .post _ (.httpStatus _) | .post _ (.undecodable _) => inferInstanceAs (Decidable (_ = _))
  | .post _ (.rpcError _ _) | .post _ .result => isTrue trivial
  | .readReceipt _ => inferInstanceAs (Decidable (_ ≠ _))
  | .readSettlement (.error _) => inferInstanceAs (Decidable (_ = _))
  | .readSettlement (.ok _) => isTrue trivial
  | .readHead _ => inferInstanceAs (Decidable (_ → _))
  | .produce _ | .resolve _ | .readPinned _ | .mark _ => isTrue trivial

/-- A failed batch is applied nowhere, a settled one up to the expected root, and
one settled in part up to another. -/
def Truthful : Prop :=
  match w.phase with
  | .marked .settled => ∃ b ∈ w.chain, b.applied ≠ [] ∧ b.finalState = some bundle.expectedFinalRoot
  | .marked .settledPartial => ∃ b ∈ w.chain, b.applied ≠ [] ∧ b.finalState ≠ some bundle.expectedFinalRoot
  | .marked (.failed _) => ∀ b ∈ w.chain, b.applied = []
  | _ => True

def Dead : Prop :=
  (∀ b ∈ w.chain, b.applied = []) ∧ (w.taken = true → w.targetBlock < w.chain.length)

/-- What is known of the chain at each point of the loop. -/
def Knows : Phase → Prop
  | .start | .posting => w.taken = false
  | .receipt | .fallback => True
  | .settlement l1Block posted => ∃ b l, w.chain[l1Block]? = some b ∧ b.landing = some l ∧ l.posted = posted
  | .pinned _ | .head => ∀ b ∈ w.chain.take w.seen, b.landing = none
  | .returned (.ok (.included _ settlement)) => ∃ b ∈ w.chain, ∃ l, b.landing = some l ∧ l.settlement = settlement
  | .returned _ => w.Dead
  | .marked (.failed _) => w.Dead
  | .marked .settled => ∃ b ∈ w.chain, b.applied ≠ [] ∧ b.finalState = some bundle.expectedFinalRoot
  | .marked .settledPartial => ∃ b ∈ w.chain, b.applied ≠ [] ∧ b.finalState ≠ some bundle.expectedFinalRoot

structure Consistent : Prop where
  placed : ∀ n b l, w.chain[n]? = some b → b.landing = some l → w.taken = true ∧ n = w.targetBlock ∧ l.WellFormed
  seen : w.seen ≤ w.chain.length
  knows : w.Knows bundle w.phase

variable {bundle w}

theorem Consistent.truthful (inv : w.Consistent bundle) : w.Truthful bundle := by
  have knows := inv.knows
  unfold Truthful
  split
  next eq =>
    rw [eq] at knows
    exact knows
  next eq =>
    rw [eq] at knows
    exact knows
  next eq =>
    rw [eq] at knows
    exact knows.1
  next => trivial

theorem handed_consistent {chain} (fresh : ∀ b ∈ chain, b.landing = none) : (handed chain).Consistent bundle := by
  constructor
  · intro n b l hb hl
    rw [fresh b (mem_of_getElem? hb)] at hl
    cases hl
  · exact Nat.zero_le _
  · exact rfl

theorem landed_eq_none (none : w.landed = none) : ∀ b ∈ w.chain, b.landing = Option.none := by
  intro b hb
  obtain ⟨n, hn⟩ := mem_iff_getElem?.mp hb
  have empty := filterMap_eq_nil_iff.mp (head?_eq_none_iff.mp none)
  have := empty (b, n) (mk_mem_zipIdx_iff_getElem?.mpr hn)
  exact Option.map_eq_none_iff.mp this

theorem landed_eq_some (some : w.landed = some (n, l)) :
    ∃ b, w.chain[n]? = Option.some b ∧ b.landing = Option.some l := by
  have mem := mem_of_mem_head? (Option.mem_def.mpr some)
  obtain ⟨⟨b, m⟩, hb, eq⟩ := mem_filterMap.mp mem
  obtain ⟨l', hl, eq⟩ := Option.map_eq_some_iff.mp eq
  cases eq
  exact ⟨b, mk_mem_zipIdx_iff_getElem?.mp hb, hl⟩

section
variable (inv : w.Consistent bundle)
include inv

theorem Consistent.landed_eq {n : Nat} (hb : w.chain[n]? = some b)
    (hl : b.landing = some l) : w.landed = some (n, l) := by
  cases shown : w.landed with
  | none =>
    rw [landed_eq_none shown b (mem_of_getElem? hb)] at hl
    cases hl
  | some p =>
    obtain ⟨b', hb', hl'⟩ := landed_eq_some shown
    have here := (inv.placed n b l hb hl).2.1
    have there := (inv.placed p.1 b' p.2 hb' hl').2.1
    rw [there, ← here, hb] at hb'
    cases hb'
    rw [hl] at hl'
    cases hl'
    rw [here, ← there]

theorem Consistent.dead_of_excluded (built : w.chain[w.targetBlock]? = some b)
    (without : b.landing = none) : w.Dead := by
  refine ⟨?_, fun _ => (List.getElem?_eq_some_iff.mp built).1⟩
  intro b' hb'
  obtain ⟨n, hn⟩ := mem_iff_getElem?.mp hb'
  unfold L1Block.applied
  cases hl : b'.landing with
  | none => rfl
  | some l =>
    rw [(inv.placed n b' l hn hl).2.1, built] at hn
    cases hn
    rw [without] at hl
    cases hl

theorem Consistent.dead_of_unapplied (hb : b ∈ w.chain) (hl : b.landing = some l)
    (nothing : l.settlement.applied = []) : w.Dead := by
  obtain ⟨n, hn⟩ := mem_iff_getElem?.mp hb
  have shown := inv.landed_eq hn hl
  refine ⟨?_, fun _ => ?_⟩
  · intro b' hb'
    unfold L1Block.applied
    cases hl' : b'.landing with
    | none => rfl
    | some l' =>
      obtain ⟨n', hn'⟩ := mem_iff_getElem?.mp hb'
      have shown' := inv.landed_eq hn' hl'
      rw [shown] at shown'
      cases shown'
      exact nothing
  · rw [← (inv.placed n b l hn hl).2.1]
    exact (List.getElem?_eq_some_iff.mp hn).1

theorem Consistent.dead_of_refused (refused : w.taken = false) : w.Dead := by
  refine ⟨?_, fun taken => ?_⟩
  · intro b hb
    unfold L1Block.applied
    cases hl : b.landing with
    | none => rfl
    | some l =>
      obtain ⟨n, hn⟩ := mem_iff_getElem?.mp hb
      have taken := (inv.placed n b l hn hl).1
      rw [refused] at taken
      cases taken
  · rw [refused] at taken
    cases taken

theorem Consistent.enter {phase} (knows : w.Knows bundle phase) : ({ w with phase } : Watch).Consistent bundle := by
  refine ⟨inv.placed, inv.seen, ?_⟩
  exact match phase with
    | .start | .posting | .receipt | .fallback | .settlement _ _ | .pinned _ | .head
    | .returned (.ok (.included _ _)) | .returned (.ok (.dropped _)) | .returned (.error _)
    | .marked (.failed _) | .marked .settled | .marked .settledPartial => knows

end

theorem Dead.produce (dead : w.Dead) (allowed : w.Admits bundle (.produce block)) :
    ({ w with chain := w.chain ++ [block] } : Watch).Dead := by
  constructor
  · intro b hb
    rcases mem_append.mp hb with hb | hb
    · exact dead.1 b hb
    · obtain rfl := mem_singleton.mp hb
      unfold L1Block.applied
      cases hl : b.landing with
      | none => rfl
      | some l =>
        obtain ⟨taken, here, -⟩ := allowed.2 l hl
        have := dead.2 taken
        omega
  · intro taken
    have := dead.2 taken
    simp only [length_append, length_singleton]
    omega

section
variable (inv : w.Consistent bundle)
include inv

theorem Consistent.produce (allowed : w.Admits bundle (.produce block)) :
    ({ w with chain := w.chain ++ [block] } : Watch).Consistent bundle := by
  have knows := inv.knows
  constructor
  · intro n b l hb hl
    rcases Nat.lt_or_ge n w.chain.length with old | new
    · rw [getElem?_append_left old] at hb
      exact inv.placed n b l hb hl
    · obtain ⟨bound, -⟩ := List.getElem?_eq_some_iff.mp hb
      have last : n = w.chain.length := by
        simp only [length_append, length_singleton] at bound
        omega
      subst last
      rw [getElem?_concat_length] at hb
      cases hb
      obtain ⟨taken, here, -, wf⟩ := allowed.2 l hl
      exact ⟨taken, here, wf⟩
  · exact inv.seen.trans (by simp)
  · -- a longer chain keeps what is known: what was found is still there, and the
    -- blocks of the receipt read are the same
    change Knows bundle _ w.phase
    cases phase : w.phase with
    | start | posting | receipt | fallback =>
      rw [phase] at knows
      exact knows
    | settlement l1Block posted =>
      rw [phase] at knows
      obtain ⟨b, l, hb, hl⟩ := knows
      refine ⟨b, l, ?_, hl⟩
      exact (getElem?_append_left (List.getElem?_eq_some_iff.mp hb).1).trans hb
    | pinned _ | head =>
      rw [phase] at knows
      intro b hb
      rw [take_append_of_le_length inv.seen] at hb
      exact knows b hb
    | returned outcome =>
      rw [phase] at knows
      match outcome, knows with
      | .ok (.included _ _), ⟨b, hb, rest⟩ => exact ⟨b, mem_append_left _ hb, rest⟩
      | .ok (.dropped _), dead | .error _, dead => exact Dead.produce dead allowed
    | marked verdict =>
      rw [phase] at knows
      match verdict, knows with
      | .settled, ⟨b, hb, rest⟩ | .settledPartial, ⟨b, hb, rest⟩ => exact ⟨b, mem_append_left _ hb, rest⟩
      | .failed _, dead => exact Dead.produce dead allowed

theorem Consistent.resolve (phase : w.phase = .start) (headRead : Except String Nat) :
    (w.resolve bundle headRead).Consistent bundle := by
  have knows := inv.knows
  rw [phase] at knows
  unfold Watch.resolve
  split
  next targetBlock _ =>
    refine ⟨?_, inv.seen, knows⟩
    intro n b l hb hl
    have taken := (inv.placed n b l hb hl).1
    rw [show w.taken = false from knows] at taken
    cases taken
  next => exact inv.enter (inv.dead_of_refused knows)

theorem Consistent.post (phase : w.phase = .posting) {taken reply}
    (allowed : w.Admits bundle (.post taken reply)) (clear : w.Conclusive (.post taken reply)) :
    (w.post taken reply).Consistent bundle := by
  have knows : w.taken = false := by
    have knows := inv.knows
    rw [phase] at knows
    exact knows
  have placed : ∀ n b l, w.chain[n]? = some b → b.landing = some l →
      taken = true ∧ n = w.targetBlock ∧ l.WellFormed := by
    intro n b l hb hl
    have had := (inv.placed n b l hb hl).1
    rw [knows] at had
    cases had
  have watch : ({ w with taken, phase := .receipt } : Watch).Consistent bundle := ⟨placed, inv.seen, trivial⟩
  have refused (e : L1Error) (untaken : taken = false) :
      ({ w with taken, phase := .returned (.error e) } : Watch).Consistent bundle :=
    watch.enter (watch.dead_of_refused untaken)
  cases reply with
  | sendFailed e | httpStatus e | undecodable e => exact refused _ clear
  | result => exact watch
  | rpcError code err =>
    have answer : postBundle (.rpcError code err) = .error (.submission ("eth_sendBundle: " ++ err)) :=
      if_neg allowed.2
    simp only [Watch.post, answer]
    exact refused _ allowed.1

theorem Consistent.readReceipt {read} (clear : w.Conclusive (.readReceipt read)) :
    (w.readReceipt bundle read).Consistent bundle := by
  have missed (phase : Phase) (none : w.landed = none) (knows : ∀ w' : Watch,
      (∀ b ∈ w'.chain.take w'.seen, b.landing = Option.none) → w'.Knows bundle phase) :
      ({ w with seen := w.chain.length, phase } : Watch).Consistent bundle := by
    refine ⟨inv.placed, Nat.le_refl _, knows _ ?_⟩
    intro b hb
    exact landed_eq_none none b (mem_of_mem_take hb)
  cases read with
  | failed => exact inv
  | withoutNumber => exact absurd rfl clear
  | answered =>
    simp only [Watch.readReceipt]
    split
    next l1Block l shown =>
      obtain ⟨b, hb, hl⟩ := landed_eq_some shown
      exact inv.enter ⟨b, l, hb, hl, rfl⟩
    next none =>
      split
      · exact missed _ none fun _ known => known
      · exact missed _ none fun _ known => known

/-- The scan's answer about our post is the settlement of the landing. -/
theorem Consistent.readSettlement (phase : w.phase = .settlement l1Block posted)
    (allowed : w.Admits bundle (.readSettlement posts)) (clear : w.Conclusive (.readSettlement posts)) :
    (w.readSettlement bundle l1Block posted posts).Consistent bundle := by
  have knows := inv.knows
  rw [phase] at knows
  obtain ⟨b, l, hb, hl, isPosted⟩ := knows
  have shown := inv.landed_eq hb hl
  cases posts with
  | error e =>
    have again : e.isTerminal = false := clear
    simp only [Watch.readSettlement, Except.bind, again]
    exact inv.enter trivial
  | ok posts =>
    simp only [Watch.readSettlement, Except.bind, settlementOfOurPost]
    cases found : posts.find? (·.txHash = bundle.txHash) with
    | some post =>
      have truth := allowed post found _ shown
      exact inv.enter ⟨b, mem_of_getElem? hb, l, hl, truth.2.symm⟩
    | none =>
      cases posted with
      | true => exact inv.enter trivial
      | false =>
        have nothing := (inv.placed l1Block b l hb hl).2.2.1 isPosted
        exact inv.enter ⟨b, mem_of_getElem? hb, l, hl, nothing⟩

theorem Consistent.readPinned (phase : w.phase = .pinned pin) : (w.readPinned pin answered).Consistent bundle := by
  have knows := inv.knows
  rw [phase] at knows
  have pending : ({ w with phase := .head } : Watch).Consistent bundle := inv.enter knows
  cases answered with
  | false => exact pending
  | true =>
    unfold Watch.readPinned pinnedBlock
    cases built : w.chain[w.targetBlock]? with
    | none => exact pending
    | some b =>
      cases without : b.landing with
      | some l =>
        simp only [Option.map_some, without, pinnedVerdict]
        exact inv.enter trivial
      | none =>
        have dropped : ({ w with phase := .returned (.ok (.dropped w.targetBlock)) } : Watch).Consistent bundle :=
          inv.enter (inv.dead_of_excluded built without)
        by_cases same : b.timestamp = pin
        · simpa [pinnedVerdict, without, same] using dropped
        · simpa [pinnedVerdict, without, same] using dropped

theorem Consistent.readHead (phase : w.phase = .head)
    (clear : w.Conclusive (.readHead answered)) : (w.readHead answered).Consistent bundle := by
  have knows := inv.knows
  rw [phase] at knows
  unfold Watch.readHead
  split
  next passed =>
    -- the target block was among those the receipt read had, and they are empty
    have seen := clear passed.1 passed.2
    have bound : w.targetBlock < w.chain.length := Nat.lt_of_lt_of_le seen inv.seen
    have without : (w.chain.get ⟨w.targetBlock, bound⟩).landing = none := by
      refine knows _ (mem_iff_getElem?.mpr ⟨w.targetBlock, ?_⟩)
      rw [getElem?_take_of_lt seen]
      exact getElem?_eq_getElem bound
    exact inv.enter (inv.dead_of_excluded (getElem?_eq_getElem bound) without)
  next => exact inv.enter trivial

theorem Consistent.mark (phase : w.phase = .returned outcome) (timestamp : Option Nat) :
    ({ w with phase := .marked (observeBundleOutcome bundle.target bundle.expectedFinalRoot outcome timestamp) } :
      Watch).Consistent bundle := by
  have knows := inv.knows
  rw [phase] at knows
  refine inv.enter ?_
  have failed (dead : w.Dead) (slotSkipped : Bool) : w.Knows bundle (.marked (.failed slotSkipped)) := dead
  match outcome, knows with
  | .error e, dead =>
    simp only [observeBundleOutcome, Option.any_none, Bool.false_eq_true, if_false]
    split
    · exact failed dead _
    · split <;> exact failed dead _
  | .ok (.dropped _), dead =>
    simp only [observeBundleOutcome, Option.any_none, Bool.false_eq_true, if_false]
    split <;> exact failed dead _
  | .ok (.included _ settlement), ⟨b, hb, l, hl, same⟩ =>
    subst same
    obtain ⟨n, hn⟩ := mem_iff_getElem?.mp hb
    have wf := (inv.placed n b l hn hl).2.2.2
    have applied : b.applied = l.settlement.applied := by simp [L1Block.applied, hl]
    have final : b.finalState = l.settlement.finalState := by simp [L1Block.finalState, hl]
    simp only [observeBundleOutcome, Option.any_some, decide_eq_true_eq, Bool.not_eq_true', isEmpty_eq_false_iff]
    split
    next reached =>
      refine ⟨b, hb, ?_, final.trans reached⟩
      intro empty
      rw [applied] at empty
      rw [wf.mpr empty] at reached
      cases reached
    next missed =>
      split
      next some => exact ⟨b, hb, applied ▸ some, final ▸ missed⟩
      next nothing =>
        have dead := inv.dead_of_unapplied hb hl (not_not.mp nothing)
        split <;> exact failed dead _

theorem Consistent.step {event} (allowed : w.Admits bundle event ∧ w.Conclusive event) :
    (w.step bundle event).Consistent bundle := by
  obtain ⟨allowed, clear⟩ := allowed
  unfold Watch.step
  split
  next block _ => exact inv.produce allowed
  next headRead phase => exact inv.resolve phase headRead
  next taken reply phase => exact inv.post phase allowed clear
  next read phase => exact inv.readReceipt clear
  next posts l1Block posted phase => exact inv.readSettlement phase allowed clear
  next answered pin phase => exact inv.readPinned phase
  next answered phase => exact inv.readHead phase clear
  next timestamp outcome phase => exact inv.mark phase timestamp
  next => exact inv

end

/-- In a run in which no event is inconclusive, the verdict on the batch is true
whenever it is there, also of the blocks built after it. -/
theorem truthful_throughout (chain : List L1Block) (events : List Event) (fresh : ∀ b ∈ chain, b.landing = none)
    (allowed : Runs.Along (step bundle) (fun w e => w.Admits bundle e ∧ w.Conclusive e) (handed chain) events) :
    Runs.Throughout (step bundle) (Truthful bundle) (handed chain) events := by
  have kept : Runs.Throughout (step bundle) (Consistent bundle) (handed chain) events :=
    Runs.throughout_of_invariant (fun inv ok => Consistent.step inv ok) (handed_consistent fresh) allowed
  exact kept.imp Consistent.truthful

/-- A bundle that lands in its pinned slot is settled, with reads that fail on
the way and a block after it. -/
theorem truthful_pinned : Runs.Throughout (step ⟨.exact 1 22, 7, 9⟩) (Truthful ⟨.exact 1 22, 7, 9⟩)
    (handed [⟨10, none⟩])
      [.resolve (.error "unused"), .post true .result, .readReceipt .failed, .readReceipt .answered,
        .readPinned false, .readHead true, .produce ⟨22, some ⟨true, ⟨[⟨0, .anchor⟩], some 9, some 5, false⟩⟩⟩,
        .readReceipt .answered, .readSettlement (.error (.provider "unreachable")), .readReceipt .answered,
        .readSettlement (.ok [⟨⟨1, 0, 0⟩, 7, 0, ⟨[], [], [], 0, 0, [], [], [], [], [], 0, false⟩,
          ⟨[⟨0, .anchor⟩], some 9, some 5, false⟩⟩]),
        .mark (some 22), .produce ⟨34, none⟩] :=
  truthful_throughout _ _ (by decide) (by decide)

/-- Three verdicts of failure on a batch that L1 applies: the target block and
the one after it come between the receipt read and the head read; the POST times
out on a bundle the relay has; the scan gives up on the block of the landing. -/
theorem untruthful_failed : (let bundle : Bundle := ⟨.exactBlock 1, 7, 9⟩
     let landing : L1Block := ⟨22, some ⟨true, ⟨[⟨0, .anchor⟩], some 9, some 5, false⟩⟩⟩
     ∀ events ∈ ([
        [.resolve (.error "unused"), .post true .result, .readReceipt .answered, .produce landing,
          .produce ⟨34, none⟩, .readHead true, .mark none],
        [.resolve (.error "unused"), .post true (.sendFailed "timed out"), .mark none, .produce landing],
        [.resolve (.error "unused"), .post true .result, .produce landing, .readReceipt .answered,
          .readSettlement (.error (.traceUnavailable 1 "pruned")), .mark none]] : List (List Event)),
      Runs.Along (step bundle) (Admits bundle) (handed [⟨10, none⟩]) events ∧
        ∃ slotSkipped, (events.foldl (step bundle) (handed [⟨10, none⟩])).phase = .marked (.failed slotSkipped) ∧
          ∃ b ∈ (events.foldl (step bundle) (handed [⟨10, none⟩])).chain, b.applied ≠ []) := by
  decide

end Watch

end Eez.Submitter
