import EezRollup.Sessions.Fencing

/-! The watermark splits the retained blocks; the quota is checked for the unproved ones alone,
before the backend is asked. -/
open List
namespace Eez.Sessions
open SessionBlock
open Octets Outcome Signer

/-- The first `k` blocks are proved, and both parts fit a window. -/
structure Session.Bounded (s : Session) (limits : ServiceLimits) (k : Nat) : Prop where
  mark : s.provedThrough.toNat = s.anchor.number.toNat + k
  held : k ≤ s.blocks.length
  proved : Within limits ((s.blocks.take k).map charge)
  unproved : Within limits ((s.blocks.drop k).map charge)

theorem Within.nil (limits : ServiceLimits) : Within limits [] := ⟨Nat.zero_le _, Nat.zero_le _, Nat.zero_le _⟩

namespace Session
variable {s s' : Session} {limits : ServiceLimits} {k : Nat}

section
variable (h : s.Bounded limits k) (contiguous : s.Contiguous)
include h contiguous

theorem Bounded.unproved_eq : s.unproved = s.blocks.drop k := by
  have mark := h.mark
  refine Linked.dropWhile_le Follows.rank contiguous fun b _ => ?_
  rw [decide_eq_true_eq, UInt64.le_iff_toNat_le]
  change b.number.toNat ≤ s.provedThrough.toNat ↔ b.number.toNat ≤ s.anchor.number.toNat + k
  rw [mark]

theorem Bounded.append {block : SessionBlock} (room : Within limits (s.unproved.map charge ++ [block.charge])) :
    ({ s with blocks := s.blocks ++ [block] } : Session).Bounded limits k := by
  constructor
  case mark => exact h.mark
  case held =>
    have := h.held
    rw [length_append]
    omega
  case proved =>
    rw [take_append_of_le_length h.held]
    exact h.proved
  case unproved =>
    rw [drop_append_of_le_length h.held, map_append, ← h.unproved_eq contiguous]
    exact room

theorem Bounded.truncate (n : Nat) {epoch token} : ({ s.truncate n with
      provedThrough := min s.provedThrough (s.truncate n).tip.number
      epoch
      cancellation := token } : Session).Bounded limits (min k (min n s.blocks.length)) := by
  have cut : (s.truncate n).Contiguous := contiguous.take n
  have tip := cut.tip_number
  rw [show (s.truncate n).blocks = s.blocks.take n from rfl, length_take] at tip
  constructor
  case mark =>
    change (min s.provedThrough (s.truncate n).tip.number).toNat = _
    rw [toNat_min, tip, h.mark]
    change min (s.anchor.number.toNat + k) (s.anchor.number.toNat + min n s.blocks.length) = s.anchor.number.toNat + _
    omega
  case held =>
    change _ ≤ (s.blocks.take n).length
    rw [length_take]
    omega
  case proved =>
    change Within limits (((s.blocks.take n).take _).map _)
    rw [take_take]
    exact h.proved.sublist ((take_sublist_take_left (by omega)).map _)
  case unproved =>
    change Within limits (((s.blocks.take n).drop _).map _)
    rw [drop_take]
    by_cases inside : k ≤ min n s.blocks.length
    · rw [Nat.min_eq_left inside]
      exact h.unproved.sublist ((take_sublist _ _).map _)
    · have none : (s.blocks.drop (min k (min n s.blocks.length))).take (n - min k (min n s.blocks.length)) = [] := by
        refine eq_nil_of_length_eq_zero ?_
        rw [length_take, length_drop]
        omega
      rw [none]
      exact .nil limits

end

theorem Selects.drop_sublist {fromBlock toBlock anchor window start}
    (sel : s.Selects limits fromBlock toBlock anchor window start) :
    ((s.blocks.drop start).drop (max k (toBlock.toNat - s.anchor.number.toNat) - start)).Sublist (s.blocks.drop k) := by
  have starts := sel.starts
  have nonempty := sel.nonempty
  rw [drop_drop, show start + (max k (toBlock.toNat - s.anchor.number.toNat) - start) =
    k + (max k (toBlock.toNat - s.anchor.number.toNat) - k) by omega, ← drop_drop]
  exact List.drop_sublist _ _

theorem Bounded.sign (h : s.Bounded limits k) {fromBlock toBlock anchor window start} (contiguous : s.Contiguous)
    (sel : s.Selects limits fromBlock toBlock anchor window start) :
    ({ s with
      anchor
      blocks := s.blocks.drop start
      provedThrough := max s.provedThrough toBlock } : Session).Bounded limits
        (max k (toBlock.toNat - s.anchor.number.toNat) - start) := by
  have starts := sel.starts
  have nonempty := sel.nonempty
  have reach := sel.held
  have held := h.held
  have boundary := sel.anchor_number contiguous
  constructor
  case mark =>
    change (max s.provedThrough toBlock).toNat = anchor.number.toNat + _
    rw [toNat_max, h.mark]
    omega
  case held =>
    change _ ≤ (s.blocks.drop start).length
    rw [length_drop]
    omega
  case proved =>
    change Within limits (((s.blocks.drop start).take _).map _)
    by_cases covered : k ≤ toBlock.toNat - s.anchor.number.toNat
    · -- the new window is all that is proved
      have quota := sel.quota
      rw [range, show toBlock.toNat + 1 - fromBlock.toNat =
        max k (toBlock.toNat - s.anchor.number.toNat) - start by omega] at quota
      exact quota
    · -- the end of what was proved before
      rw [← drop_take, Nat.max_eq_left (by omega)]
      exact h.proved.sublist ((List.drop_sublist _ _).map _)
  case unproved =>
    exact h.unproved.sublist (sel.drop_sublist.map _)

end Session

/-- A snapshot taken under `epoch`: while the epoch lasts, there is room for its block
on the tip it was taken from. -/
structure Session.Admits (s : Session) (limits : ServiceLimits) (epoch : UInt64) (admission : Admission) : Prop where
  reached : epoch.toNat ≤ s.epoch.toNat
  below : s.epoch = epoch → admission.parent.number.toNat ≤ s.tip.number.toNat
  room : s.epoch = epoch → s.tip = admission.parent →
    Within limits (s.unproved.map charge ++ [(admission.payloadBytes, admission.witnessItems)])

namespace Session
variable {s s' : Session} {limits : ServiceLimits} {epoch : UInt64} {admission : Admission}

section
variable (h : s.Admits limits epoch admission)
include h

theorem Admits.newer (newer : s.epoch.toNat < s'.epoch.toNat) : s'.Admits limits epoch admission := by
  have later : s'.epoch ≠ epoch := by
    rintro rfl
    exact absurd h.reached (Nat.not_le.mpr newer)
  exact ⟨h.reached.trans (Nat.le_of_lt newer), fun same => absurd same later, fun same => absurd same later⟩

theorem Admits.append {block : SessionBlock} (follows : block.Follows s.tip) :
    ({ s with blocks := s.blocks ++ [block] } : Session).Admits limits epoch admission := by
  have tip : ({ s with blocks := s.blocks ++ [block] } : Session).tip = block.ends := by
    rw [tip_eq]
    exact tipOf_concat
  have grown : block.ends.number.toNat = s.tip.number.toNat + 1 := follows.number
  refine ⟨h.reached, fun same => ?_, fun same eq => ?_⟩
  · have := h.below same
    rw [tip, grown]
    omega
  · have := h.below same
    rw [tip] at eq
    rw [← eq, grown] at this
    omega

theorem Admits.shrink (same : s'.epoch = s.epoch) (tip : s'.tip = s.tip)
    (fewer : s'.unproved.Sublist s.unproved) : s'.Admits limits epoch admission := by
  refine ⟨same ▸ h.reached, fun eq => ?_, fun eq at_tip => ?_⟩
  · rw [tip]
    exact h.below (same ▸ eq)
  · have room := h.room (same ▸ eq) (tip ▸ at_tip)
    exact room.sublist ((fewer.map _).append (List.Sublist.refl _))

end

theorem Selects.tip_drop {fromBlock toBlock anchor window start}
    (sel : s.Selects limits fromBlock toBlock anchor window start) :
    tipOf ends anchor (s.blocks.drop start) = s.tip := by
  rw [sel.boundary, ← tipOf_append, take_append_drop, tip_eq]

end Session

/-- Budgets of all sessions and of the snapshots taken from them. -/
structure Budgeted (service : Service) (rt : Runtime) : Prop where
  bounded : ∀ {o : ObjectId} {s : Session}, rt.heap[o]? = some s → ∃ k, s.Bounded service.limits k
  admitted : ∀ {i : Nat} {o bound admission}, rt.flights[i]? = some (Flight.validating o bound admission) →
    ∃ s, rt.heap[o]? = some s ∧ s.Admits service.limits bound.epoch admission

namespace Budgeted
variable {service : Service} {H : Prop} {rt rt' : Runtime}

theorem initial : Budgeted service .initial := by
  constructor <;> intros <;> simp_all [Runtime.initial]

variable (h : Budgeted service rt) (chain : Prefixed service rt)
include h chain

theorem appends {i : Nat} {o : ObjectId} {bound : BoundSession} {admission : Admission} {artifact : Artifact}
    {s s' : Session} (flight : rt.flights[i]? = some (.validating o bound admission)) (held : rt.heap[o]? = some s)
    (taken : s.append bound.epoch admission.parent ⟨artifact, admission.payloadBytes, admission.witnessItems⟩ =
      .ok s') :
    ∃ k, s'.Bounded service.limits k := by
  obtain ⟨current, tip, rfl⟩ := Session.append_eq_ok.mp taken
  obtain ⟨t, held', admits⟩ := h.admitted flight
  obtain rfl : s = t := Option.some.inj (held.symm.trans held')
  obtain ⟨k, bounded⟩ := h.bounded held
  exact ⟨k, bounded.append (chain.contiguous held) (admits.room current tip)⟩

theorem bounded_step (move : Moves service H rt rt')
    {o : ObjectId} {s'} (held' : rt'.heap[o]? = some s') : ∃ k, s'.Bounded service.limits k := by
  cases move.session held' with
  | inl old => exact h.bounded old
  | inr arises =>
    cases arises with
    | began => exact ⟨0, rfl, Nat.le_refl _, .nil _, .nil _⟩
    | relabelled held =>
      obtain ⟨k, before⟩ := h.bounded held
      exact ⟨k, before.mark, before.held, before.proved, before.unproved⟩
    | rewound held cut =>
      obtain ⟨k, before⟩ := h.bounded held
      obtain ⟨_, n, _, rfl⟩ := Session.rewind_eq_ok.mp cut
      exact ⟨_, before.truncate (chain.contiguous held) n⟩
    | appended flight held linked taken => exact h.appends chain flight held taken
    | signed flight held taken =>
      obtain ⟨k, before⟩ := h.bounded held
      have stands := (chain.signs flight held taken).2
      obtain ⟨_, _, _, rfl⟩ := Session.sign_eq_ok.mp taken
      exact ⟨_, before.sign (chain.contiguous held) stands.2⟩

/-- A new epoch takes a snapshot out of play; everything else leaves it its room. -/
theorem admits_step (epochs : Fenced rt) (few : rt'.Few) (honest : H) (move : Moves service H rt rt') {o : ObjectId}
    (held : rt.heap[o]? = some s) (admits : s.Admits service.limits epoch admission) :
    ∃ s', rt'.heap[o]? = some s' ∧ s'.Admits service.limits epoch admission := by
  have put {o' : ObjectId} {t t' : Session} (held' : rt.heap[o']? = some t)
      (here : t = s → t'.Admits service.limits epoch admission) :
      ∃ s', (rt.heap.set o' t')[o]? = some s' ∧ s'.Admits service.limits epoch admission := by
    by_cases eq : o' = o
    · subst eq
      exact ⟨t', getElem?_set_held held', here (Option.some.inj (held'.symm.trans held))⟩
    · exact ⟨s, (getElem?_set_ne eq).trans held, admits⟩
  have bound {o' : ObjectId} {t : Session} {e : UInt64} (held' : rt.heap[o']? = some t)
      (log : rt'.log = rt.log ++ [.installed o' e]) : t.epoch.toNat < (nextEpoch t.epoch).toNat := by
    have counted := few o'
    rw [log, installs_concat, Act.installs, decide_eq_true rfl] at counted
    have before := epochs.epochs held'
    rw [nextEpoch_toNat (by simp only [if_true] at counted; omega)]
    exact Nat.lt_succ_self _
  cases move with
  | begin => exact ⟨s, getElem?_concat_held held, admits⟩
  | resume held' =>
    refine put held' fun same => ?_
    subst same
    exact admits.newer (bound held' rfl)
  | rewind held' cut =>
    obtain ⟨_, n, _, rfl⟩ := Session.rewind_eq_ok.mp cut
    refine put held' fun same => ?_
    subst same
    exact admits.newer (bound held' rfl)
  | select held' | detach held' =>
    refine put held' fun same => ?_
    subst same
    exact admits.shrink rfl rfl (List.Sublist.refl _)
  | append flight held' linked taken =>
    obtain ⟨_, tip, rfl⟩ := Session.append_eq_ok.mp taken
    refine put held' fun same => ?_
    subst same
    have follows := linked honest
    rw [← tip] at follows
    exact admits.append follows
  | sign flight held' taken =>
    have stands := (chain.signs flight held' taken).2
    obtain ⟨_, _, _, rfl⟩ := Session.sign_eq_ok.mp taken
    refine put held' fun same => ?_
    subst same
    obtain ⟨k, bounded⟩ := h.bounded held'
    have contiguous := chain.contiguous held'
    have signed := bounded.sign contiguous stands.2
    refine admits.shrink rfl ((Session.tip_eq _).trans stands.2.tip_drop) ?_
    rw [signed.unproved_eq (stands.2.contiguous_drop contiguous), bounded.unproved_eq contiguous]
    exact stands.2.drop_sublist
  | _ => exact ⟨s, held, admits⟩

theorem step (epochs : Fenced rt) (few : rt'.Few) (honest : H)
    (move : Moves service H rt rt') : Budgeted service rt' := by
  refine ⟨h.bounded_step chain move, fun {i o bound admission} at_i => ?_⟩
  cases move.flight at_i with
  | inl old =>
    obtain ⟨s, held, admits⟩ := h.admitted old
    exact h.admits_step chain epochs few honest move held admits
  | inr arises =>
    cases arises with
    | @validating _ _ _ _ s _ held taken =>
      obtain ⟨current, parent, room⟩ := Session.snapshot_admission taken
      have admits : s.Admits service.limits bound.epoch admission := by
        refine ⟨?_, fun _ => ?_, fun _ _ => room⟩
        · rw [current]
        · rw [parent]
      exact h.admits_step chain epochs few honest move held admits

end Budgeted

/-- The order lists the keys once each, and there are not too many. -/
structure Registry.Ordered (r : Registry) : Prop where
  keys : r.insertionOrder.Perm (r.sessions.map Prod.fst)
  nodup : r.insertionOrder.Nodup
  few : r.sessions.length ≤ maxRetainedSessions

theorem Registry.Ordered.remove {r : Registry} (h : r.Ordered) (id : SessionId) : (r.remove id).Ordered := by
  constructor
  case keys =>
    have filtered := h.keys.filter fun retained => retained ≠ id
    rw [filter_map] at filtered
    exact filtered
  case nodup => exact h.nodup.filter _
  case few => exact (length_filter_le _ _).trans h.few

theorem Registry.Ordered.insert {r : Registry} (h : r.Ordered) {id} (o : ObjectId) (fresh : r.get id = none)
    (few : r.sessions.length < maxRetainedSessions) : (r.insert id o).Ordered := by
  have absent : id ∉ r.sessions.map Prod.fst := by
    intro mem
    obtain ⟨entry, mem, eq⟩ := mem_map.mp mem
    have := lookup_eq_none_iff.mp fresh entry mem
    simp [eq] at this
  have unlisted : id ∉ r.insertionOrder := fun mem => absent (h.keys.mem_iff.mp mem)
  have whole : r.sessions.filter (fun entry => entry.1 ≠ id) = r.sessions := by
    refine filter_eq_self.mpr fun entry mem => decide_eq_true fun eq => absent ?_
    exact mem_map.mpr ⟨entry, mem, eq⟩
  constructor
  case keys =>
    change (r.insertionOrder ++ [id]).Perm (id :: (r.sessions.filter _).map Prod.fst)
    rw [whole]
    exact (perm_append_singleton _ _).trans (h.keys.cons _)
  case nodup =>
    exact nodup_append.mpr ⟨h.nodup, pairwise_singleton _ _, fun a mem b mem' eq => by
      cases mem_singleton.mp mem'
      exact unlisted (eq ▸ mem)⟩
  case few =>
    change (r.sessions.filter _).length + 1 ≤ _
    rw [whole]
    exact few

theorem Moves.ordered {H : Prop} {rt : Runtime} (h : rt.registry.Ordered)
    (move : Moves service H rt rt') : rt'.registry.Ordered := by
  have room : (rt.registry.makeRoom rt.connected rt.registry.sessions.length).Ordered :=
    Registry.makeRoom_rule (fun r id h => h.remove id) _ h
  cases move with
  | quiet rooms =>
    cases rooms with
    | inl same => rw [same]; exact h
    | inr made => rw [made]; exact room
  | begin anchor made few fresh =>
    rw [made] at few fresh
    rw [made]
    exact room.insert _ fresh few
  | cancel id => exact h.remove id
  | _ => exact h

structure Session.Retained (s : Session) (limits : ServiceLimits) : Prop where
  proved : Within limits ((s.blocks.filter fun b => b.number ≤ s.provedThrough).map charge)
  unproved : Within limits ((s.blocks.filter fun b => s.provedThrough < b.number).map charge)
  watermark : s.anchor.number ≤ s.provedThrough ∧ s.provedThrough ≤ s.tip.number

theorem Session.Bounded.retained {s : Session} (h : s.Bounded limits k) (contiguous : s.Contiguous) :
    s.Retained limits := by
  have mark := h.mark
  have held := h.held
  have tip := contiguous.tip_number
  constructor
  case proved =>
    rw [Linked.filter_le Follows.rank contiguous fun b _ => ?_]
    · exact h.proved
    · rw [decide_eq_true_eq, UInt64.le_iff_toNat_le, mark]
      rfl
  case unproved =>
    rw [Linked.filter_gt Follows.rank contiguous fun b _ => ?_]
    · exact h.unproved
    · rw [decide_eq_true_eq, UInt64.lt_iff_toNat_lt, mark]
      rfl
  case watermark =>
    rw [UInt64.le_iff_toNat_le, UInt64.le_iff_toNat_le]
    omega

/-- In every run with an honest backend in which no epoch counter comes round, both
parts of every session fit a window, and the registry keeps its books. -/
theorem retained_after {service : Service} {run : List Event}
    (honest : Runs.Along (step service) (fun rt ev => ev.Honest rt) .initial run)
    (few : (Runtime.after service run).Few) :
    (∀ s ∈ (Runtime.after service run).heap, s.Retained service.limits) ∧
      (Runtime.after service run).registry.Ordered := by
  have throughout : Runs.Throughout (step service) (fun rt => Prefixed service rt ∧ rt.registry.Ordered ∧
      (rt.Few → Fenced rt ∧ Budgeted service rt)) .initial run := by
    refine Runs.throughout_of_invariant (fun {rt ev} h allowed => ?_)
      ⟨.initial, ?_, fun _ => ⟨.initial, .initial⟩⟩ honest
    · have move : Moves service (ev.Honest rt) rt (step service rt ev) := step_moves ev
      refine ⟨h.1.step allowed move, move.ordered h.2.1, fun few => ?_⟩
      obtain ⟨epochs, budgets⟩ := h.2.2 (move.few few)
      exact ⟨epochs.step few move, budgets.step h.1 epochs few allowed move⟩
    · exact ⟨.nil, .nil, Nat.zero_le _⟩
  obtain ⟨chain, ordered, budgets⟩ := throughout.last
  refine ⟨fun s mem => ?_, ordered⟩
  obtain ⟨o, held⟩ := getElem?_of_mem mem
  obtain ⟨k, bounded⟩ := (budgets few).2.bounded held
  exact bounded.retained (chain.contiguous held)

theorem retained_signing :
    ((Runtime.after sampleService signingRun).heap.map fun s => (s.provedThrough, s.blocks.length)) = [(2, 1)] ∧
    (∀ s ∈ (Runtime.after sampleService signingRun).heap, s.Retained sampleService.limits) ∧
    (Runtime.after sampleService signingRun).registry.Ordered :=
  ⟨rfl, retained_after signingRun_honest (Runtime.few_of_length (show 6 < 2 ^ 64 - 1 by decide))⟩

def tightService : Service := ⟨7, ⟨1, 100, 100⟩, fun _ _ _ _ => .ok 0⟩

/-- Block 2 is submitted when block 1 is proved; then the session goes back to its
anchor and takes block 1 again. -/
def rewoundRun : List Event :=
  [sampleBegin, .work ⟨5, 1⟩ (sampleBlock 1 11 0), .enter 0, .validated 0 (.ok (sampleArtifact 1 11 0, false)),
    .work ⟨5, 1⟩ (sampleFinalize 1 1 11), .enter 1, .settle 1 (.ok ()) false false, .sign 1 (some [1]),
    .work ⟨5, 1⟩ (sampleBlock 2 12 11), .enter 2,
    .work ⟨5, 1⟩ (.rewind (b256Bytes 0)), .enter 3,
    .work ⟨5, 2⟩ (sampleBlock 1 11 0), .enter 4, .validated 4 (.ok (sampleArtifact 1 11 0, true))]

theorem rewoundRun_honest : Runs.Along (step tightService) (fun rt ev => ev.Honest rt) .initial rewoundRun := by
  refine ⟨trivial, trivial, trivial, ?_, trivial, trivial, trivial, trivial, trivial, trivial, trivial,
    trivial, trivial,
    trivial, ?_, trivial⟩
  · exact Event.honest_validated rfl ⟨rfl, rfl, rfl⟩
  · exact Event.honest_validated rfl ⟨rfl, rfl, rfl⟩

/-- When the counter comes round, the snapshot of block 2 is good again, and the session
has two unproved blocks where one fits. -/
theorem retention_wraps : ∃ run, Runs.Along (step tightService) (fun rt ev => ev.Honest rt) .initial run ∧
    ∃ s ∈ (Runtime.after tightService run).heap, ¬ s.Retained tightService.limits := by
  obtain ⟨n, round⟩ : ∃ n, 2 + n = 2 ^ 64 := ⟨2 ^ 64 - 2, by decide⟩
  obtain ⟨rt, s, log, run, held, proved, blocks, _, _, _, _, honest⟩ :=
    append_round tightService (.after tightService rewoundRun) 5 (sampleArtifact 2 12 11) false (i := 2) rfl rfl rfl rfl
      round (by omega)
  have after : Runtime.after tightService (rewoundRun ++ (replicate n (.resume 5) ++
      [.validated 2 (.ok (sampleArtifact 2 12 11, false))])) = rt := by
    rw [Runtime.after, foldl_append]
    exact run
  refine ⟨_, Runs.along_append.mpr ⟨rewoundRun_honest, honest ⟨rfl, rfl, rfl⟩⟩, s, ?_, fun retained => ?_⟩
  · rw [after]
    exact mem_of_getElem? held
  · have room := retained.unproved.blocks
    simp only [proved, blocks, length_map] at room
    exact absurd room (by decide)

end Eez.Sessions
