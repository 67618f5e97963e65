import EezRollup.Sessions.Moves

/-! Both long operations let go of the session between reading its prefix and writing it. -/
open List
namespace Eez.Sessions
open SessionBlock
open Octets Outcome Signer

def Live (tokens : List Bool) (t : Token) : Prop := tokens[t]? = some false

theorem Live.of_set {tokens : List Bool} {c t : Token} (h : Live (tokens.set c true) t) : c ≠ t ∧ Live tokens t := by
  cases getElem?_set_cases h with
  | inl here => cases here.2
  | inr other => exact other

theorem Live.of_concat {tokens : List Bool} {b : Bool} (h : Live (tokens ++ [b]) t) (old : t < tokens.length) :
    Live tokens t := by
  cases getElem?_concat_cases h with
  | inl held => exact held
  | inr new => exact absurd new.1 (Nat.ne_of_lt old)

theorem live_of_not_cancelled {rt : Runtime} {t : Token} (old : t < rt.tokens.length) (h : rt.cancelled t = false) :
    Live rt.tokens t := by
  unfold Runtime.cancelled at h
  rw [getElem?_eq_getElem old] at h
  exact (getElem?_eq_getElem old).trans (congrArg some h)

structure Selection.Covers (selection : Selection) (session : Session) : Prop where
  contiguous : session.Contiguous
  nonempty : selection.fromBlock ≤ selection.toBlock
  blocks : selection.window.blocks =
    (session.blocks.filter fun b => selection.fromBlock ≤ b.number && b.number ≤ selection.toBlock).map
      (·.validated.block)
  numbers : selection.window.blocks.map (fun b => b.number.toNat) =
    List.range' selection.fromBlock.toNat (selection.toBlock.toNat + 1 - selection.fromBlock.toNat)
  preBlock : ∃ pre, (pre = session.anchor ∨ ∃ b ∈ session.blocks, pre = b.ends) ∧
    pre.number.toNat + 1 = selection.fromBlock.toNat ∧ selection.window.windowPreBlockHash = pre.hash

theorem tipOf_mem (l : List SessionBlock) : tipOf ends a l = a ∨ ∃ b ∈ l, tipOf ends a l = b.ends := by
  induction l generalizing a with
  | nil => exact .inl rfl
  | cons b l ih =>
    right
    cases ih with
    | inl here => exact ⟨b, mem_cons_self, here⟩
    | inr later =>
      obtain ⟨c, mem, eq⟩ := later
      exact ⟨c, mem_cons_of_mem _ mem, eq⟩

namespace Session
variable {s : Session} {limits : ServiceLimits} {fromBlock toBlock : UInt64} {anchor : BlockAnchor}
  {window : ValidatedWindow} {start : Nat}

theorem Contiguous.filter_range (h : s.Contiguous) {count : Nat}
    (starts : fromBlock.toNat = s.anchor.number.toNat + 1 + start)
    (ends : toBlock.toNat + 1 = fromBlock.toNat + count) :
    (s.blocks.filter fun b => fromBlock ≤ b.number && b.number ≤ toBlock) = s.range start count := by
  have below : s.blocks.filter (fun b => decide (b.number ≤ toBlock)) = s.blocks.take (start + count) := by
    refine Linked.filter_le Follows.rank h fun b _ => ?_
    rw [decide_eq_true_eq, UInt64.le_iff_toNat_le]
    change b.number.toNat ≤ toBlock.toNat ↔ b.number.toNat ≤ s.anchor.number.toNat + (start + count)
    omega
  have above : (s.blocks.take (start + count)).filter (fun b => decide (fromBlock ≤ b.number)) =
      (s.blocks.take (start + count)).drop start := by
    refine Linked.filter_gt Follows.rank (h.take _) fun b _ => ?_
    rw [decide_eq_true_eq, UInt64.le_iff_toNat_le]
    change fromBlock.toNat ≤ b.number.toNat ↔ s.anchor.number.toNat + start < b.number.toNat
    omega
  rw [← filter_filter, below, above, drop_take, Nat.add_sub_cancel_left, range]

section
variable (h : s.Contiguous) (sel : s.Selects limits fromBlock toBlock anchor window start)
include h sel

theorem Selects.drains : s.blocks.take start = s.blocks.filter (fun b => b.number < fromBlock) ∧
      s.blocks.drop start = s.blocks.filter fun b => fromBlock ≤ b.number := by
  have starts := sel.starts
  constructor
  · refine (Linked.filter_le Follows.rank h fun b _ => ?_).symm
    rw [decide_eq_true_eq, UInt64.lt_iff_toNat_lt]
    change b.number.toNat < fromBlock.toNat ↔ b.number.toNat ≤ s.anchor.number.toNat + start
    omega
  · refine (Linked.filter_gt Follows.rank h fun b _ => ?_).symm
    rw [decide_eq_true_eq, UInt64.le_iff_toNat_le]
    change fromBlock.toNat ≤ b.number.toNat ↔ s.anchor.number.toNat + start < b.number.toNat
    omega

theorem Selects.contiguous_drop : Linked Follows ends anchor (s.blocks.drop start) := by
  have drained := h.drop start
  rw [← sel.boundary] at drained
  exact drained

theorem Selects.anchor_number : anchor.number.toNat + 1 = fromBlock.toNat := by
  have starts := sel.starts
  have held := sel.held
  have ordered := sel.nonempty
  have rank := (h.take start).rank_tipOf Follows.rank
  rw [← sel.boundary, length_take_of_le (by omega)] at rank
  change anchor.number.toNat = s.anchor.number.toNat + start at rank
  omega

end

theorem Selects.covers {selection : Selection} (h : s.Contiguous)
    (sel : s.Selects limits selection.fromBlock selection.toBlock selection.anchor selection.window
      selection.startIndex) :
    selection.Covers s := by
  have starts := sel.starts
  have held := sel.held
  have ordered := sel.nonempty
  have range_eq := h.filter_range starts (show selection.toBlock.toNat + 1 = selection.fromBlock.toNat +
    (selection.toBlock.toNat + 1 - selection.fromBlock.toNat) by omega)
  have boundary := sel.boundary
  have before := sel.anchor_number h
  constructor
  case contiguous => exact h
  case nonempty => exact UInt64.le_iff_toNat_le.mpr ordered
  case blocks => rw [range_eq]; exact sel.blocks
  case numbers =>
    have linked := (h.drop selection.startIndex).take (selection.toBlock.toNat + 1 - selection.fromBlock.toNat)
    have numbers := linked.map_rank Follows.rank
    rw [length_take_of_le (by rw [length_drop]; omega), ← boundary] at numbers
    rw [sel.blocks, map_map]
    exact numbers.trans (congrArg (List.range' · _) before)
  case preBlock =>
    refine ⟨selection.anchor, ?_, before, sel.preBlock⟩
    rw [boundary]
    cases tipOf_mem (a := s.anchor) (s.blocks.take selection.startIndex) with
    | inl here => exact .inl here
    | inr above =>
      obtain ⟨b, mem, eq⟩ := above
      exact .inr ⟨b, mem_of_mem_take mem, eq⟩

end Session

/-- What an act in the log says, as it should. A window is settled as it was selected. -/
def Act.Right (log : List Act) : Act → Prop
  | .selected _ _ session selection => selection.Covers session
  | .settles o epoch selection => ∃ session, .selected o epoch session selection ∈ log
  | .signed _ _ before after selection =>
    after.Contiguous ∧ after.anchor.number.toNat + 1 = selection.fromBlock.toNat ∧
      after.blocks = (before.blocks.filter fun b => selection.fromBlock ≤ b.number) ∧
      before.blocks = (before.blocks.filter fun b => b.number < selection.fromBlock) ++ after.blocks
  | _ => True

theorem Act.Right.mono {act : Act} (h : act.Right log) (sub : ∀ a ∈ log, a ∈ log') : act.Right log' := by
  cases act with
  | settles o epoch selection =>
    obtain ⟨session, mem⟩ := h
    exact ⟨session, sub _ mem⟩
  | _ => exact h

def Runtime.Carrying (rt : Runtime) (i : Nat) (o : ObjectId) (bound : BoundSession) (selection : Selection) : Prop :=
  ∃ f, rt.flights[i]? = some f ∧ f.carries = some (o, bound, selection)

/-- The session still has the selection, and its token. -/
def Session.Stands (s : Session) (limits : ServiceLimits) (selection : Selection) : Prop :=
  s.cancellation = selection.token ∧
    s.Selects limits selection.fromBlock selection.toBlock selection.anchor selection.window selection.startIndex

namespace Moves
variable {service : Service} {H : Prop} {rt rt' : Runtime}

theorem tokens_le (move : Moves service H rt rt') : rt.tokens.length ≤ rt'.tokens.length := by
  cases move <;>
    simp [Runtime.resume, Runtime.cancel, Runtime.rewind, Runtime.select, Runtime.publish, Runtime.detach,
      Runtime.append, Runtime.settle, Runtime.expire, Runtime.sign, Runtime.install, Runtime.retire]

theorem live (move : Moves service H rt rt') {t : Token} (old : t < rt.tokens.length) (h : Live rt'.tokens t) :
    Live rt.tokens t := by
  have old_set {c : Token} : t < (rt.tokens.set c true).length := by rwa [length_set]
  cases move with
  | begin => exact h.of_concat old
  | resume => exact (h.of_concat old_set).of_set.2
  | cancel => exact h.of_set.2
  | rewind | select => exact (h.of_concat old_set).of_set.2
  | expire => exact h.of_set.2
  | _ => exact h

theorem carrying_set {j : Nat} (h : ∃ g, (rt.flights.set i f)[j]? = some g ∧ g.carries = some (o, bound, selection)) :
    (i = j ∧ f.carries = some (o, bound, selection)) ∨ (i ≠ j ∧ rt.Carrying j o bound selection) := by
  obtain ⟨g, at_j, carries⟩ := h
  cases getElem?_set_cases at_j with
  | inl here => exact .inl ⟨here.1, here.2 ▸ carries⟩
  | inr other => exact .inr ⟨other.1, g, other.2, carries⟩

theorem carrying_set_none {j : Nat} {f : Flight} (idle : f.carries = none)
    (h : ∃ g, (rt.flights.set i f)[j]? = some g ∧ g.carries = some (o, bound, selection)) :
    i ≠ j ∧ rt.Carrying j o bound selection := by
  cases carrying_set h with
  | inl here => rw [idle] at here; cases here.2
  | inr other => exact other

theorem inherits (move : Moves service H rt rt') : (∀ {j o bound selection}, rt'.Carrying j o bound selection →
    rt.Carrying j o bound selection) ∨ ∃ i o bound s selection, rt.heap[o]? = some s ∧ s.epoch = bound.epoch ∧
      selection.token = rt.tokens.length ∧ s.Selects service.limits selection.fromBlock selection.toBlock
        selection.anchor selection.window selection.startIndex ∧ rt' = rt.select i o bound s selection := by
  cases move with
  | quiet _ kept =>
    left
    rintro j o bound selection ⟨f, at_j, carries⟩
    cases kept at_j with
    | inl old => exact ⟨f, old, carries⟩
    | inr done =>
      obtain ⟨result, rfl⟩ := done
      cases carries
  | begin | resume | cancel => exact .inl id
  | fetch =>
    left
    rintro j o bound selection ⟨f, at_j, carries⟩
    cases getElem?_concat_cases at_j with
    | inl old => exact ⟨f, old, carries⟩
    | inr new =>
      rw [new.2] at carries
      cases carries
  | say => exact .inl id
  | rewind | snapshot => exact .inl fun h => (carrying_set_none rfl h).2
  | select held current token taken =>
    exact .inr ⟨_, _, _, _, _, held, current, token, Session.selectWindow_ok taken, rfl⟩
  | publish | detach | append => exact .inl fun h => (carrying_set_none rfl h).2
  | @settle i o bound selection outcome flight =>
    left
    intro j o' bound' selection' h
    cases carrying_set h with
    | inr other => exact other.2
    | inl here =>
      obtain ⟨rfl, carries⟩ := here
      refine ⟨_, flight, ?_⟩
      cases outcome with
      | error e => cases carries
      | ok hash => exact carries
  | expire | sign => exact .inl fun h => (carrying_set_none rfl h).2

end Moves

structure Prefixed (service : Service) (rt : Runtime) : Prop where
  contiguous : ∀ {o : ObjectId} {s : Session}, rt.heap[o]? = some s → s.Contiguous
  issued : ∀ {i o bound selection}, rt.Carrying i o bound selection → selection.token < rt.tokens.length
  alone : ∀ {i j o o' bound bound' selection selection'}, rt.Carrying i o bound selection →
    rt.Carrying j o' bound' selection' → selection.token = selection'.token → i = j
  standing : ∀ {i o bound selection}, rt.Carrying i o bound selection → Live rt.tokens selection.token →
    ∃ s, rt.heap[o]? = some s ∧ s.Stands service.limits selection
  logged : ∀ {i o bound selection}, rt.Carrying i o bound selection →
    ∃ session, Act.selected o bound.epoch session selection ∈ rt.log
  right : ∀ act ∈ rt.log, act.Right rt.log

namespace Prefixed
variable {service : Service} {H : Prop} {rt rt' : Runtime}

theorem initial : Prefixed service .initial := by
  have none {i o bound selection} : ¬ Runtime.initial.Carrying i o bound selection := by
    rintro ⟨f, at_i, _⟩
    cases at_i
  exact ⟨fun held => by simp [Runtime.initial] at held, fun c => absurd c none, fun c => absurd c none,
    fun c => absurd c none, fun c => absurd c none, fun act mem => by simp [Runtime.initial] at mem⟩

variable (h : Prefixed service rt)
include h

theorem signs {i : Nat} {o : ObjectId} {bound : BoundSession} {selection : Selection}
    {hash : B256} {signature : Option Bytes} {s : Session} {r : Session × Bytes}
    (flight : rt.flights[i]? = some (.settled o bound selection hash)) (held : rt.heap[o]? = some s)
    (taken : s.sign bound.epoch (rt.cancelled selection.token) signature selection.anchor selection.startIndex
      selection.toBlock = .ok r) : Live rt.tokens selection.token ∧ s.Stands service.limits selection := by
  have carrying : rt.Carrying i o bound selection := ⟨_, flight, rfl⟩
  have live := live_of_not_cancelled (h.issued carrying) (Session.sign_eq_ok.mp taken).2.1
  obtain ⟨s', held', stands⟩ := h.standing carrying live
  obtain rfl : s = s' := Option.some.inj (held.symm.trans held')
  exact ⟨live, stands⟩

/-- While its token lives, a session is only extended, or signed by the one operation
that has the token. -/
theorem kept (move : Moves service H rt rt') {o : ObjectId} (held : rt.heap[o]? = some s)
    (old : s.cancellation < rt.tokens.length) (live : Live rt'.tokens s.cancellation) :
    (∃ s', rt'.heap[o]? = some s' ∧ s'.anchor = s.anchor ∧ s.blocks <+: s'.blocks ∧ s'.cancellation = s.cancellation) ∨
      ∃ i bound selection, rt.Carrying i o bound selection ∧ selection.token = s.cancellation ∧
        ∀ {o' bound' selection'}, ¬ rt'.Carrying i o' bound' selection' := by
  have same (unchanged : rt'.heap[o]? = rt.heap[o]?) : ∃ s', rt'.heap[o]? = some s' ∧ s'.anchor = s.anchor ∧
      s.blocks <+: s'.blocks ∧ s'.cancellation = s.cancellation :=
    ⟨s, unchanged.trans held, rfl, ⟨[], append_nil _⟩, rfl⟩
  have old_set {c : Token} : s.cancellation < (rt.tokens.set c true).length := by rwa [length_set]
  -- a session put in place of another with its token cancelled is another session
  have elsewhere {o' : ObjectId} {t t' : Session} (held' : rt.heap[o']? = some t)
    (gone : t.cancellation ≠ s.cancellation) :
      (rt.heap.set o' t')[o]? = rt.heap[o]? := by
    refine getElem?_set_ne fun eq => gone ?_
    subst eq
    obtain rfl : t = s := Option.some.inj (held'.symm.trans held)
    rfl
  cases move with
  | quiet => exact .inl (same rfl)
  | begin => exact .inl (same ((getElem?_concat_held held).trans held.symm))
  | resume held' => exact .inl (same (elsewhere held' (live.of_concat old_set).of_set.1))
  | cancel | fetch | say => exact .inl (same rfl)
  | rewind held' => exact .inl (same (elsewhere held' (live.of_concat old_set).of_set.1))
  | snapshot => exact .inl (same rfl)
  | select held' => exact .inl (same (elsewhere held' (live.of_concat old_set).of_set.1))
  | publish => exact .inl (same rfl)
  | @detach i o' t held' =>
    left
    by_cases eq : o' = o
    · subst eq
      obtain rfl : t = s := Option.some.inj (held'.symm.trans held)
      exact ⟨_, getElem?_set_held held, rfl, ⟨[], append_nil _⟩, rfl⟩
    · exact same (getElem?_set_ne eq)
  | @append i o' bound admission artifact reused t t' flight held' linked taken =>
    left
    by_cases eq : o' = o
    · subst eq
      obtain rfl : t = s := Option.some.inj (held'.symm.trans held)
      obtain ⟨_, _, rfl⟩ := Session.append_eq_ok.mp taken
      exact ⟨_, getElem?_set_held held, rfl, ⟨_, rfl⟩, rfl⟩
    · exact same (getElem?_set_ne eq)
  | settle | expire => exact .inl (same rfl)
  | @sign i o' bound selection hash signature made t t' flight held' taken =>
    by_cases eq : o' = o
    · subst eq
      obtain rfl : t = s := Option.some.inj (held'.symm.trans held)
      right
      refine ⟨i, bound, selection, ⟨_, flight, rfl⟩, (h.signs flight held taken).2.1.symm, ?_⟩
      intro o' bound' selection' carrying
      exact (Moves.carrying_set_none rfl carrying).1 rfl
    · exact .inl (same (getElem?_set_ne eq))

theorem contiguous_step (honest : H) (move : Moves service H rt rt') {o : ObjectId}
    (held' : rt'.heap[o]? = some s') : s'.Contiguous := by
  cases move.session held' with
  | inl old => exact h.contiguous old
  | inr arises =>
    cases arises with
    | began => trivial
    | relabelled held =>
      have before := h.contiguous held
      exact before
    | rewound held cut =>
      obtain ⟨_, n, _, rfl⟩ := Session.rewind_eq_ok.mp cut
      exact (h.contiguous held).take n
    | appended flight held linked taken =>
      obtain ⟨_, tip, rfl⟩ := Session.append_eq_ok.mp taken
      have follows := linked honest
      rw [← tip, Session.tip_eq] at follows
      exact linked_concat.mpr ⟨h.contiguous held, follows⟩
    | signed flight held taken =>
      have stands := (h.signs flight held taken).2
      obtain ⟨_, _, _, rfl⟩ := Session.sign_eq_ok.mp taken
      exact stands.2.contiguous_drop (h.contiguous held)

theorem standing_step (move : Moves service H rt rt') (carrying : rt'.Carrying i o bound selection)
    (live : Live rt'.tokens selection.token) (old : rt.Carrying i o bound selection) :
    ∃ s, rt'.heap[o]? = some s ∧ s.Stands service.limits selection := by
  have issued := h.issued old
  obtain ⟨s, held, token, selects⟩ := h.standing old (move.live issued live)
  rw [← token] at issued live
  cases h.kept move held issued live with
  | inl extended =>
    obtain ⟨s', held', anchor, longer, same⟩ := extended
    exact ⟨s', held', same.trans token, selects.extend anchor longer⟩
  | inr signed =>
    obtain ⟨j, bound', selection', carrying', token', gone⟩ := signed
    obtain rfl := h.alone carrying' old (token'.trans token)
    exact absurd carrying gone

theorem right_step (move : Moves service H rt rt') : ∀ act ∈ rt'.log, act.Right rt'.log := by
  have old : ∀ act ∈ rt.log, act.Right rt'.log := fun act mem => (h.right act mem).mono move.log_mono
  have add {new : Act} (new_right : new.Right rt'.log) : ∀ act ∈ rt.log ++ [new], act.Right rt'.log := by
    intro act mem
    cases mem_append.mp mem with
    | inl mem => exact old act mem
    | inr mem =>
      obtain rfl := mem_singleton.mp mem
      exact new_right
  cases move with
  | quiet | cancel | fetch | snapshot | detach | expire => exact old
  | begin | resume | say | rewind | publish | append => exact add trivial
  | select held current token taken => exact add ((Session.selectWindow_ok taken).covers (h.contiguous held))
  | settle flight =>
    obtain ⟨session, mem⟩ := h.logged ⟨_, flight, rfl⟩
    exact add ⟨session, mem_append_left _ mem⟩
  | sign flight held taken =>
    have stands := (h.signs flight held taken).2
    have drains := stands.2.drains (h.contiguous held)
    obtain ⟨_, _, _, rfl⟩ := Session.sign_eq_ok.mp taken
    refine add ?_
    refine ⟨stands.2.contiguous_drop (h.contiguous held), stands.2.anchor_number (h.contiguous held), drains.2, ?_⟩
    rw [← drains.1]
    exact (take_append_drop _ _).symm

theorem step (honest : H) (move : Moves service H rt rt') : Prefixed service rt' := by
  have contiguous {o : ObjectId} {s : Session} (held : rt'.heap[o]? = some s) := h.contiguous_step honest move held
  have right := h.right_step move
  cases move.inherits with
  | inl inherits =>
    constructor
    case contiguous => exact contiguous
    case issued => exact fun c => (h.issued (inherits c)).trans_le move.tokens_le
    case alone => exact fun c c' same => h.alone (inherits c) (inherits c') same
    case standing => exact fun c live => h.standing_step move c live (inherits c)
    case logged =>
      intro i o bound selection c
      obtain ⟨session, mem⟩ := h.logged (inherits c)
      exact ⟨session, move.log_mono _ mem⟩
    case right => exact right
  | inr selects =>
    obtain ⟨i, o, bound, s, selection, held, _, token, sel, rfl⟩ := selects
    -- every other selection has an older token
    have split {j o' bound' selection'} (c : (rt.select i o bound s selection).Carrying j o' bound' selection') :
        (i = j ∧ o' = o ∧ bound' = bound ∧ selection' = selection) ∨ rt.Carrying j o' bound' selection' := by
      cases Moves.carrying_set c with
      | inl here =>
        obtain ⟨eq, carries⟩ := here
        cases carries
        exact .inl ⟨eq, rfl, rfl, rfl⟩
      | inr other => exact .inr other.2
    have grown : rt.tokens.length < (rt.select i o bound s selection).tokens.length := by
      simp [Runtime.select, Runtime.install]
    constructor
    case contiguous => exact contiguous
    case issued =>
      intro j o' bound' selection' c
      cases split c with
      | inl new => rw [new.2.2.2, token]; exact grown
      | inr old => exact (h.issued old).trans grown
    case alone =>
      intro j k o₁ o₂ bound₁ bound₂ selection₁ selection₂ c c' same
      cases split c with
      | inl new =>
        cases split c' with
        | inl new' => exact new.1.symm.trans new'.1
        | inr old' =>
          have := h.issued old'
          rw [← same, new.2.2.2, token] at this
          exact absurd this (Nat.lt_irrefl _)
      | inr old =>
        cases split c' with
        | inl new' =>
          have := h.issued old
          rw [same, new'.2.2.2, token] at this
          exact absurd this (Nat.lt_irrefl _)
        | inr old' => exact h.alone old old' same
    case standing =>
      intro j o' bound' selection' c live
      cases split c with
      | inr old => exact h.standing_step move c live old
      | inl new =>
        obtain ⟨_, rfl, _, rfl⟩ := new
        exact ⟨_, getElem?_set_held held, rfl, sel.extend rfl ⟨[], append_nil _⟩⟩
    case logged =>
      intro j o' bound' selection' c
      cases split c with
      | inl new =>
        obtain ⟨_, rfl, rfl, rfl⟩ := new
        exact ⟨s, mem_append_right _ mem_cons_self⟩
      | inr old =>
        obtain ⟨session, mem⟩ := h.logged old
        exact ⟨session, mem_append_left _ mem⟩
    case right => exact right

end Prefixed

theorem Session.Contiguous.numbers {s : Session} (h : s.Contiguous) :
    s.blocks.map (fun b => b.number.toNat) = List.range' (s.anchor.number.toNat + 1) s.blocks.length := by
  have ranks := Linked.map_rank Follows.rank h
  exact ranks

/-- In every run with an honest backend each session is a chain on its anchor, every
window settled is the range asked for of the chain it was selected from, and every
signature drops the blocks below its window and no others. -/
theorem prefix_throughout (service : Service) {run : List Event}
    (honest : Runs.Along (step service) (fun rt ev => ev.Honest rt) .initial run) :
    Runs.Throughout (step service) (fun rt => (∀ s ∈ rt.heap, s.Contiguous ∧
        s.blocks.map (fun b => b.number.toNat) = List.range' (s.anchor.number.toNat + 1) s.blocks.length) ∧
      ∀ act ∈ rt.log, act.Right rt.log) .initial run := by
  have prefixed := Runs.throughout_of_invariant (fun h allowed => Prefixed.step h allowed (step_moves _))
    Prefixed.initial
    honest
  refine prefixed.imp fun h => ⟨fun s mem => ?_, h.right⟩
  obtain ⟨o, held⟩ := getElem?_of_mem mem
  exact ⟨h.contiguous held, (h.contiguous held).numbers⟩

def sampleService : Service := ⟨7, ⟨2, 100, 100⟩, fun _ _ _ _ => .ok 0⟩

def sampleArtifact (number : UInt64) (hash parentHash : B256) : Artifact :=
  { block :=
      { hash
        decoded := ⟨⟨number, parentHash, 0, []⟩, []⟩
        receiptSuccesses := []
        transactionStateCheckpoints := []
        settlementEvidence := ⟨[], []⟩
        receipts_length := rfl
        flags_length := rfl
        events_bounded := by simp
        events_ordered := by simp
        checkpoints_ordered := by simp
        checkpoints_bounded := by simp }
    preStateRoot := parentHash
    postStateRoot := hash
    rlp := [] }

def sampleBlock (number : UInt64) (hash parentHash : B256) : ClientWork :=
  .block (some ⟨number, b256Bytes hash, b256Bytes parentHash, [], some 1, 10⟩)

def sampleBegin : Event := .begin ⟨7, 0, b256Bytes 0, b256Bytes 0⟩ (.ok ()) [5]

def sampleFinalize (fromBlock toBlock : UInt64) (terminalHash : B256) : ClientWork :=
  .finalize ⟨fromBlock, toBlock, b256Bytes terminalHash, some ⟨[], [], none⟩⟩

def signingRun : List Event :=
  [sampleBegin, .work ⟨5, 1⟩ (sampleBlock 1 11 0), .enter 0, .validated 0 (.ok (sampleArtifact 1 11 0, false)),
    .work ⟨5, 1⟩ (sampleBlock 2 12 11), .enter 1, .validated 1 (.ok (sampleArtifact 2 12 11, false)),
    .work ⟨5, 1⟩ (sampleFinalize 2 2 12), .enter 2, .settle 2 (.ok ()) false false, .sign 2 (some [1])]

theorem Event.honest_validated {rt : Runtime} {i : Nat} {artifact : Artifact}
    (flight : rt.flights[i]? = some (.validating o bound admission)) (follows : artifact.Follows admission.parent) :
    (Event.validated i (.ok (artifact, reused))).Honest rt := by
  intro o' bound' admission' flight'
  cases flight.symm.trans flight'
  exact follows

theorem signingRun_honest : Runs.Along (step sampleService) (fun rt ev => ev.Honest rt) .initial signingRun := by
  refine ⟨trivial, trivial, trivial, ?_, trivial, trivial, ?_, trivial, trivial, trivial, trivial, trivial⟩
  · exact Event.honest_validated rfl ⟨rfl, rfl, rfl⟩
  · exact Event.honest_validated rfl ⟨rfl, rfl, rfl⟩

theorem prefix_signing : (∃ before after selection, (List.foldl (step sampleService) .initial signingRun).log.getLast? =
      some (.signed 0 1 before after selection) ∧ before.blocks.length = 2 ∧ after.blocks.length = 1) ∧
    Runs.Throughout (step sampleService) (fun rt => (∀ s ∈ rt.heap, s.Contiguous ∧
        s.blocks.map (fun b => b.number.toNat) = List.range' (s.anchor.number.toNat + 1) s.blocks.length) ∧
      ∀ act ∈ rt.log, act.Right rt.log) .initial signingRun :=
  ⟨⟨_, _, _, rfl, rfl, rfl⟩, prefix_throughout sampleService signingRun_honest⟩

end Eez.Sessions
