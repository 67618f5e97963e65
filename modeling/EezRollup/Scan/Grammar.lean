import EezRollup.Lib.Intervals
import EezRollup.Scan.Logs

/-! A transaction's logs are items written one after the other, each `Posted | Skipped | Consumed?
Root+ Executed`. -/
namespace Eez.Scan
open List Outcome Intervals ScannedLog

def slotOf (consumed : Option Consumed) : UInt64 := (consumed.map Consumed.index).getD 0

def opening (consumed : Option Consumed) (roots : List (UInt64 × B256)) : List Event :=
  consumed.toList.map .consumed ++ roots.map fun x => .root x.1 x.2

def Kind.events : Kind → List Event
  | .posted spi ids => [.posted spi ids]
  | .skipped index => [.skipped index]
  | .record r => opening r.consumed r.roots ++ [.executed (slotOf r.consumed) r.rollingHash]

def Ascends (roots : List (UInt64 × B256)) : Prop := (0 :: roots.map Prod.fst).IsChain (· < ·)

def Kind.WellFormed : Kind → Prop
  | .record r => r.roots ≠ [] ∧ Ascends r.roots
  | _ => True

/-- The logs are these items, written one after the other. -/
structure Decomposes (kinds : List Kind) (logs : List ScannedLog) : Prop where
  wellFormed : ∀ kind ∈ kinds, kind.WellFormed
  written : kinds.flatMap Kind.events = logs.map event

def placed : Nat → List Kind → List Item
  | _, [] => []
  | start, kind :: kinds =>
    ⟨start, start + kind.events.length - 1, kind⟩ :: placed (start + kind.events.length) kinds

def Item.range (item : Item) : Nat × Nat := (item.first, item.last)

theorem Kind.events_ne_nil (kind : Kind) : kind.events ≠ [] := by
  cases kind <;> simp [Kind.events]

theorem Kind.events_length_pos (kind : Kind) : 0 < kind.events.length :=
  length_pos_of_ne_nil kind.events_ne_nil

@[simp] theorem placed_kinds (start : Nat) (kinds : List Kind) : (placed start kinds).map Item.kind = kinds := by
  induction kinds generalizing start with
  | nil => rfl
  | cons kind kinds ih => rw [placed, map_cons, ih]

theorem placed_tiles (start : Nat) (kinds : List Kind) :
    Tiles start ((placed start kinds).map Item.range) (start + (kinds.flatMap Kind.events).length) := by
  induction kinds generalizing start with
  | nil => rfl
  | cons kind kinds ih =>
    have pos := kind.events_length_pos
    have last : start + kind.events.length - 1 + 1 = start + kind.events.length := by omega
    refine ⟨rfl, by simp only [Item.range]; omega, ?_⟩
    rw [Item.range, last, flatMap_cons, length_append, ← Nat.add_assoc]
    exact ih _

variable {kinds : List Kind} {logs : List ScannedLog} {roots : List (UInt64 × B256)} {block : UInt64}
  {opened : Option Opened} {position : Nat} {items : List Item}

theorem Decomposes.tiles (h : Decomposes kinds logs) : Tiles 0 ((placed 0 kinds).map Item.range) logs.length := by
  have tiles := placed_tiles 0 kinds
  rwa [Nat.zero_add, h.written, length_map] at tiles

theorem placed_written (before : List Event) (kinds : List Kind) (mem : item ∈ placed before.length kinds) :
    ((before ++ kinds.flatMap Kind.events).drop item.first).take (item.last + 1 - item.first) = item.kind.events := by
  induction kinds generalizing before with
  | nil => cases mem
  | cons kind kinds ih =>
    rw [flatMap_cons]
    obtain rfl | mem := mem_cons.mp mem
    · have pos := kind.events_length_pos
      have count : before.length + kind.events.length - 1 + 1 - before.length = kind.events.length := by omega
      rw [count, drop_left, take_left]
    · rw [← length_append] at mem
      rw [← append_assoc]
      exact ih (before ++ kind.events) mem

def Opened.events (entry : Opened) : List Event := opening entry.consumed entry.roots

def pending (opened : Option Opened) : List Event := (opened.map Opened.events).getD []

def startOf (opened : Option Opened) (position : Nat) : Nat := (opened.map Opened.first).getD position

/-- The open entry is the start of a record and ends right before `position`. -/
structure Opened.Reaches (entry : Opened) (position : Nat) : Prop where
  nonempty : entry.events ≠ []
  ascends : Ascends entry.roots
  reaches : entry.first + entry.events.length = position

theorem ascends_concat :
    Ascends (roots ++ [(rollup, root)]) ↔ Ascends roots ∧ (roots.getLast?.map Prod.fst).getD 0 < rollup := by
  have last : (0 :: roots.map Prod.fst).getLast? = some ((roots.getLast?.map Prod.fst).getD 0) := by
    rw [getLast?_cons, getLast?_map]
  rw [Ascends, map_append, ← cons_append, isChain_append, last]
  simp [Ascends]

theorem opening_concat (consumed : Option Consumed) (roots : List (UInt64 × B256)) (rollup : UInt64) (root : B256) :
    opening consumed (roots ++ [(rollup, root)]) = opening consumed roots ++ [.root rollup root] := by
  simp [opening]

/-- One log either extends the item at hand or ends it. -/
theorem parseStep_cases (step : parseStep block position log opened = .ok (opened', item))
    (reaches : ∀ entry, opened = some entry → entry.Reaches position) :
    (item = none ∧ ∃ entry, opened' = some entry ∧ entry.Reaches (position + 1) ∧
      entry.events = pending opened ++ [log.event] ∧ entry.first = startOf opened position) ∨
    (opened' = none ∧ ∃ kind, item = some ⟨startOf opened position, position, kind⟩ ∧ kind.WellFormed ∧
      kind.events = pending opened ++ [log.event] ∧ startOf opened position + kind.events.length = position + 1) := by
  unfold parseStep at step
  split at step
  · -- a root opens an unconsumed entry or extends the open one
    rename_i rollup root event
    clear * - step reaches event
    rename_i opened
    simp only [bind_eq_ok, ensure_eq_ok, exists_const, pure_eq_ok, Prod.mk.injEq] at step
    obtain ⟨above, rfl, rfl⟩ := step
    refine .inl ⟨rfl, _, rfl, ?_⟩
    rw [event]
    cases opened with
    | none =>
      have first : Ascends ([] ++ [(rollup, root)]) := ascends_concat.mpr ⟨isChain_singleton _, above⟩
      exact ⟨⟨by simp [Opened.events, opening], first, rfl⟩, rfl, rfl⟩
    | some entry =>
      obtain ⟨nonempty, ascends, before⟩ := reaches entry rfl
      have events := opening_concat entry.consumed entry.roots rollup root
      refine ⟨⟨?_, ascends_concat.mpr ⟨ascends, above⟩, ?_⟩, events, rfl⟩
      · simp [Opened.events, events]
      · change entry.first + (opening entry.consumed (entry.roots ++ [(rollup, root)])).length = position + 1
        rw [events, length_append, ← Nat.add_assoc]
        exact congrArg (· + 1) before
  · rename_i consumed event
    obtain ⟨rfl, rfl⟩ := Prod.mk.inj (Except.ok.inj step)
    refine .inl ⟨rfl, _, rfl, ⟨cons_ne_nil _ _, isChain_singleton _, rfl⟩, ?_, rfl⟩
    rw [event]
    rfl
  · rename_i index rollingHash entry event
    simp only [bind_eq_ok, ensure_eq_ok, exists_const, pure_eq_ok, Prod.mk.injEq] at step
    obtain ⟨nonempty, slot, rfl, rfl⟩ := step
    obtain ⟨-, ascends, before⟩ := reaches entry rfl
    refine .inr ⟨rfl, _, rfl, ⟨nonempty, ascends⟩, ?_, ?_⟩
    · rw [event, slot]
      rfl
    · rw [Kind.events, length_append, ← Nat.add_assoc]
      exact congrArg (· + 1) before
  · rename_i spi ids event
    obtain ⟨rfl, rfl⟩ := Prod.mk.inj (Except.ok.inj step)
    refine .inr ⟨rfl, _, rfl, trivial, ?_, rfl⟩
    rw [event]
    rfl
  · rename_i skipped event
    obtain ⟨rfl, rfl⟩ := Prod.mk.inj (Except.ok.inj step)
    refine .inr ⟨rfl, _, rfl, trivial, ?_, rfl⟩
    rw [event]
    rfl
  · cases step
  · cases step

/-- What is parsed to its end was written by the grammar: the item at hand
and the logs still unread are the items returned. -/
theorem parseLogs_sound (parsed : parseLogs block position logs opened = .ok (items, none))
    (reaches : ∀ entry, opened = some entry → entry.Reaches position) :
    ∃ kinds, (∀ kind ∈ kinds, kind.WellFormed) ∧ kinds.flatMap Kind.events = pending opened ++ logs.map event ∧
      items = placed (startOf opened position) kinds := by
  induction logs generalizing position opened items with
  | nil =>
    obtain ⟨rfl, rfl⟩ := Prod.mk.inj (Except.ok.inj parsed)
    exact ⟨[], by simp, rfl, rfl⟩
  | cons log logs ih =>
    simp only [parseLogs, bind_eq_ok, Prod.exists, pure_eq_ok, Prod.mk.injEq] at parsed
    obtain ⟨opened', item, step, rest, _, parsed, rfl, rfl⟩ := parsed
    obtain ⟨rfl, entry, rfl, reached, events, first⟩ | ⟨rfl, kind, rfl, wellFormed, events, length⟩ :=
      parseStep_cases step reaches
    · obtain ⟨kinds, all, written, rfl⟩ := ih parsed fun e same => Option.some.inj same ▸ reached
      refine ⟨kinds, all, ?_, ?_⟩
      · rw [written]
        change entry.events ++ _ = _
        rw [events, append_assoc]
        rfl
      · rw [← first]
        rfl
    · obtain ⟨kinds, all, written, rfl⟩ := ih parsed fun e same => by cases same
      refine ⟨kind :: kinds, forall_mem_cons.mpr ⟨wellFormed, all⟩, ?_, ?_⟩
      · rw [flatMap_cons, written, events, append_assoc]
        rfl
      · rw [placed, length]
        rfl

theorem parseLogs_cons (step : parseStep block position log opened = .ok (opened', item))
    (rest : parseLogs block (position + 1) logs opened' = .ok (items, last)) :
    parseLogs block position (log :: logs) opened = .ok (item.toList ++ items, last) := by
  simp only [parseLogs, bind_eq_ok, Prod.exists, pure_eq_ok, Prod.mk.injEq]
  exact ⟨opened', item, step, items, last, rest, rfl, rfl⟩

theorem parseLogs_append (first : parseLogs block position left opened = .ok (items, middle))
    (second : parseLogs block (position + left.length) right middle = .ok (items', last)) :
    parseLogs block position (left ++ right) opened = .ok (items ++ items', last) := by
  induction left generalizing position opened items with
  | nil =>
    obtain ⟨rfl, rfl⟩ := Prod.mk.inj (Except.ok.inj first)
    exact second
  | cons log left ih =>
    simp only [parseLogs, bind_eq_ok, Prod.exists, pure_eq_ok, Prod.mk.injEq] at first
    obtain ⟨opened', item, step, rest, _, parsed, rfl, rfl⟩ := first
    have shifted : position + (log :: left).length = position + 1 + left.length := by
      rw [length_cons]
      omega
    rw [shifted] at second
    rw [append_assoc]
    exact parseLogs_cons step (ih parsed second)

theorem parseLogs_roots {entry : Opened} (written : logs.map event = roots.map fun x => .root x.1 x.2)
    (ascends : Ascends (entry.roots ++ roots)) :
    parseLogs block position logs (some entry) = .ok ([], some { entry with roots := entry.roots ++ roots }) := by
  induction roots generalizing position logs entry with
  | nil =>
    rw [map_nil, map_eq_nil_iff] at written
    rw [written, append_nil]
    rfl
  | cons x roots ih =>
    obtain ⟨log, logs, rfl, event, written⟩ := map_eq_cons_iff.mp written
    rw [append_cons] at ascends
    have chain := ascends
    rw [Ascends, map_append, ← cons_append, isChain_append] at chain
    have above := (ascends_concat.mp chain.1).2
    have step : parseStep block position log (some entry) =
        .ok (some { entry with roots := entry.roots ++ [x] }, none) := by
      simp only [parseStep, event, bind_eq_ok, ensure_eq_ok, exists_const, pure_eq_ok]
      exact ⟨above, rfl⟩
    rw [append_cons]
    exact parseLogs_cons step (ih written ascends)

theorem parseLogs_opening (nonempty : roots ≠ []) (ascends : Ascends roots)
    (written : logs.map event = opening consumed roots) :
    parseLogs block position logs none = .ok ([], some ⟨position, consumed, roots⟩) := by
  cases consumed with
  | none =>
    obtain ⟨x, later, rfl⟩ := exists_cons_of_ne_nil nonempty
    obtain ⟨log, logs, rfl, event, rest⟩ := map_eq_cons_iff.mp written
    -- the first root opens the entry it would extend
    have opens : parseStep block position log none = parseStep block position log (some ⟨position, none, []⟩) := by
      simp only [parseStep, event]
      rfl
    have reads : parseLogs block position (log :: logs) (some ⟨position, none, []⟩) =
        .ok ([], some ⟨position, none, [] ++ x :: later⟩) := parseLogs_roots written ascends
    rw [parseLogs, opens]
    exact reads
  | some c =>
    obtain ⟨log, logs, rfl, event, rest⟩ := map_eq_cons_iff.mp written
    have step : parseStep block position log none = .ok (some ⟨position, some c, []⟩, none) := by
      simp only [parseStep, event]
    exact parseLogs_cons step (parseLogs_roots rest ascends)

theorem parseLogs_kind {kind : Kind} (wellFormed : kind.WellFormed) (written : logs.map event = kind.events) :
    parseLogs block position logs none = .ok ([⟨position, position + kind.events.length - 1, kind⟩], none) := by
  cases kind with
  | posted spi ids | skipped index =>
    obtain ⟨log, rfl, event⟩ := map_eq_singleton_iff.mp written
    simp [parseLogs, parseStep, event, Kind.events]
  | record r =>
    obtain ⟨nonempty, ascends⟩ := wellFormed
    obtain ⟨front, closing, rfl, opens, closes⟩ := map_eq_append_iff.mp written
    obtain ⟨log, rfl, event⟩ := map_eq_singleton_iff.mp closes
    have length : (opening r.consumed r.roots).length = front.length := by
      rw [← opens, length_map]
    have step : parseStep block (position + front.length) log (some ⟨position, r.consumed, r.roots⟩) =
        .ok (none, some ⟨position, position + front.length, .record r⟩) := by
      simp only [parseStep, event, bind_eq_ok, ensure_eq_ok, exists_const, pure_eq_ok]
      exact ⟨nonempty, rfl, trivial⟩
    rw [Kind.events, length_append, length]
    exact parseLogs_append (parseLogs_opening nonempty ascends opens) (parseLogs_cons step rfl)

theorem parseLogs_complete
    (decomposes : Decomposes kinds logs) : parseLogs block position logs none = .ok (placed position kinds, none) := by
  induction kinds generalizing position logs with
  | nil =>
    have empty : logs = [] := map_eq_nil_iff.mp decomposes.written.symm
    rw [empty]
    rfl
  | cons kind kinds ih =>
    obtain ⟨wellFormed, written⟩ := decomposes
    obtain ⟨front, rest, rfl, first, later⟩ := map_eq_append_iff.mp written.symm
    have length : kind.events.length = front.length := by
      rw [← first, length_map]
    rw [placed, length]
    refine parseLogs_append (length ▸ parseLogs_kind (wellFormed kind (.head _)) first) (ih ⟨?_, later.symm⟩)
    exact fun k mem => wellFormed k (.tail _ mem)

theorem parseTx_eq_ok : parseTx block logs = .ok tx ↔ ∃ kinds, Decomposes kinds logs ∧ tx = ⟨logs, placed 0 kinds⟩ := by
  simp only [parseTx, bind_eq_ok, Prod.exists]
  constructor
  · rintro ⟨items, opened, parsed, close⟩
    cases opened with
    | some entry => simp [bind_eq_ok] at close
    | none =>
      obtain ⟨kinds, wellFormed, written, rfl⟩ := parseLogs_sound parsed fun e same => by cases same
      exact ⟨kinds, ⟨wellFormed, written⟩, (Except.ok.inj close).symm⟩
  · rintro ⟨kinds, decomposes, rfl⟩
    exact ⟨_, none, parseLogs_complete decomposes, rfl⟩

/-- The parser is deterministic, so the grammar is unambiguous. -/
theorem Decomposes.unique (h : Decomposes kinds logs) (h' : Decomposes kinds' logs) : kinds = kinds' := by
  have read : parseLogs 0 0 logs none = .ok (placed 0 kinds, none) := parseLogs_complete h
  have same := Prod.mk.inj (Except.ok.inj (read.symm.trans (parseLogs_complete h')))
  rw [← placed_kinds 0 kinds, same.1, placed_kinds]

/-- A transaction's logs parse exactly when they are items of the grammar one
after the other. They are so in one way, and the parser returns it, with ranges
that follow on each other and cover all logs. -/
theorem parseTx_iff_grammar (block : UInt64) (logs : List ScannedLog) :
    ((∃ tx, parseTx block logs = .ok tx) ↔ ∃ kinds, Decomposes kinds logs) ∧
    (∀ kinds kinds', Decomposes kinds logs → Decomposes kinds' logs → kinds = kinds') ∧
    ∀ tx, parseTx block logs = .ok tx → tx.logs = logs ∧ Decomposes (tx.items.map Item.kind) logs ∧
      Tiles 0 (tx.items.map Item.range) logs.length ∧ ∀ item ∈ tx.items,
        ((logs.map event).drop item.first).take (item.last + 1 - item.first) = item.kind.events := by
  refine ⟨?_, fun kinds kinds' h h' => h.unique h', ?_⟩
  · simp only [parseTx_eq_ok]
    constructor
    · rintro ⟨_, kinds, decomposes, -⟩
      exact ⟨kinds, decomposes⟩
    · rintro ⟨kinds, decomposes⟩
      exact ⟨_, kinds, decomposes, rfl⟩
  · intro tx parsed
    obtain ⟨kinds, decomposes, rfl⟩ := parseTx_eq_ok.mp parsed
    refine ⟨rfl, (placed_kinds 0 kinds).symm ▸ decomposes, decomposes.tiles, fun item mem => ?_⟩
    rw [← decomposes.written]
    exact placed_written [] kinds mem

def grammarLogs : List ScannedLog :=
  [⟨0, 9, 4, .consumed ⟨1, 7, 2⟩⟩, ⟨0, 9, 5, .root 3 8⟩, ⟨0, 9, 6, .root 7 6⟩, ⟨0, 9, 7, .executed 2 5⟩,
    ⟨0, 9, 8, .posted 1 [7]⟩]

def grammarKinds : List Kind := [.record ⟨some ⟨1, 7, 2⟩, [(3, 8), (7, 6)], 5⟩, .posted 1 [7]]

theorem decomposes_grammarLogs : Decomposes grammarKinds grammarLogs := by
  refine ⟨?_, rfl⟩
  simp only [grammarKinds, forall_mem_cons, not_mem_nil, false_imp_iff, implies_true, and_true,
    Kind.WellFormed, Ascends, map_cons, map_nil, isChain_cons_cons, isChain_singleton]
  decide

theorem parseTx_iff_grammar_record : (∃ tx, parseTx 1 grammarLogs = .ok tx) ∧
    (∀ kinds, Decomposes kinds grammarLogs → kinds = grammarKinds) ∧
    parseTx 1 grammarLogs = .ok ⟨grammarLogs, [⟨0, 3, .record ⟨some ⟨1, 7, 2⟩, [(3, 8), (7, 6)], 5⟩⟩,
      ⟨4, 4, .posted 1 [7]⟩]⟩ ∧ Tiles 0 [(0, 3), (4, 4)] 5 :=
  have grammar := parseTx_iff_grammar 1 grammarLogs
  have parsed : parseTx 1 grammarLogs = .ok ⟨grammarLogs, [⟨0, 3, .record ⟨some ⟨1, 7, 2⟩, [(3, 8), (7, 6)], 5⟩⟩,
      ⟨4, 4, .posted 1 [7]⟩]⟩ := by decide +kernel
  ⟨grammar.1.mpr ⟨_, decomposes_grammarLogs⟩,
    fun kinds h => grammar.2.1 kinds grammarKinds h decomposes_grammarLogs, parsed, (grammar.2.2 _ parsed).2.2.1⟩

end Eez.Scan
