import EezRollup.Watcher.Answered
import Mathlib.Logic.Relation

/-! What a cycle can do to the ring: go back to one of its entries, push the next blocks of the
chain served, or, far behind, start anew at the end of a chunk. -/
open List
namespace Eez.Watcher
open Runs
open Octets Faulty Scan

inductive Move (t : BlockTree) (src : Source) (s : WatcherState) : WatcherState → Prop
  | finalized (hash : B256) : Move t src s { s with lastFinalizedHash := some hash }
  | rewind {e : Nat × B256} : e ∈ s.recent → Move t src s (s.rewindTo e.1)
  | extend {n m : Nat} {h : B256} : s.tip = some (n, h) → t.chain h = src.chain.take (n + 1) → 0 < m →
      n + m < src.chain.length → Move t src s (pushAll (entries src.chain (n + 1) m) s)

/-- What a cycle does to the ring: some moves or, far behind, a new ring at the end of a chunk. -/
inductive Turn (t : BlockTree) (src : Source) (s : WatcherState) : WatcherState → Prop
  | moves {s' : WatcherState} : Relation.ReflTransGen (Move t src) s s' → Turn t src s s'
  | reseed {n low b : Nat} {h : B256} : s.tip = some (n, h) → t.chain h = src.chain.take (n + 1) →
      n + s.reorgMaxDepth + 1 < src.chain.length → n < b → low ≤ b → b < src.chain.length →
      Turn t src s (pushAll (entries src.chain low (b + 1 - low)) (s.rewindTo 0))

section
variable {t : BlockTree} {src : Source} {head : B256} (on : src.chain = t.chain head) {c c' : Cycle}
    {n : Nat} {h : B256}

theorem Passed.moves {filled} (passed : Passed t src c filled c') :
    Relation.ReflTransGen (Move t src) c.state c'.state := by
  induction passed with
  | began same => rw [same.state]
  | back old new number _ mem state _ ih =>
    rw [state]
    exact ih.tail (.rewind mem)
  | filled m heads _ tip chain _ bound _ state _ ih =>
    rw [state]
    exact ih.tail (.extend tip chain (Nat.succ_pos m) (by omega))
  | finalized number hash _ state _ ih =>
    rw [state]
    exact ih.tail (.finalized hash)

include on in
theorem pollCycle_turn (ring : Ring t c.state n h) (tick : Nat) :
    Leaves (pollCycle src tick) c (fun _ c' => Turn t src c.state c'.state)
    (fun c' => Turn t src c.state c'.state) := by
  have turns : ∀ c', Passes t src c c' → Turn t src c.state c'.state := by
    rintro c' ⟨_, passed⟩
    exact .moves passed.moves
  apply (pollCycle_passes on ring tick).mono _ turns
  rintro _ c' (passes | ⟨ts, tip, chain, far, ahead, le, bound, state, _⟩)
  · exact turns c' passes
  · rw [state]
    exact .reseed tip chain far ahead le bound

end

section
variable {t : BlockTree} {src : Source} {head : B256} (on : src.chain = t.chain head)
variable {s s' : WatcherState}

theorem length_pushAll_le (some_entry : window ≠ []) :
    (pushAll window s).recent.length ≤ (pushAll window s).reorgMaxDepth := by
  rw [pushAll_recent some_entry, pushAll_depth, length_drop]
  omega

def Filled (t : BlockTree) (s : WatcherState) : Prop := (∃ n h, Ring t s n h) ∧ s.recent.length ≤ s.reorgMaxDepth

include on in
theorem Filled.move (filled : Filled t s) (move : Move t src s s') : Filled t s' := by
  obtain ⟨⟨n, h, ring⟩, length⟩ := filled
  cases move with
  | finalized hash => exact ⟨⟨n, h, ring.depth, ring.tip, ring.kept⟩, length⟩
  | rewind mem =>
    refine ⟨⟨_, _, ring.rewind mem⟩, Nat.le_trans ?_ length⟩
    exact ( rdropWhile_prefix _ _).length_le
  | @extend m k h' tip chain positive bound =>
    obtain ⟨rfl, rfl⟩ := Prod.mk.inj (Option.some.inj (ring.tip.symm.trans tip))
    obtain ⟨k, rfl⟩ : ∃ j, k = j + 1 := ⟨k - 1, by omega⟩
    refine ⟨⟨_, _, ring_push on ring.depth ring.kept ?_ (by omega) ?_⟩,
      length_pushAll_le (entries_ne_nil (Nat.succ_pos k))⟩
    · rw [chain]
      exact take_prefix_take_left (by omega)
    · intro e mem
      exact Nat.le_succ_of_le (ring.kept.le_last ring.tip mem)

include on in
theorem Filled.turn (filled : Filled t s) (turn : Turn t src s s') : Filled t s' := by
  cases turn with
  | moves moves =>
    induction moves with
    | refl => exact filled
    | tail _ move ih => exact ih.move on move
  | @reseed m low b h' tip chain _ ahead le bound =>
    obtain ⟨⟨n, h, ring⟩, _⟩ := filled
    obtain ⟨rfl, rfl⟩ := Prod.mk.inj (Option.some.inj (ring.tip.symm.trans tip))
    obtain ⟨k, rfl⟩ : ∃ k, b = low + k := ⟨b - low, by omega⟩
    rw [show low + k + 1 - low = k + 1 by omega]
    refine ⟨⟨_, _, ring.kept.ring_reseed on ring.depth ?_ bound⟩, length_pushAll_le (entries_ne_nil (Nat.succ_pos k))⟩
    rw [chain]
    exact take_prefix_take_left (by omega)

def Whole (t : BlockTree) (s : WatcherState) : Prop :=
  0 < s.reorgMaxDepth ∧ ∃ low k h, Stretch t s.recent low k h ∧ k ≤ s.reorgMaxDepth

theorem whole_pushAll (whole : s.recent ++ window = entries (t.chain h) low k)
    (top : low + k = (t.chain h).length) (some_entry : window ≠ []) (depth : 0 < s.reorgMaxDepth) :
    Whole t (pushAll window s) := by
  refine ⟨?_, _, _, _, stretch_pushAll whole top some_entry depth, ?_⟩
  · rw [pushAll_depth]
    exact depth
  · rw [pushAll_depth]
    omega

include on in
theorem whole_push {m : Nat} (depth : 0 < s.reorgMaxDepth) (recent : s.recent = entries src.chain low k)
    (bound : low + k + m < src.chain.length) : Whole t (pushAll (entries src.chain (low + k) (m + 1)) s) := by
  have chain := chain_entry on bound
  have length : (t.chain (entryAt src.chain (low + k + m)).2).length = low + k + m + 1 := height_of_take chain bound
  have whole : s.recent ++ entries src.chain (low + k) (m + 1) =
      entries (t.chain (entryAt src.chain (low + k + m)).2) low (k + (m + 1)) := by
    rw [recent, entries_append, chain]
    exact (entries_of_extension ( take_prefix _ _) (by rw [length_take]; omega)).symm
  exact whole_pushAll whole (by omega) (entries_ne_nil (Nat.succ_pos m)) depth

include on in
theorem Whole.move (whole : Whole t s) (move : Move t src s s') : Whole t s' := by
  obtain ⟨depth, low, k, h, stretch, le⟩ := whole
  cases move with
  | finalized hash => exact ⟨depth, low, k, h, stretch, le⟩
  | @rewind e mem =>
    have inside := (stretch.chain_of_mem mem).2.2
    refine ⟨depth, low, _, e.2, stretch.rewind mem, ?_⟩
    change e.1 + 1 - low ≤ s.reorgMaxDepth
    omega
  | @extend n m h' tip chain positive bound =>
    obtain ⟨number, rfl⟩ := Prod.mk.inj (Option.some.inj (stretch.tip.symm.trans tip))
    have filled := stretch.some_block
    obtain ⟨m, rfl⟩ : ∃ j, m = j + 1 := ⟨m - 1, by omega⟩
    rw [show n + 1 = low + k by omega]
    refine whole_push on depth ?_ (by omega)
    rw [stretch.eq, chain]
    exact entries_of_extension ( take_prefix _ _) (by rw [length_take]; omega)

/-- A ring that holds block 0 is not started anew. -/
def KeepsGenesis (src : Source) (s : WatcherState) : Prop :=
  (∃ e ∈ s.recent, e.1 = 0) → ∀ n h, s.tip = some (n, h) → src.chain.length ≤ n + s.reorgMaxDepth + 1

include on in
theorem Whole.turn (whole : Whole t s) (near : KeepsGenesis src s) (turn : Turn t src s s') : Whole t s' := by
  cases turn with
  | moves moves =>
    induction moves with
    | refl => exact whole
    | tail _ move ih => exact ih.move on move
  | @reseed n low b h tip chain far ahead le bound =>
    obtain ⟨depth, _, _, _, stretch, _⟩ := whole
    obtain ⟨m, rfl⟩ : ∃ m, b = low + m := ⟨b - low, by omega⟩
    rw [show low + m + 1 - low = m + 1 by omega]
    have empty : (s.rewindTo 0).recent = entries src.chain low 0 := by
      rw [rewindTo_zero_recent (stretch.sorted.imp Nat.le_of_lt)]
      apply filter_eq_nil_iff.mpr
      intro e mem zero
      have genesis : e.1 = 0 := Nat.le_zero.mp (of_decide_eq_true zero)
      exact absurd (near ⟨e, mem, genesis⟩ n h tip) (by omega)
    exact whole_push on (s := s.rewindTo 0) (k := 0) depth empty bound

end

/-- The ring has a tip, keeps to its depth, climbs block by block along one chain, and finds a hash at
its height. -/
structure Intact (t : BlockTree) (s : WatcherState) : Prop extends Consecutive t s.recent where
  bounded : s.recent.length ≤ s.reorgMaxDepth
  increasing : s.recent.Pairwise fun a b => a.1 < b.1
  tip : ∃ n h, s.tip = some (n, h) ∧ ∀ e ∈ s.recent, t.chain e.2 <+: t.chain h
  lookup : ∀ {hash n}, s.lookupHash hash = some n → (t.chain hash).length = n + 1

theorem lookupHash_height {t : BlockTree} {s : WatcherState} (heights : ∀ e ∈ s.recent, (t.chain e.2).length = e.1 + 1)
    {hash n} (found : s.lookupHash hash = some n) : (t.chain hash).length = n + 1 := by
  obtain ⟨e, at_e, rfl⟩ := Option.map_eq_some_iff.mp found
  have hashes : e.2 = hash := by simpa using find?_some at_e
  rw [← hashes]
  exact heights e (mem_of_find?_eq_some at_e)

theorem Whole.intact (whole : Whole t s) : Intact t s := by
  obtain ⟨_, low, k, h, stretch, le⟩ := whole
  refine ⟨stretch.consecutive, ?_, stretch.sorted, ⟨_, h, stretch.tip, ?_⟩, ?_⟩
  · rw [stretch.eq, entries_length]
    exact le
  · intro e mem
    rw [(stretch.chain_of_mem mem).1]
    exact take_prefix _ _
  · exact lookupHash_height stretch.consecutive.heights

theorem Whole.filled (whole : Whole t s) : Filled t s := by
  have intact := whole.intact
  obtain ⟨depth, low, k, h, stretch, _⟩ := whole
  refine ⟨⟨_, h, depth, stretch.tip, ?_, ?_, ?_⟩, intact.bounded⟩
  · intro e mem
    exact stretch.height mem
  · intro e mem
    rw [(stretch.chain_of_mem mem).1]
    exact take_prefix _ _
  · exact stretch.sorted.imp Nat.le_of_lt

namespace Watching
variable {t : BlockTree} {seed : Nat} {w : Watching} {p : Poll}

theorem tick_turn (filled : Filled t w.state) (on : ∃ head, p.source.chain = t.chain head) :
    Turn t p.source w.state (w.tick p).state := by
  obtain ⟨head, on⟩ := on
  obtain ⟨⟨n, h, ring⟩, _⟩ := filled
  have ran : Leaves (pollCycle p.source (w.tickCount + 1)) ⟨w.state, [], p.answers⟩ _ _ :=
    pollCycle_turn on ring (w.tickCount + 1)
  unfold Leaves at ran
  unfold Watching.tick Watching.poll
  split at ran
  · next eq => rw [eq]; exact ran
  · next eq => rw [eq]; exact ran

theorem tick_filled (filled : Filled t w.state) (on : ∃ head, p.source.chain = t.chain head) :
    Filled t (w.tick p).state := by
  have turn := tick_turn filled on
  obtain ⟨head, on⟩ := on
  exact filled.turn on turn

theorem seedRing_whole {src : Source} {head hash} (on : src.chain = t.chain head) (depth : Nat)
    (answers : List (Option String)) :
    Leaves (seedRing src depth seed hash) ⟨WatcherState.new depth, [], answers⟩ (fun _ c' => Whole t c'.state)
      (fun _ => True) := by
  apply (seedRing_pushes on depth answers).mono _ fun _ => id
  rintro _ c' ⟨low, k, _, bound, _, state, _⟩
  rw [state]
  exact whole_push on (s := WatcherState.new depth) (k := 0) (new_depth_pos depth) rfl bound

/-- In every run from a seeded ring, whatever fails and however the chains of its cycles differ, the
ring has a tip, keeps to its depth and finds a hash at its height. It is whole throughout when it is
never started anew while it holds block 0. -/
theorem integrity_throughout (t : BlockTree) {src : Source} {head hash : B256} (on : src.chain = t.chain head)
    {depth seed : Nat} {w : Watching} (seeded : Seeded src depth seed hash w) {polls : List Poll}
    (served : ∀ p ∈ polls, ∃ head, p.source.chain = t.chain head) :
    Throughout Watching.tick (fun w => w.state.tip ≠ none ∧ w.state.recent.length ≤ w.state.reorgMaxDepth ∧
      ∀ hash n, w.state.lookupHash hash = some n → (t.chain hash).length = n + 1) w polls ∧
    (Along Watching.tick (fun w p => KeepsGenesis p.source w.state) w polls →
      Throughout Watching.tick (fun w => Intact t w.state) w polls) := by
  have start : Whole t w.state := by
    obtain ⟨answers, rest, ran⟩ := seeded.ran
    exact (seedRing_whole on depth answers).ok ran
  have allowed : Along Watching.tick (fun _ p => ∃ head, p.source.chain = t.chain head) w polls :=
    along_of_forall served
  constructor
  · have filled : Throughout Watching.tick (fun w => Filled t w.state) w polls :=
      throughout_of_invariant tick_filled start.filled allowed
    refine filled.imp ?_
    rintro w ⟨⟨n, h, ring⟩, length⟩
    refine ⟨?_, length, ?_⟩
    · rw [ring.tip]
      exact Option.some_ne_none _
    · intro hash n
      exact lookupHash_height fun e mem => ring.kept.height mem
  · intro near
    have whole : Throughout Watching.tick (fun w => Whole t w.state) w polls := by
      refine throughout_of_invariant ?_ start (allowed.and near)
      rintro w p whole ⟨on, near⟩
      have turn := tick_turn whole.filled on
      obtain ⟨head, on⟩ := on
      exact whole.turn on near turn
    exact whole.imp Whole.intact

theorem seededAtOne_integrity :
    Along Watching.tick (fun w p => KeepsGenesis p.source w.state) seededAtOne replacingPolls ∧
      Throughout Watching.tick (fun w => Intact seedTree w.state) seededAtOne replacingPolls := by
  have near : Along Watching.tick (fun w p => KeepsGenesis p.source w.state) seededAtOne replacingPolls := by
    refine ⟨?_, ?_, trivial⟩
    · intro _ n h _
      change 3 ≤ n + 3 + 1
      omega
    · intro _ n h _
      have depth : (seededAtOne.tick ⟨⟨grownChain, none⟩, []⟩).state.reorgMaxDepth = 3 := by decide +kernel
      rw [depth]
      change 3 ≤ n + 3 + 1
      omega
  have seed : (Source.mk seedChain none).chain = seedTree.chain 11 := by decide +kernel
  exact ⟨near, (integrity_throughout seedTree seed seeded_seededAtOne replacingPolls_served).2 near⟩

def lineBlock (i : Nat) : L1Block := ⟨BitVec.ofNat 256 (i + 1), BitVec.ofNat 256 i, 0, []⟩

theorem line_last (last : ((List.range n).map lineBlock).getLast? = some b) : ∃ m, n = m + 1 ∧ b = lineBlock m := by
  cases n with
  | zero => cases last
  | succ m =>
    rw [range_succ, map_append, map_singleton, getLast?_concat] at last
    exact ⟨m, rfl, (Option.some.inj last).symm⟩

def lineTree : BlockTree where
  chain h := (List.range h.toNat).map lineBlock
  hash_eq {h b} last := by
    obtain ⟨m, eq, rfl⟩ := line_last last
    change BitVec.ofNat 256 (m + 1) = h
    rw [← eq, BitVec.ofNat_toNat, BitVec.setWidth_eq]
  parent_eq {h b} last := by
    obtain ⟨m, eq, rfl⟩ := line_last last
    have bound := h.isLt
    change (List.range (BitVec.ofNat 256 m).toNat).map lineBlock = _
    rw [BitVec.toNat_ofNat, Nat.mod_eq_of_lt (by omega), eq, range_succ, map_append, map_singleton, dropLast_concat]
  placed last := by
    obtain ⟨m, _, rfl⟩ := line_last last
    exact forall_mem_nil _
  ordered last := by
    obtain ⟨m, _, rfl⟩ := line_last last
    exact List.Pairwise.nil

def seededAtZero : Watching := ⟨⟨[(0, 1)], 64, none⟩, [.newHead 0 1 0], 0⟩

def lineSource (n : Nat) : Source := ⟨(List.range n).map lineBlock, none⟩

theorem lineSource_on {n : Nat} (fits : n < 2 ^ 256) : (lineSource n).chain = lineTree.chain (BitVec.ofNat 256 n) := by
  change _ = (List.range (BitVec.ofNat 256 n).toNat).map lineBlock
  rw [BitVec.toNat_ofNat, Nat.mod_eq_of_lt fits]
  rfl

theorem lineSource_snapshot {i : Nat} (bound : i < n) :
    (lineSource n).snapshot i = some ⟨i, BitVec.ofNat 256 (i + 1), BitVec.ofNat 256 i, 0⟩ := by
  unfold Source.snapshot lineSource
  rw [getElem?_map, getElem?_range bound]
  rfl

theorem pollCycle_line (far : logScanChunkBlocks + 64 ≤ n) (fits : n < 2 ^ 200) :
    Succeeds (pollCycle (lineSource (n + 1)) 1) ⟨seededAtZero.state, [], []⟩ fun _ c' =>
      c'.state.recent = [(0, 1), (logScanChunkBlocks, BitVec.ofNat 256 (logScanChunkBlocks + 1))] := by
  have at_head : (lineSource (n + 1)).byTag .latest = some ⟨n, BitVec.ofNat 256 (n + 1), BitVec.ofNat 256 n, 0⟩ := by
    unfold Source.byTag
    rw [lineSource, length_map, length_range]
    exact lineSource_snapshot (Nat.lt_succ_self n)
  have served : (lineSource (n + 1)).snapshot n = some ⟨n, BitVec.ofNat 256 (n + 1), BitVec.ofNat 256 n, 0⟩ :=
    lineSource_snapshot (Nat.lt_succ_self n)
  have other : (1 : B256) ≠ BitVec.ofNat 256 (n + 1) := by
    intro same
    have number := congrArg BitVec.toNat same
    rw [BitVec.toNat_ofNat, Nat.mod_eq_of_lt (by omega)] at number
    change 1 = n + 1 at number
    omega
  have genesis : (lineSource (n + 1)).snapshot 0 = some ⟨0, 1, 0, 0⟩ := lineSource_snapshot (Nat.succ_pos n)
  have boundary : (lineSource (n + 1)).snapshot logScanChunkBlocks = _ := lineSource_snapshot (by omega)
  have chunk : min (0 + 1 + (logScanChunkBlocks - 1)) n = logScanChunkBlocks := by
    rw [show 0 + 1 + (logScanChunkBlocks - 1) = logScanChunkBlocks from rfl]
    omega
  unfold pollCycle
  rw [Succeeds]
  simp only [leaves_bind]
  apply (answers_byTag at_head).leaves rfl
  simp only [leaves_get]
  change Leaves (if (1 : B256) = BitVec.ofNat 256 (n + 1) then _ else _) _ _ _
  have behind : 0 + seededAtZero.state.reorgMaxDepth < n := by
    change 0 + 64 < n
    omega
  rw [if_neg other, if_neg (by omega), if_pos behind]
  simp only [leaves_bind]
  apply (answers_number genesis).leaves rfl
  rw [if_neg (not_not.mpr rfl)]
  unfold catchUpChunk
  simp only [leaves_bind, leaves_get]
  rw [chunk]
  -- With the numeral in its place unification would count up to it.
  generalize logScanChunkBlocks = chunkTo at far boundary ⊢
  apply (answers_chunkBoundary served boundary).leaves rfl
  apply (answers_scan _ chunkTo).leaves rfl
  apply answers_reachedBoundary.leaves rfl
  unfold catchUpWindow
  have cut : ¬n - chunkTo < seededAtZero.state.reorgMaxDepth := by
    change ¬n - chunkTo < 64
    omega
  rw [if_neg cut]
  simp only [leaves_pure, leaves_modify, leaves_emit]
  apply leaves_emitScannedBatches
  rfl

theorem tick_line (far : logScanChunkBlocks + 64 ≤ n) (fits : n < 2 ^ 200) :
    (seededAtZero.tick ⟨lineSource (n + 1), []⟩).state.recent =
      [(0, 1), (logScanChunkBlocks, BitVec.ofNat 256 (logScanChunkBlocks + 1))] := by
  obtain ⟨_, c', ran, recent⟩ := (pollCycle_line far fits).exists_exec
  unfold tick poll
  rw [show seededAtZero.tickCount + 1 = 1 from rfl, ran]
  exact recent

theorem seeded_seededAtZero : Seeded (lineSource 1) 64 0 1 seededAtZero := ⟨⟨[], [], by decide +kernel⟩, rfl⟩

/-- A ring of block 0 and the end of a chunk: the two are not parent and child. -/
theorem seededAtZero_tears : Seeded (lineSource 1) 64 0 1 seededAtZero ∧
      (∀ n ∈ [1, 200000 + 1], (lineSource n).chain = lineTree.chain (BitVec.ofNat 256 n)) ∧
      ¬Intact lineTree (seededAtZero.tick ⟨lineSource (200000 + 1), []⟩).state := by
  refine ⟨seeded_seededAtZero, ?_, ?_⟩
  · intro n mem
    apply lineSource_on
    rcases mem_cons.mp mem with rfl | mem
    · decide
    · rw [mem_singleton.mp mem]
      decide
  · intro intact
    have linked := intact.linked
    rw [tick_line (by decide) (by decide)] at linked
    exact absurd (isChain_cons_cons.mp linked).1.1 (by decide)

end Watching

end Eez.Watcher
