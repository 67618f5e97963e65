import EezRollup.Watcher.Answered

/-! With every request answered, a cycle finds the highest block of the ring that the chain still
has. The way from the new head down to the old tip uses up the hops of the walk. -/
open List
namespace Eez.Watcher
open Octets Faulty Scan

def L1Event.isReorg : L1Event → Bool
  | reorg .. => true
  | _ => false

def reorgs (events : List L1Event) : List L1Event := events.filter L1Event.isReorg

def trimmed (depth : Nat) (recent : List (Nat × B256)) : List (Nat × B256) := recent.drop (recent.length - depth)

/-- A block of the ring that the chain still has. -/
structure OnRing (t : BlockTree) (src : Source) (s : WatcherState) (common : Nat × B256) : Prop where
  mem : common ∈ s.recent
  on_chain : t.chain common.2 <+: src.chain

/-- The highest one. -/
structure Common (t : BlockTree) (src : Source) (s : WatcherState) (common : Nat × B256) : Prop
    extends OnRing t src s common where
  highest : ∀ e ∈ s.recent, t.chain e.2 <+: src.chain → e.1 ≤ common.1

/-- What a cycle should have done about the chain whose head is `latest`: a reorg is told exactly when the
tip is gone, and the ring goes on from the common block. -/
structure Resolved (src : Source) (s : WatcherState) (n : Nat) (h : B256) (common : Nat × B256) (latest : BlockSnapshot)
    (c : Cycle) : Prop where
  told : reorgs c.emitted = if common.1 = n then [] else [.reorg common.1 common.2 h latest.number latest.hash]
  ring : ∃ m, c.state.recent =
    trimmed s.reorgMaxDepth ((s.recent.filter fun e => e.1 ≤ common.1) ++ entries src.chain (common.1 + 1) m)

/-- The head is above the common block or the tip is common; the walk has hops enough, or is not taken; and
far behind with the tip in place, the ring that is seeded anew has no gap to the old one. -/
def Reaches (s : WatcherState) (n common latest : Nat) : Prop :=
  (common = n ∨ common < latest) ∧ (latest ≤ common + s.reorgMaxDepth ∨ n + s.reorgMaxDepth < latest) ∧
    (common = n → n + s.reorgMaxDepth < latest → s.reorgMaxDepth ≤ s.recent.length + logScanChunkBlocks ∧
      (s.reorgMaxDepth = 1 ∨ latest < n + logScanChunkBlocks + s.reorgMaxDepth))

section
variable {t : BlockTree} {src : Source} {head : B256} (on : src.chain = t.chain head)
variable {s : WatcherState} {c : Cycle} {low k n : Nat} {h : B256} {common : Nat × B256} {latest : BlockSnapshot}

theorem reorgs_append (xs ys : List L1Event) : reorgs (xs ++ ys) = reorgs xs ++ reorgs ys := filter_append _ _

theorem reorgs_posted (xs : List (Post × Bool)) : reorgs (xs.map Replay.posted) = [] := by
  apply filter_eq_nil_iff.mpr
  intro e mem
  obtain ⟨x, _, rfl⟩ := mem_map.mp mem
  exact Bool.false_ne_true

theorem reorgs_heads (l : List (Nat × B256 × UInt64)) : reorgs (l.map headOf) = [] := by
  apply filter_eq_nil_iff.mpr
  intro e mem
  obtain ⟨x, _, rfl⟩ := mem_map.mp mem
  exact Bool.false_ne_true

theorem maybeRefresh_resolved (resolved : Resolved src s n h common latest c) (answered : c.answers = []) (tick : Nat) :
    Succeeds (maybeRefresh src tick) c fun _ c' => Resolved src s n h common latest c' := by
  unfold maybeRefresh
  split
  · unfold refreshFinalized
    rw [Succeeds, leaves_bind]
    apply answers_ask.leaves answered
    dsimp only
    cases src.byTag .finalized with
    | none => exact resolved
    | some finalized =>
      simp only [leaves_bind, leaves_get]
      split
      · exact resolved
      · simp only [leaves_bind, leaves_modify, leaves_emit]
        refine ⟨?_, resolved.ring⟩
        rw [reorgs_append]
        exact (append_nil _).trans resolved.told
  · exact resolved

theorem trimmed_of_le {recent : List (Nat × B256)} (le : recent.length ≤ depth) : trimmed depth recent = recent := by
  rw [trimmed, Nat.sub_eq_zero_of_le le, drop_zero]

theorem filter_below (stretch : Stretch t s.recent low k h) {m : Nat} (top : low + k ≤ m + 1) :
    (s.recent.filter fun e => e.1 ≤ m) = s.recent := by
  apply filter_eq_self.mpr
  intro e mem
  have below := (stretch.chain_of_mem mem).2.2
  exact decide_eq_true (by omega)

namespace OnRing

theorem chain (is : OnRing t src s common) (stretch : Stretch t s.recent low k h) :
    t.chain common.2 = src.chain.take (common.1 + 1) ∧ common.1 < src.chain.length := by
  have height := stretch.height is.mem
  have bound := is.on_chain.length_le
  refine ⟨?_, by omega⟩
  rw [← height]
  exact prefix_iff_eq_take.mp is.on_chain

theorem known (is : OnRing t src s common) : (s.lookupHash common.2).isSome := by
  unfold WatcherState.lookupHash
  rw [Option.isSome_map, find?_isSome]
  exact ⟨common, is.mem, decide_eq_true rfl⟩

theorem hash_eq (is : OnRing t src s common) (stretch : Stretch t s.recent low k h) (at_tip : common.1 + 1 = low + k) :
    common.2 = h := by
  have top := stretch.top
  have chain := (stretch.chain_of_mem is.mem).1
  rw [take_of_length_le (by omega)] at chain
  apply t.chain_inj chain
  intro empty
  have height := stretch.height is.mem
  rw [empty] at height
  cases height

end OnRing

include on in
theorem unknown (stretch : Stretch t s.recent low k h)
    (free : ∀ e ∈ s.recent, t.chain e.2 <+: src.chain → e.1 ≠ i) (bound : i < src.chain.length) :
    s.lookupHash (entryAt src.chain i).2 = none := by
  cases found : s.lookupHash (entryAt src.chain i).2 with
  | none => rfl
  | some number =>
    obtain ⟨e, at_e, _⟩ := Option.map_eq_some_iff.mp found
    have mem := mem_of_find?_eq_some at_e
    have hashes : e.2 = (entryAt src.chain i).2 := by simpa using find?_some at_e
    have chain := chain_entry on bound
    rw [← hashes] at chain
    have height := stretch.height mem
    rw [chain, length_take] at height
    exact absurd (by omega) (free e mem (by rw [chain]; exact take_prefix _ _))

namespace Common

theorem gone (is : Common t src s common) (mem : e ∈ s.recent) (above : common.1 < e.1) :
    t.chain e.2 ≠ src.chain.take (e.1 + 1) := by
  intro same
  have le := is.highest e mem (by rw [same]; exact take_prefix _ _)
  omega

theorem at_tip (is : Common t src s common) (stretch : Stretch t s.recent low k h)
    (tip_on : t.chain h = src.chain.take (low + k)) : common.1 + 1 = low + k := by
  have below := (stretch.chain_of_mem is.mem).2.2
  have filled := stretch.some_block
  have mem : (low + k - 1, h) ∈ s.recent := mem_of_getLast? stretch.tip
  have le := is.highest _ mem (by change t.chain h <+: _; rw [tip_on]; exact take_prefix _ _)
  change low + k - 1 ≤ common.1 at le
  omega

end Common

theorem unchanged_resolved (stretch : Stretch t s.recent low k h) (bounded : k ≤ s.reorgMaxDepth)
    (at_tip : common.1 + 1 = low + k) : Resolved src s (low + k - 1) h common latest ⟨s, [], []⟩ where
  told := by
    rw [if_pos (by omega)]
    rfl
  ring := by
    refine ⟨0, ?_⟩
    rw [entries_zero, append_nil, filter_below stretch (by omega), trimmed_of_le]
    rw [stretch.eq, entries_length]
    exact bounded

include on

theorem extendByOne_resolved (stretch : Stretch t s.recent low k h) (at_tip : common.1 + 1 = low + k)
    (snap : Snap t src latest) (number : latest.number = low + k) :
    Succeeds (extendByOne src latest) ⟨s, [], []⟩ fun _ c' =>
      Resolved src s (low + k - 1) h common latest c' ∧ c'.answers = [] := by
  unfold extendByOne
  rw [Succeeds, leaves_bind]
  apply (answers_scanRange latest.number latest.number).leaves rfl
  simp only [leaves_bind, leaves_modify, leaves_emit]
  apply leaves_emitScannedBatches
  refine ⟨⟨?_, 1, ?_⟩, rfl⟩
  · rw [if_pos (by omega), reorgs_append, reorgs_posted]
    rfl
  · rw [filter_below stretch (by omega), entries_one, at_tip, ← number, snap.entry on]
    rfl

theorem catchUpReorg_resolved (stretch : Stretch t s.recent low k h) (bounded : k ≤ s.reorgMaxDepth)
    (is : Common t src s common) (far : low + k ≤ src.chain.length) (below : common.1 + 1 < low + k) :
    Succeeds (catchUpReorg src latest h) ⟨s, [], []⟩ fun _ c' => Resolved src s (low + k - 1) h common latest c' := by
  obtain ⟨chain, bound⟩ := is.chain stretch
  obtain ⟨older, newer, split⟩ := append_of_mem is.mem
  have sorted := stretch.sorted
  have found : Answers (findCommonAncestorByHeight src s.recent.reverse) (some ⟨common.1, common.2⟩) := by
    have reversed : s.recent.reverse = newer.reverse ++ common :: older.reverse := by simp [split]
    rw [reversed]
    refine answers_byHeight on ?_ chain bound
    intro e mem
    have newer_mem : e ∈ s.recent := by
      rw [split]
      exact mem_append_right _ (mem_cons_of_mem _ (mem_reverse.mp mem))
    have above : common.1 < e.1 := by
      rw [split, pairwise_append, pairwise_cons] at sorted
      exact sorted.2.1.1 e (mem_reverse.mp mem)
    have inside := (stretch.chain_of_mem newer_mem).2.2
    exact ⟨by omega, is.gone newer_mem above⟩
  unfold catchUpReorg
  rw [Succeeds]
  simp only [leaves_bind, leaves_get]
  apply found.leaves rfl
  simp only [leaves_bind, leaves_modify, leaves_emit]
  refine ⟨?_, 0, ?_⟩
  · rw [if_neg (by omega)]
    rfl
  · rw [entries_zero, append_nil, trimmed_of_le]
    · exact rdropWhile_eq_filter (sorted.imp Nat.le_of_lt)
    · refine Nat.le_trans (length_filter_le _ _) ?_
      rw [stretch.eq, entries_length]
      exact bounded

omit on in
theorem trimmed_entries (chain : List L1Block) (depth low n : Nat) :
    trimmed depth (entries chain low n) = entries chain (low + (n - depth)) (n - (n - depth)) := by
  rw [trimmed, entries_length, entries_drop]

omit on in
/-- The ring that is seeded anew goes on from the old one when it is full and the old one reaches it, and
only then. -/
theorem seeded_iff {chunk b : Nat} (recent : s.recent = entries src.chain low k) (filled : 0 < k)
    (depth : 0 < s.reorgMaxDepth) (far : low + k + s.reorgMaxDepth ≤ last) (long : 1 < chunk) (ends : b = min (low + k - 1 + chunk) last) :
    (∃ m, trimmed s.reorgMaxDepth ((s.recent.filter fun e => e.1 ≤ 0) ++
        entries src.chain (b + 1 - seeds s.reorgMaxDepth last b) (seeds s.reorgMaxDepth last b)) =
      trimmed s.reorgMaxDepth (s.recent ++ entries src.chain (low + k) m)) ↔
    s.reorgMaxDepth ≤ k + chunk ∧ (s.reorgMaxDepth = 1 ∨ last < low + k - 1 + chunk + s.reorgMaxDepth) := by
  have grown : ∀ m, s.recent ++ entries src.chain (low + k) m = entries src.chain low (k + m) := by
    intro m
    rw [recent, entries_append]
  have oldest : (s.recent.filter fun e => e.1 ≤ 0) = entries src.chain low (1 - low) := by
    rw [recent, entries_filter_le (by omega), Nat.zero_add]
  simp only [grown, oldest, trimmed_entries]
  obtain ⟨w, count⟩ : ∃ w, w = seeds s.reorgMaxDepth last b := ⟨_, rfl⟩
  have size : last - b < s.reorgMaxDepth ∧ w = min s.reorgMaxDepth (b + 1) ∨ s.reorgMaxDepth ≤ last - b ∧ w = 1 := by
    rw [count, seeds]
    split
    · next near => exact .inl ⟨near, rfl⟩
    · next gap => exact .inr ⟨Nat.not_lt.mp gap, rfl⟩
  rw [← count]
  by_cases full : w = s.reorgMaxDepth
  · have whole : trimmed s.reorgMaxDepth (entries src.chain low (1 - low) ++ entries src.chain (b + 1 - w) w) =
        entries src.chain (b + 1 - w) w := by
      rw [trimmed, length_append, entries_length, entries_length, full, Nat.add_sub_cancel]
      exact drop_left' entries_length
    rw [whole]
    constructor
    · rintro ⟨m, same⟩
      have := entries_inj (by omega) same
      omega
    · intro near
      refine ⟨b + 1 - (low + k), ?_⟩
      rw [show b + 1 - w = low + (k + (b + 1 - (low + k)) - s.reorgMaxDepth) by omega,
        show k + (b + 1 - (low + k)) - (k + (b + 1 - (low + k)) - s.reorgMaxDepth) = w by omega]
  · have whole : trimmed s.reorgMaxDepth (entries src.chain low (1 - low) ++ entries src.chain (b + 1 - w) w) =
        entries src.chain low (1 - low) ++ entries src.chain (b + 1 - w) w := by
      apply trimmed_of_le
      rw [length_append, entries_length, entries_length]
      omega
    rw [whole]
    refine iff_of_false ?_ (by omega)
    rintro ⟨m, same⟩
    have lengths := congrArg List.length same
    simp only [length_append, entries_length] at lengths
    rcases Nat.eq_zero_or_pos low with rfl | above
    · -- block 0 is kept, and the next one is not its child
      rw [show k + m - (k + m - s.reorgMaxDepth) = 1 + w by omega, ← entries_append, Nat.zero_add] at same
      obtain ⟨first, rest⟩ := append_inj same rfl
      have := entries_inj (by omega) first
      have := entries_inj (by omega) rest
      omega
    · rw [show 1 - low = 0 by omega, entries_zero, nil_append] at same
      have := entries_inj (by omega) same
      omega

theorem catchUpChunk_resolved (stretch : Stretch t s.recent low k h) (depth : 0 < s.reorgMaxDepth)
    (is : Common t src s common) (at_tip : common.1 + 1 = low + k) (at_head : src.snapshot latest.number = some latest)
    (snap : Snap t src latest) (far : low + k + s.reorgMaxDepth ≤ latest.number) :
    Succeeds (catchUpChunk src latest (low + k - 1)) ⟨s, [], []⟩ fun _ c' =>
      (Resolved src s (low + k - 1) h common latest c' ↔ s.reorgMaxDepth ≤ k + logScanChunkBlocks ∧
        (s.reorgMaxDepth = 1 ∨ latest.number < low + k - 1 + logScanChunkBlocks + s.reorgMaxDepth)) := by
  have head_bound := snap.bound
  have filled := stretch.some_block
  have long : 1 < logScanChunkBlocks := by decide
  -- Nothing is narrowed, so the chunk ends where it was meant to.
  obtain ⟨chunkTo, chunk_eq⟩ : ∃ m, m = min (low + k - 1 + logScanChunkBlocks) latest.number := ⟨_, rfl⟩
  obtain ⟨boundary, served, number, at_boundary⟩ :=
    exists_snapshot on (show chunkTo < src.chain.length by omega)
  have recent : s.recent = entries src.chain low k := by
    rw [stretch.eq, entries_of_extension (is.hash_eq stretch at_tip ▸ is.on_chain) (Nat.le_of_eq stretch.top)]
  unfold catchUpChunk
  rw [Succeeds]
  simp only [leaves_bind, leaves_get]
  rw [show min (low + k - 1 + 1 + (logScanChunkBlocks - 1)) latest.number = chunkTo by omega]
  apply (answers_chunkBoundary at_head served).leaves rfl
  apply (answers_scan _ chunkTo).leaves rfl
  apply answers_reachedBoundary.leaves rfl
  apply (answers_catchUpWindow on latest at_boundary depth).leaves rfl
  simp only [leaves_modify, leaves_emit]
  apply leaves_emitScannedBatches
  rw [← seeded_iff recent filled depth far long chunk_eq, number]
  have told : reorgs ([] ++ [.newHead boundary.number boundary.hash boundary.timestamp] ++
      (peeked (src.posts (low + k - 1 + 1) chunkTo)).map Replay.posted) = [] := by
    rw [reorgs_append, reorgs_posted]
    rfl
  have sown : ∀ a w, 0 < w → (pushAll (entries src.chain a w) (s.rewindTo 0)).recent = trimmed s.reorgMaxDepth
      ((s.recent.filter fun e => e.1 ≤ 0) ++ entries src.chain a w) := by
    intro a w some_block
    rw [pushAll_recent (entries_ne_nil some_block), rewindTo_zero_recent (stretch.sorted.imp Nat.le_of_lt)]
    rfl
  replace sown := sown (chunkTo + 1 - seeds s.reorgMaxDepth latest.number chunkTo)
    (seeds s.reorgMaxDepth latest.number chunkTo) (by unfold seeds; split <;> omega)
  constructor
  · rintro ⟨-, m, ring⟩
    refine ⟨m, ?_⟩
    rw [filter_below stretch (by omega), at_tip] at ring
    exact sown.symm.trans ring
  · rintro ⟨m, same⟩
    refine ⟨?_, m, ?_⟩
    · rw [if_pos (by omega)]
      exact told
    · rw [filter_below stretch (by omega), at_tip]
      exact sown.trans same

omit on in
theorem retreat_resolved (stretch : Stretch t s.recent low k h) (is : OnRing t src s common) :
    Succeeds (retreat latest (low + k - 1) h ⟨common.1, common.2⟩) ⟨s, [], []⟩ fun _ c' =>
      c'.emitted = (if common.1 = low + k - 1 then [] else [.reorg common.1 common.2 h latest.number latest.hash]) ∧
        c'.state.recent = (s.recent.filter fun e => e.1 ≤ common.1) ∧ c'.state.reorgMaxDepth = s.reorgMaxDepth ∧
        c'.answers = [] := by
  have below := (stretch.chain_of_mem is.mem).2.2
  have filled := stretch.some_block
  unfold retreat
  split
  · next back =>
    have lower : common.1 ≠ low + k - 1 := by
      intro at_tip
      cases back with
      | inl lower => exact absurd at_tip (Nat.ne_of_lt lower)
      | inr differ => exact differ (is.hash_eq stretch (by omega)).symm
    rw [if_neg lower, Succeeds]
    simp only [leaves_bind, leaves_modify, leaves_emit]
    exact ⟨rfl, rdropWhile_eq_filter (stretch.sorted.imp Nat.le_of_lt), rfl, trivial⟩
  · next stays =>
    have at_tip : common.1 = low + k - 1 := by
      have : ¬common.1 < low + k - 1 := fun lower => stays (.inl lower)
      omega
    rw [if_pos at_tip, filter_below stretch (by omega)]
    exact ⟨rfl, rfl, rfl, rfl⟩

theorem scanAndFill_resolved (at_head : src.snapshot latest.number = some latest) (snap : Snap t src latest)
    (lower : common.1 < latest.number)
    (told : c.emitted = if common.1 = n then [] else [.reorg common.1 common.2 h latest.number latest.hash])
    (recent : c.state.recent = s.recent.filter fun e => e.1 ≤ common.1)
    (depth : c.state.reorgMaxDepth = s.reorgMaxDepth) (answered : c.answers = []) :
    Succeeds (scanAndFill src latest ⟨common.1, common.2⟩) c fun _ c' =>
      Resolved src s n h common latest c' ∧ c'.answers = [] := by
  obtain ⟨span, reach⟩ : ∃ span, latest.number = common.1 + 1 + span := ⟨latest.number - (common.1 + 1), by omega⟩
  obtain ⟨l, answers, l_eq⟩ := answers_collectBack on snap.hash snap.bound reach
  unfold scanAndFill fillForward
  rw [Succeeds]
  simp only [leaves_bind]
  apply (answers_scan _ _).leaves answered
  apply (answers_chunkBoundary at_head at_head).leaves answered
  rw [if_neg (by omega), show latest.number - (common.1 + 1) + 1 = span + 1 by omega, leaves_bind]
  apply answers.leaves answered
  apply leaves_pushHeads
  apply leaves_emitScannedBatches
  refine ⟨⟨?_, span + 1, ?_⟩, answered⟩
  · simp only [reorgs_append, reorgs_posted, reorgs_heads, append_nil, told]
    split <;> rfl
  · have pushed : (pushAll (l.map strip) c.state).recent = _ :=
      pushAll_recent (by rw [l_eq, entries_succ]; exact cons_ne_nil _ _)
    rw [l_eq, recent, depth] at pushed
    rw [l_eq]
    exact pushed

theorem walkAndFill_resolved (is : OnRing t src s common) (stretch : Stretch t s.recent low k h)
    (at_head : src.snapshot latest.number = some latest) (snap : Snap t src latest) (lower : common.1 < latest.number)
    (highest : ∀ e ∈ s.recent, t.chain e.2 <+: src.chain → e.1 < latest.number → e.1 ≤ common.1)
    (reach : latest.number ≤ common.1 + s.reorgMaxDepth) :
    Succeeds (walkAndFill src latest (low + k - 1) h) ⟨s, [], []⟩ fun _ c' =>
      Resolved src s (low + k - 1) h common latest c' ∧ c'.answers = [] := by
  obtain ⟨chain, _⟩ := is.chain stretch
  have bound := snap.bound
  have parent : t.chain latest.parentHash = src.chain.take (latest.number - 1 + 1) := by
    rw [snap.parent, show latest.number - 1 + 1 = latest.number by omega]
  have found : Answers (walkBackToCommon src s s.reorgMaxDepth latest.parentHash (latest.number - 1))
      (some ⟨common.1, common.2⟩) :=
    answers_walkBack on parent (by omega) chain is.known (fun i above le => unknown on stretch
      (fun e mem held at_i => by have := highest e mem held (by omega); omega) (by omega)) (by omega) (by omega)
  unfold walkAndFill
  rw [Succeeds]
  simp only [leaves_bind, leaves_get]
  apply found.leaves rfl
  simp only [leaves_bind]
  apply (retreat_resolved stretch is).mono _ fun _ failed => failed
  rintro _ c ⟨told, recent, depth, answered⟩
  exact scanAndFill_resolved on at_head snap lower told recent depth answered

/-- The walk ends without a block of the ring when the ones on the chain are further below the head than it
has hops. -/
theorem walkAndFill_gives_up (stretch : Stretch t s.recent low k h) (snap : Snap t src latest)
    (beyond : ∀ e ∈ s.recent, t.chain e.2 <+: src.chain → e.1 < latest.number → e.1 + s.reorgMaxDepth < latest.number) :
    Leaves (walkAndFill src latest (low + k - 1) h) ⟨s, [], []⟩ (fun _ _ => False) (fun _ => True) := by
  have bound := snap.bound
  have found : Answers (walkBackToCommon src s s.reorgMaxDepth latest.parentHash (latest.number - 1)) none := by
    rcases Nat.eq_zero_or_pos latest.number with zero | positive
    · have unknown : s.lookupHash latest.parentHash = none := by
        rw [WatcherState.lookupHash, Option.map_eq_none_iff, find?_eq_none]
        intro e mem same
        have height := stretch.height mem
        rw [of_decide_eq_true same, snap.parent, zero] at height
        cases height
      cases s.reorgMaxDepth with
      | zero => exact answers_pure _
      | succ hops =>
        rw [walkBackToCommon, if_neg (by rw [unknown]; exact Bool.false_ne_true), if_pos (by omega)]
        exact answers_pure _
    · have parent : t.chain latest.parentHash = src.chain.take (latest.number - 1 + 1) := by
        rw [snap.parent, Nat.sub_add_cancel positive]
      refine answers_walkBack_none on parent (by omega) fun i le near => unknown on stretch ?_ (by omega)
      intro e mem held at_i
      have := beyond e mem held (by omega)
      omega
  unfold walkAndFill
  simp only [leaves_bind, leaves_get]
  apply found.leaves rfl
  exact trivial

/-- Of a chain that ends in a block of the ring, the parent of that block is named. -/
theorem walkAndFill_passes_head (stretch : Stretch t s.recent low k h) (is : Common t src s common)
    (at_head : src.snapshot latest.number = some latest) (snap : Snap t src latest) (same : common.1 = latest.number)
    (inside : low < latest.number) (depth : 0 < s.reorgMaxDepth) : ∃ parent, parent.1 + 1 = latest.number ∧
      Succeeds (walkAndFill src latest (low + k - 1) h) ⟨s, [], []⟩ fun _ c' =>
        Resolved src s (low + k - 1) h parent latest c' ∧ c'.answers = [] := by
  obtain ⟨chain, _, below⟩ := stretch.chain_of_mem is.mem
  have top := stretch.top
  have mem : entryAt (t.chain h) (latest.number - 1) ∈ s.recent :=
    stretch.mem_iff.mpr ⟨latest.number - 1, by omega, by omega, rfl⟩
  have held : t.chain (entryAt (t.chain h) (latest.number - 1)).2 <+: src.chain := by
    refine IsPrefix.trans ?_ is.on_chain
    rw [(stretch.chain_of_mem mem).1, chain]
    exact take_prefix_take_left (by change latest.number - 1 + 1 ≤ _; omega)
  refine ⟨entryAt (t.chain h) (latest.number - 1), by change latest.number - 1 + 1 = _; omega,
    walkAndFill_resolved on ⟨mem, held⟩ stretch at_head snap ?_ ?_ ?_⟩
  · change latest.number - 1 < _
    omega
  · intro e _ _ lower
    exact Nat.le_sub_one_of_lt lower
  · change _ ≤ latest.number - 1 + _
    omega

omit on in
theorem Resolved.not_lower (resolved : Resolved src s n h parent latest c) (lower : parent.1 < common.1)
    (below : common.1 ≤ n) : ¬Resolved src s n h common latest c := by
  intro other
  have told := resolved.told.symm.trans other.told
  rw [if_neg (by omega)] at told
  split at told
  · cases told
  · obtain ⟨same, -⟩ := L1Event.reorg.inj (cons.inj told).1
    omega

/-- For a ring in a row and a chain that still has a block of it, the cycle goes back to the highest such
block exactly when it reaches it. -/
theorem pollCycle_resolves (consecutive : Consecutive t s.recent) (bounded : s.recent.length ≤ s.reorgMaxDepth)
    (tip : s.tip = some (n, h)) (is : Common t src s common) (at_head : src.byTag .latest = some latest) (tick : Nat) :
    (∃ c', exec (pollCycle src tick) ⟨s, [], []⟩ = (.ok (), c') ∧ Resolved src s n h common latest c') ↔
      Reaches s n common.1 latest.number := by
  obtain ⟨low, h', stretch⟩ := consecutive.exists_stretch
  obtain ⟨k, length⟩ : ∃ k, k = s.recent.length := ⟨_, rfl⟩
  rw [← length] at stretch bounded
  obtain ⟨rfl, rfl⟩ := Prod.mk.inj (Option.some.inj (tip.symm.trans stretch.tip))
  have filled := stretch.some_block
  obtain ⟨number, snap⟩ := snap_of_snapshot on at_head
  have served : src.snapshot latest.number = some latest := by
    rw [number]
    exact at_head
  have head_bound := snap.bound
  obtain ⟨chain, bound⟩ := is.chain stretch
  obtain ⟨-, oldest, below⟩ := stretch.chain_of_mem is.mem
  -- Every path is taken to its end with what it resolves, and the condition decided there.
  have run : Leaves (pollCycle src tick) ⟨s, [], []⟩
      (fun _ c' => Resolved src s (low + k - 1) h common latest c' ↔ Reaches s (low + k - 1) common.1 latest.number)
      (fun _ => ¬Reaches s (low + k - 1) common.1 latest.number) := by
    have refresh {other} {c'} (done : Resolved src s (low + k - 1) h other latest c' ∧ c'.answers = [])
        (meant : ∀ c', Resolved src s (low + k - 1) h other latest c' →
          (Resolved src s (low + k - 1) h common latest c' ↔ Reaches s (low + k - 1) common.1 latest.number)) :
        Leaves (maybeRefresh src tick) c' (fun _ c' => Resolved src s (low + k - 1) h common latest c' ↔
          Reaches s (low + k - 1) common.1 latest.number) (fun _ => ¬Reaches s (low + k - 1) common.1 latest.number) :=
      (maybeRefresh_resolved done.1 done.2 tick).mono (fun _ c' => meant c') fun _ failed => failed.elim
    unfold pollCycle
    simp only [leaves_bind]
    apply (answers_byTag at_head).leaves rfl
    simp only [leaves_get, stretch.tip]
    split
    · next same =>
      have tip_on : t.chain h = src.chain.take (low + k) := by
        have chain := snap.hash
        rw [← same] at chain
        have height := snap.height
        have top := stretch.top
        rw [← same] at height
        rw [chain, show low + k = latest.number + 1 by omega]
      have at_tip := is.at_tip stretch tip_on
      have height := snap.height
      have top := stretch.top
      rw [← same] at height
      exact refresh ⟨unchanged_resolved stretch bounded at_tip, rfl⟩ fun _ resolved =>
        iff_of_true resolved (by unfold Reaches; omega)
    · next differs =>
      split
      · next child =>
        have number : latest.number = low + k := by have := child.2; omega
        have tip_on : t.chain h = src.chain.take (low + k) := by
          rw [child.1, ← number]
          exact snap.parent
        have at_tip := is.at_tip stretch tip_on
        rw [leaves_bind]
        refine (extendByOne_resolved on stretch at_tip snap number).mono (fun _ c' done => ?_)
          fun _ failed => failed.elim
        exact refresh done fun _ resolved => iff_of_true resolved (by unfold Reaches; omega)
      · split
        · next far =>
          have at_top : low + k - 1 + 1 = low + k := by omega
          obtain ⟨old, old_served, old_number, old_snap⟩ :=
            exists_snapshot on (show low + k - 1 < src.chain.length by omega)
          have old_chain := old_snap.hash
          rw [old_number, at_top] at old_chain
          simp only [leaves_bind]
          apply (answers_number old_served).leaves rfl
          split
          · next gone =>
            have lower : common.1 + 1 < low + k := by
              refine Nat.lt_of_le_of_ne below ?_
              intro at_tip
              apply gone
              have here := old_snap.entry on
              rw [old_number, show low + k - 1 = common.1 by omega, entry_eq on chain bound] at here
              rw [← (Prod.mk.inj here).2]
              exact is.hash_eq stretch at_tip
            refine (catchUpReorg_resolved on stretch bounded is (by omega) lower).mono (fun _ c' resolved => ?_)
              fun _ failed => failed.elim
            exact iff_of_true resolved (by unfold Reaches; omega)
          · next stays =>
            rw [not_not.mp stays] at old_chain
            have at_tip := is.at_tip stretch old_chain
            refine (catchUpChunk_resolved on stretch (by omega) is at_tip served snap (by omega)).mono
              (fun _ c' resolved => resolved.trans ?_) fun _ failed => failed.elim
            unfold Reaches
            omega
        · next near =>
          simp only [leaves_bind]
          rcases Nat.lt_or_ge common.1 latest.number with lower | above
          · by_cases reach : latest.number ≤ common.1 + s.reorgMaxDepth
            · refine (walkAndFill_resolved on is.toOnRing stretch served snap lower
                (fun e mem held _ => is.highest e mem held) reach).mono (fun _ c' done => ?_) fun _ failed => failed.elim
              exact refresh done fun _ resolved => iff_of_true resolved (by unfold Reaches; omega)
            · refine (walkAndFill_gives_up on stretch snap fun e mem held _ => ?_).mono (fun _ _ no => no.elim)
                fun _ _ => by unfold Reaches; omega
              have := is.highest e mem held
              omega
          · have at_head : common.1 = latest.number := by omega
            have below_tip : common.1 + 1 ≠ low + k := by
              intro at_tip
              apply differs
              have here := snap.entry on
              rw [← at_head, entry_eq on chain bound] at here
              rw [← (Prod.mk.inj here).2]
              exact (is.hash_eq stretch at_tip).symm
            have misses : ¬Reaches s (low + k - 1) common.1 latest.number := by unfold Reaches; omega
            by_cases inside : low < latest.number
            · obtain ⟨parent, ends, ran⟩ := walkAndFill_passes_head on stretch is served snap at_head inside (by omega)
              refine ran.mono (fun _ c' done => ?_) fun _ failed => failed.elim
              exact refresh done fun _ resolved => iff_of_false (resolved.not_lower (by omega) (by omega)) misses
            · refine (walkAndFill_gives_up on stretch snap fun e mem _ lower => ?_).mono (fun _ _ no => no.elim)
                fun _ _ => misses
              have := (stretch.chain_of_mem mem).2.1
              omega
  unfold Leaves at run
  cases ran : exec (pollCycle src tick) ⟨s, [], []⟩ with
  | mk r c' =>
    rw [ran] at run
    cases r with
    | ok _ =>
      refine ⟨?_, fun reaches => ⟨c', rfl, run.mpr reaches⟩⟩
      rintro ⟨_, eq, resolved⟩
      cases eq
      exact run.mp resolved
    | error _ =>
      refine iff_of_false ?_ run
      rintro ⟨_, eq, -⟩
      cases eq

end

/-- A chain that forks off after block 1, and was longer before. -/
def forkedChain : List L1Block := [⟨10, 0, 0, []⟩, ⟨11, 10, 12, []⟩, ⟨22, 11, 24, []⟩, ⟨23, 22, 36, []⟩,
    ⟨24, 23, 48, []⟩]

def oldChain : List L1Block := forkedChain.take 2 ++ [⟨12, 11, 24, []⟩]

def forkTree : BlockTree :=
  .of [oldChain, forkedChain, forkedChain.take 4, forkedChain.take 3, forkedChain.take 2, forkedChain.take 1]
    (by decide +kernel)

def ringOfTwo (depth : Nat) : WatcherState := ⟨[(1, 11), (2, 12)], depth, none⟩

theorem consecutive_ringOfTwo : Consecutive forkTree [(1, 11), (2, 12)] where
  nonempty := cons_ne_nil _ _
  linked := isChain_cons_cons.mpr ⟨⟨rfl, ⟨12, 11, 24, []⟩, by decide +kernel, rfl⟩, isChain_singleton _⟩
  heights := by decide +kernel

theorem common_ringOfTwo (depth : Nat) : Common forkTree ⟨forkedChain, none⟩ (ringOfTwo depth) (1, 11) where
  mem := mem_cons_self
  on_chain := by decide +kernel
  highest := by
    change ∀ e ∈ [(1, 11), (2, 12)], _
    decide +kernel

theorem ringOfTwo_resolves : ∃ c', exec (pollCycle ⟨forkedChain, none⟩ 1) ⟨ringOfTwo 3, [], []⟩ = (.ok (), c') ∧
      Resolved ⟨forkedChain, none⟩ (ringOfTwo 3) 2 12 (1, 11) ⟨4, 24, 23, 48⟩ c' := by
  have on : (Source.mk forkedChain none).chain = forkTree.chain 24 := by decide +kernel
  refine (pollCycle_resolves on consecutive_ringOfTwo (by decide) rfl (common_ringOfTwo 3) rfl 1).mpr ?_
  refine ⟨.inr (by decide), .inl (by decide), fun at_tip => ?_⟩
  cases at_tip

/-- Block 1 of the ring is on the chain and within the ring's depth of the tip, but the hops are used up
by the blocks above the old tip. And of a chain that ends in a block of the ring, the parent is named. -/
theorem pollCycle_overlooks_common : (Common forkTree ⟨forkedChain, none⟩ (ringOfTwo 2) (1, 11) ∧
      (exec (pollCycle ⟨forkedChain, none⟩ 1) ⟨ringOfTwo 2, [], []⟩).1 = .error (.failed (.reorgTooDeep 2 2))) ∧
    (forkTree.chain 11 <+: oldChain.take 2 ∧
      reorgs (exec (pollCycle ⟨oldChain.take 2, none⟩ 1) ⟨⟨[(0, 10), (1, 11), (2, 12)], 3, none⟩, [], []⟩).2.emitted =
        [.reorg 0 10 12 1 11]) := by
  refine ⟨⟨common_ringOfTwo 2, by decide +kernel⟩, by decide +kernel, by decide +kernel⟩

end Eez.Watcher
