import EezRollup.Watcher.Replay

/-! A ring whose neighbours are parent and child is a stretch of a chain, ending at its tip. -/
open List
namespace Eez.Watcher
open Octets

def entryAt (chain : List L1Block) (i : Nat) : Nat × B256 := (i, (chain[i]?.map L1Block.hash).getD 0)

def entries (chain : List L1Block) (low n : Nat) : List (Nat × B256) := (List.range' low n).map (entryAt chain)

section
variable {chain chain' : List L1Block} {low n m k : Nat}

@[simp] theorem entries_length : (entries chain low n).length = n := by
  rw [entries, length_map, length_range']

@[simp] theorem entries_zero : entries chain low 0 = [] := rfl

theorem entries_one : entries chain low 1 = [entryAt chain low] := rfl

theorem entries_append : entries chain low n ++ entries chain (low + n) m = entries chain low (n + m) := by
  rw [entries, entries, ← map_append, range'_append_1]
  rfl

theorem entries_succ : entries chain low (n + 1) = entryAt chain low :: entries chain (low + 1) n := rfl

theorem entries_concat : entries chain low (n + 1) = entries chain low n ++ [entryAt chain (low + n)] :=
  entries_append.symm

theorem entries_ne_nil (filled : 0 < n) : entries chain low n ≠ [] := by
  intro empty
  have length := congrArg List.length empty
  rw [entries_length] at length
  exact absurd length (Nat.ne_of_gt filled)

theorem entries_inj (filled : 0 < n) (same : entries chain low n = entries chain' low' n') : low = low' ∧ n = n' := by
  have lengths := congrArg List.length same
  rw [entries_length, entries_length] at lengths
  subst lengths
  obtain ⟨m, rfl⟩ := Nat.exists_eq_succ_of_ne_zero (Nat.ne_of_gt filled)
  exact ⟨congrArg Prod.fst (cons.inj same).1, rfl⟩

theorem entries_drop : (entries chain low n).drop k = entries chain (low + k) (n - k) := by
  rw [entries, ← map_drop, drop_range', Nat.mul_one, entries]

theorem mem_entries : e ∈ entries chain low n ↔ ∃ i, low ≤ i ∧ i < low + n ∧ entryAt chain i = e := by
  simp only [entries, mem_map, mem_range'_1, and_assoc]

theorem entries_getLast? : (entries chain low (n + 1)).getLast? = some (entryAt chain (low + n)) := by
  rw [entries_concat, getLast?_concat]

theorem entries_filter_le (within : k < low + n) :
    ((entries chain low n).filter fun e => e.1 ≤ k) = entries chain low (k + 1 - low) := by
  obtain ⟨m, rfl⟩ : ∃ m, n = (k + 1 - low) + m := ⟨n - (k + 1 - low), by omega⟩
  have lower : ∀ e ∈ entries chain low (k + 1 - low), decide (e.1 ≤ k) = true := by
    intro e mem
    obtain ⟨i, _, _, rfl⟩ := mem_entries.mp mem
    apply decide_eq_true
    change i ≤ k
    omega
  have upper : ∀ e ∈ entries chain (low + (k + 1 - low)) m, ¬decide (e.1 ≤ k) = true := by
    intro e mem
    obtain ⟨i, _, _, rfl⟩ := mem_entries.mp mem
    rw [decide_eq_true_eq]
    change ¬i ≤ k
    omega
  rw [← entries_append, filter_append, filter_eq_self.mpr lower, filter_eq_nil_iff.mpr upper, append_nil]

theorem entries_of_extension (longer : chain <+: chain') (within : low + n ≤ chain.length) :
    entries chain low n = entries chain' low n := by
  apply map_congr_left
  intro i mem
  have bound : i < chain.length := by
    have := mem_range'_1.mp mem
    omega
  obtain ⟨rest, rfl⟩ := longer
  rw [entryAt, entryAt, getElem?_append_left bound]

end

section
variable {t : BlockTree} {h : B256} {low n i : Nat}

theorem entryAt_eq {chain : List L1Block} (at_i : chain[i]? = some b) : entryAt chain i = (i, b.hash) := by
  rw [entryAt, at_i]
  rfl

theorem chain_entryAt (bound : i < (t.chain h).length) :
    t.chain (entryAt (t.chain h) i).2 = (t.chain h).take (i + 1) := by
  have at_i := getElem?_eq_getElem bound
  rw [entryAt_eq at_i]
  exact t.chain_take at_i

theorem exists_getLast? (height : (t.chain h).length = i + 1) :
    ∃ b, (t.chain h).getLast? = some b ∧ (t.chain h)[i]? = some b := by
  cases last : (t.chain h).getLast? with
  | none =>
    rw [getLast?_eq_none_iff.mp last] at height
    cases height
  | some b =>
    refine ⟨b, rfl, ?_⟩
    rw [getLast?_eq_getElem?, height] at last
    exact last

theorem entryAt_last (height : (t.chain h).length = i + 1) : entryAt (t.chain h) i = (i, h) := by
  obtain ⟨b, last, at_i⟩ := exists_getLast? height
  rw [entryAt_eq at_i, t.hash_eq last]

def Child (t : BlockTree) (a b : Nat × B256) : Prop :=
  b.1 = a.1 + 1 ∧ ∃ block, (t.chain b.2).getLast? = some block ∧ block.parentHash = a.2

theorem child_entryAt (bound : i + 1 < (t.chain h).length) :
    Child t (entryAt (t.chain h) i) (entryAt (t.chain h) (i + 1)) := by
  obtain ⟨next, at_next⟩ : ∃ next, (t.chain h)[i + 1]? = some next := ⟨_, getElem?_eq_getElem bound⟩
  refine ⟨rfl, next, ?_, ?_⟩
  · rw [entryAt_eq at_next]
    exact t.getLast_take at_next
  · have below : t.chain (entryAt (t.chain h) i).2 = (t.chain h).take (i + 1) := chain_entryAt (by omega)
    apply t.chain_inj ((t.chain_parent at_next).trans below.symm)
    intro empty
    have length := congrArg List.length ((t.chain_parent at_next).symm.trans empty)
    rw [length_take, length_nil] at length
    omega

theorem entries_linked (top : low + n ≤ (t.chain h).length) : (entries (t.chain h) low n).IsChain (Child t) := by
  induction n generalizing low with
  | zero => exact List.IsChain.nil
  | succ n ih =>
    rw [entries_succ, isChain_cons]
    refine ⟨?_, ih (by omega)⟩
    intro e first
    cases n with
    | zero => cases first
    | succ n =>
      rw [entries_succ] at first
      cases first
      exact child_entryAt (by omega)

theorem Child.chain (child : Child t a b) : t.chain a.2 = (t.chain b.2).dropLast := by
  obtain ⟨_, block, last, parent⟩ := child
  rw [← parent]
  exact t.parent_eq last

end

section
variable {t : BlockTree} {src : Source} {head : B256} (on : src.chain = t.chain head) {low n : Nat}

theorem height_of_take (chain : t.chain h = src.chain.take (n + 1)) (bound : n < src.chain.length) :
    (t.chain h).length = n + 1 := by
  rw [chain, length_take]
  omega

include on

theorem chain_entry {b : Nat} (bound : b < src.chain.length) :
    t.chain (entryAt src.chain b).2 = src.chain.take (b + 1) := by
  rw [on] at bound ⊢
  exact chain_entryAt bound

theorem entry_eq {hash} (chain : t.chain hash = src.chain.take (n + 1)) (bound : n < src.chain.length) :
    entryAt src.chain n = (n, hash) := by
  have height := height_of_take chain bound
  rw [on] at chain bound ⊢
  refine Prod.ext (rfl : _ = n) ?_
  apply t.chain_inj ((chain_entryAt bound).trans chain.symm)
  intro empty
  rw [← (chain_entryAt bound).trans chain.symm, empty] at height
  cases height

theorem kept_entries (bound : low + n < src.chain.length) :
    Kept t (entries src.chain low (n + 1)) (entryAt src.chain (low + n)).2 where
  height {e} mem := by
    obtain ⟨i, _, below, rfl⟩ := mem_entries.mp mem
    rw [chain_entry on (by omega), length_take]
    change min (i + 1) _ = i + 1
    omega
  below {e} mem := by
    obtain ⟨i, _, below, rfl⟩ := mem_entries.mp mem
    rw [chain_entry on (by omega), chain_entry on bound]
    exact take_prefix_take_left (by omega)
  sorted := by
    rw [entries, pairwise_map]
    have increasing : (List.range' low (n + 1)).Pairwise (· < ·) := pairwise_lt_range'
    exact increasing.imp Nat.le_of_lt

/-- A window of the chain served is pushed on entries of that chain that are not above it. -/
theorem ring_push {s : WatcherState} (depth : 0 < s.reorgMaxDepth) (kept : Kept t s.recent h)
    (below : t.chain h <+: src.chain.take (low + n + 1)) (bound : low + n < src.chain.length)
    (above : ∀ e ∈ s.recent, e.1 ≤ low) :
    Ring t (pushAll (entries src.chain low (n + 1)) s) (low + n) (entryAt src.chain (low + n)).2 := by
  have chain := chain_entry on bound
  refine Ring.advance depth (kept.mono (by rw [chain]; exact below)) (kept_entries on bound) ?_ entries_getLast?
  intro a mem_a b mem_b
  obtain ⟨i, high, _, rfl⟩ := mem_entries.mp mem_b
  exact Nat.le_trans (above a mem_a) high

omit on in
theorem rewindTo_zero_recent {s : WatcherState} (sorted : s.recent.Pairwise fun a b => a.1 ≤ b.1) :
    (s.rewindTo 0).recent = s.recent.filter fun e => e.1 ≤ 0 := rdropWhile_eq_filter sorted

theorem Kept.ring_reseed {s : WatcherState} (kept : Kept t s.recent h) (depth : 0 < s.reorgMaxDepth)
    (below : t.chain h <+: src.chain.take (low + n + 1)) (bound : low + n < src.chain.length) :
    Ring t (pushAll (entries src.chain low (n + 1)) (s.rewindTo 0)) (low + n) (entryAt src.chain (low + n)).2 := by
  have left := rewindTo_zero_recent kept.sorted
  refine ring_push on depth (h := h) ?_ below bound ?_
  · rw [left]
    exact kept.sublist filter_sublist
  · intro e mem
    rw [left] at mem
    have zero : e.1 ≤ 0 := of_decide_eq_true (mem_filter.mp mem).2
    omega

end

/-- The ring is the stretch of `n` blocks from `low` on of the chain that `h` ends. -/
structure Stretch (t : BlockTree) (recent : List (Nat × B256)) (low n : Nat) (h : B256) : Prop where
  eq : recent = entries (t.chain h) low n
  top : low + n = (t.chain h).length
  some_block : 0 < n

section
variable {t : BlockTree} {recent : List (Nat × B256)} {s : WatcherState} {low n m k : Nat} {h h' : B256}

structure Consecutive (t : BlockTree) (recent : List (Nat × B256)) : Prop where
  nonempty : recent ≠ []
  linked : recent.IsChain (Child t)
  heights : ∀ e ∈ recent, (t.chain e.2).length = e.1 + 1

theorem exists_stretch_cons {e : Nat × B256} (linked : (e :: recent).IsChain (Child t))
    (heights : ∀ a ∈ e :: recent, (t.chain a.2).length = a.1 + 1) :
    ∃ h, Stretch t (e :: recent) e.1 (recent.length + 1) h := by
  induction recent generalizing e with
  | nil =>
    have height := heights e mem_cons_self
    refine ⟨e.2, ?_, height.symm, Nat.zero_lt_one⟩
    rw [length_nil, entries_one, entryAt_last height]
  | cons b rest ih =>
    obtain ⟨child, linked⟩ := isChain_cons_cons.mp linked
    obtain ⟨h, stretch⟩ := ih linked fun a mem => heights a (mem_cons_of_mem _ mem)
    have next := child.1
    have top := stretch.top
    -- The parent's chain is cut from the chain of the tip.
    have first : b = entryAt (t.chain h) b.1 := (List.cons.inj stretch.eq).1
    have upper : t.chain b.2 = (t.chain h).take (b.1 + 1) := by
      rw [first]
      exact chain_entryAt (by omega)
    have lower : t.chain e.2 = (t.chain h).take (e.1 + 1) := by
      rw [child.chain, upper, dropLast_eq_take, take_take, length_take]
      congr 1
      omega
    have here : entryAt (t.chain h) e.1 = e := by
      have bound : e.1 < (t.chain h).length := by omega
      refine Prod.ext (rfl : _ = e.1) ?_
      apply t.chain_inj ((chain_entryAt bound).trans lower.symm)
      intro empty
      have height := heights e mem_cons_self
      rw [← (chain_entryAt bound).trans lower.symm, empty] at height
      cases height
    refine ⟨h, ?_, ?_, Nat.succ_pos _⟩
    · rw [length_cons, entries_succ, here, ← next, ← stretch.eq]
    · rw [length_cons]
      omega

/-- Neighbours that are parent and child make a stretch. -/
theorem Consecutive.exists_stretch (consecutive : Consecutive t recent) :
    ∃ low h, Stretch t recent low recent.length h := by
  obtain ⟨e, rest, rfl⟩ := exists_cons_of_ne_nil consecutive.nonempty
  obtain ⟨h, stretch⟩ := exists_stretch_cons consecutive.linked consecutive.heights
  exact ⟨e.1, h, stretch⟩

namespace Stretch

theorem tip (stretch : Stretch t s.recent low n h) : s.tip = some (low + n - 1, h) := by
  obtain ⟨m, rfl⟩ : ∃ m, n = m + 1 := ⟨n - 1, by have := stretch.some_block; omega⟩
  have top := stretch.top
  rw [WatcherState.tip, stretch.eq, entries_getLast?, entryAt_last (by omega)]
  rfl

section
variable (stretch : Stretch t recent low n h)
include stretch

theorem linked : recent.IsChain (Child t) := by
  rw [stretch.eq]
  exact entries_linked (Nat.le_of_eq stretch.top)

theorem mem_iff : e ∈ recent ↔ ∃ i, low ≤ i ∧ i < low + n ∧ entryAt (t.chain h) i = e := by
  rw [stretch.eq]
  exact mem_entries

theorem chain_of_mem (mem : e ∈ recent) : t.chain e.2 = (t.chain h).take (e.1 + 1) ∧ low ≤ e.1 ∧ e.1 < low + n := by
  obtain ⟨i, above, below, rfl⟩ := stretch.mem_iff.mp mem
  have top := stretch.top
  exact ⟨chain_entryAt (by omega), above, below⟩

theorem height (mem : e ∈ recent) : (t.chain e.2).length = e.1 + 1 := by
  obtain ⟨chain, _, below⟩ := stretch.chain_of_mem mem
  have top := stretch.top
  rw [chain, length_take]
  omega

theorem consecutive : Consecutive t recent := by
  refine ⟨?_, stretch.linked, fun e mem => stretch.height mem⟩
  intro empty
  have length := congrArg List.length (empty.symm.trans stretch.eq)
  rw [entries_length] at length
  exact absurd length (Nat.ne_of_lt stretch.some_block)

theorem sorted : recent.Pairwise fun a b => a.1 < b.1 := by
  rw [stretch.eq, entries, pairwise_map]
  exact pairwise_lt_range'

end

theorem rewind (stretch : Stretch t s.recent low n h) (mem : e ∈ s.recent) :
    Stretch t (s.rewindTo e.1).recent low (e.1 + 1 - low) e.2 := by
  obtain ⟨chain, above, below⟩ := stretch.chain_of_mem mem
  have height := stretch.height mem
  have kept : (s.rewindTo e.1).recent = s.recent.filter fun a => a.1 ≤ e.1 :=
    rdropWhile_eq_filter (stretch.sorted.imp Nat.le_of_lt)
  refine ⟨?_, by omega, by omega⟩
  rw [kept, stretch.eq, entries_filter_le below]
  have shorter : t.chain e.2 <+: t.chain h := by
    rw [chain]
    exact take_prefix _ _
  exact (entries_of_extension shorter (by omega)).symm

end Stretch

theorem stretch_pushAll (whole : s.recent ++ window = entries (t.chain h) low n)
    (top : low + n = (t.chain h).length) (some_entry : window ≠ []) (depth : 0 < s.reorgMaxDepth) :
    Stretch t (pushAll window s).recent (low + (n - s.reorgMaxDepth)) (n - (n - s.reorgMaxDepth)) h := by
  have length : n = (s.recent ++ window).length := by rw [whole, entries_length]
  have filled := length_pos_of_ne_nil some_entry
  rw [length_append] at length
  refine ⟨?_, by omega, by omega⟩
  rw [pushAll_recent some_entry, whole, entries_length, entries_drop]

end

end Eez.Watcher
