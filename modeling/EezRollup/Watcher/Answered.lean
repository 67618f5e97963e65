import EezRollup.Watcher.Cycle

/-! When no request fails, each read of a cycle has one result and leaves the cycle as it was. -/
namespace Eez.Watcher
open List Octets Faulty Scan

/-- With every request answered, the program returns `a` and changes nothing. -/
def Answers {α : Type} (x : M α) (a : α) : Prop := ∀ c : Cycle, c.answers = [] → exec x c = (.ok a, c)

section
variable {α β : Type} {x : M α} {a : α}

theorem answers_pure (a : α) : Answers (pure a) a := fun _ _ => rfl

theorem Answers.bind {f : α → M β} (first : Answers x a) (next : Answers (f a) b) : Answers (x >>= f) b := by
  intro c answered
  rw [exec_bind, first c answered]
  exact next c answered

theorem Answers.leaves (answers : Answers x a) {c : Cycle} (answered : c.answers = []) {Q : α → Cycle → Prop}
    (ok : Q a c) : Leaves x c Q E := by
  unfold Leaves
  rw [answers c answered]
  exact ok

theorem answers_ask : Answers ask none := by
  intro c answered
  unfold ask
  rw [exec_bind, exec_get]
  simp only [answered]
  rfl

theorem answers_request (failed : String → L1Error) : Answers (request failed) () := answers_ask.bind (answers_pure ())

end

section
variable {src : Source}

theorem answers_byTag (served : src.byTag tag = some b) : Answers (fetchBlockByTag src tag) b := by
  unfold fetchBlockByTag
  rw [served]
  exact (answers_request _).bind (answers_pure b)

theorem answers_number (served : src.snapshot n = some b) :
    Answers (fetchBlockByTag src (.number n)) b := answers_byTag served

theorem answers_narrowed (low high : Nat) : Answers (fetchNarrowed low high) high := by
  rw [fetchNarrowed]
  exact answers_ask.bind (answers_pure high)

theorem answers_readPosts (low high : Nat) : Answers (readPosts src low high) (src.posts low high) :=
  (answers_request _).bind (answers_pure _)

theorem answers_scan (low high : Nat) : Answers (scanBatchLogsRangeAdaptive src low high) (src.posts low high, high) :=
  (answers_narrowed low high).bind ((answers_readPosts low high).bind (answers_pure _))

theorem answers_scanRange (low high : Nat) : Answers (scanRange src low high) (src.posts low high) :=
  (answers_request _).bind (answers_readPosts low high)

theorem answers_chunkBoundary {latest : BlockSnapshot} {b n} (at_latest : src.snapshot latest.number = some latest)
    (served : src.snapshot n = some b) :
    Answers (chunkBoundary src latest n) b := by
  unfold chunkBoundary
  split
  · next eq =>
    rw [eq, at_latest] at served
    cases served
    exact answers_pure latest
  · exact answers_number served

theorem answers_reachedBoundary : Answers (reachedBoundary src b n n) b := by
  unfold reachedBoundary
  rw [if_pos rfl]
  exact answers_pure b

end

section
variable {t : BlockTree} {src : Source} {head : B256} (on : src.chain = t.chain head)

include on

theorem exists_snapshot {n : Nat} (bound : n < src.chain.length) :
    ∃ b, src.snapshot n = some b ∧ b.number = n ∧ Snap t src b := by
  obtain ⟨b, served⟩ : ∃ b, src.snapshot n = some b := by
    rw [Source.snapshot, getElem?_eq_getElem bound]
    exact ⟨_, rfl⟩
  exact ⟨b, served, snap_of_snapshot on served⟩

theorem byHash_eq {hash} {n : Nat} {b} (chain : t.chain hash = src.chain.take (n + 1))
    (served : src.snapshot n = some b) : src.byHash hash = some b := by
  have bound : n < src.chain.length := by
    obtain ⟨_, at_n, _⟩ := Option.map_eq_some_iff.mp served
    exact (List.getElem?_eq_some_iff.mp at_n).1
  have found : src.chain.findIdx? (·.hash = hash) = some n := by
    apply findIdx?_eq_some_iff_getElem.mpr
    refine ⟨bound, ?_, ?_⟩
    · have here := (entryAt_eq (getElem?_eq_getElem bound)).symm.trans (entry_eq on chain bound)
      exact decide_eq_true (Prod.mk.inj here).2
    · intro j lower same
      -- The same hash lower down would end a shorter chain.
      have at_j : src.chain[j]? = some _ := getElem?_eq_getElem (Nat.lt_trans lower bound)
      have shorter := chain_entry on (Nat.lt_trans lower bound)
      rw [entryAt_eq at_j, of_decide_eq_true same, chain] at shorter
      have length := congrArg List.length shorter
      rw [length_take, length_take] at length
      omega
  unfold Source.byHash
  rw [found]
  exact served

theorem answers_hash {hash} {n : Nat} {b} (chain : t.chain hash = src.chain.take (n + 1))
    (served : src.snapshot n = some b) : Answers (fetchBlockByHash src hash) b := by
  unfold fetchBlockByHash
  rw [byHash_eq on chain served]
  exact (answers_request _).bind (answers_pure b)

theorem answers_walkBack {s : WatcherState} {common : Nat × B256} {hops n : Nat} {cursor : B256}
    (chain : t.chain cursor = src.chain.take (n + 1)) (bound : n < src.chain.length)
    (at_common : t.chain common.2 = src.chain.take (common.1 + 1)) (known : (s.lookupHash common.2).isSome)
    (unknown : ∀ i, common.1 < i → i ≤ n → s.lookupHash (entryAt src.chain i).2 = none) (le : common.1 ≤ n)
    (near : n < common.1 + hops) :
    Answers (walkBackToCommon src s hops cursor n) (some ⟨common.1, common.2⟩) := by
  induction hops generalizing n cursor with
  | zero => omega
  | succ hops ih =>
    have here := entry_eq on chain bound
    unfold walkBackToCommon
    by_cases last : n = common.1
    · subst last
      have same : common.2 = cursor := (Prod.mk.inj ((entry_eq on at_common bound).symm.trans here)).2
      rw [if_pos (same ▸ known), ← same]
      exact answers_pure _
    · have gone := unknown n (by omega) (Nat.le_refl _)
      rw [here] at gone
      obtain ⟨block, served, number, snap⟩ := exists_snapshot on bound
      have parent := snap.parent
      rw [if_neg (by rw [gone]; exact Bool.false_ne_true), if_neg (by omega)]
      refine (answers_hash on chain served).bind ?_
      rw [number]
      refine ih ?_ (by omega) (fun i above le => unknown i above (by omega)) (by omega) (by omega)
      rw [parent, number, show n - 1 + 1 = n by omega]

/-- The walk gives up where none of the blocks it has hops for is in the ring. -/
theorem answers_walkBack_none {s : WatcherState} {hops n : Nat} {cursor : B256}
    (chain : t.chain cursor = src.chain.take (n + 1)) (bound : n < src.chain.length)
    (unknown : ∀ i, i ≤ n → n < i + hops → s.lookupHash (entryAt src.chain i).2 = none) :
    Answers (walkBackToCommon src s hops cursor n) none := by
  induction hops generalizing n cursor with
  | zero => exact answers_pure _
  | succ hops ih =>
    have gone := unknown n (Nat.le_refl _) (by omega)
    rw [entry_eq on chain bound] at gone
    unfold walkBackToCommon
    rw [if_neg (by rw [gone]; exact Bool.false_ne_true)]
    split
    · exact answers_pure _
    · next positive =>
      obtain ⟨block, served, number, snap⟩ := exists_snapshot on bound
      refine (answers_hash on chain served).bind ?_
      rw [number]
      refine ih ?_ (by omega) fun i le near => unknown i (by omega) (by omega)
      rw [snap.parent, number, show n - 1 + 1 = n by omega]

theorem answers_byHeight (gone : ∀ e ∈ newer, e.1 < src.chain.length ∧ t.chain e.2 ≠ src.chain.take (e.1 + 1))
    (at_common : t.chain common.2 = src.chain.take (common.1 + 1)) (bound : common.1 < src.chain.length) :
    Answers (findCommonAncestorByHeight src (newer ++ common :: older)) (some ⟨common.1, common.2⟩) := by
  induction newer with
  | nil =>
    obtain ⟨block, served, number, snap⟩ := exists_snapshot on bound
    have same : block.hash = common.2 := by
      have here := snap.entry on
      rw [number, entry_eq on at_common bound] at here
      exact (Prod.mk.inj here).2.symm
    refine (answers_number served).bind ?_
    rw [if_pos same]
    exact answers_pure _
  | cons e newer ih =>
    obtain ⟨bound, differs⟩ := gone e mem_cons_self
    obtain ⟨block, served, number, snap⟩ := exists_snapshot on bound
    refine (answers_number served).bind ?_
    rw [if_neg]
    · exact ih fun e mem => gone e (mem_cons_of_mem _ mem)
    · intro same
      apply differs
      rw [← same, ← number]
      exact snap.hash

theorem answers_collectBack {low : Nat} {span} {n : Nat} {cursor} (chain : t.chain cursor = src.chain.take (n + 1))
    (bound : n < src.chain.length) (ends : n = low + span) :
    ∃ l, Answers (collectBack src low (span + 1) cursor n) l ∧ l.map strip = entries src.chain low (span + 1) := by
  obtain ⟨block, served, number, snap⟩ := exists_snapshot on bound
  have fetched := answers_hash on chain served
  have here := entry_eq on chain bound
  induction span generalizing n cursor block with
  | zero =>
    refine ⟨[(n, cursor, block.timestamp)], fetched.bind ?_, ?_⟩
    · rw [if_pos (show n = low from ends)]
      exact answers_pure _
    · rw [entries_one, ← Nat.add_zero low, ← ends, here]
      rfl
  | succ span ih =>
    have parent := snap.parent
    have older_chain : t.chain block.parentHash = src.chain.take (n - 1 + 1) := by
      rw [parent, number, show n - 1 + 1 = n by omega]
    have older_bound : n - 1 < src.chain.length := by omega
    obtain ⟨block', served', number', snap'⟩ := exists_snapshot on older_bound
    obtain ⟨older, answers, older_eq⟩ := ih older_chain older_bound (by omega) block' served' number' snap'
      (answers_hash on older_chain served') (entry_eq on older_chain older_bound)
    refine ⟨older ++ [(n, cursor, block.timestamp)], fetched.bind ?_, ?_⟩
    · rw [if_neg (by omega), number]
      exact answers.bind (answers_pure _)
    · rw [map_append, older_eq, entries_concat (n := span + 1), ← ends, here]
      rfl

theorem answers_ancestors {room n parent} (below : t.chain parent = src.chain.take n) (bound : n < src.chain.length) :
    Answers (ancestorsOf src room parent n) (entries src.chain (n - room) (min room n)) := by
  induction room generalizing n parent with
  | zero =>
    rw [Nat.zero_min]
    exact answers_pure _
  | succ room ih =>
    unfold ancestorsOf
    split
    · next zero =>
      rw [zero, Nat.min_zero]
      exact answers_pure _
    · next positive =>
      have chain : t.chain parent = src.chain.take (n - 1 + 1) := by rw [below, show n - 1 + 1 = n by omega]
      obtain ⟨block, served, number, snap⟩ := exists_snapshot on (show n - 1 < src.chain.length by omega)
      have older := ih snap.parent snap.bound
      have grown : entries src.chain (n - (room + 1)) (min (room + 1) n) =
          entries src.chain (block.number - room) (min room block.number) ++ [(block.number, block.hash)] := by
        rw [← snap.entry on, show min (room + 1) n = min room block.number + 1 by omega, entries_concat,
          show n - (room + 1) = block.number - room by omega,
          show block.number - room + min room block.number = block.number by omega]
      rw [grown]
      exact (answers_hash on chain served).bind (older.bind (answers_pure _))

/-- How many blocks the ring is seeded with at the end of a chunk. -/
def seeds (depth latest boundary : Nat) : Nat := if latest - boundary < depth then min depth (boundary + 1) else 1

theorem answers_catchUpWindow (latest : BlockSnapshot) (snap : Snap t src boundary) (filled : 0 < depth) :
    Answers (catchUpWindow src latest boundary depth) (entries src.chain
      (boundary.number + 1 - seeds depth latest.number boundary.number)
      (seeds depth latest.number boundary.number)) := by
  unfold catchUpWindow seeds
  split
  · have older : Answers (ancestorsOf src (depth - 1) boundary.parentHash boundary.number) _ :=
      answers_ancestors on snap.parent snap.bound
    have grown : entries src.chain (boundary.number + 1 - min depth (boundary.number + 1))
        (min depth (boundary.number + 1)) = entries src.chain (boundary.number - (depth - 1))
          (min (depth - 1) boundary.number) ++ [(boundary.number, boundary.hash)] := by
      rw [← snap.entry on, show min depth (boundary.number + 1) = min (depth - 1) boundary.number + 1 by omega,
        entries_concat, show boundary.number + 1 - (min (depth - 1) boundary.number + 1) =
          boundary.number - (depth - 1) by omega,
        show boundary.number - (depth - 1) + min (depth - 1) boundary.number = boundary.number by omega]
    rw [grown]
    exact older.bind (answers_pure _)
  · rw [entries_one, Nat.add_sub_cancel, snap.entry on]
    exact answers_pure _

end

end Eez.Watcher
