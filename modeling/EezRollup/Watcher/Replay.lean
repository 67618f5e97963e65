import EezRollup.Watcher.Canonical
import EezRollup.Lib.Runs

/-! In every run the posts a subscriber collects are those of the blocks on the ring tip's chain,
after the seed or the lowest ancestor told. -/
open List
namespace Eez.Watcher
open Octets Faulty Scan

/-- What a subscriber holds; `floor` is the seed, or the lowest ancestor a reorg
went back to. -/
structure Replay where
  floor : Nat
  posts : List (Post × Bool)

namespace Replay

def on (r : Replay) : L1Event → Replay
  | .reorg common _ _ _ _ =>
    ⟨min r.floor common, r.posts.filter fun x => x.1.id.l1Block.toNat ≤ common⟩
  | .batchPosted post last =>
    if r.posts.any fun x => SamePosition x.1 post then r else { r with posts := r.posts ++ [(post, last)] }
  | _ => r

def onAll (r : Replay) (events : List L1Event) : Replay := events.foldl on r

variable {r : Replay}

theorem onAll_append (xs ys : List L1Event) : r.onAll (xs ++ ys) = (r.onAll xs).onAll ys := foldl_append

theorem onAll_heads (heads : ∀ e ∈ events, ∃ n h ts, e = .newHead n h ts) : r.onAll events = r := by
  induction events with
  | nil => rfl
  | cons e events ih =>
    obtain ⟨n, h, ts, eq⟩ := heads e mem_cons_self
    subst eq
    exact ih fun e mem => heads e (mem_cons_of_mem _ mem)

def posted (x : Post × Bool) : L1Event := .batchPosted x.1 x.2

theorem onAll_posted (ordered : (r.posts ++ xs).Pairwise fun x y => Before x.1 y.1) :
    r.onAll (xs.map posted) = { r with posts := r.posts ++ xs } := by
  induction xs generalizing r with
  | nil => simp [onAll]
  | cons x xs ih =>
    have fresh : (r.posts.any fun y => SamePosition y.1 x.1) = false := by
      rw [any_eq_false]
      intro y mem same
      have before := (pairwise_append.mp ordered).2.2 y mem x mem_cons_self
      exact before.not_samePosition (of_decide_eq_true same)
    have step : r.on (posted x) = { r with posts := r.posts ++ [x] } := by
      simp only [posted, on, fresh, Bool.false_eq_true, if_false]
    change (r.on (posted x)).onAll (xs.map posted) = _
    rw [step, ih (by simpa using ordered)]
    simp

end Replay

/-- The entries lie on the chain that ends in `h`. -/
structure Kept (t : BlockTree) (recent : List (Nat × B256)) (h : B256) : Prop where
  height : ∀ {e}, e ∈ recent → (t.chain e.2).length = e.1 + 1
  below : ∀ {e}, e ∈ recent → t.chain e.2 <+: t.chain h
  sorted : recent.Pairwise fun a b => a.1 ≤ b.1

structure Ring (t : BlockTree) (s : WatcherState) (n : Nat) (h : B256) : Prop where
  depth : 0 < s.reorgMaxDepth
  tip : s.tip = some (n, h)
  kept : Kept t s.recent h

namespace Kept
variable {t : BlockTree} {recent rest : List (Nat × B256)} {h h' : B256}

variable (kept : Kept t recent h)
include kept

theorem sublist (sub : rest.Sublist recent) : Kept t rest h :=
  ⟨fun mem => kept.height (sub.subset mem), fun mem => kept.below (sub.subset mem), kept.sorted.sublist sub⟩

theorem mono (le : t.chain h <+: t.chain h') : Kept t recent h' :=
  ⟨kept.height, fun mem => (kept.below mem).trans le, kept.sorted⟩

theorem hash_eq (mem : e ∈ recent) (mem' : e' ∈ recent) (same : e.1 = e'.1) : e.2 = e'.2 := by
  apply t.chain_inj
  · apply List.IsPrefix.eq_of_length
    · apply prefix_of_prefix_length_le (kept.below mem) (kept.below mem')
      rw [kept.height mem, kept.height mem', same]
    · rw [kept.height mem, kept.height mem', same]
  · intro empty
    have height := kept.height mem
    rw [empty] at height
    cases height

theorem le_last (last : recent.getLast? = some e) (mem : a ∈ recent) : a.1 ≤ e.1 := by
  obtain ⟨older, eq⟩ := getLast?_eq_some_iff.mp last
  have sorted := kept.sorted
  rw [eq] at sorted mem
  cases mem_append.mp mem with
  | inl mem => exact (pairwise_append.mp sorted).2.2 a mem e mem_cons_self
  | inr mem => rw [mem_singleton.mp mem]

theorem append (added : Kept t rest h) (above : ∀ a ∈ recent, ∀ b ∈ rest, a.1 ≤ b.1) : Kept t (recent ++ rest) h where
  height mem := by
    cases mem_append.mp mem with
    | inl mem => exact kept.height mem
    | inr mem => exact added.height mem
  below mem := by
    cases mem_append.mp mem with
    | inl mem => exact kept.below mem
    | inr mem => exact added.below mem
  sorted := pairwise_append.mpr ⟨kept.sorted, added.sorted, above⟩

end Kept

theorem rdropWhile_eq_filter {k : Nat} {recent : List (Nat × B256)} (sorted : recent.Pairwise fun a b => a.1 ≤ b.1) :
    recent.rdropWhile (fun e => k < e.1) = recent.filter fun e => e.1 ≤ k := by
  induction recent using List.reverseRecOn with
  | nil => rfl
  | append_singleton l e ih =>
    have split := pairwise_append.mp sorted
    by_cases high : k < e.1
    · rw [rdropWhile_concat_pos _ _ _ (by simpa using high), ih split.1]
      simp [Nat.not_le.mpr high]
    · rw [rdropWhile_concat_neg _ _ _ (by simpa using high)]
      refine (filter_eq_self.mpr ?_).symm
      intro a mem
      cases mem_append.mp mem with
      | inl mem =>
        have le := split.2.2 a mem e mem_cons_self
        simp; omega
      | inr mem =>
        rw [mem_singleton.mp mem]
        simp; omega

variable {s : WatcherState} {window : List (Nat × B256)}

theorem pushAll_recent (some_entry : window ≠ []) : (pushAll window s).recent =
      (s.recent ++ window).drop ((s.recent ++ window).length - s.reorgMaxDepth) := by
  induction window generalizing s with
  | nil => exact absurd rfl some_entry
  | cons e window ih =>
    change (pushAll window (s.pushCanonical e.1 e.2)).recent = _
    cases window with
    | nil => rfl
    | cons e' window =>
      rw [ih (by simp)]
      simp only [WatcherState.pushCanonical]
      rw [← drop_append_of_le_length (by simp), drop_drop]
      congr 1
      · simp only [length_append, length_drop, length_cons, length_nil]
        omega
      · simp

theorem pushAll_depth (s : WatcherState) (window : List (Nat × B256)) :
    (pushAll window s).reorgMaxDepth = s.reorgMaxDepth := by
  induction window generalizing s with
  | nil => rfl
  | cons e window ih => exact ih (s.pushCanonical e.1 e.2)

theorem tip_pushAll (depth : 0 < s.reorgMaxDepth) (last : window.getLast? = some e) :
    (pushAll window s).tip = some e := by
  have some_entry : window ≠ [] := by
    intro empty
    rw [empty] at last
    cases last
  unfold WatcherState.tip
  rw [pushAll_recent some_entry, getLast?_drop, if_neg, getLast?_append, last]
  · rfl
  · have := length_pos_of_ne_nil some_entry
    rw [length_append]
    omega

theorem mem_pushAll (fits : window.length ≤ s.reorgMaxDepth) (mem : e ∈ window) : e ∈ (pushAll window s).recent := by
  rw [pushAll_recent (ne_nil_of_mem mem)]
  have short : (s.recent ++ window).length - s.reorgMaxDepth ≤ s.recent.length := by
    rw [length_append]
    omega
  rw [drop_append_of_le_length short]
  exact mem_append_right _ mem

namespace Ring
variable {t : BlockTree} {s : WatcherState} {n k : Nat} {h h' : B256}

theorem mem_tip (ring : Ring t s n h) : (n, h) ∈ s.recent := mem_of_getLast? ring.tip

theorem height (ring : Ring t s n h) : (t.chain h).length = n + 1 := ring.kept.height ring.mem_tip

theorem number_eq (ring : Ring t s n h) (mem : (k, h') ∈ s.recent) (hash : h = h') : k = n := by
  have height : (t.chain h').length = k + 1 := ring.kept.height mem
  rw [← hash, ring.height] at height
  omega

theorem rewind (ring : Ring t s n h) (mem : (k, h') ∈ s.recent) : Ring t (s.rewindTo k) k h' := by
  have left : (s.rewindTo k).recent = s.recent.filter fun e => e.1 ≤ k := rdropWhile_eq_filter ring.kept.sorted
  have kept := ring.kept.sublist (filter_sublist (p := fun e => decide (e.1 ≤ k)))
  have mem_left : (k, h') ∈ s.recent.filter fun e => e.1 ≤ k := mem_filter.mpr ⟨mem, by simp⟩
  have tip : (s.rewindTo k).tip = some (k, h') := by
    unfold WatcherState.tip
    rw [left]
    cases last : (s.recent.filter fun e => decide (e.1 ≤ k)).getLast? with
    | none => rw [getLast?_eq_none_iff.mp last] at mem_left; cases mem_left
    | some e =>
      -- The last entry is at most `k` and no entry lies above it.
      have mem_e := mem_of_getLast? last
      have le : e.1 ≤ k := by simpa using (mem_filter.mp mem_e).2
      have same : e.1 = k := Nat.le_antisymm le (kept.le_last last mem_left)
      have hash : e.2 = h' := kept.hash_eq mem_e mem_left same
      rw [← same, ← hash]
  refine ⟨ring.depth, tip, ?_⟩
  rw [left]
  refine ⟨kept.height, ?_, kept.sorted⟩
  intro e mem_e
  apply prefix_of_prefix_length_le (kept.below mem_e) (ring.kept.below mem)
  have le : e.1 ≤ k := by simpa using (mem_filter.mp mem_e).2
  rw [kept.height mem_e, ring.kept.height mem]
  exact Nat.add_le_add_right le 1

theorem advance (depth : 0 < s.reorgMaxDepth) (kept : Kept t s.recent h) (added : Kept t window h)
    (above : ∀ a ∈ s.recent, ∀ b ∈ window, a.1 ≤ b.1) (last : window.getLast? = some (n, h)) :
    Ring t (pushAll window s) n h := by
  have recent := pushAll_recent (s := s) (ne_nil_of_mem (mem_of_getLast? last))
  have deep : (pushAll window s).reorgMaxDepth = s.reorgMaxDepth := pushAll_depth s window
  refine ⟨deep ▸ depth, tip_pushAll depth last, ?_⟩
  · rw [recent]
    exact (kept.append added above).sublist (List.drop_sublist _ _)

theorem mem_of_marked (ring : Ring t s n h) {m : Nat} (covers : ∀ i, m ≤ i → i ≤ n → ∃ e ∈ s.recent, e.1 = i)
    (mem : x ∈ marked ((t.chain h).drop m)) :
    (x.1.id.l1Block.toNat, x.1.id.l1BlockHash) ∈ s.recent := by
  obtain ⟨b, mem_b, mem⟩ := mem_flatMap.mp mem
  obtain ⟨i, at_i⟩ := mem_iff_getElem?.mp mem_b
  rw [getElem?_drop] at at_i
  have bound : m + i < (t.chain h).length := (List.getElem?_eq_some_iff.mp at_i).1
  have height := ring.height
  have placed := t.placed (t.getLast_take at_i) x.1 (mem_flagLast mem)
  have taken := t.chain_take at_i
  have long : (t.chain b.hash).length = m + i + 1 := by rw [taken, length_take]; omega
  obtain ⟨e, mem_e, number⟩ := covers (m + i) (by omega) (by omega)
  -- The entry at that height is the block itself.
  have same : t.chain e.2 = t.chain b.hash := by
    apply List.IsPrefix.eq_of_length
    · apply prefix_of_prefix_length_le (ring.kept.below mem_e)
      · rw [taken]
        exact take_prefix _ _
      · rw [ring.kept.height mem_e, long, number]
    · rw [ring.kept.height mem_e, long, number]
  have hash : e.2 = b.hash := t.chain_inj same (by intro empty; rw [← same, empty] at long; cases long)
  have first : x.1.id.l1Block.toNat = e.1 := by omega
  rw [placed.2, first, ← hash]
  exact mem_e

end Ring

/-- The subscriber holds the posts of the chain the ring's tip ends. -/
structure Tracks (t : BlockTree) (r : Replay) (s : WatcherState) (n : Nat) (h : B256) : Prop where
  ring : Ring t s n h
  floor : r.floor ≤ n
  posts : r.posts = t.postsAfter r.floor h

namespace Tracks
variable {t : BlockTree} {r : Replay} {s s' : WatcherState} {n n' k : Nat} {h h' : B256}

theorem rewind (tracks : Tracks t r s n h) (mem : (k, h') ∈ s.recent) (old new : B256) (head : Nat) :
    Tracks t (r.on (.reorg k h' old head new)) (s.rewindTo k) k h' where
  ring := tracks.ring.rewind mem
  floor := Nat.min_le_right _ _
  posts := by
    change r.posts.filter _ = _
    rw [tracks.posts]
    exact t.postsAfter_filter (tracks.ring.kept.below mem) (tracks.ring.kept.height mem)

theorem advance (tracks : Tracks t r s n h) (ring : Ring t s' n' h') (below : t.chain h <+: t.chain h')
    (only : ∀ e ∈ heads, ∃ n h ts, e = .newHead n h ts) :
    Tracks t (r.onAll (heads ++ (marked ((t.chain h').drop (n + 1))).map Replay.posted)) s' n' h' := by
  have grown := t.postsAfter_append below tracks.ring.height tracks.floor
  have ordered : (r.posts ++ marked ((t.chain h').drop (n + 1))).Pairwise fun x y => Before x.1 y.1 := by
    rw [tracks.posts, grown]
    exact t.postsAfter_pairwise _ _
  rw [Replay.onAll_append, Replay.onAll_heads only, Replay.onAll_posted ordered]
  refine ⟨ring, ?_, ?_⟩
  · have shorter := below.length_le
    rw [tracks.ring.height, ring.height] at shorter
    have floor := tracks.floor
    change r.floor ≤ n'
    omega
  · change r.posts ++ _ = t.postsAfter r.floor h'
    rw [tracks.posts, grown]

end Tracks

end Eez.Watcher
