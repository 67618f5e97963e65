import EezRollup.Watcher.Poll

/-! A subscriber that drops what lies above a reorg's ancestor and collects each position once
should hold the posts of the chain the ring's tip ends. -/
open List
namespace Eez.Watcher
open Octets Scan

/-- A hash identifies its block and, through the parents, the chain below it;
the hash of no block has the empty chain. -/
structure BlockTree where
  chain : B256 → List L1Block
  hash_eq : ∀ {h b}, (chain h).getLast? = some b → b.hash = h
  parent_eq : ∀ {h b}, (chain h).getLast? = some b → chain b.parentHash = (chain h).dropLast
  placed : ∀ {h b}, (chain h).getLast? = some b → ∀ p ∈ b.posts,
    p.id.l1Block.toNat + 1 = (chain h).length ∧ p.id.l1BlockHash = h
  ordered : ∀ {h b}, (chain h).getLast? = some b → b.posts.Pairwise fun p q => p.id.logIndex < q.id.logIndex

/-- The listed chain that a hash ends. -/
def chainIn (chains : List (List L1Block)) (h : B256) : List L1Block :=
  (chains.find? fun c => c.getLast?.map L1Block.hash = some h).getD []

theorem mem_of_chainIn {chains h b} (last : (chainIn chains h).getLast? = some b) :
    chainIn chains h ∈ chains ∧ b.hash = h := by
  unfold chainIn at *
  cases found : chains.find? fun c => c.getLast?.map L1Block.hash = some h with
  | none =>
    rw [found] at last
    cases last
  | some c =>
    rw [found, Option.getD_some] at last
    have ends := find?_some found
    rw [last] at ends
    exact ⟨mem_of_find?_eq_some found, Option.some.inj (of_decide_eq_true ends)⟩

/-- The tree of finitely many chains. -/
def BlockTree.of (chains : List (List L1Block))
    (closed : ∀ c ∈ chains, ∀ b ∈ c.getLast?, chainIn chains b.parentHash = c.dropLast ∧
      (∀ p ∈ b.posts, p.id.l1Block.toNat + 1 = c.length ∧ p.id.l1BlockHash = b.hash) ∧
      b.posts.Pairwise fun p q => p.id.logIndex < q.id.logIndex) : BlockTree where
  chain := chainIn chains
  hash_eq last := (mem_of_chainIn last).2
  parent_eq last := (closed _ (mem_of_chainIn last).1 _ last).1
  placed last := by
    obtain ⟨mem, rfl⟩ := mem_of_chainIn last
    exact (closed _ mem _ last).2.1
  ordered last := (closed _ (mem_of_chainIn last).1 _ last).2.2

def Before (p q : Post) : Prop :=
  p.id.l1Block < q.id.l1Block ∨ p.id.l1Block = q.id.l1Block ∧ p.id.logIndex < q.id.logIndex

def SamePosition (p q : Post) : Prop := p.id.l1Block = q.id.l1Block ∧ p.id.logIndex = q.id.logIndex

instance (p q : Post) : Decidable (SamePosition p q) := inferInstanceAs (Decidable (_ ∧ _))

theorem Before.not_samePosition (before : Before p q) : ¬SamePosition p q := by
  intro same
  cases before with
  | inl lower => exact absurd same.1 (by intro eq; rw [eq] at lower; exact absurd lower (by simp))
  | inr lower => exact absurd same.2 (by intro eq; rw [eq] at lower; exact absurd lower.2 (by simp))

/-- The posts of one block, the last of them marked. -/
def flagLast : List Post → List (Post × Bool)
  | [] => []
  | post :: rest => (post, rest.isEmpty) :: flagLast rest

def marked (blocks : List L1Block) : List (Post × Bool) := blocks.flatMap fun b => flagLast b.posts

/-- The posts after block `n` on the chain that ends in `h`. -/
def BlockTree.postsAfter (t : BlockTree) (n : Nat) (h : B256) : List (Post × Bool) := marked ((t.chain h).drop (n + 1))

def peeked : List Post → List (Post × Bool)
  | [] => []
  | post :: rest => (post, rest.head?.all fun next => next.id.l1Block ≠ post.id.l1Block) :: peeked rest

/-- Consecutive blocks from number `n`, each with its own posts in log order. -/
def LaidFrom (n : Nat) (blocks : List L1Block) : Prop :=
  ∀ i b, blocks[i]? = some b → (∀ p ∈ b.posts, p.id.l1Block.toNat = n + i) ∧
    b.posts.Pairwise fun p q => p.id.logIndex < q.id.logIndex

variable {posts : List Post} {blocks : List L1Block} {n : Nat}

theorem mem_flagLast (mem : x ∈ flagLast posts) : x.1 ∈ posts := by
  induction posts with
  | nil => cases mem
  | cons post rest ih =>
    cases mem_cons.mp mem with
    | inl eq => exact eq ▸ mem_cons_self
    | inr mem => exact mem_cons_of_mem _ (ih mem)

namespace LaidFrom
variable {n : Nat} {b : L1Block} {blocks : List L1Block}

theorem tail (laid : LaidFrom n (b :: blocks)) : LaidFrom (n + 1) blocks := by
  intro i c at_i
  have here := laid (i + 1) c at_i
  rwa [show n + 1 + i = n + (i + 1) by omega]

theorem head (laid : LaidFrom n (b :: blocks)) (mem : p ∈ b.posts) : p.id.l1Block.toNat = n :=
  (laid 0 b rfl).1 p mem

theorem drop (laid : LaidFrom n blocks) (k : Nat) : LaidFrom (n + k) (blocks.drop k) := by
  intro i c at_i
  rw [getElem?_drop] at at_i
  have here := laid (k + i) c at_i
  rwa [show n + k + i = n + (k + i) by omega]

theorem number_le (laid : LaidFrom n blocks) (mem : x ∈ marked blocks) : n ≤ x.1.id.l1Block.toNat := by
  obtain ⟨c, mem_c, mem⟩ := mem_flatMap.mp mem
  obtain ⟨i, at_i⟩ := mem_iff_getElem?.mp mem_c
  rw [(laid i c at_i).1 x.1 (mem_flagLast mem)]
  exact Nat.le_add_right n i

end LaidFrom

theorem marked_cons (b : L1Block) (blocks : List L1Block) :
    marked (b :: blocks) = flagLast b.posts ++ marked blocks := rfl

theorem marked_append (xs ys : List L1Block) : marked (xs ++ ys) = marked xs ++ marked ys := flatMap_append

theorem peeked_append {k : Nat} {rest : List Post} (here : ∀ p ∈ posts, p.id.l1Block.toNat = k)
    (later : ∀ p ∈ rest, k < p.id.l1Block.toNat) : peeked (posts ++ rest) = flagLast posts ++ peeked rest := by
  induction posts with
  | nil => rfl
  | cons p posts ih =>
    have next := ih fun q mem => here q (mem_cons_of_mem _ mem)
    have here_p := here p mem_cons_self
    simp only [cons_append, peeked, flagLast, next]
    congr 2
    cases posts with
    | nil =>
      -- The next post, if any, is of a later block.
      cases rest with
      | nil => rfl
      | cons q rest =>
        have lower := later q mem_cons_self
        have differ : q.id.l1Block ≠ p.id.l1Block := by
          intro eq
          rw [eq] at lower
          omega
        simp [differ]
    | cons q posts =>
      have same : q.id.l1Block = p.id.l1Block := by
        apply UInt64.toNat.inj
        rw [here_p]
        exact here q (by simp)
      simp [same]

theorem LaidFrom.mem_number_le (laid : LaidFrom n blocks) (mem : p ∈ blocks.flatMap L1Block.posts) :
    n ≤ p.id.l1Block.toNat := by
  obtain ⟨c, mem_c, mem⟩ := mem_flatMap.mp mem
  obtain ⟨i, at_i⟩ := mem_iff_getElem?.mp mem_c
  rw [(laid i c at_i).1 p mem]
  exact Nat.le_add_right n i

theorem peeked_posts (laid : LaidFrom n blocks) : peeked (blocks.flatMap L1Block.posts) = marked blocks := by
  induction blocks generalizing n with
  | nil => rfl
  | cons b blocks ih =>
    rw [flatMap_cons, marked_cons, ← ih laid.tail]
    apply peeked_append
    · intro p mem
      exact laid.head mem
    · intro p mem
      exact laid.tail.mem_number_le mem

theorem flagLast_pairwise (same : ∀ p ∈ posts, ∀ q ∈ posts, p.id.l1Block = q.id.l1Block)
    (ordered : posts.Pairwise fun p q => p.id.logIndex < q.id.logIndex) :
    (flagLast posts).Pairwise fun x y => Before x.1 y.1 := by
  induction posts with
  | nil => exact List.Pairwise.nil
  | cons p posts ih =>
    rw [pairwise_cons] at ordered
    apply List.Pairwise.cons
    · intro x mem
      have mem_x := mem_flagLast mem
      exact .inr ⟨same p mem_cons_self _ (mem_cons_of_mem _ mem_x), ordered.1 _ mem_x⟩
    · apply ih _ ordered.2
      intro p mem_p q mem_q
      exact same p (mem_cons_of_mem _ mem_p) q (mem_cons_of_mem _ mem_q)

theorem marked_pairwise (laid : LaidFrom n blocks) : (marked blocks).Pairwise fun x y => Before x.1 y.1 := by
  induction blocks generalizing n with
  | nil => exact List.Pairwise.nil
  | cons b blocks ih =>
    rw [marked_cons, pairwise_append]
    refine ⟨?_, ih laid.tail, ?_⟩
    · apply flagLast_pairwise _ (laid 0 b rfl).2
      intro p mem_p q mem_q
      apply UInt64.toNat.inj
      rw [laid.head mem_p, laid.head mem_q]
    · intro x mem_x y mem_y
      have number := laid.head (mem_flagLast mem_x)
      have above := laid.tail.number_le mem_y
      exact .inl (UInt64.lt_iff_toNat_lt.mpr (by omega))

theorem filter_marked (laid : LaidFrom n blocks) (k : Nat) :
    (marked blocks).filter (fun x => x.1.id.l1Block.toNat ≤ k) = marked (blocks.take (k + 1 - n)) := by
  induction blocks generalizing n with
  | nil => simp [marked]
  | cons b blocks ih =>
    rw [marked_cons, filter_append, ih laid.tail]
    by_cases low : n ≤ k
    · rw [show k + 1 - n = (k + 1 - (n + 1)) + 1 by omega, take_succ_cons, marked_cons]
      congr 1
      apply filter_eq_self.mpr
      intro x mem
      rw [laid.head (mem_flagLast mem)]
      exact decide_eq_true low
    · rw [show k + 1 - n = 0 by omega, show k + 1 - (n + 1) = 0 by omega]
      simp only [take_zero, marked, flatMap_nil, append_nil]
      apply filter_eq_nil_iff.mpr
      intro x mem kept
      rw [laid.head (mem_flagLast mem)] at kept
      exact low (of_decide_eq_true kept)

namespace BlockTree
variable (t : BlockTree) {h h' : B256} {n : Nat} {b : L1Block}

theorem chain_take (at_n : (t.chain h)[n]? = some b) : t.chain b.hash = (t.chain h).take (n + 1) := by
  -- A block below the last one is on the parent's chain.
  induction len : (t.chain h).length generalizing h with
  | zero => rw [length_eq_zero_iff.mp len] at at_n; cases at_n
  | succ m ih =>
    have bound : n < (t.chain h).length := (List.getElem?_eq_some_iff.mp at_n).1
    by_cases last : n = m
    · have at_last : (t.chain h).getLast? = some b := by
        rw [getLast?_eq_getElem?, len, ← last]
        exact at_n
      rw [t.hash_eq at_last, take_of_length_le (by omega)]
    · obtain ⟨top, at_top⟩ : ∃ top, (t.chain h).getLast? = some top := by
        cases eq : (t.chain h).getLast? with
        | none => rw [getLast?_eq_none_iff.mp eq] at len; cases len
        | some top => exact ⟨top, rfl⟩
      have below := t.parent_eq at_top
      have found : (t.chain top.parentHash)[n]? = some b := by
        rw [below, getElem?_dropLast, if_pos (by omega)]
        exact at_n
      rw [ih found (by rw [below, length_dropLast, len]; rfl), below, dropLast_eq_take, take_take]
      congr 1
      omega

theorem getLast_take (at_n : (t.chain h)[n]? = some b) : (t.chain b.hash).getLast? = some b := by
  have bound : n < (t.chain h).length := (List.getElem?_eq_some_iff.mp at_n).1
  rw [t.chain_take at_n, getLast?_take, if_neg (by omega)]
  simp [at_n]

theorem chain_parent (at_n : (t.chain h)[n]? = some b) : t.chain b.parentHash = (t.chain h).take n := by
  have bound : n < (t.chain h).length := (List.getElem?_eq_some_iff.mp at_n).1
  rw [t.parent_eq (t.getLast_take at_n), t.chain_take at_n, dropLast_eq_take, take_take, length_take]
  congr 1
  omega

theorem chain_inj (eq : t.chain h = t.chain h') (some_block : t.chain h ≠ []) : h = h' := by
  have last : (t.chain h).getLast? = some ((t.chain h).getLast some_block) := getLast?_eq_some_getLast some_block
  rw [← t.hash_eq last]
  exact t.hash_eq (eq ▸ last)

theorem laidFrom (h : B256) : LaidFrom 0 (t.chain h) := by
  intro i b at_i
  have last := t.getLast_take at_i
  have bound : i < (t.chain h).length := (List.getElem?_eq_some_iff.mp at_i).1
  refine ⟨?_, t.ordered last⟩
  intro p mem
  have placed := (t.placed last p mem).1
  rw [t.chain_take at_i, length_take] at placed
  omega

theorem laidFrom_drop (h : B256) (n : Nat) : LaidFrom n ((t.chain h).drop n) := by
  have laid := (t.laidFrom h).drop n
  rwa [Nat.zero_add] at laid

theorem postsAfter_pairwise (n : Nat) (h : B256) : (t.postsAfter n h).Pairwise fun x y => Before x.1 y.1 :=
  marked_pairwise (t.laidFrom_drop h (n + 1))

theorem postsAfter_append {low : Nat} (below : t.chain h <+: t.chain h') (height : (t.chain h).length = n + 1)
    (floor : low ≤ n) : t.postsAfter low h ++ marked ((t.chain h').drop (n + 1)) = t.postsAfter low h' := by
  obtain ⟨added, eq⟩ := below
  unfold postsAfter
  rw [← eq, ← height, drop_left, ← marked_append, drop_append_of_le_length (by omega)]

theorem postsAfter_filter (below : t.chain h' <+: t.chain h) (height : (t.chain h').length = n + 1) :
    (t.postsAfter low h).filter (fun x => x.1.id.l1Block.toNat ≤ n) = t.postsAfter (min low n) h' := by
  have taken : t.chain h' = (t.chain h).take (n + 1) := by
    rw [← height]
    exact prefix_iff_eq_take.mp below
  unfold postsAfter
  rw [filter_marked (t.laidFrom_drop h (low + 1)), taken, drop_take]
  by_cases le : low ≤ n
  · rw [Nat.min_eq_left le]
  · -- The ancestor lies below everything collected.
    rw [Nat.min_eq_right (by omega), show n + 1 - (low + 1) = 0 by omega, show n + 1 - (n + 1) = 0 by omega]
    rfl

end BlockTree

end Eez.Watcher
