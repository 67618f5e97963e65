import EezRollup.Deriver.Derived

/-! L1 has a list of posts whose settled roots chain, and the index records some of them, in order.
-/
namespace Eez.Deriver
open List Octets Outcome Codec Scan Faulty

variable (node : Node) (numberOf : B256 → Nat)

/-- The deriver reads blocks from the post: L1 applied some of it, and its
payload is not another rollup's. -/
def Derives (post : Post) : Prop :=
  post.settlement.applied ≠ [] ∧ decodeOurPayload node post.batch.callData ≠ .ok none

instance (post : Post) : Decidable (Derives node post) := inferInstanceAs (Decidable (_ ∧ _))

/-- Each settled post starts from the root the one before it left, and its root
is a block at or above that height. -/
def RootsChain : B256 → List Post → Prop
  | _, [] => True
  | root, post :: rest =>
    if Derives node post then
      post.settlement.entryState = some root ∧
        ∃ final, post.settlement.finalState = some final ∧ numberOf root ≤ numberOf final ∧ RootsChain final rest
    else RootsChain root rest

/-- The posts of one L1 chain in position order. -/
structure L1Posts (root : B256) (l1 : List Post) : Prop where
  ordered : l1.Pairwise fun p q => ¬PostId.positionLe q.id p.id
  block : ∀ p ∈ l1, ∀ q ∈ l1, p.id.l1Block = q.id.l1Block → p.id.l1BlockHash = q.id.l1BlockHash
  roots : RootsChain node numberOf root l1

variable {node numberOf} {root : B256} {l1 : List Post}

theorem RootsChain.entry_ge (chain : RootsChain node numberOf root l1) (mem : post ∈ l1)
    (derives : Derives node post) : ∃ entry final, post.settlement.entryState = some entry ∧
      post.settlement.finalState = some final ∧ numberOf root ≤ numberOf entry ∧ numberOf entry ≤ numberOf final := by
  induction l1 generalizing root with
  | nil => cases mem
  | cons p rest ih =>
    unfold RootsChain at chain
    split at chain
    next =>
      obtain ⟨starts, final, settles, rising, chain⟩ := chain
      rcases mem_cons.mp mem with rfl | mem
      · exact ⟨root, final, starts, settles, Nat.le_refl _, rising⟩
      · obtain ⟨entry, last, hentry, hlast, low, high⟩ := ih chain mem
        exact ⟨entry, last, hentry, hlast, rising.trans low, high⟩
    next idle =>
      rcases mem_cons.mp mem with rfl | mem
      · exact absurd derives idle
      · exact ih chain mem

theorem RootsChain.later_ge {after later final}
    (chain : RootsChain node numberOf root (before ++ post :: after)) (derives : Derives node post)
    (settles : post.settlement.finalState = some final) (mem : later ∈ after) (follows : Derives node later) :
    ∃ entry, later.settlement.entryState = some entry ∧ numberOf final ≤ numberOf entry := by
  induction before generalizing root with
  | nil =>
    simp only [nil_append, RootsChain, if_pos derives] at chain
    obtain ⟨-, final', settles', -, chain⟩ := chain
    rw [settles] at settles'
    cases settles'
    obtain ⟨entry, -, starts, -, low, -⟩ := chain.entry_ge mem follows
    exact ⟨entry, starts, low⟩
  | cons p before ih =>
    rw [cons_append] at chain
    unfold RootsChain at chain
    split at chain
    · obtain ⟨-, next, -, -, chain⟩ := chain
      exact ih chain
    · exact ih chain

theorem RootsChain.left {after} (chain : RootsChain node numberOf root (before ++ after)) :
    RootsChain node numberOf root before := by
  induction before generalizing root with
  | nil => trivial
  | cons p before ih =>
    rw [cons_append] at chain
    unfold RootsChain at chain ⊢
    split
    next derives =>
      rw [if_pos derives] at chain
      obtain ⟨starts, final, settles, rising, chain⟩ := chain
      exact ⟨starts, final, settles, rising, ih chain⟩
    next idle =>
      rw [if_neg idle] at chain
      exact ih chain

theorem filter_isPrefix {α} {f : α → UInt64} {l : List α} (ordered : l.Pairwise fun a b => f a ≤ f b)
    (bound : UInt64) :
    ∃ dropped, l = l.filter (fun a => f a ≤ bound) ++ dropped ∧ ∀ a ∈ dropped, bound < f a := by
  induction l with
  | nil => exact ⟨[], rfl, by simp⟩
  | cons a rest ih =>
    obtain ⟨first, ordered⟩ := pairwise_cons.mp ordered
    by_cases low : f a ≤ bound
    · obtain ⟨dropped, eq, above⟩ := ih ordered
      refine ⟨dropped, ?_, above⟩
      rw [filter_cons_of_pos (by simpa using low), cons_append, ← eq]
    · have above : ∀ b ∈ a :: rest, bound < f b := by
        intro b hb
        rcases mem_cons.mp hb with rfl | hb
        · exact UInt64.not_le.mp low
        · exact UInt64.lt_of_lt_of_le (UInt64.not_le.mp low) (first b hb)
      refine ⟨a :: rest, ?_, above⟩
      rw [filter_eq_nil_iff.mpr, nil_append]
      intro b hb
      simpa using above b hb

theorem L1Posts.blocks_le (posts : L1Posts node numberOf root l1) :
    l1.Pairwise fun p q => p.id.l1Block ≤ q.id.l1Block := by
  refine posts.ordered.imp ?_
  intro p q after
  simp only [PostId.positionLe, not_or] at after
  exact UInt64.not_lt.mp after.1

theorem L1Posts.filter (posts : L1Posts node numberOf root l1) (ancestor : UInt64) :
    L1Posts node numberOf root (l1.filter fun p => p.id.l1Block ≤ ancestor) := by
  refine ⟨posts.ordered.filter _, ?_, ?_⟩
  · intro p hp q hq
    exact posts.block p (mem_filter.mp hp).1 q (mem_filter.mp hq).1
  · obtain ⟨dropped, eq, -⟩ := filter_isPrefix posts.blocks_le ancestor
    have chain := posts.roots
    rw [eq] at chain
    exact chain.left

/-- The record of a post that L1 has, or one from before these posts. -/
def Linked (node : Node) (numberOf : B256 → Nat) (root : B256) (l1 : List Post) (record : BatchRecord) : Prop :=
  record.lastL2Block ≤ numberOf root ∨ ∃ p ∈ l1, p.id = record.post ∧ Derives node p ∧
    ∃ final, p.settlement.finalState = some final ∧ numberOf final = record.lastL2Block

/-- The index agrees with itself and with L1. -/
structure Indexed (node : Node) (numberOf : B256 → Nat) (root : B256) (l1 : List Post) (head : L1CanonicalHead) :
    Prop where
  cursor : head.lastIndexedL2 = head.cursor
  finalized : head.finalizedL2 ≤ head.cursor
  rising : head.batches.Pairwise fun a b => a.lastL2Block ≤ b.lastL2Block
  blocks : head.batches.Pairwise fun a b => a.post.l1Block ≤ b.post.l1Block
  linked : ∀ r ∈ head.batches, Linked node numberOf root l1 r

variable {head : L1CanonicalHead}

theorem lastIndexedL2_of_getLast? {tail} (last : head.lastIndexed = some tail) :
    head.lastIndexedL2 = tail.lastL2Block := by
  simp [L1CanonicalHead.lastIndexedL2, last]

section
variable (index : Indexed node numberOf root l1 head)
include index

theorem Indexed.bounded {r} (mem : r ∈ head.batches) : r.lastL2Block ≤ head.cursor := by
  rw [← index.cursor]
  obtain ⟨before, tail, split⟩ := (eq_nil_or_concat' head.batches).resolve_left (ne_nil_of_mem mem)
  have last : head.lastIndexed = some tail := by simp [L1CanonicalHead.lastIndexed, split]
  rw [lastIndexedL2_of_getLast? last]
  have rising := index.rising
  rw [split] at mem rising
  rcases mem_append.mp mem with mem | mem
  · exact (pairwise_append.mp rising).2.2 r mem tail mem_cons_self
  · obtain rfl := mem_singleton.mp mem
    exact Nat.le_refl _

theorem Indexed.entry_ge (posts : L1Posts node numberOf root l1)
    (mem : post ∈ l1) (derives : Derives node post) (new : ¬head.isProcessed post.id) :
    ∃ entry final, post.settlement.entryState = some entry ∧ post.settlement.finalState = some final ∧
      head.cursor ≤ numberOf entry := by
  obtain ⟨entry, final, starts, settles, low, high⟩ := posts.roots.entry_ge mem derives
  refine ⟨entry, final, starts, settles, ?_⟩
  cases last : head.lastIndexed with
  | none =>
    have : head.lastIndexedL2 = 0 := by simp [L1CanonicalHead.lastIndexedL2, last]
    rw [← index.cursor, this]
    exact Nat.zero_le _
  | some tail =>
    rw [← index.cursor, lastIndexedL2_of_getLast? last]
    rcases index.linked tail (mem_of_getLast? last) with seed | ⟨p, hp, id, derives', final', settles', height⟩
    · omega
    · have after : ¬PostId.positionLe post.id p.id := by
        intro le
        refine new ?_
        simp only [L1CanonicalHead.isProcessed, last, ← id]
        refine ⟨le, ?_⟩
        rcases le with lt | ⟨same, -⟩
        · exact .inl lt
        · exact .inr (posts.block post mem p hp same)
      obtain ⟨before, rest, split⟩ := append_of_mem hp
      have later : post ∈ rest := by
        rw [split] at mem
        rcases mem_append.mp mem with mem | mem
        · -- an earlier post is before the tail
          have ordered := posts.ordered
          rw [split] at ordered
          have early := (pairwise_append.mp ordered).2.2 post mem p mem_cons_self
          refine absurd ?_ early
          simp only [PostId.positionLe, not_or, not_and] at after
          simp only [PostId.positionLe]
          rcases UInt64.lt_or_eq_of_le (UInt64.not_lt.mp after.1) with lt | same
          · exact .inl lt
          · have log := after.2 same.symm
            exact .inr ⟨same, UInt64.le_of_lt (UInt64.not_le.mp log)⟩
        · rcases mem_cons.mp mem with rfl | mem
          · exact absurd (.inr ⟨rfl, UInt64.le_refl _⟩) after
          · exact mem
      have chain := posts.roots
      rw [split] at chain
      obtain ⟨entry', starts', rising⟩ := chain.later_ge derives' settles' later derives
      rw [starts] at starts'
      cases starts'
      omega

theorem Indexed.block_le {id} (new : ¬head.isProcessed id) {r}
    (mem : r ∈ head.batches) : r.post.l1Block ≤ id.l1Block := by
  obtain ⟨before, tail, split⟩ := (eq_nil_or_concat' head.batches).resolve_left (ne_nil_of_mem mem)
  have last : head.lastIndexed = some tail := by simp [L1CanonicalHead.lastIndexed, split]
  simp only [L1CanonicalHead.isProcessed, last] at new
  have above : tail.post.l1Block ≤ id.l1Block := by
    refine UInt64.not_lt.mp fun below => new ?_
    exact ⟨.inl below, .inl below⟩
  have blocks := index.blocks
  rw [split] at mem blocks
  rcases mem_append.mp mem with mem | mem
  · exact UInt64.le_trans ((pairwise_append.mp blocks).2.2 r mem tail mem_cons_self) above
  · obtain rfl := mem_singleton.mp mem
    exact above

theorem Indexed.append (new : ¬head.isProcessed record.post)
    (above : head.cursor ≤ record.lastL2Block) (link : Linked node numberOf root l1 record) :
    Indexed node numberOf root l1 (head.append record) ∧ (head.append record).cursor = record.lastL2Block := by
  have eq : head.append record = { head with batches := head.batches ++ [record], cursor := record.lastL2Block } := by
    unfold L1CanonicalHead.append
    rw [if_neg new, Nat.max_eq_right above]
  rw [eq]
  refine ⟨⟨?_, ?_, ?_, ?_, ?_⟩, rfl⟩
  · simp [L1CanonicalHead.lastIndexedL2, L1CanonicalHead.lastIndexed]
  · exact index.finalized.trans above
  · refine pairwise_append.mpr ⟨index.rising, pairwise_singleton _ _, ?_⟩
    intro a ha b hb
    obtain rfl := mem_singleton.mp hb
    exact (index.bounded ha).trans above
  · refine pairwise_append.mpr ⟨index.blocks, pairwise_singleton _ _, ?_⟩
    intro a ha b hb
    obtain rfl := mem_singleton.mp hb
    exact index.block_le new ha
  · intro r hr
    rcases mem_append.mp hr with hr | hr
    · exact index.linked r hr
    · obtain rfl := mem_singleton.mp hr
      exact link

end

theorem retreatOnL1Reorg_eq_ok (retreated : head.retreatOnL1Reorg ancestor = .ok head') :
    head'.batches = head.batches.filter (·.post.l1Block ≤ ancestor) ∧
      head'.finalizedL2 = min head.finalizedL2 head'.cursor ∧ head'.lastIndexedL2 = head'.cursor ∧
      head'.floor = head.floor ∧ ∀ floor ∈ head.floor, floor.l1Block ≤ ancestor := by
  unfold L1CanonicalHead.retreatOnL1Reorg at retreated
  split at retreated
  next floor is =>
    split at retreated
    next => cases retreated
    next above =>
      cases retreated
      refine ⟨rfl, rfl, rfl, rfl, ?_⟩
      rw [is]
      rintro _ ⟨⟩
      exact UInt64.not_lt.mp above
  next is =>
    cases retreated
    refine ⟨rfl, rfl, rfl, rfl, ?_⟩
    rw [is]
    rintro _ ⟨⟩

theorem retreatOnL1Reorg_isOk (kept : ∀ floor ∈ head.floor, floor.l1Block ≤ ancestor) :
    ∃ head', head.retreatOnL1Reorg ancestor = .ok head' := by
  unfold L1CanonicalHead.retreatOnL1Reorg
  split
  next floor is =>
    rw [if_neg (UInt64.not_lt.mpr (kept floor is))]
    exact ⟨_, rfl⟩
  next => exact ⟨_, rfl⟩

theorem Indexed.retreat (index : Indexed node numberOf root l1 head)
    (retreated : head.retreatOnL1Reorg ancestor = .ok head') :
    Indexed node numberOf root (l1.filter fun p => p.id.l1Block ≤ ancestor) head' ∧
      head'.cursor ≤ head.cursor ∧ head'.finalizedL2 ≤ head.finalizedL2 := by
  obtain ⟨batches, finalized, cursor, -, -⟩ := retreatOnL1Reorg_eq_ok retreated
  have mem : ∀ {r}, r ∈ head'.batches → r ∈ head.batches ∧ r.post.l1Block ≤ ancestor := by
    intro r hr
    rw [batches] at hr
    exact ⟨(mem_filter.mp hr).1, of_decide_eq_true (mem_filter.mp hr).2⟩
  refine ⟨⟨cursor, ?_, ?_, ?_, ?_⟩, ?_, ?_⟩
  · rw [finalized]
    exact Nat.min_le_right _ _
  · rw [batches]
    exact index.rising.filter _
  · rw [batches]
    exact index.blocks.filter _
  · intro r hr
    obtain ⟨hr, low⟩ := mem hr
    rcases index.linked r hr with seed | ⟨p, hp, id, rest⟩
    · exact .inl seed
    · exact .inr ⟨p, mem_filter.mpr ⟨hp, decide_eq_true (id ▸ low)⟩, id, rest⟩
  · rw [← cursor]
    cases last : head'.lastIndexed with
    | none => simp [L1CanonicalHead.lastIndexedL2, last]
    | some tail =>
      rw [lastIndexedL2_of_getLast? last]
      exact index.bounded (mem (mem_of_getLast? last)).1
  · rw [finalized]
    exact Nat.min_le_left _ _

end Eez.Deriver
