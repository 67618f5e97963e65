import EezRollup.Deriver.Resume
import EezRollup.Deriver.World

/-! However the posts of one L1 chain are cut into live events and scanned chunks, the records and
the blocks up to the cursor are those of one catch-up. -/
namespace Eez.Deriver
open List Octets Outcome Codec Scan Faulty L1CanonicalHead

variable {node : Node} {numberOf : B256 → Nat} {root : B256} {l1 taken : List Post}

theorem Advances.batches (a : Advances numberOf l1 taken r s) :
    s.batches = r.batches ++ taken.map (recordOf numberOf) := by
  induction a with
  | nil => simp
  | snoc _ _ step ih =>
    obtain ⟨final, settles, height, -⟩ := step.settled
    simp [ih, recordOf, settles, height]

theorem Advances.settled (a : Advances numberOf l1 (taken ++ [post]) r s) :
    ∃ final, post.settlement.finalState = some final ∧ s.cursor = numberOf final ∧ At s.chain s.cursor final := by
  generalize all : taken ++ [post] = posts at a
  cases a with
  | nil => simp at all
  | snoc _ _ step =>
    obtain ⟨-, same⟩ := append_inj' all rfl
    cases same
    obtain ⟨final, settles, height, held⟩ := step.settled
    exact ⟨final, settles, height.symm, held⟩

theorem Advances.eq_of_nil (a : Advances numberOf l1 [] r s) : s = r := by
  generalize none : ([] : List Post) = posts at a
  cases a with
  | nil => rfl
  | snoc => simp at none

theorem Advances.genesis (a : Advances numberOf l1 taken r s) (nonempty : r.chain ≠ []) :
    s.chain ≠ [] ∧ s.chain[0]? = r.chain[0]? := by
  induction a with
  | nil => exact ⟨nonempty, rfl⟩
  | @snoc _ r s post last chain _ _ step ih =>
    obtain ⟨filled, same⟩ := ih nonempty
    obtain ⟨first, rest, cons⟩ := exists_cons_of_ne_nil filled
    obtain ⟨after, below⟩ := step.below
    have start : chain[0]? = s.chain[0]? := by
      rw [← below, cons, take_cons (by omega)]
      rfl
    refine ⟨?_, start.trans same⟩
    intro empty
    rw [show (⟨s.batches ++ [⟨post.id, post.txHash, last⟩], last, chain, s.floor⟩ : Reached).chain = chain from rfl]
      at empty
    rw [empty, cons] at start
    cases start

/-- Two ways of deriving the same posts end with the same records and the same
blocks up to the cursor. -/
theorem Advances.agree (engine : Sealing node numberOf) (distinct : CollisionFree node)
    (a : Advances numberOf l1 taken r s) (b : Advances numberOf l1 taken r' s') (batches : r.batches = r'.batches)
    (cursor : r.cursor = r'.cursor) (chain : r.chain = r'.chain) (nonempty : r.chain ≠ [])
    (chained : Chained node numberOf s.chain) (chained' : Chained node numberOf s'.chain) :
    s.batches = s'.batches ∧ s.cursor = s'.cursor ∧ s.chain.take (s.cursor + 1) = s'.chain.take (s'.cursor + 1) := by
  refine ⟨by rw [a.batches, b.batches, batches], ?_⟩
  rcases eq_nil_or_concat' taken with rfl | ⟨before, post, rfl⟩
  · rw [a.eq_of_nil, b.eq_of_nil, cursor, chain]
    exact ⟨rfl, rfl⟩
  · obtain ⟨final, settles, height, held⟩ := a.settled
    obtain ⟨final', settles', height', held'⟩ := b.settled
    rw [settles] at settles'
    cases settles'
    have same : s.cursor = s'.cursor := height.trans height'.symm
    refine ⟨same, ?_⟩
    have genesis : s.chain[0]? = s'.chain[0]? := by
      rw [(a.genesis nonempty).2, (b.genesis (chain ▸ nonempty)).2, chain]
    rw [same] at held ⊢
    exact chained.take_eq chained' engine distinct genesis held held'

inductive Delivery where
  | live (post : Post) (lastInL1Block : Bool)
  | chunk (posts : List Post)

def deliver (node : Node) (d : Inner) : Delivery → Except DeriverError Unit × Inner
  | .live post last => exec (onBatchPosted node post last) d
  | .chunk posts => exec (reconcileScannedBatches node posts d.head.cursor >>= fun _ => pure ()) d

def deliverAll (node : Node) : Inner → List Delivery → Option Inner
  | d, [] => some d
  | d, x :: rest =>
    match deliver node d x with
    | (.ok _, d) => deliverAll node d rest
    | (.error _, _) => none

/-- The deliveries bring `rest` in order, each either alone or in a chunk, and
posts of `seen` again anywhere. -/
def Cuts : List Post → List Post → List Delivery → Prop
  | _, rest, [] => rest = []
  | seen, rest, .live post _ :: more =>
    (post ∈ seen ∧ Cuts seen rest more) ∨ ∃ later, rest = post :: later ∧ Cuts (seen ++ [post]) later more
  | seen, rest, .chunk posts :: more =>
    ∃ new later, rest = new ++ later ∧ posts.filter (fun p => p ∉ seen) = new ∧ Cuts (seen ++ new) later more

/-- The deriver has seen `seen` and not `rest`. -/
structure Seen (node : Node) (seen rest : List Post) (head : L1CanonicalHead) : Prop where
  processed : ∀ p ∈ seen, Derives node p → head.isProcessed p.id
  new : ∀ p ∈ rest, ¬head.isProcessed p.id

theorem isProcessed_iff {head : L1CanonicalHead} {tail} (last : head.lastIndexed = some tail) (id : PostId) :
    head.isProcessed id ↔ atOrBefore id tail.post := by
  simp [isProcessed, last]

theorem Seen.advance {d d' : Inner} {seen new}
    (posts : L1Posts node numberOf root (seen ++ new ++ later)) (before : Seen node seen (new ++ later) d.head)
    (a : Advances numberOf l1 (new.filter fun p => Derives node p) d.reached d'.reached) :
    Seen node (seen ++ new) later d'.head := by
  have batches : d'.head.batches = d.head.batches ++ (new.filter fun p => Derives node p).map (recordOf numberOf) :=
    a.batches
  rcases eq_nil_or_concat' (new.filter fun p => Derives node p) with none | ⟨early, tail, eq⟩
  · rw [none, map_nil, append_nil] at batches
    have same : ∀ id, d'.head.isProcessed id ↔ d.head.isProcessed id := by
      intro id
      simp only [isProcessed, lastIndexed, batches]
    constructor
    · intro p hp derives
      rcases mem_append.mp hp with hp | hp
      · exact (same _).mpr (before.processed p hp derives)
      · have : p ∈ new.filter fun p => Derives node p := mem_filter.mpr ⟨hp, decide_eq_true derives⟩
        rw [none] at this
        cases this
    · intro p hp
      exact mt (same _).mp (before.new p (mem_append_right _ hp))
  · have last : d'.head.lastIndexed = some (recordOf numberOf tail) := by
      rw [lastIndexed, batches, eq]
      simp
    have tailMem : tail ∈ new := by
      have : tail ∈ new.filter fun p => Derives node p := by
        rw [eq]
        simp
      exact (mem_filter.mp this).1
    have atTail : ∀ p, p ∈ seen ++ new ++ later → (¬PostId.positionLe tail.id p.id ∨ p = tail) →
        d'.head.isProcessed p.id := by
      intro p hp earlier
      rw [isProcessed_iff last]
      have le : PostId.positionLe p.id tail.id := by
        rcases earlier with earlier | rfl
        · simp only [PostId.positionLe, not_or, not_and] at earlier ⊢
          rcases UInt64.lt_or_eq_of_le (UInt64.not_lt.mp earlier.1) with lt | same
          · exact .inl lt
          · exact .inr ⟨same, UInt64.le_of_lt (UInt64.not_le.mp (earlier.2 same.symm))⟩
        · exact .inr ⟨rfl, UInt64.le_refl _⟩
      refine ⟨le, ?_⟩
      rcases le with lt | ⟨same, -⟩
      · exact .inl lt
      · exact .inr (posts.block p hp tail (by simp [tailMem]) same)
    obtain ⟨firstParts, -, firstLater⟩ := pairwise_append.mp posts.ordered
    obtain ⟨-, newOrdered, seenNew⟩ := pairwise_append.mp firstParts
    constructor
    · intro p hp derives
      refine atTail p (mem_append_left _ hp) ?_
      rcases mem_append.mp hp with hp | hp
      · exact .inl (seenNew p hp tail tailMem)
      · have : p ∈ early ++ [tail] := by
          rw [← eq]
          exact mem_filter.mpr ⟨hp, decide_eq_true derives⟩
        rcases mem_append.mp this with this | this
        · have ordered := newOrdered.filter fun p => decide (Derives node p)
          rw [eq] at ordered
          exact .inl ((pairwise_append.mp ordered).2.2 p this tail (by simp))
        · exact .inr (mem_singleton.mp this)
    · intro p hp
      rw [isProcessed_iff last]
      exact fun processed => firstLater tail (mem_append_right _ tailMem) p hp processed.1

def Delivery.posts : Delivery → List Post
  | .live post _ => [post]
  | .chunk posts => posts

theorem Good.deliver (good : Good .any node numberOf root l1 d) (engine : Sealing node numberOf)
    (posts : L1Posts node numberOf root l1) (mem : ∀ p ∈ x.posts, p ∈ l1)
    (ordered : (takes node d.head x.posts).Pairwise fun p q => ¬PostId.positionLe q.id p.id)
    (ran : deliver node d x = (.ok (), d')) :
    Good .any node numberOf root l1 d' ∧ Advances numberOf l1 (takes node d.head x.posts) d.reached d'.reached := by
  cases x with
  | live post last =>
    exact (good.onBatchPosted steady_any engine posts (mem post mem_cons_self) last (.inl (below_one _ _))).ok ran
  | chunk scanned =>
    have run : Leaves (Deriver.reconcileScannedBatches node scanned d.head.cursor >>= fun _ => (pure () : M Unit)) d
        (fun _ d' => Good .any node numberOf root l1 d' ∧
          Advances numberOf l1 (takes node d.head scanned) d.reached d'.reached) (fun _ => True) := by
      rw [leaves_bind]
      exact (good.scanBatches steady_any engine posts mem ordered (below_one _ _)).mono
        (fun _ _ ran => ⟨ran.1, ran.2.2⟩) fun _ _ => trivial
    exact run.ok ran

theorem Seen.takes_eq {head seen rest posts new later} (known : Seen node seen rest head)
    (split : rest = new ++ later) (brings : posts.filter (fun p => p ∉ seen) = new) :
    takes node head posts = new.filter fun p => Derives node p := by
  rw [← brings, takes, filter_filter]
  refine filter_congr fun p hp => ?_
  by_cases old : p ∈ seen
  · simp only [old, not_true, decide_false, Bool.and_false, decide_eq_false_iff_not]
    exact fun taken => taken.1 (known.processed p old taken.2)
  · have fresh : ¬head.isProcessed p.id := by
      refine known.new p ?_
      rw [split, ← brings]
      exact mem_append_left _ (mem_filter.mpr ⟨hp, decide_eq_true old⟩)
    simp [old, fresh]

/-- A run without failures derives exactly the posts that are new and settled. -/
theorem deliverAll_advances (engine : Sealing node numberOf) (deliveries : List Delivery) :
    ∀ {d d' : Inner} {seen rest}, L1Posts node numberOf root (seen ++ rest) →
      Good .any node numberOf root (seen ++ rest) d → Seen node seen rest d.head → Cuts seen rest deliveries →
      deliverAll node d deliveries = some d' →
      Good .any node numberOf root (seen ++ rest) d' ∧
        Advances numberOf (seen ++ rest) (rest.filter fun p => Derives node p) d.reached d'.reached := by
  induction deliveries with
  | nil =>
    intro d d' seen rest posts good known cuts ran
    obtain rfl : rest = [] := cuts
    cases ran
    exact ⟨good, .nil _⟩
  | cons x more ih =>
    intro d d' seen rest posts good known cuts ran
    obtain ⟨new, later, rfl, brings, mem, cuts⟩ : ∃ new later, rest = new ++ later ∧
        x.posts.filter (fun p => p ∉ seen) = new ∧ (∀ p ∈ x.posts, p ∈ seen ++ rest) ∧
        Cuts (seen ++ new) later more := by
      cases x with
      | live post last =>
        rcases cuts with ⟨old, cuts⟩ | ⟨later, rfl, cuts⟩
        · refine ⟨[], rest, rfl, by simp [Delivery.posts, old], ?_, by simpa using cuts⟩
          simp [Delivery.posts, old]
        · refine ⟨[post], later, rfl, ?_, by simp [Delivery.posts], cuts⟩
          have absent : post ∉ seen := by
            intro old
            have after := (pairwise_append.mp posts.ordered).2.2 post old post mem_cons_self
            exact after (.inr ⟨rfl, UInt64.le_refl _⟩)
          simp [Delivery.posts, absent]
      | chunk scanned =>
        obtain ⟨new, later, split, brings, cuts⟩ := cuts
        refine ⟨new, later, split, brings, ?_, cuts⟩
        intro p hp
        by_cases old : p ∈ seen
        · exact mem_append_left _ old
        · rw [split, ← brings]
          refine mem_append_right _ (mem_append_left _ ?_)
          exact mem_filter.mpr ⟨hp, decide_eq_true old⟩
    have takes := known.takes_eq rfl brings
    rw [← append_assoc] at posts good mem ⊢
    have ordered : (new.filter fun p => Derives node p).Pairwise fun p q => ¬PostId.positionLe q.id p.id := by
      have inner := (pairwise_append.mp posts.ordered).1
      exact (pairwise_append.mp inner).2.1.filter _
    cases step : Deriver.deliver node d x with
    | mk result d₁ =>
      simp only [deliverAll, step] at ran
      cases result with
      | error e => cases ran
      | ok u =>
        obtain ⟨good₁, advances⟩ := good.deliver engine posts mem (takes ▸ ordered) step
        rw [takes] at advances
        have known₁ := Seen.advance posts known advances
        obtain ⟨good₂, more⟩ := ih posts good₁ known₁ cuts ran
        refine ⟨good₂, ?_⟩
        rw [filter_append]
        exact advances.trans more

/-- A cut of the posts into live events and chunks, with posts delivered again on
the way, ends like one catch-up over all posts when none of the steps fails. -/
theorem deliverAll_catchUp (engine : Sealing node numberOf) (distinct : CollisionFree node)
    {posts : List Post} (chain : L1Posts node numberOf root posts) {d : Inner}
    (good : Good .any node numberOf root posts d) (new : ∀ p ∈ posts, ¬d.head.isProcessed p.id)
    {deliveries : List Delivery} (cuts : Cuts [] posts deliveries) {d₁ d₂ : Inner} {faults : List Bool}
    {r : Nat × Nat} (ran : deliverAll node d deliveries = some d₁)
    (whole : exec (reconcileScannedBatches node posts d.head.cursor) { d with faults } = (.ok r, d₂)) :
    d₁.head.batches = d₂.head.batches ∧ d₁.head.cursor = d₂.head.cursor ∧
      d₁.chain.take (d₁.head.cursor + 1) = d₂.chain.take (d₂.head.cursor + 1) := by
  have known : Seen node [] posts d.head := ⟨by simp, new⟩
  obtain ⟨good₁, cut⟩ := deliverAll_advances engine deliveries chain good known cuts ran
  have all : takes node d.head posts = posts.filter fun p => Derives node p :=
    known.takes_eq (append_nil posts).symm (by simp)
  have ordered : (takes node d.head posts).Pairwise fun p q => ¬PostId.positionLe q.id p.id := chain.ordered.filter _
  obtain ⟨good₂, -, scan⟩ := ((good.setFaults faults).scanBatches steady_any engine chain (fun p hp => hp) ordered
    (below_one _ _)).ok whole
  change Advances numberOf posts (takes node d.head posts) d.reached d₂.reached at scan
  rw [all] at scan
  have filled : d.chain ≠ [] := by
    intro empty
    have := good.long
    rw [empty] at this
    cases this
  exact cut.agree engine distinct scan rfl rfl rfl filled good₁.chained good₂.chained

open World in
/-- A batch, one that resumes its block and one on top, as live events and as a
chunk that brings the first one again. -/
theorem deliverAll_resumed : ∃ d₁ d₂ r, deliverAll countingNode ⟨.empty, 0, [genesis], [], [], []⟩
        [.live (countingPost 1 7 0 7 false) true, .chunk [countingPost 1 7 0 7 false, countingPost 2 9 7 9 true],
          .live (countingPost 1 7 0 7 false) false, .live (countingPost 3 5 9 2309 false) true] = some d₁ ∧
      exec (reconcileScannedBatches countingNode
        [countingPost 1 7 0 7 false, countingPost 2 9 7 9 true, countingPost 3 5 9 2309 false] 0)
        ⟨.empty, 0, [genesis], [], [], []⟩ = (.ok r, d₂) ∧
      d₁.head.batches = d₂.head.batches ∧ d₁.head.cursor = d₂.head.cursor ∧
        d₁.chain.take (d₁.head.cursor + 1) = d₂.chain.take (d₂.head.cursor + 1) := by
  have good : Good .any countingNode digits 0
      [countingPost 1 7 0 7 false, countingPost 2 9 7 9 true, countingPost 3 5 9 2309 false]
      ⟨.empty, 0, [genesis], [], [], []⟩ :=
    ⟨⟨rfl, Nat.le_refl _, .nil, .nil, by simp [empty]⟩, trivial, genesis_chained, by decide⟩
  have cuts : Cuts [] [countingPost 1 7 0 7 false, countingPost 2 9 7 9 true, countingPost 3 5 9 2309 false]
      [.live (countingPost 1 7 0 7 false) true, .chunk [countingPost 1 7 0 7 false, countingPost 2 9 7 9 true],
        .live (countingPost 1 7 0 7 false) false, .live (countingPost 3 5 9 2309 false) true] := by
    refine .inr ⟨_, rfl, [countingPost 2 9 7 9 true], _, rfl, by decide, .inl ⟨by decide, .inr ⟨_, rfl, rfl⟩⟩⟩
  obtain ⟨d₁, ran⟩ := Option.isSome_iff_exists.mp (show (deliverAll countingNode ⟨.empty, 0, [genesis], [], [], []⟩
    [.live (countingPost 1 7 0 7 false) true, .chunk [countingPost 1 7 0 7 false, countingPost 2 9 7 9 true],
      .live (countingPost 1 7 0 7 false) false,
      .live (countingPost 3 5 9 2309 false) true]).isSome = true by decide +kernel)
  obtain ⟨r, whole⟩ := exists_ok_of_isOk (show (exec (reconcileScannedBatches countingNode
    [countingPost 1 7 0 7 false, countingPost 2 9 7 9 true, countingPost 3 5 9 2309 false] 0)
    ⟨.empty, 0, [genesis], [], [], []⟩).1.isOk = true by decide +kernel)
  refine ⟨d₁, _, r, ran, Prod.ext whole rfl, ?_⟩
  exact deliverAll_catchUp countingNode_sealing countingNode_collisionFree countingPosts_once good (by decide) cuts ran
    (Prod.ext whole rfl)

end Eez.Deriver
