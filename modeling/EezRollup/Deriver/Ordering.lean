import EezRollup.Codec.WellFormed
import EezRollup.Deriver.L1Posts

/-! What each handler keeps, whether it returns or fails: finalized at or below safe, and safe at or
below the cursor. -/
namespace Eez.Deriver
open List Octets Outcome Codec Scan Faulty

variable {node : Node} {numberOf : B256 → Nat} {root : B256} {l1 : List Post} {head : L1CanonicalHead}

structure Reached where
  batches : List BatchRecord
  cursor : Nat
  chain : List L2Block
  floor : Option PostId

def Inner.reached (d : Inner) : Reached := ⟨d.head.batches, d.head.cursor, d.chain, d.head.floor⟩

/-- The post was derived on top of the cursor: the blocks below its range are the
same, and its settled root is the block it ends at. -/
structure Extends (numberOf : B256 → Nat) (post : Post) (r : Reached) (last : Nat) (chain : List L2Block) : Prop where
  low : r.cursor ≤ last
  resumed : post.settlement.resumed = true → last = r.cursor
  below : r.chain.take (max 1 (if post.settlement.resumed then r.cursor else r.cursor + 1)) <+: chain
  settled : ∃ final, post.settlement.finalState = some final ∧ numberOf final = last ∧ At chain last final

/-- The posts were derived and recorded in this order. -/
inductive Advances (numberOf : B256 → Nat) (l1 : List Post) : List Post → Reached → Reached → Prop where
  | nil (r : Reached) : Advances numberOf l1 [] r r
  | snoc {posts : List Post} {r s : Reached} {post : Post} {last : Nat} {chain : List L2Block}
      (before : Advances numberOf l1 posts r s) (mem : post ∈ l1) (step : Extends numberOf post s last chain) :
      Advances numberOf l1 (posts ++ [post]) r ⟨s.batches ++ [⟨post.id, post.txHash, last⟩], last, chain, s.floor⟩

theorem Advances.trans (a : Advances numberOf l1 posts r s) (b : Advances numberOf l1 posts' s t) :
    Advances numberOf l1 (posts ++ posts') r t := by
  induction b with
  | nil => simpa using a
  | snoc _ mem step ih =>
    rw [← append_assoc]
    exact .snoc (ih a) mem step

/-- The posts of a list that the deriver takes up. -/
def takes (node : Node) (head : L1CanonicalHead) (posts : List Post) : List Post :=
  posts.filter fun p => ¬head.isProcessed p.id ∧ Derives node p

theorem decodeOurPayload_filled (decoded : decodeOurPayload node callData = .ok (some container)) :
    container.span.blockCount ≠ 0 := by
  obtain ⟨read, ok, picked⟩ := bind_eq_ok.mp decoded
  have same : read = container := by
    revert picked
    cases node.systemTxCfg with
    | none => simp
    | some cfg => simp [pure_eq_ok]
  have filled := (decodeContainer_consistent (mapError_eq_ok.mp ok)).nonempty
  rw [same] at filled
  exact fun empty => filled (length_eq_zero_iff.mp empty)

theorem takes_single :
    takes node head [post] = if ¬head.isProcessed post.id ∧ Derives node post then [post] else [] := by
  simp [takes, filter_cons]

theorem Kept.extends {P : Forkchoice} {last count d final}
    (settles : post.settlement.finalState = some final)
    (kept : Kept P node numberOf head last (r.chain.take
      (max 1 (batchL2Range r.cursor post.settlement.resumed count).1)) d)
    (low : r.cursor ≤ last) (high : last ≤ (batchL2Range r.cursor post.settlement.resumed count).2)
    (held : At d.chain last final) : Extends numberOf post r last d.chain := by
  refine ⟨low, fun resumed => ?_, ?_, final, settles, kept.chained.number held, held⟩
  · simp only [batchL2Range, resumed, if_true] at high
    omega
  · have below := kept.below
    unfold batchL2Range at below
    split
    next resumed =>
      rw [if_pos resumed] at below
      exact below
    next fresh =>
      rw [if_neg fresh] at below
      exact below

variable {base : List L2Block} {cursor : Nat} {P Q E : Forkchoice}

theorem Kept.rebase (kept : Kept P node numberOf head cursor base d) (below : base' <+: d.chain) :
    Kept P node numberOf head cursor base' d :=
  ⟨kept.head_eq, kept.ordered, kept.chained, below, kept.long⟩

theorem Kept.lower (kept : Kept P node numberOf head cursor base d) (low : cursor' ≤ cursor) :
    Kept P node numberOf head cursor' base d :=
  ⟨kept.head_eq, kept.ordered, kept.chained, kept.below, Nat.lt_of_le_of_lt low kept.long⟩

/-- A condition that every step keeps which moves safe along with the cursor. -/
structure Steady (P : Forkchoice) : Prop where
  send {head safe sent rewritten} {n finalized : Nat} : P head safe sent rewritten → finalized ≤ n →
    P head safe (sent ++ [(n, finalized)]) rewritten
  settle {head head' : L1CanonicalHead} {safe sent rewritten} : P head safe sent rewritten →
    head'.finalizedL2 ≤ head'.cursor → head'.lastIndexedL2 = head'.cursor → P head' head'.cursor sent rewritten
  keep {head head' : L1CanonicalHead} {safe sent rewritten} : P head safe sent rewritten →
    head'.finalizedL2 ≤ head.finalizedL2 → head'.lastIndexedL2 = head'.cursor →
    safe ≤ head'.cursor ∨ head.cursor ≤ head'.cursor → P head' safe sent rewritten
  finalize {head safe sent rewritten n} : P head safe sent rewritten → n ≤ safe →
    P (head.setFinalizedL2 n) safe sent rewritten
  back {head : L1CanonicalHead} {safe sent rewritten} {cursor : Nat} : P head safe sent rewritten → cursor ≤ safe →
    head.finalizedL2 < cursor → P head (cursor - 1) sent rewritten
  rewrite {head safe sent rewritten} {cursor : Nat} : P head safe sent rewritten → safe < cursor →
    P head safe sent (rewritten ++ [(cursor, head.finalizedL2)])

theorem Steady.resumes (steady : Steady P) (head : L1CanonicalHead) (cursor : Nat) : Resumes P head cursor := by
  refine ⟨fun holds reached higher => ?_, steady.rewrite⟩
  have sent := steady.send holds (show head.finalizedL2 ≤ cursor - 1 by omega)
  exact ⟨sent, steady.back sent reached higher⟩

theorem steady_ordered : Steady Ordered where
  send o le := ⟨o.finalized_le, o.safe_le, o.indexed, sent_append o.sent_le le, o.rewritten_gt⟩
  settle o low indexed := ⟨low, Nat.le_refl _, indexed, o.sent_le, o.rewritten_gt⟩
  keep o low indexed bound := ⟨low.trans o.finalized_le, bound.elim id o.safe_le.trans, indexed, o.sent_le,
    o.rewritten_gt⟩
  finalize o le := ⟨le, o.safe_le, o.indexed, o.sent_le, o.rewritten_gt⟩
  back o reached higher := by
    have := o.safe_le
    exact ⟨by omega, by omega, o.indexed, o.sent_le, o.rewritten_gt⟩
  rewrite o higher := by
    refine ⟨o.finalized_le, o.safe_le, o.indexed, o.sent_le, fun p hp => ?_⟩
    rcases mem_append.mp hp with hp | hp
    · exact o.rewritten_gt p hp
    · obtain rfl := mem_singleton.mp hp
      exact Nat.lt_of_le_of_lt o.finalized_le higher

/-- Nothing is asked of the heights. -/
def Forkchoice.any : Forkchoice := fun _ _ _ _ => True

/-- Safe is not above the cursor. -/
def Forkchoice.low : Forkchoice := fun head safe _ _ => safe ≤ head.cursor

theorem steady_any : Steady .any where
  send _ _ := trivial
  settle _ _ _ := trivial
  keep _ _ _ _ := trivial
  finalize _ _ := trivial
  back _ _ _ := trivial
  rewrite _ _ := trivial

structure Good (P : Forkchoice) (node : Node) (numberOf : B256 → Nat) (root : B256) (l1 : List Post) (d : Inner) :
    Prop where
  index : Indexed node numberOf root l1 d.head
  ordered : P d.head d.safeL2Block d.sent d.rewritten
  chained : Chained node numberOf d.chain
  long : d.head.cursor < d.chain.length

variable {d : Inner}

section
variable (good : Good P node numberOf root l1 d)
include good

theorem Good.setFaults (faults : List Bool) : Good P node numberOf root l1 { d with faults } :=
  ⟨good.index, good.ordered, good.chained, good.long⟩

theorem Good.forget : Good .any node numberOf root l1 d :=
  ⟨good.index, trivial, good.chained, good.long⟩

theorem Good.kept (n : Nat) : Kept P node numberOf d.head d.head.cursor (d.chain.take n) d :=
  ⟨rfl, good.ordered, good.chained, take_prefix _ _, good.long⟩

theorem Good.of_kept (kept : Kept P node numberOf d.head cursor base d') (above : d.head.cursor ≤ cursor) :
    Good P node numberOf root l1 d' := by
  refine ⟨?_, ?_, kept.chained, ?_⟩
  · rw [kept.head_eq]
    exact good.index
  · rw [kept.head_eq]
    exact kept.ordered
  · rw [kept.head_eq]
    exact Nat.lt_of_le_of_lt above kept.long

theorem Good.syncSafeToCursor (steady : Steady P) : Leaves syncSafeToCursor d
      (fun _ d' => Good P node numberOf root l1 d' ∧ d'.reached = d.reached)
      (fun d' => Good P node numberOf root l1 d' ∧ d'.reached = d.reached) := by
  have same : ∀ faults, Good P node numberOf root l1 { d with faults } ∧ Inner.reached { d with faults } = d.reached :=
    fun faults => ⟨good.setFaults faults, rfl⟩
  rw [Deriver.syncSafeToCursor, leaves_bind, leaves_get]
  refine Leaves.ite (fun _ => same d.faults) fun _ => ?_
  rw [good.index.cursor, leaves_bind]
  refine Leaves.l2BlockAt (fun faults _ _ => ?_) same
  rw [leaves_bind]
  refine Leaves.l2BlockAt (fun faults _ _ => ?_) same
  simp only [advanceSafeFinalized, leaves_bind, leaves_modify]
  have sent := steady.send good.ordered good.index.finalized
  refine Leaves.call (fun faults => ⟨?_, rfl⟩) fun faults => ⟨⟨good.index, sent, good.chained, good.long⟩, rfl⟩
  exact ⟨good.index, steady.settle sent good.index.finalized good.index.cursor, good.chained, good.long⟩

theorem Good.flushDeferredSafe (steady : Steady P) (last : Bool) : Leaves (flushDeferredSafe last) d
      (fun _ d' => Good P node numberOf root l1 d' ∧ d'.reached = d.reached)
      (fun d' => Good P node numberOf root l1 d' ∧ d'.reached = d.reached) :=
  Leaves.ite (fun _ => good.syncSafeToCursor steady) fun _ => ⟨good, rfl⟩

end

theorem append_finalized (record : BatchRecord) : (head.append record).finalizedL2 = head.finalizedL2 := by
  unfold L1CanonicalHead.append
  split <;> rfl

theorem Good.append (good : Good P node numberOf root l1 d) (steady : Steady P) (mem : post ∈ l1)
    (derives : Derives node post) (new : ¬d.head.isProcessed post.id)
    (settles : post.settlement.finalState = some final)
    (kept : Kept P node numberOf d.head last base d') (above : d.head.cursor ≤ last) (held : At d'.chain last final) :
    Good P node numberOf root l1 { d' with head := d'.head.append ⟨post.id, post.txHash, last⟩ } := by
  rw [kept.head_eq]
  have link : Linked node numberOf root l1 ⟨post.id, post.txHash, last⟩ :=
    .inr ⟨post, mem, rfl, derives, final, settles, kept.chained.number held⟩
  obtain ⟨index, cursor⟩ := good.index.append new above link
  refine ⟨index, ?_, kept.chained, ?_⟩
  · exact steady.keep kept.ordered (Nat.le_of_eq (append_finalized _)) index.cursor (.inr (cursor ▸ above))
  · rw [cursor]
    exact kept.long

theorem appendMany_finalized (records : List BatchRecord) :
    (head.appendMany records).finalizedL2 = head.finalizedL2 := by
  induction records generalizing head with
  | nil => rfl
  | cons record records ih => exact ih.trans (append_finalized record)

theorem append_floor (record : BatchRecord) : (head.append record).floor = head.floor := by
  unfold L1CanonicalHead.append
  split <;> rfl

theorem appendMany_floor (records : List BatchRecord) : (head.appendMany records).floor = head.floor := by
  induction records generalizing head with
  | nil => rfl
  | cons record records ih => exact ih.trans (append_floor record)

theorem append_batches (new : ¬head.isProcessed record.post) :
    (head.append record).batches = head.batches ++ [record] := by
  unfold L1CanonicalHead.append
  rw [if_neg new]

/-- Where a scan stops: its posts were recorded, or the index and the first `b`
blocks are as they were. -/
def Halted (numberOf : B256 → Nat) (l1 : List Post) (b : Nat) (d d' : Inner) : Prop :=
  (∃ taken, Advances numberOf l1 taken d.reached d'.reached) ∨ d'.head = d.head ∧ d.chain.take b <+: d'.chain

theorem Halted.of_reached (same : d'.reached = d.reached) : Halted numberOf l1 b d d' :=
  .inl ⟨[], same ▸ .nil _⟩

/-- The first `b` blocks are below everything the posts replace. -/
def Below (b cursor : Nat) (posts : List Post) : Prop :=
  ∀ p ∈ posts, b ≤ max 1 (if p.settlement.resumed then cursor else cursor + 1)

theorem below_one (cursor : Nat) (posts : List Post) : Below 1 cursor posts := fun _ _ => Nat.le_max_left _ _

theorem batchL2Range_fst (cursor : Nat) (resumed : Bool) (count : Nat) :
    (batchL2Range cursor resumed count).1 = if resumed then cursor else cursor + 1 := by
  unfold batchL2Range
  split <;> rfl

theorem Good.onBatchPosted (good : Good P node numberOf root l1 d) (steady : Steady P) (engine : Sealing node numberOf)
    (posts : L1Posts node numberOf root l1) (mem : post ∈ l1) (last : Bool)
    (low : Below b d.head.cursor (takes node d.head [post]) ∨ ∀ container, ¬d.head.isProcessed post.id →
      Derives node post → decodeOurPayload node post.batch.callData = .ok (some container) →
      Succeeds (deriveBatch node d.head.cursor post container) d fun _ _ => True) :
    Leaves (onBatchPosted node post last) d
      (fun _ d' => Good P node numberOf root l1 d' ∧
        Advances numberOf l1 (takes node d.head [post]) d.reached d'.reached)
      (fun d' => Good P node numberOf root l1 d' ∧ Halted numberOf l1 b d d') := by
  have idle : ¬(¬d.head.isProcessed post.id ∧ Derives node post) → Leaves (Deriver.flushDeferredSafe last) d
      (fun _ d' => Good P node numberOf root l1 d' ∧
        Advances numberOf l1 (takes node d.head [post]) d.reached d'.reached)
      (fun d' => Good P node numberOf root l1 d' ∧ Halted numberOf l1 b d d') := by
    intro skipped
    rw [takes_single, if_neg skipped]
    exact (good.flushDeferredSafe steady last).mono (fun _ _ kept => ⟨kept.1, kept.2 ▸ .nil _⟩)
      fun _ kept => ⟨kept.1, .of_reached kept.2⟩
  rw [Deriver.onBatchPosted, leaves_bind, leaves_get]
  refine Leaves.ite (fun processed => idle fun new => new.1 processed) fun new => ?_
  refine Leaves.ite (fun unsettled => idle fun new => new.2.1 unsettled) fun settled => ?_
  rw [leaves_bind]
  refine Leaves.lift (fun payload decoded => ?_) ⟨good, .of_reached rfl⟩
  cases payload with
  | none => exact idle fun new => new.2.2 decoded
  | some container =>
    refine Leaves.ite (fun empty => absurd empty (decodeOurPayload_filled decoded)) fun _ => ?_
    have derives : Derives node post := ⟨settled, by rw [decoded]; simp⟩
    have taken : takes node d.head [post] = [post] := by rw [takes_single, if_pos ⟨new, derives⟩]
    rw [taken] at low ⊢
    obtain ⟨entry, final, starts, settles, above⟩ := good.index.entry_ge posts mem derives new
    rw [leaves_bind, good.index.cursor]
    have derived := Kept.deriveBatch engine container (good.kept (max 1 _)) (fun _ => steady.resumes _ _)
      (length_take_le _ _) starts settles above
    have stopped : Leaves (deriveBatch node d.head.cursor post container) d (fun _ _ => True)
        (fun d' => d.chain.take b <+: d'.chain) := by
      rcases low with low | returns
      · refine derived.mono (fun _ _ _ => trivial) fun d' kept => IsPrefix.trans ?_ kept.below
        rw [batchL2Range_fst]
        exact take_prefix_take_left (low post mem_cons_self)
      · exact (returns container new derives decoded).mono (fun _ _ _ => trivial) fun _ never => never.elim
    refine (derived.and stopped).mono ?_ ?_
    · rintro ⟨_, reached⟩ d' ⟨⟨kept, grown, high, held⟩, -⟩
      rw [leaves_bind, leaves_modify]
      have indexed := good.append steady mem derives new settles kept grown held
      have step : Extends numberOf post d.reached reached d'.chain := Kept.extends settles kept grown high held
      have batches : (d'.head.append ⟨post.id, post.txHash, reached⟩).batches =
          d.head.batches ++ [⟨post.id, post.txHash, reached⟩] := by
        rw [kept.head_eq]
        exact append_batches new
      have tail : (d'.head.append ⟨post.id, post.txHash, reached⟩).lastIndexed =
          some ⟨post.id, post.txHash, reached⟩ := by
        rw [L1CanonicalHead.lastIndexed, batches]
        simp
      have cursor : (d'.head.append ⟨post.id, post.txHash, reached⟩).cursor = reached := by
        rw [← indexed.index.cursor]
        exact lastIndexedL2_of_getLast? tail
      have advanced : Advances numberOf l1 [post] d.reached
          (Inner.reached { d' with head := d'.head.append ⟨post.id, post.txHash, reached⟩ }) := by
        simp only [Inner.reached, batches, cursor, append_floor]
        rw [kept.head_eq]
        exact Advances.snoc (.nil d.reached) mem step
      exact (indexed.flushDeferredSafe steady last).mono (fun _ _ kept => ⟨kept.1, kept.2 ▸ advanced⟩)
        fun _ kept => ⟨kept.1, .inl ⟨[post], kept.2 ▸ advanced⟩⟩
    · rintro d' ⟨kept, below⟩
      exact ⟨good.of_kept kept (Nat.le_refl _), .inr ⟨kept.head_eq, below⟩⟩

theorem highestL2AtOrBelowL1_le (index : Indexed node numberOf root l1 head) (l1Block : UInt64) :
    (head.highestL2AtOrBelowL1 l1Block).getD 0 ≤ head.cursor := by
  unfold L1CanonicalHead.highestL2AtOrBelowL1
  cases found : head.batches.reverse.find? (·.post.l1Block ≤ l1Block) with
  | none => exact Nat.zero_le _
  | some r => exact index.bounded (mem_reverse.mp (mem_of_find?_eq_some found))

theorem Good.onL1Finalized (good : Good P node numberOf root l1 d) (steady : Steady P) (l1Block : UInt64) :
    Leaves (onL1Finalized l1Block) d (fun _ d' => Good P node numberOf root l1 d' ∧ d'.reached = d.reached)
      (fun d' => Good P node numberOf root l1 d' ∧ d'.reached = d.reached) := by
  have same : ∀ faults, Good P node numberOf root l1 { d with faults } ∧ Inner.reached { d with faults } = d.reached :=
    fun faults => ⟨good.setFaults faults, rfl⟩
  rw [Deriver.onL1Finalized, leaves_bind, leaves_get]
  refine Leaves.ite (fun _ => same d.faults) fun _ => ?_
  refine Leaves.ite (fun _ => same d.faults) fun _ => ?_
  rw [leaves_bind]
  refine Leaves.l2BlockAt (fun faults _ _ => ?_) same
  rw [leaves_bind]
  refine Leaves.l2BlockAt (fun faults _ _ => ?_) same
  have bound : min ((d.head.highestL2AtOrBelowL1 l1Block).getD 0) d.safeL2Block ≤ d.safeL2Block := Nat.min_le_right _ _
  have sent := steady.send good.ordered bound
  simp only [advanceSafeFinalized, leaves_bind, leaves_modify]
  have index := good.index
  refine Leaves.call (fun faults => ⟨⟨⟨index.cursor, ?_, index.rising, index.blocks, index.linked⟩,
    steady.finalize sent bound, good.chained, good.long⟩, rfl⟩) fun faults => ⟨⟨index, sent, good.chained, good.long⟩, rfl⟩
  exact (Nat.min_le_left _ _).trans (highestL2AtOrBelowL1_le index l1Block)

/-- The index went back to `head'`, and L2 with it. -/
def Rewound (d : Inner) (head' : L1CanonicalHead) (d' : Inner) : Prop :=
  (d.head.cursor ≤ head'.cursor ∧ d' = { d with head := head' }) ∨
    head'.cursor < d.head.cursor ∧ d' = { d with
      head := head'
      safeL2Block := head'.cursor
      chain := d.chain.take (head'.cursor + 1)
      sent := d.sent ++ [(head'.cursor, head'.finalizedL2)]
      faults := d.faults.drop 4 }

/-- The index went back to `head'`, and L2 did not follow. -/
def Stuck (d : Inner) (head' : L1CanonicalHead) (d' : Inner) : Prop :=
  ∃ sent faults, d' = { d with head := head', sent, faults } ∧
    (sent = d.sent ∨ sent = d.sent ++ [(head'.cursor, head'.finalizedL2)])

/-- Four calls stand between the index and safe. -/
theorem leaves_retreatL2ToCursor {head' : L1CanonicalHead} (low : head'.cursor < d.head.cursor) (finalized : head'.finalizedL2 ≤ head'.cursor)
    (long : d.head.cursor < d.chain.length) :
    Leaves (retreatL2ToCursor head'.cursor) { d with head := head' } (fun _ => Rewound d head')
      (fun d' => true ∈ d.faults.take 4 ∧ Stuck d head' d') := by
  have fault : ∀ {k}, k < 4 → d.faults[k]? = some true → true ∈ d.faults.take 4 := by
    intro k small failed
    refine mem_of_getElem? (i := k) ?_
    rw [getElem?_take_of_lt small, failed]
  have held : ∀ {n}, n ≤ head'.cursor → d.chain[n]? = some (d.chain.getD n ⟨0, 0, [], ⟨0, []⟩⟩) := by
    intro n bound
    rw [List.getD, getElem?_eq_getElem (by omega)]
    rfl
  simp only [retreatL2ToCursor, l2BlockAt, blockByNumber, advanceSafeFinalized, reorgTo, leaves_bind, leaves_get]
  refine Leaves.call_drop (k := 0) rfl ?_ fun failed => ⟨fault (by omega) failed, _, _, rfl, .inl rfl⟩
  simp only [leaves_pure, held (Nat.le_refl _)]
  refine Leaves.call_drop (k := 1) rfl ?_ fun failed => ⟨fault (by omega) failed, _, _, rfl, .inl rfl⟩
  simp only [leaves_pure, held finalized, leaves_modify]
  refine Leaves.call_drop (k := 2) rfl ?_ fun failed => ⟨fault (by omega) failed, _, _, rfl, .inr rfl⟩
  refine Leaves.call_drop (k := 3) rfl ?_ fun failed => ⟨fault (by omega) failed, _, _, rfl, .inr rfl⟩
  exact .inr ⟨low, rfl⟩

theorem leaves_onL1Reorg {head' : L1CanonicalHead} (retreated : d.head.retreatOnL1Reorg ancestor = .ok head')
    (finalized : head'.finalizedL2 ≤ head'.cursor) (long : d.head.cursor < d.chain.length) :
    Leaves (onL1Reorg ancestor) d (fun _ => Rewound d head')
      (fun d' => true ∈ d.faults.take 4 ∧ Stuck d head' d') := by
  simp only [onL1Reorg, retreatIndex, leaves_bind, leaves_get, retreated, leaves_modify]
  refine Leaves.ite (fun still => .inl ⟨still, rfl⟩) fun lowered => ?_
  exact leaves_retreatL2ToCursor (Nat.not_le.mp lowered) finalized long

section
variable (good : Good P node numberOf root l1 d) (index : Indexed node numberOf root l1' head')
include good index

theorem Good.rewound (steady : Steady P) (back : head'.cursor ≤ d.head.cursor)
    (low : head'.finalizedL2 ≤ d.head.finalizedL2) (rewound : Rewound d head' d') :
    Good P node numberOf root l1' d' := by
  have long := good.long
  rcases rewound with ⟨still, rfl⟩ | ⟨lowered, rfl⟩
  · exact ⟨index, steady.keep good.ordered low index.cursor (.inr still), good.chained, Nat.lt_of_le_of_lt back long⟩
  · have sent := steady.send good.ordered index.finalized
    refine ⟨index, steady.settle sent index.finalized index.cursor, good.chained.take _, ?_⟩
    simp only [length_take]
    omega

theorem Good.stuck (steady : Steady P) (back : head'.cursor ≤ d.head.cursor)
    (holds : P head' d.safeL2Block d.sent d.rewritten) (stuck : Stuck d head' d') :
    Good P node numberOf root l1' d' := by
  obtain ⟨sent, faults, rfl, rfl | rfl⟩ := stuck
  · exact ⟨index, holds, good.chained, Nat.lt_of_le_of_lt back good.long⟩
  · exact ⟨index, steady.send holds index.finalized, good.chained, Nat.lt_of_le_of_lt back good.long⟩

end

/-- The index of a chunk that is still being read: its records are not appended
yet, and the next post of the chunk comes after all of them. -/
structure Chunk (node : Node) (numberOf : B256 → Nat) (root : B256) (l1 : List Post) (head : L1CanonicalHead)
    (records : List BatchRecord) (cumulative : Nat) (rest : List Post) : Prop where
  index : Indexed node numberOf root l1 (head.appendMany records)
  cursor : (head.appendMany records).cursor = cumulative
  above : head.cursor ≤ cumulative
  finalized : (head.appendMany records).finalizedL2 = head.finalizedL2
  batches : (head.appendMany records).batches = head.batches ++ records
  next : ∀ p ∈ takes node head rest, ¬(head.appendMany records).isProcessed p.id

variable {records : List BatchRecord} {cumulative last : Nat} {post : Post} {rest : List Post}

theorem takes_pos (new : ¬head.isProcessed post.id) (derives : Derives node post) :
    takes node head (post :: rest) = post :: takes node head rest :=
  filter_cons_of_pos (by simpa using ⟨new, derives⟩)

theorem takes_neg (idle : ¬(¬head.isProcessed post.id ∧ Derives node post)) :
    takes node head (post :: rest) = takes node head rest :=
  filter_cons_of_neg (by simpa using idle)

theorem Chunk.skip (c : Chunk node numberOf root l1 head records cumulative (post :: rest))
    (idle : ¬(¬head.isProcessed post.id ∧ Derives node post)) :
    Chunk node numberOf root l1 head records cumulative rest := by
  have next := c.next
  rw [takes_neg idle] at next
  exact ⟨c.index, c.cursor, c.above, c.finalized, c.batches, next⟩

theorem Chunk.append (c : Chunk node numberOf root l1 head records cumulative (post :: rest))
    (ordered : (takes node head (post :: rest)).Pairwise fun p q => ¬PostId.positionLe q.id p.id)
    (new : ¬head.isProcessed post.id) (derives : Derives node post)
    (above : cumulative ≤ last) (link : Linked node numberOf root l1 ⟨post.id, post.txHash, last⟩) :
    Chunk node numberOf root l1 head (records ++ [⟨post.id, post.txHash, last⟩]) last rest := by
  have step : head.appendMany (records ++ [⟨post.id, post.txHash, last⟩]) =
      (head.appendMany records).append ⟨post.id, post.txHash, last⟩ := by
    simp [L1CanonicalHead.appendMany]
  rw [takes_pos new derives] at ordered
  have unseen : ¬(head.appendMany records).isProcessed post.id := by
    refine c.next post ?_
    rw [takes_pos new derives]
    exact mem_cons_self
  have grown : (head.appendMany records).cursor ≤ last := by
    rw [c.cursor]
    exact above
  obtain ⟨index, cursor⟩ := c.index.append unseen grown link
  refine ⟨step ▸ index, step ▸ cursor, c.above.trans above, ?_, ?_, ?_⟩
  · rw [step, ← c.finalized]
    exact append_finalized _
  · rw [step, append_batches unseen, c.batches, append_assoc]
  · intro p hp
    have after := (pairwise_cons.mp ordered).1 p hp
    have tail : (head.appendMany (records ++ [⟨post.id, post.txHash, last⟩])).lastIndexed =
        some ⟨post.id, post.txHash, last⟩ := by
      rw [step, L1CanonicalHead.lastIndexed, append_batches unseen]
      simp
    simp only [L1CanonicalHead.isProcessed, tail]
    exact fun processed => after processed.1

theorem Chunk.reconcileScanned (engine : Sealing node numberOf)
    (posts : L1Posts node numberOf root l1) (scanned : List Post) :
    ∀ {records cumulative seen} (replayed : Nat) {d'},
      (∀ p ∈ scanned, p ∈ l1) → (takes node d.head scanned).Pairwise (fun p q => ¬PostId.positionLe q.id p.id) →
      (∀ p ∈ takes node d.head scanned, p.settlement.resumed = true →
        ∀ cursor, d.head.cursor ≤ cursor → Resumes P d.head cursor) →
      Below b d.head.cursor (takes node d.head scanned) →
      Kept P node numberOf d.head cumulative (d.chain.take b) d' →
      Chunk node numberOf root l1 d.head records cumulative scanned →
      Advances numberOf l1 seen d.reached ⟨d.head.batches ++ records, cumulative, d'.chain, d.head.floor⟩ →
      Leaves (reconcileScanned node scanned cumulative records replayed) d'
        (fun r d' => Kept P node numberOf d.head r.2.1 (d.chain.take b) d' ∧
          Chunk node numberOf root l1 d.head r.1 r.2.1 [] ∧
          Advances numberOf l1 (seen ++ takes node d.head scanned) d.reached
          ⟨d.head.batches ++ r.1, r.2.1, d'.chain, d.head.floor⟩)
        (Kept P node numberOf d.head d.head.cursor (d.chain.take b)) := by
  induction scanned with
  | nil =>
    intro records cumulative seen replayed d' _ _ _ _ kept chunk advances
    refine ⟨kept, chunk, ?_⟩
    rw [takes, filter_nil, append_nil]
    exact advances
  | cons post rest ih =>
    intro records cumulative seen replayed d' mem ordered resumes low kept chunk advances
    have sub : ∀ p ∈ rest, p ∈ l1 := fun p hp => mem p (mem_cons_of_mem _ hp)
    have skip : ¬(¬d.head.isProcessed post.id ∧ Derives node post) →
        Leaves (Deriver.reconcileScanned node rest cumulative records replayed) d'
          (fun r d' => Kept P node numberOf d.head r.2.1 (d.chain.take b) d' ∧
            Chunk node numberOf root l1 d.head r.1 r.2.1 [] ∧
            Advances numberOf l1 (seen ++ takes node d.head (post :: rest)) d.reached
              ⟨d.head.batches ++ r.1, r.2.1, d'.chain, d.head.floor⟩)
          (Kept P node numberOf d.head d.head.cursor (d.chain.take b)) := by
      intro idle
      rw [takes_neg idle] at ordered resumes low ⊢
      exact ih replayed sub ordered resumes low kept (chunk.skip idle) advances
    rw [Deriver.reconcileScanned, leaves_bind, leaves_get, kept.head_eq]
    refine Leaves.ite (fun processed => skip fun new => new.1 processed) fun new => ?_
    refine Leaves.ite (fun unsettled => skip fun new => new.2.1 unsettled) fun settled => ?_
    rw [leaves_bind]
    refine Leaves.lift (fun payload decoded => ?_) (kept.lower chunk.above)
    cases payload with
    | none => exact skip fun new => new.2.2 decoded
    | some container =>
      have derives : Derives node post := ⟨settled, by rw [decoded]; simp⟩
      have here := mem post mem_cons_self
      obtain ⟨entry, final, starts, settles, above⟩ :=
        chunk.index.entry_ge posts here derives (chunk.next post (by
          rw [takes_pos new derives]
          exact mem_cons_self))
      rw [chunk.cursor] at above
      rw [leaves_bind]
      have based := kept.rebase ( take_prefix
        (max 1 (batchL2Range cumulative post.settlement.resumed container.span.blockCount).1) d'.chain)
      rw [takes_pos new derives] at ordered resumes low ⊢
      -- the first blocks are below every range
      have first : ∀ {chain}, d'.chain.take (max 1 (batchL2Range cumulative post.settlement.resumed
          container.span.blockCount).1) <+: chain → d.chain.take b <+: chain := by
        intro chain below
        refine (prefix_take_iff.mpr ⟨kept.below, (length_take_le _ _).trans ?_⟩).trans below
        have bound := low post mem_cons_self
        have above := chunk.above
        rw [batchL2Range_fst]
        by_cases resumed : post.settlement.resumed = true
        · rw [if_pos resumed] at bound ⊢
          omega
        · rw [if_neg resumed] at bound ⊢
          omega
      refine (Kept.deriveBatch engine container based (fun resumed => resumes post mem_cons_self resumed _ chunk.above)
        (length_take_le _ _) starts settles above).mono ?_
        fun _ failed => (failed.rebase (first failed.below)).lower chunk.above
      rintro ⟨count, last⟩ d'' ⟨kept', grown, high, held⟩
      have step : Extends numberOf post ⟨d.head.batches ++ records, cumulative, d'.chain, d.head.floor⟩
        last d''.chain :=
        Kept.extends settles kept' grown high held
      have link : Linked node numberOf root l1 ⟨post.id, post.txHash, last⟩ :=
        .inr ⟨post, here, rfl, derives, final, settles, kept'.chained.number held⟩
      have advanced := Advances.snoc advances here step
      rw [append_assoc] at advanced
      have chunk' := chunk.append (takes_pos new derives ▸ ordered) new derives grown link
      refine (ih _ sub (pairwise_cons.mp ordered).2 (fun p hp => resumes p (mem_cons_of_mem _ hp))
        (fun p hp => low p (mem_cons_of_mem _ hp)) (kept'.rebase (first kept'.below)) chunk' advanced).mono ?_
        fun _ kept => kept
      rintro r d''' ⟨kept, chunk, advances⟩
      refine ⟨kept, chunk, ?_⟩
      rw [append_cons]
      exact advances

/-- What becomes of the condition at the end of a chunk, when the index has moved and
safe follows, and when the chunk fails. -/
structure Settles (P Q E : Forkchoice) (head : L1CanonicalHead) : Prop where
  failed {safe sent rewritten} : P head safe sent rewritten → E head safe sent rewritten
  grown {head' : L1CanonicalHead} {safe sent rewritten} : P head safe sent rewritten → head.cursor ≤ head'.cursor →
    head'.finalizedL2 = head.finalizedL2 → head'.finalizedL2 ≤ head'.cursor → head'.lastIndexedL2 = head'.cursor →
    E head' safe sent rewritten ∧ E head' safe (sent ++ [(head'.cursor, head'.finalizedL2)]) rewritten ∧
      (head'.cursor ≤ safe → Q head' safe sent rewritten) ∧
      Q head' head'.cursor (sent ++ [(head'.cursor, head'.finalizedL2)]) rewritten

theorem Steady.settles (steady : Steady P) (head : L1CanonicalHead) : Settles P P P head := by
  refine ⟨id, fun holds above same low indexed => ?_⟩
  have kept := steady.keep holds (Nat.le_of_eq same) indexed (.inr above)
  have sent := steady.send kept low
  exact ⟨kept, sent, fun _ => kept, steady.settle sent low indexed⟩

section
variable (good : Good P node numberOf root l1 d) (engine : Sealing node numberOf) (posts : L1Posts node numberOf root l1)
include good engine posts

variable (mem : ∀ p ∈ scanned, p ∈ l1) (ordered : (takes node d.head scanned).Pairwise fun p q =>
    ¬PostId.positionLe q.id p.id) (low : Below b d.head.cursor (takes node d.head scanned))
  (resumes : ∀ p ∈ takes node d.head scanned, p.settlement.resumed = true →
    ∀ cursor, d.head.cursor ≤ cursor → Resumes P d.head cursor)
include mem ordered low resumes

theorem Good.reconcileScanned :
    Leaves (reconcileScanned node scanned d.head.cursor [] 0) d
      (fun r d' => Kept P node numberOf d.head r.2.1 (d.chain.take b) d' ∧
        Chunk node numberOf root l1 d.head r.1 r.2.1 [] ∧
        Advances numberOf l1 (takes node d.head scanned) d.reached
        ⟨d.head.batches ++ r.1, r.2.1, d'.chain, d.head.floor⟩)
      (Kept P node numberOf d.head d.head.cursor (d.chain.take b)) := by
  have start : Chunk node numberOf root l1 d.head [] d.head.cursor scanned :=
    ⟨good.index, rfl, Nat.le_refl _, rfl, (append_nil _).symm, fun p hp =>
      (of_decide_eq_true (mem_filter.mp hp).2).1⟩
  have origin : Advances numberOf l1 [] d.reached ⟨d.head.batches ++ [], d.head.cursor, d.chain, d.head.floor⟩ := by
    rw [append_nil]
    exact .nil _
  exact Chunk.reconcileScanned engine posts scanned 0 mem ordered resumes low (good.kept b) start origin

theorem Good.reconcileScannedBatches (settles : Settles P Q E d.head) :
    Leaves (reconcileScannedBatches node scanned d.head.cursor) d
      (fun r d' => Good Q node numberOf root l1 d' ∧ r.2 = d'.head.cursor ∧
        Advances numberOf l1 (takes node d.head scanned) d.reached d'.reached)
      (fun d' => Good E node numberOf root l1 d' ∧ Halted numberOf l1 b d d') := by
  rw [Deriver.reconcileScannedBatches, leaves_bind]
  refine (good.reconcileScanned engine posts mem ordered low resumes).mono ?_ ?_
  · rintro ⟨records, reached, replayed⟩ ⟨head, safe, chain, sent, rewritten, faults⟩ ⟨kept, chunk, advances⟩
    rw [leaves_bind, leaves_modify, leaves_bind, leaves_get]
    obtain rfl : head = d.head := kept.head_eq
    obtain rfl : (d.head.appendMany records).cursor = reached := chunk.cursor
    obtain ⟨grown, logged, behind, moved⟩ :=
      settles.grown kept.ordered chunk.above chunk.finalized chunk.index.finalized chunk.index.cursor
    have advanced : ∀ safe sent rewritten faults, Advances numberOf l1 (takes node d.head scanned) d.reached
        (Inner.reached ⟨d.head.appendMany records, safe, chain, sent, rewritten, faults⟩) := by
      intro _ _ _ _
      simp only [Inner.reached, chunk.batches, appendMany_floor]
      exact advances
    have failed : ∀ faults, Good E node numberOf root l1
        ⟨d.head.appendMany records, safe, chain, sent, rewritten, faults⟩ ∧ Halted numberOf l1 b d
        ⟨d.head.appendMany records, safe, chain, sent, rewritten, faults⟩ :=
      fun faults => ⟨⟨chunk.index, grown, kept.chained, kept.long⟩, .inl ⟨_, advanced _ _ _ _⟩⟩
    refine Leaves.ite (fun reached => ?_) fun _ => ?_
    · exact ⟨⟨chunk.index, behind reached, kept.chained, kept.long⟩, rfl, advanced _ _ _ _⟩
    · simp only [leaves_bind]
      refine Leaves.l2BlockAt (fun faults _ _ => ?_) failed
      refine Leaves.l2BlockAt (fun faults _ _ => ?_) failed
      simp only [advanceSafeFinalized, leaves_bind, leaves_modify, leaves_pure]
      exact Leaves.call
        (fun _ => ⟨⟨chunk.index, moved, kept.chained, kept.long⟩, rfl, advanced _ _ _ _⟩)
        fun _ => ⟨⟨chunk.index, logged, kept.chained, kept.long⟩, .inl ⟨_, advanced _ _ _ _⟩⟩
  · intro d' kept
    obtain ⟨head_eq, ordered, chained, below, long⟩ := kept
    refine ⟨⟨?_, ?_, chained, ?_⟩, .inr ⟨head_eq, below⟩⟩
    · rw [head_eq]
      exact good.index
    · rw [head_eq]
      exact settles.failed ordered
    · rw [head_eq]
      exact long

end

theorem Good.scanBatches (good : Good P node numberOf root l1 d) (steady : Steady P) (engine : Sealing node numberOf)
    (posts : L1Posts node numberOf root l1) (mem : ∀ p ∈ scanned, p ∈ l1)
    (ordered : (takes node d.head scanned).Pairwise fun p q => ¬PostId.positionLe q.id p.id)
    (low : Below b d.head.cursor (takes node d.head scanned)) :
    Leaves (Deriver.reconcileScannedBatches node scanned d.head.cursor) d
      (fun r d' => Good P node numberOf root l1 d' ∧ r.2 = d'.head.cursor ∧
        Advances numberOf l1 (takes node d.head scanned) d.reached d'.reached)
      (fun d' => Good P node numberOf root l1 d' ∧ Halted numberOf l1 b d d') :=
  good.reconcileScannedBatches engine posts mem ordered low (fun _ _ _ _ _ => steady.resumes _ _) (steady.settles _)

/-- What a scan may return: posts that L1 has, in its order. -/
def Scanned (l1 : List Post) (chunks : List (Except L1Error (List Post))) : Prop :=
  ∀ posts, .ok posts ∈ chunks → (∀ p ∈ posts, p ∈ l1) ∧ posts.Pairwise fun p q => ¬PostId.positionLe q.id p.id

theorem leaves_syncBatches {I E : Inner → Prop} {chunks : List (Except L1Error (List Post))}
    (stops : ∀ {d}, I d → E d)
    (step : ∀ posts, .ok posts ∈ chunks → ∀ {d}, I d → Leaves (reconcileScannedBatches node posts d.head.cursor) d
      (fun r d' => I d' ∧ r.2 = d'.head.cursor) E) :
    ∀ {d}, I d → Leaves (syncBatches node chunks d.head.cursor) d (fun _ => E) E := by
  induction chunks with
  | nil =>
    intro d holds
    exact stops holds
  | cons chunk rest ih =>
    intro d holds
    rw [Deriver.syncBatches, leaves_bind]
    refine Leaves.lift (fun read ok => ?_) (stops holds)
    rw [mapError_eq_ok] at ok
    rw [leaves_bind]
    refine (step read (ok ▸ mem_cons_self) holds).mono ?_ fun _ holds => holds
    rintro ⟨_, reached⟩ d' ⟨holds, cursor⟩
    obtain rfl : reached = d'.head.cursor := cursor
    exact ih (fun posts mem => step posts (mem_cons_of_mem _ mem)) holds

theorem Good.syncBatches (good : Good P node numberOf root l1 d) (steady : Steady P) (engine : Sealing node numberOf)
    (posts : L1Posts node numberOf root l1) (scanned : Scanned l1 chunks) :
    Leaves (syncBatches node chunks d.head.cursor) d (fun _ => Good P node numberOf root l1)
      (Good P node numberOf root l1) := by
  refine leaves_syncBatches id (fun read mem d good => ?_) good
  obtain ⟨sub, ordered⟩ := scanned read mem
  exact (good.scanBatches steady engine posts sub (ordered.filter _) (below_one _ _)).mono
    (fun _ _ ran => ⟨ran.1, ran.2.1⟩) fun _ failed => failed.1

theorem Indexed.cursor_of_empty (index : Indexed node numberOf root l1 head) (blank : head.lastIndexed = none) :
    head.cursor = 0 := by
  rw [← index.cursor]
  simp [L1CanonicalHead.lastIndexedL2, blank]

theorem Indexed.mono (index : Indexed node numberOf root l1' head) (sub : l1' ⊆ l1) :
    Indexed node numberOf root l1 head := by
  refine ⟨index.cursor, index.finalized, index.rising, index.blocks, ?_⟩
  intro r hr
  rcases index.linked r hr with seed | ⟨p, hp, rest⟩
  · exact .inl seed
  · exact .inr ⟨p, sub hp, rest⟩

/-- The index without the records at its tail that `view` does not bear out, and
whether the walk comes to an end. -/
def retainedFrom (view : CatchUpView) : Nat → L1CanonicalHead → L1CanonicalHead × Bool
  | 0, head => (head, false)
  | fuel + 1, head =>
    match head.lastIndexed with
    | none => (head, true)
    | some tail =>
      match view.canonicalL1Hash tail.post.l1Block with
      | .ok (some canonical) =>
        if canonical = tail.post.l1BlockHash then (head, true)
        else
          match head.retreatOnL1Reorg (tail.post.l1Block - min tail.post.l1Block 1) with
          | .ok head' => retainedFrom view fuel head'
          | .error _ => (head, false)
      | _ => (head, false)

def retained (view : CatchUpView) (head : L1CanonicalHead) : L1CanonicalHead × Bool :=
  retainedFrom view (head.batches.length + 1) head

theorem retainedFrom_rule {view : CatchUpView} {R : L1CanonicalHead → Prop}
    (step : ∀ head head' ancestor, R head → head.retreatOnL1Reorg ancestor = .ok head' → R head') (fuel : Nat) :
    ∀ {head}, R head → R (retainedFrom view fuel head).1 := by
  induction fuel with
  | zero => exact id
  | succ fuel ih =>
    intro head holds
    unfold retainedFrom
    split
    · exact holds
    · split
      · split
        · exact holds
        · split
          next retreated => exact ih (step _ _ _ holds retreated)
          next => exact holds
      · exact holds

theorem Indexed.retained (index : Indexed node numberOf root l1 head) (view : CatchUpView) :
    Indexed node numberOf root l1 (retained view head).1 ∧ (retained view head).1.cursor ≤ head.cursor ∧
      (retained view head).1.finalizedL2 ≤ head.finalizedL2 := by
  refine retainedFrom_rule (R := fun head' => Indexed node numberOf root l1 head' ∧ head'.cursor ≤ head.cursor ∧
    head'.finalizedL2 ≤ head.finalizedL2) ?_ _ ⟨index, Nat.le_refl _, Nat.le_refl _⟩
  rintro head head' ancestor ⟨index, back, low⟩ retreated
  obtain ⟨index, back', low'⟩ := index.retreat retreated
  exact ⟨index.mono filter_sublist.subset, back'.trans back, low'.trans low⟩

theorem leaves_revalidateIndexTail (view : CatchUpView) (fuel : Nat) :
    ∀ {d}, Leaves (revalidateIndexTail view fuel) d
      (fun anchor d' => d' = { d with head := (retainedFrom view fuel d.head).1 } ∧
        (retainedFrom view fuel d.head).2 = true ∧ (anchor = none ↔ d'.head.lastIndexed = none))
      (fun d' => d' = { d with head := (retainedFrom view fuel d.head).1 } ∧
        (retainedFrom view fuel d.head).2 = false) := by
  induction fuel with
  | zero =>
    intro d
    exact ⟨rfl, rfl⟩
  | succ fuel ih =>
    intro d
    rw [revalidateIndexTail, leaves_bind, leaves_get]
    simp only [retainedFrom]
    cases last : d.head.lastIndexed with
    | none => exact ⟨rfl, rfl, iff_of_true rfl last⟩
    | some tail =>
      simp only [leaves_bind, leaves_lift, mapError_eq_ok]
      cases answer : view.canonicalL1Hash tail.post.l1Block with
      | error e => simp
      | ok canonical =>
        cases canonical with
        | none => simp
        | some canonical =>
          refine ⟨?_, fun e failed => by cases failed⟩
          rintro _ ⟨⟩
          by_cases same : canonical = tail.post.l1BlockHash
          · simp [same, last]
          · simp only [if_neg same, leaves_bind, retreatIndex, leaves_get]
            cases retreated : d.head.retreatOnL1Reorg (tail.post.l1Block - min tail.post.l1Block 1) with
            | error floor => exact ⟨rfl, rfl⟩
            | ok head' => exact ih

theorem leaves_revalidate {view : CatchUpView} (index : Indexed node numberOf root l1 d.head)
    (long : d.head.cursor < d.chain.length) : Leaves (revalidate view) d
      (fun anchor d' => Rewound d (retained view d.head).1 d' ∧ (retained view d.head).2 = true ∧
        (anchor = none ↔ d'.head.lastIndexed = none))
      (fun d' => Stuck d (retained view d.head).1 d' ∧
        ((retained view d.head).2 = true → true ∈ d.faults.take 4)) := by
  rw [revalidate, leaves_bind, leaves_get, leaves_bind]
  refine (leaves_revalidateIndexTail view _).mono ?_ ?_
  · rintro anchor d' ⟨rfl, complete, empty⟩
    rw [leaves_bind, leaves_get]
    refine Leaves.ite (fun lowered => ?_) fun still => ⟨.inl ⟨Nat.not_lt.mp still, rfl⟩, complete, empty⟩
    rw [leaves_bind]
    refine (leaves_retreatL2ToCursor lowered (index.retained view).1.finalized long).mono ?_ ?_
    · intro _ d' rewound
      refine ⟨rewound, complete, ?_⟩
      rcases rewound with ⟨-, rfl⟩ | ⟨-, rfl⟩
      · exact empty
      · exact empty
    · rintro d' ⟨fault, stuck⟩
      exact ⟨stuck, fun _ => fault⟩
  · rintro d' ⟨rfl, incomplete⟩
    refine ⟨⟨_, _, rfl, .inl rfl⟩, fun complete => ?_⟩
    rw [retained, incomplete] at complete
    cases complete

/-- The index after the checkpoint's record, with the finalized height it restores. -/
def booted (view : CatchUpView) (head : L1CanonicalHead) (record : BatchRecord) : L1CanonicalHead :=
  (head.append record).setFinalizedL2 (min (view.finalizedBlockNumber.getD 0) record.lastL2Block)

theorem leaves_catchUpFrom {view : CatchUpView} {I : Inner → Prop} (holds : I d)
    (genesis : anchor = none → d.head.cursor = 0)
    (scan : (anchor = none → checkpointSeed view d.chain = none) →
      Leaves (syncBatches node view.chunks d.head.cursor) d (fun _ => I) I)
    (boot : ∀ record ∈ checkpointSeed view d.chain, anchor = none → view.peers = false →
      I { d with head := d.head.append record, faults := d.faults.drop 1 } ∧
      Leaves (syncBatches node view.chunks record.lastL2Block)
        { d with head := booted view d.head record, faults := d.faults.drop 1 } (fun _ => I) I) :
    Leaves (catchUpFrom node view anchor) d (fun _ => I) I := by
  rw [catchUpFrom, leaves_bind, leaves_get]
  cases anchor with
  | some _ => exact scan (by simp)
  | none =>
    refine Leaves.ite (fun _ => holds) fun alone => ?_
    cases seed : checkpointSeed view d.chain with
    | none =>
      rw [genesis rfl] at scan
      exact scan fun _ => seed
    | some record =>
      obtain ⟨failed, rest⟩ := boot record seed rfl (Bool.eq_false_iff.mpr alone)
      simp only [leaves_bind, leaves_modify]
      exact Leaves.call_drop (k := 0) rfl rest fun _ => failed

theorem checkpointSeed_held {view : CatchUpView} {chain : List L2Block}
    (seed : checkpointSeed view chain = some record) :
    ∃ hash, view.checkpoint = some (record, hash) ∧ At chain record.lastL2Block hash := by
  unfold checkpointSeed at seed
  split at seed
  · cases seed
  next found =>
    split at seed
    next bears =>
      cases seed
      obtain ⟨b, held, same⟩ := Option.map_eq_some_iff.mp bears.2
      exact ⟨_, found, b, held, same⟩
    next => cases seed

section
variable (good : Good P node numberOf root l1 d) {view : CatchUpView} (blank : d.head.lastIndexed = none)
  (seed : checkpointSeed view d.chain = some record) (link : Linked node numberOf root l1 record)
include good blank seed link

theorem Good.append_seed :
    Indexed node numberOf root l1 (d.head.append record) ∧ (d.head.append record).cursor = record.lastL2Block ∧
      (d.head.append record).cursor < d.chain.length := by
  have genesis := good.index.cursor_of_empty blank
  have new : ¬d.head.isProcessed record.post := by simp [L1CanonicalHead.isProcessed, blank]
  obtain ⟨index, cursor⟩ := good.index.append new (genesis ▸ Nat.zero_le _) link
  obtain ⟨_, -, held⟩ := checkpointSeed_held seed
  exact ⟨index, cursor, cursor ▸ held.lt⟩

theorem Good.seeded (steady : Steady P) (faults : List Bool) :
    Good P node numberOf root l1 { d with head := d.head.append record, faults } := by
  obtain ⟨index, -, long⟩ := good.append_seed blank seed link
  have above : d.head.cursor ≤ (d.head.append record).cursor := good.index.cursor_of_empty blank ▸ Nat.zero_le _
  exact ⟨index, steady.keep good.ordered (Nat.le_of_eq (append_finalized _)) index.cursor (.inr above), good.chained,
    long⟩

theorem Good.booted (faults : List Bool) (holds : Q (booted view d.head record) d.safeL2Block d.sent d.rewritten) :
    Good Q node numberOf root l1 { d with head := booted view d.head record, faults } := by
  obtain ⟨index, cursor, long⟩ := good.append_seed blank seed link
  refine ⟨⟨index.cursor, ?_, index.rising, index.blocks, index.linked⟩, holds, good.chained, long⟩
  exact (Nat.min_le_right _ _).trans (Nat.le_of_eq cursor.symm)

theorem Good.booted_syncBatches (steady : Steady P) (engine : Sealing node numberOf)
    (posts : L1Posts node numberOf root l1) (scanned : Scanned l1 chunks) (faults : List Bool)
    (holds : P (Deriver.booted view d.head record) d.safeL2Block d.sent d.rewritten) :
    Leaves (Deriver.syncBatches node chunks record.lastL2Block)
      { d with head := Deriver.booted view d.head record, faults } (fun _ => Good P node numberOf root l1)
      (Good P node numberOf root l1) := by
  obtain ⟨-, cursor, -⟩ := good.append_seed blank seed link
  exact cursor ▸ (good.booted blank seed link faults holds).syncBatches steady engine posts scanned

end

section
variable (good : Good P node numberOf root l1 d) (steady : Steady P)
include good steady

theorem Good.onL1Reorg (floor : ∀ floor ∈ d.head.floor, floor.l1Block ≤ ancestor)
    (follows : ∀ head', d.head.retreatOnL1Reorg ancestor = .ok head' → true ∈ d.faults.take 4 →
      P head' d.safeL2Block d.sent d.rewritten) :
    Good P node numberOf root (l1.filter fun p => p.id.l1Block ≤ ancestor) (exec (Deriver.onL1Reorg ancestor) d).2 := by
  obtain ⟨head', retreated⟩ := retreatOnL1Reorg_isOk floor
  obtain ⟨index, back, low⟩ := good.index.retreat retreated
  refine Leaves.final ((leaves_onL1Reorg retreated index.finalized good.long).mono ?_ ?_)
  · intro _ d' rewound
    exact good.rewound index steady back low rewound
  · rintro d' ⟨fault, stuck⟩
    exact good.stuck index steady back (follows head' retreated fault) stuck

theorem Good.catchUpInner (engine : Sealing node numberOf) (posts : L1Posts node numberOf root l1)
    {view : CatchUpView} (scanned : Scanned l1 view.chunks)
    (seeded : ∀ chain, ∀ record ∈ checkpointSeed view chain, Linked node numberOf root l1 record)
    (follows : ((retained view d.head).2 = true → true ∈ d.faults.take 4) →
      P (retained view d.head).1 d.safeL2Block d.sent d.rewritten)
    (boots : ∀ d', Good P node numberOf root l1 d' → Rewound d (retained view d.head).1 d' →
      d'.head.lastIndexed = none → ∀ record ∈ checkpointSeed view d'.chain,
      Leaves (Deriver.syncBatches node view.chunks record.lastL2Block)
        { d' with head := Deriver.booted view d'.head record, faults := d'.faults.drop 1 }
        (fun _ => Good P node numberOf root l1) (Good P node numberOf root l1)) :
    Good P node numberOf root l1 (exec (Deriver.catchUpInner node view) d).2 := by
  obtain ⟨index, back, low⟩ := good.index.retained view
  refine Leaves.final ?_
  rw [Deriver.catchUpInner, leaves_bind]
  refine (leaves_revalidate good.index good.long).mono ?_ ?_
  · rintro anchor d' ⟨rewound, -, empty⟩
    have good' := good.rewound index steady back low rewound
    refine leaves_catchUpFrom good' (fun none => good'.index.cursor_of_empty (empty.mp none))
      (fun _ => good'.syncBatches steady engine posts scanned) ?_
    intro record seed none _
    exact ⟨good'.seeded (empty.mp none) seed (seeded _ record seed) steady _,
      boots d' good' rewound (empty.mp none) record seed⟩
  · rintro d' ⟨stuck, fault⟩
    exact good.stuck index steady back (follows fault) stuck

end

end Eez.Deriver
