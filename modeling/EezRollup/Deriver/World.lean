import EezRollup.Deriver.Replay
import EezRollup.Lib.Runs
import Mathlib.Data.Nat.Digits.Lemmas

/-! The deriver sees the posts of L1 one by one, in chunks, again after a failure, and loses some to
reorgs, while the sequencer builds on the local tip. -/
open List
namespace Eez.Deriver
open Octets Outcome Codec Scan Faulty

structure World where
  deriver : Inner
  l1 : List Post

/-- One step; `faults` are the answers of the calls it makes. -/
inductive Step where
  | mine (posts : List Post)
  | batchPosted (post : Post) (lastInL1Block : Bool) (faults : List Bool)
  | l1Reorg (commonAncestor : UInt64) (faults : List Bool)
  | l1Finalized (block : UInt64) (faults : List Bool)
  | catchUp (view : CatchUpView) (faults : List Bool)
  | sequence (block : L2Block)

namespace World

variable (node : Node)

def step (w : World) : Step → World
  | .mine posts => { w with l1 := w.l1 ++ posts }
  | .batchPosted post last faults =>
    { w with deriver := (exec (onBatchPosted node post last) { w.deriver with faults }).2 }
  | .l1Reorg ancestor faults =>
    ⟨(exec (onL1Reorg ancestor) { w.deriver with faults }).2, w.l1.filter fun p => p.id.l1Block ≤ ancestor⟩
  | .l1Finalized block faults =>
    { w with deriver := (exec (onL1Finalized block) { w.deriver with faults }).2 }
  | .catchUp view faults => { w with deriver := (exec (catchUpInner node view) { w.deriver with faults }).2 }
  | .sequence block => { w with deriver := { w.deriver with chain := w.deriver.chain ++ [block] } }

variable (numberOf : B256 → Nat) (root : B256)

/-- L1 keeps its roots chained, a reorg keeps the finalized floor, the scan and
the checkpoint show what L1 has, and the sequencer builds on the tip. -/
def Admits (w : World) : Step → Prop
  | .mine posts => L1Posts node numberOf root (w.l1 ++ posts)
  | .batchPosted post _ _ => post ∈ w.l1
  | .l1Reorg ancestor _ => ∀ floor ∈ w.deriver.head.floor, floor.l1Block ≤ ancestor
  | .l1Finalized _ _ => True
  | .catchUp view _ => Scanned w.l1 view.chunks ∧
      ∀ chain, ∀ record ∈ checkpointSeed view chain, Linked node numberOf root w.l1 record
  | .sequence block => ∃ tip txs inputs, w.deriver.chain.getLast? = some tip ∧ node.execute tip txs inputs = .ok block

/-- A boot from a checkpoint brings safe up to the finalized height it restores: no
call fails, and the posts of the first chunk replay and replace no finalized
block. -/
def BootsSafe (node : Node) (numberOf : B256 → Nat) (view : CatchUpView) (head : L1CanonicalHead)
    (chain : List L2Block) (faults : List Bool) : Prop :=
  ∀ record ∈ checkpointSeed view chain, (booted view head record).finalizedL2 ≠ 0 →
    faults = [] ∧ ∃ posts later last, view.chunks = .ok posts :: later ∧
      ReplaysAll node numberOf (booted view head record) posts (chain.take (record.lastL2Block + 1)) last ∧
      ∀ p ∈ takes node (booted view head record) posts, p.settlement.resumed = true →
        (booted view head record).finalizedL2 < record.lastL2Block

/-- When the index goes back below safe, none of the four calls in between fails,
and a walk of the index that does so comes to an end. -/
def SafeFollows (node : Node) (numberOf : B256 → Nat) (w : World) : Step → Prop
  | .l1Reorg ancestor faults => ∀ head', w.deriver.head.retreatOnL1Reorg ancestor = .ok head' →
      head'.cursor < w.deriver.safeL2Block → true ∉ faults.take 4
  | .catchUp view faults =>
    let (head', complete) := retained view w.deriver.head
    (head'.cursor < w.deriver.safeL2Block → complete = true ∧ true ∉ faults.take 4) ∧
      (head'.lastIndexed = none → BootsSafe node numberOf view head' w.deriver.chain faults)
  | _ => True

def InOrder (w : World) : Prop :=
  Ordered w.deriver.head w.deriver.safeL2Block w.deriver.sent w.deriver.rewritten

/-- An index that is empty or holds the seed, with safe and finalized there. -/
structure Starts (w : World) : Prop where
  posts : L1Posts node numberOf root w.l1
  chained : Chained node numberOf w.deriver.chain
  seeded : (w.deriver.head = .empty ∧ w.deriver.safeL2Block = 0) ∨
    ∃ record, w.deriver.head = .seed record ∧ w.deriver.safeL2Block = record.lastL2Block ∧
      numberOf root = record.lastL2Block
  long : w.deriver.head.cursor < w.deriver.chain.length
  sent : w.deriver.sent = []
  rewritten : w.deriver.rewritten = []

variable {node numberOf root} {w : World}

theorem Starts.good (start : w.Starts node numberOf root) : Good Ordered node numberOf root w.l1 w.deriver := by
  have sent : ∀ p ∈ w.deriver.sent, p.2 ≤ p.1 := by rw [start.sent]; simp
  have rewritten : ∀ p ∈ w.deriver.rewritten, p.2 < p.1 := by rw [start.rewritten]; simp
  rcases start.seeded with ⟨head, safe⟩ | ⟨record, head, safe, height⟩
  · refine ⟨?_, ?_, start.chained, start.long⟩
    · rw [head]
      exact ⟨rfl, Nat.le_refl _, .nil, .nil, by simp [L1CanonicalHead.empty]⟩
    · rw [head, safe]
      exact ⟨Nat.le_refl _, Nat.le_refl _, rfl, sent, rewritten⟩
  · refine ⟨?_, ?_, start.chained, start.long⟩
    · rw [head]
      refine ⟨rfl, Nat.le_refl _, pairwise_singleton _ _, pairwise_singleton _ _, ?_⟩
      intro r hr
      obtain rfl := mem_singleton.mp hr
      exact .inl (Nat.le_of_eq height.symm)
    · rw [head, safe]
      exact ⟨Nat.le_refl _, Nat.le_refl _, rfl, sent, rewritten⟩

/-- The steps that move no index back. -/
theorem Good.step {P : Forkchoice} (steady : Steady P) (engine : Sealing node numberOf) {s}
    (good : L1Posts node numberOf root w.l1 ∧ Good P node numberOf root w.l1 w.deriver)
    (admitted : w.Admits node numberOf root s)
    (reorg : ∀ ancestor faults, s = .l1Reorg ancestor faults →
      Good P node numberOf root (w.step node s).l1 (w.step node s).deriver)
    (catchUp : ∀ view faults, s = .catchUp view faults →
      Good P node numberOf root (w.step node s).l1 (w.step node s).deriver) :
    L1Posts node numberOf root (w.step node s).l1 ∧
      Good P node numberOf root (w.step node s).l1 (w.step node s).deriver := by
  obtain ⟨posts, good⟩ := good
  cases s with
  | mine mined => exact ⟨admitted, good.index.mono (subset_append_left w.l1 mined), good.ordered, good.chained, good.long⟩
  | batchPosted post last faults =>
    exact ⟨posts, Leaves.final (((good.setFaults faults).onBatchPosted steady engine posts admitted last
      (.inl (below_one _ _))).mono (fun _ _ ran => ran.1) fun _ failed => failed.1)⟩
  | l1Finalized block faults =>
    exact ⟨posts, Leaves.final (((good.setFaults faults).onL1Finalized steady block).mono (fun _ _ ran => ran.1)
      fun _ failed => failed.1)⟩
  | sequence block =>
    refine ⟨posts, good.index, good.ordered, ?_, ?_⟩
    · obtain ⟨tip, txs, inputs, last, built⟩ := admitted
      exact good.chained.concat engine last built
    · have := good.long
      simp only [World.step, length_append, length_singleton]
      omega
  | l1Reorg ancestor faults => exact ⟨posts.filter ancestor, reorg ancestor faults rfl⟩
  | catchUp view faults => exact ⟨posts, catchUp view faults rfl⟩

theorem Good.ordered_step (engine : Sealing node numberOf) (records : Recording node) (distinct : CollisionFree node)
    {s} (good : L1Posts node numberOf root w.l1 ∧ Good Ordered node numberOf root w.l1 w.deriver)
    (allowed : w.Admits node numberOf root s ∧ w.SafeFollows node numberOf s) :
    L1Posts node numberOf root (w.step node s).l1 ∧
      Good Ordered node numberOf root (w.step node s).l1 (w.step node s).deriver := by
  obtain ⟨admitted, safe⟩ := allowed
  obtain ⟨posts, held⟩ := good
  -- unless the index is below safe, the order is kept when L2 does not follow
  have still : ∀ {l1 head'}, Indexed node numberOf root l1 head' → head'.finalizedL2 ≤ w.deriver.head.finalizedL2 →
      ¬head'.cursor < w.deriver.safeL2Block →
      Ordered head' w.deriver.safeL2Block w.deriver.sent w.deriver.rewritten := fun index low high =>
    steady_ordered.keep held.ordered low index.cursor (.inl (Nat.not_lt.mp high))
  refine Good.step steady_ordered engine ⟨posts, held⟩ admitted ?_ ?_
  · rintro ancestor faults rfl
    refine (held.setFaults faults).onL1Reorg steady_ordered admitted fun head' retreated fault => ?_
    obtain ⟨index, back, low⟩ := held.index.retreat retreated
    exact still index low fun below => safe head' retreated below fault
  · rintro view faults rfl
    obtain ⟨follows, boots⟩ := safe
    obtain ⟨index, back, low⟩ := held.index.retained view
    refine (held.setFaults faults).catchUpInner steady_ordered engine posts admitted.1 admitted.2 (fun fault => ?_) ?_
    · exact still index low fun below => (follows below).2 (fault (follows below).1)
    · intro d' good' rewound blank record seed
      have low : d'.safeL2Block = 0 :=
        Nat.le_zero.mp (good'.index.cursor_of_empty blank ▸ good'.ordered.safe_le)
      have link := admitted.2 _ record seed
      obtain ⟨grown, cursor, -⟩ := good'.append_seed blank seed link
      by_cases restored : (booted view d'.head record).finalizedL2 = 0
      · exact good'.booted_syncBatches blank seed link steady_ordered engine posts admitted.1 _
          ⟨restored ▸ Nat.zero_le _, low ▸ Nat.zero_le _, grown.cursor, good'.ordered.sent_le, good'.ordered.rewritten_gt⟩
      · have top : (booted view d'.head record).cursor = record.lastL2Block := cursor
        have positive : 0 < record.lastL2Block := by
          refine Nat.pos_of_ne_zero fun zero => restored ?_
          exact Nat.le_zero.mp ((Nat.min_le_right _ _).trans (Nat.le_of_eq zero))
        rcases rewound with ⟨-, rfl⟩ | ⟨-, rfl⟩
        · obtain ⟨rfl, first, more, last, chunks, replays, open_⟩ := boots blank record seed restored
          have booting : Booting (booted view _ record) w.deriver.safeL2Block w.deriver.sent w.deriver.rewritten :=
            ⟨by rw [top]; exact low ▸ positive, held.ordered.sent_le, held.ordered.rewritten_gt⟩
          have scan := (good'.booted blank seed link [] booting).boots engine records distinct posts rfl
            (chunks ▸ admitted.1) (fun p taken resumed => top.symm ▸ open_ p taken resumed) (top.symm ▸ replays)
          rw [chunks]
          exact cursor ▸ scan
        · -- L2 is cut back to genesis, which has no checkpoint with a height to restore
          obtain ⟨_, -, there⟩ := checkpointSeed_held seed
          have short := there.lt
          have genesis := good'.index.cursor_of_empty blank
          simp only [length_take] at short genesis
          omega

/-- In every run in which safe follows the retreats of the cursor, finalized,
safe and cursor stay in order. -/
theorem inOrder_throughout (engine : Sealing node numberOf) (records : Recording node) (distinct : CollisionFree node)
    (start : w.Starts node numberOf root) (run : List Step)
    (allowed : Runs.Along (step node) (fun w s => w.Admits node numberOf root s ∧ w.SafeFollows node numberOf s) w
      run) :
    Runs.Throughout (step node) InOrder w run := by
  have kept : Runs.Throughout (step node)
      (fun w => L1Posts node numberOf root w.l1 ∧ Good Ordered node numberOf root w.l1 w.deriver) w run :=
    Runs.throughout_of_invariant (fun good ok => Good.ordered_step engine records distinct good ok)
      ⟨start.posts, start.good⟩ allowed
  exact kept.imp fun good => good.2.ordered

/-- A block's hash is its parent's with one more byte, the one of its extra data. -/
def countingNode : Node where
  keccak := Keccak.keccak256
  systemTxCfg := none
  execute := fun parent txs inputs =>
    match txs, inputs.extraData with
    | [], [b] =>
      if b ≠ 0 ∧ inputs.beneficiary = 0 ∧ parent.hash.toNat < 2 ^ 240 then
        .ok ⟨.ofNat 256 (parent.hash.toNat * 256 + b.toNat), parent.hash, txs, inputs⟩
      else .error (.l2Provider "out of range")
    | _, _ => .error (.l2Provider "empty blocks with one byte of extra data only")
  systemNonce := fun _ => 0
  outboundGate := fun _ _ => .ok ()

def digits (hash : B256) : Nat := (Nat.digits 256 hash.toNat).length

theorem countingNode_built (built : countingNode.execute parent txs inputs = .ok block) :
    ∃ b : UInt8, 0 < b.toNat ∧ block.hash.toNat = parent.hash.toNat * 256 + b.toNat ∧
      txs = [] ∧ inputs = ⟨0, [b]⟩ ∧ block = ⟨block.hash, parent.hash, [], ⟨0, [b]⟩⟩ := by
  simp only [countingNode] at built
  split at built
  next b data =>
    split at built
    next small =>
      cases built
      refine ⟨b, ?_, ?_, rfl, ?_⟩
      · rcases Nat.eq_zero_or_pos b.toNat with zero | positive
        · exact absurd (UInt8.toNat_inj.mp zero) small.1
        · exact positive
      · have byte : b.toNat < 256 := b.toNat_lt
        have bound := small.2.2
        rw [BitVec.toNat_ofNat, Nat.mod_eq_of_lt]
        omega
      · obtain ⟨beneficiary, extraData⟩ := inputs
        obtain rfl : extraData = [b] := data
        obtain rfl : beneficiary = 0 := small.2.1
        exact ⟨rfl, rfl⟩
    next => cases built
  next => cases built

theorem countingNode_sealing : Sealing countingNode digits := by
  constructor
  · intro parent txs inputs block built
    obtain ⟨b, positive, value, -⟩ := countingNode_built built
    have byte : b.toNat < 256 := b.toNat_lt
    simp only [digits]
    rw [value, Nat.digits_def' (by decide) (by omega), length_cons,
      show (parent.hash.toNat * 256 + b.toNat) / 256 = parent.hash.toNat by omega]
  · intro parent txs inputs block built
    obtain ⟨b, -, -, -, -, eq⟩ := countingNode_built built
    rw [eq]

theorem countingNode_recording : Recording countingNode := by
  intro parent txs inputs block built
  obtain ⟨b, -, -, rfl, rfl, eq⟩ := countingNode_built built
  rw [eq]
  exact ⟨rfl, rfl⟩

theorem countingNode_collisionFree : CollisionFree countingNode := by
  intro p t i b p' t' i' b' built built' same
  obtain ⟨x, -, value, -, -, eq⟩ := countingNode_built built
  obtain ⟨x', -, value', -, -, eq'⟩ := countingNode_built built'
  have byte : x.toNat < 256 := x.toNat_lt
  have byte' : x'.toNat < 256 := x'.toNat_lt
  rw [same, value'] at value
  have parents : p.hash = p'.hash := BitVec.eq_of_toNat_eq (by omega)
  have bytes : x = x' := UInt8.toNat_inj.mp (by omega)
  rw [eq, eq', same, parents, bytes]

def genesis : L2Block := ⟨0, 0, [], ⟨0, []⟩⟩

theorem genesis_chained : Chained countingNode digits [genesis] := by
  constructor
  · intro n b hb
    cases n with
    | zero =>
      cases hb
      simp [genesis, digits]
    | succ n => cases hb
  · intro n b hb
    cases hb

/-- One block without transactions that has `b` as its extra data. -/
def countingPayload (b : UInt8) : Bytes :=
  [0, 2] ++ replicate 8 0 ++ [27, 0, 1, 0, 1] ++ replicate 20 0 ++ [1, 1, b]

def countingPost (l1Block : UInt64) (b : UInt8) (entry final : B256) (resumed : Bool) : Post where
  id := ⟨l1Block, .ofNat 256 l1Block.toNat, 0⟩
  txHash := .ofNat 256 l1Block.toNat
  sender := 0
  batch := ⟨[], [], [], 0, 0, [], [], [], countingPayload b, [], 0, false⟩
  settlement := ⟨[⟨0, .anchor⟩], some final, some entry, resumed⟩

section
variable {l1Block : UInt64} {b : UInt8} {entry final : B256} {resumed : Bool} {rest : List Post}
  {chain next last : List L2Block} {head : L1CanonicalHead}

theorem countingPost_decoded : decodeOurPayload countingNode (countingPost l1Block b entry final resumed).batch.callData =
    .ok (some ⟨0, ⟨[0], [0], [[b]], []⟩, []⟩) := by
  have read : ∀ n : Fin 256, decodeContainer (countingPayload (.ofFin n)) =
      .ok ⟨0, ⟨[0], [0], [[.ofFin n]], []⟩, []⟩ := by decide +kernel
  simp only [decodeOurPayload, countingPost]
  rw [show countingPayload b = countingPayload (.ofFin b.toFin) from rfl, read]
  rfl

theorem countingPost_derives : Derives countingNode (countingPost l1Block b entry final resumed) := by
  refine ⟨cons_ne_nil _ _, ?_⟩
  rw [countingPost_decoded]
  simp

theorem counting_roots (rising : digits entry ≤ digits final) (chain : RootsChain countingNode digits final rest) :
    RootsChain countingNode digits entry (countingPost l1Block b entry final resumed :: rest) := by
  unfold RootsChain
  rw [if_pos countingPost_derives]
  exact ⟨rfl, final, rfl, rising, chain⟩

theorem counting_replays (fresh : ¬head.isProcessed (countingPost l1Block b entry final resumed).id)
    (replays : Replays countingNode head.finalizedL2 (countingPost l1Block b entry final resumed)
      ⟨0, ⟨[0], [0], [[b]], []⟩, []⟩ final chain next)
    (more : ReplaysAll countingNode digits head rest (next.take (digits final + 1)) last) :
    ReplaysAll countingNode digits head (countingPost l1Block b entry final resumed :: rest) chain last := by
  unfold ReplaysAll
  rw [if_pos ⟨fresh, countingPost_derives⟩]
  exact ⟨_, final, next, countingPost_decoded, rfl, replays, more⟩

theorem counting_fresh {finalized inputs}
    (built : countingNode.execute ⟨entry, 0, [], inputs⟩ [] ⟨0, [b]⟩ = .ok ⟨final, entry, [], ⟨0, [b]⟩⟩) :
    Replays countingNode finalized (countingPost l1Block b entry final false) ⟨0, ⟨[0], [0], [[b]], []⟩, []⟩ final
      [genesis, ⟨entry, 0, [], inputs⟩] [genesis, ⟨entry, 0, [], inputs⟩, ⟨final, entry, [], ⟨0, [b]⟩⟩] := by
  have content : syncOf countingNode ⟨0, ⟨[0], [0], [[b]], []⟩, []⟩ ⟨2, .ofNat 256 l1Block.toNat⟩
      ⟨entry, 0, [], inputs⟩ (countingPost l1Block b entry final false).settlement = .ok (none, []) := rfl
  have held : At [genesis, ⟨entry, 0, [], inputs⟩, ⟨final, entry, [], ⟨0, [b]⟩⟩] 2 final := ⟨_, rfl, rfl⟩
  exact .fresh rfl (cons_ne_nil _ _) rfl rfl content ⟨_, _, _, rfl, rfl, built, rfl⟩ rfl (.inl rfl) held
    (Nat.le_succ _)

theorem counting_resumed {inputs}
    (built : countingNode.execute genesis [] ⟨0, [b]⟩ = .ok ⟨final, 0, [], ⟨0, [b]⟩⟩) (moved : final ≠ entry) :
    Replays countingNode 0 (countingPost l1Block b entry final true) ⟨0, ⟨[0], [0], [[b]], []⟩, []⟩ final
      [genesis, ⟨entry, 0, [], inputs⟩] [genesis, ⟨final, 0, [], ⟨0, [b]⟩⟩] := by
  have content : syncOf countingNode ⟨0, ⟨[0], [0], [[b]], []⟩, []⟩ ⟨1, .ofNat 256 l1Block.toNat⟩ genesis
      (countingPost l1Block b entry final true).settlement = .ok (none, []) := rfl
  have replaced : resumeReplayTxs entry (some final) [] [] = some [] := by
    rw [resumeReplayTxs, if_neg fun same => moved (Option.some.inj same)]
    rfl
  change Replays countingNode 0 _ _ final ([] ++ [genesis, _]) ([] ++ [genesis, _])
  exact .resumed rfl rfl content replaced rfl built (Nat.le_refl _) (.inl rfl) rfl

end

theorem countingChain_chained : Chained countingNode digits [genesis, ⟨7, 0, [], ⟨0, [7]⟩⟩] := by
  have built : countingNode.execute genesis [] ⟨0, [7]⟩ = .ok ⟨7, 0, [], ⟨0, [7]⟩⟩ := by decide
  have last : [genesis].getLast? = some genesis := rfl
  exact genesis_chained.concat countingNode_sealing last built

/-- A node with blocks 0 and 1 and no index, where L1 has posts of blocks 1 and 2. -/
def countingWorld : World :=
  ⟨⟨.empty, 0, [genesis, ⟨7, 0, [], ⟨0, [7]⟩⟩], [], [], []⟩, [countingPost 1 7 0 7 false, countingPost 2 9 7 1801 false]⟩

theorem countingPosts_two (rising : digits 7 ≤ digits final) : L1Posts countingNode digits 0
    [countingPost 1 7 0 7 false, countingPost 2 b 7 final resumed] := by
  refine ⟨by simp [countingPost, PostId.positionLe], ?_, counting_roots (by simp [digits]) (counting_roots rising trivial)⟩
  simp [countingPost]

theorem countingPosts_once : L1Posts countingNode digits 0
    [countingPost 1 7 0 7 false, countingPost 2 9 7 9 true, countingPost 3 5 9 2309 false] := by
  refine ⟨by decide, by decide, counting_roots (by simp [digits]) (counting_roots (by simp [digits]) ?_)⟩
  exact counting_roots (by simp [digits]) trivial

theorem countingWorld_starts : Starts countingNode digits 0 countingWorld :=
  ⟨countingPosts_two (by simp [digits]), countingChain_chained, .inl ⟨rfl, rfl⟩, by decide, rfl, rfl⟩

/-- A boot from the checkpoint of block 1. -/
def countingView (finalized : Option Nat) (chunks : List (Except L1Error (List Post))) : CatchUpView :=
  ⟨fun n => .ok (some (.ofNat 256 n.toNat)), false, some (⟨⟨1, 1, 0⟩, 1, 1⟩, 7), finalized, chunks⟩

theorem countingView_linked {finalized chunks l1 chain} (first : countingPost 1 7 0 7 false ∈ l1) :
    ∀ record ∈ checkpointSeed (countingView finalized chunks) chain, Linked countingNode digits 0 l1 record := by
  intro record seed
  obtain ⟨hash, same, -⟩ := checkpointSeed_held seed
  cases same
  exact .inr ⟨_, first, rfl, countingPost_derives, 7, rfl, by simp [digits]⟩

/-- Block 2 is derived after a boot, reorged, posted anew and found replaced at
the next catch-up. -/
def countingRun (faults : List Bool) : List Step :=
  [.catchUp (countingView (some 1) [.ok [countingPost 2 9 7 1801 false]]) [], .l1Reorg 1 faults,
    .mine [countingPost 2 11 7 1803 false], .batchPosted (countingPost 2 11 7 1803 false) true [],
    .catchUp ⟨fun n => .ok (some (if n = 2 then 5 else .ofNat 256 n.toNat)), false, none, none, []⟩ faults]

theorem countingRun_admits : Runs.Along (step countingNode) (fun w s => w.Admits countingNode digits 0 s) countingWorld
    (countingRun faults) := by
  refine ⟨⟨?_, ?_⟩, ?_, ?_, ?_, ⟨?_, ?_⟩, trivial⟩
  · intro posts hp
    cases mem_singleton.mp hp
    exact ⟨fun p hp => mem_cons_of_mem _ hp, pairwise_singleton _ _⟩
  · intro chain
    exact countingView_linked mem_cons_self
  · simp only [Admits]
    decide +kernel
  · exact countingPosts_two (b := 11) (by simp [digits])
  · exact mem_cons_of_mem _ mem_cons_self
  · intro posts hp
    cases hp
  · intro chain record seed
    cases seed

theorem inOrder_booted : Runs.Throughout (step countingNode) InOrder countingWorld (countingRun [false, false]) := by
  refine inOrder_throughout countingNode_sealing countingNode_recording countingNode_collisionFree countingWorld_starts
    _ (countingRun_admits.and ⟨⟨?_, ?_⟩, ?_, trivial, trivial, ⟨?_, ?_⟩, trivial⟩)
  · exact fun _ => ⟨rfl, by decide⟩
  · intro blank record seed _
    obtain ⟨hash, same, -⟩ := checkpointSeed_held seed
    cases same
    refine ⟨rfl, _, _, _, rfl, counting_replays (by decide) (counting_fresh (by decide)) rfl, ?_⟩
    intro p taken resumed
    obtain rfl := mem_singleton.mp (mem_filter.mp taken).1
    cases resumed
  · exact fun _ _ _ => by decide
  · exact fun _ => ⟨by decide +kernel, by decide⟩
  · intro blank
    exact absurd blank (by decide +kernel)

/-- However its calls fail, the index follows L1, and the cursor lies on a chain
executed block by block. -/
theorem good_throughout (engine : Sealing node numberOf) (start : w.Starts node numberOf root) {run}
    (allowed : Runs.Along (step node) (fun w s => w.Admits node numberOf root s) w run) :
    Runs.Throughout (step node) (fun w => L1Posts node numberOf root w.l1 ∧
      Good .any node numberOf root w.l1 w.deriver) w run := by
  refine Runs.throughout_of_invariant (fun {w s} kept admitted => ?_) ⟨start.posts, start.good.forget⟩ allowed
  refine Good.step steady_any engine kept admitted ?_ ?_
  · rintro ancestor faults rfl
    exact (kept.2.setFaults faults).onL1Reorg steady_any admitted fun _ _ _ => trivial
  · rintro view faults rfl
    refine (kept.2.setFaults faults).catchUpInner steady_any engine kept.1 admitted.1 admitted.2 (fun _ => trivial) ?_
    intro d' good' _ blank record seed
    exact good'.booted_syncBatches blank seed (admitted.2 _ record seed) steady_any engine kept.1 admitted.1 _ trivial

theorem good_one : Runs.Throughout (step countingNode)
    (fun w => L1Posts countingNode digits 0 w.l1 ∧ Good .any countingNode digits 0 w.l1 w.deriver)
    countingWorld (countingRun [false, true]) :=
  good_throughout countingNode_sealing countingWorld_starts countingRun_admits

/-- A reorg whose first read after the retreat of the index fails leaves safe
above the cursor; a boot checkpoint leaves finalized above safe. -/
theorem unordered_retreat : (let run : List Step := [.catchUp (countingView (some 1) [.ok [countingPost 2 9 7 1801 false]]) [],
      .l1Reorg 1 [true]]
     Runs.Along (step countingNode) (fun w s => w.Admits countingNode digits 0 s) countingWorld run ∧
      (run.foldl (step countingNode) countingWorld).deriver.head.cursor <
      (run.foldl (step countingNode) countingWorld).deriver.safeL2Block) ∧
    (Runs.Along (step countingNode) (fun w s => w.Admits countingNode digits 0 s) countingWorld
        [.catchUp (countingView (some 1) []) []] ∧
      (countingWorld.step countingNode (.catchUp (countingView (some 1) []) [])).deriver.safeL2Block <
        (countingWorld.step countingNode (.catchUp (countingView (some 1) []) [])).deriver.head.finalizedL2) := by
  obtain ⟨boot, reorg, -⟩ := @countingRun_admits [true]
  refine ⟨⟨⟨boot, reorg, trivial⟩, by decide +kernel⟩, ⟨⟨⟨?_, ?_⟩, trivial⟩, by decide +kernel⟩⟩
  · intro posts hp
    cases hp
  · intro chain
    exact countingView_linked mem_cons_self

end World

end Eez.Deriver
