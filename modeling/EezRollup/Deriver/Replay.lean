import EezRollup.Deriver.Ordering

/-! What L1 settled is a chain of blocks that follows from the payload and the block the batch
starts at; the deriver reaches it from any local chain that holds the start. -/
namespace Eez.Deriver
open List Octets Outcome Codec Scan Faulty

section
variable (node : Node)

def syncOf (container : DecodedContainer) (ref : BatchRef) (parent : L2Block) (settlement : Settlement) :
    Except DeriverError (Option (List Bytes) × List ExecutionEntrySol) :=
  match node.systemTxCfg with
  | none => .ok (none, [])
  | some cfg => do
    let (outbound, inbound) ← rebuiltDirections node.keccak cfg ref container.actions
    let users := syncUserTxs container.span
    let txs ← rebuildSyncBlock node.keccak cfg ref outbound inbound users settlement.applied
      (node.systemNonce parent.hash)
    let slots ← (selectAppliedSlots settlement.applied outbound inbound users).mapError
      fun e => .localDiverged ref.fromBlock (some e)
    return (some txs, slots.outboundPaired.map Prod.fst)

def slotTxs (syncBlockTxs : Option (List Bytes)) (userTxs : List Bytes) (rest : List (List Bytes)) : List Bytes :=
  match rest, syncBlockTxs with
  | [], some full => full
  | _, _ => userTxs

/-- The blocks of a fresh range, each executed on the one before. -/
def Built (span : DecodedSpan) (syncBlockTxs : Option (List Bytes)) :
    List (List Bytes) → Nat → List L2Block → List L2Block → Prop
  | [], _, chain, chain' => chain' = chain
  | userTxs :: rest, i, chain, chain' => ∃ inputs tip block,
      BlockHeaderInputs.fromSpan span i = .ok inputs ∧ chain.getLast? = some tip ∧
        node.execute tip (slotTxs syncBlockTxs userTxs rest) inputs = .ok block ∧
        Built span syncBlockTxs rest (i + 1) (chain ++ [block]) chain'

def Gated (hash : B256) (gate : List ExecutionEntrySol) : Prop := gate = [] ∨ node.outboundGate hash gate = .ok ()

/-- A batch takes the chain that ends at its entry state to another, which has the
root it settled. Heights up to `finalized` are not replaced. -/
inductive Replays (finalized : Nat) (post : Post) (container : DecodedContainer) (final : B256) :
    List L2Block → List L2Block → Prop where
  | fresh {chain chain' : List L2Block} {parent tip : L2Block} {sync : Option (List Bytes)}
      {gate : List ExecutionEntrySol} {n : Nat}
      (fresh : post.settlement.resumed = false) (filled : container.span.blockTxCounts ≠ [])
      (last : chain.getLast? = some parent) (starts : post.settlement.entryState = some parent.hash)
      (content : syncOf node container ⟨.ofNat chain.length, post.txHash⟩ parent post.settlement = .ok (sync, gate))
      (built : Built node container.span sync
        (blockSlices container.span.blockTxCounts container.span.transactions) 0 chain chain')
      (top : chain'.getLast? = some tip) (gated : Gated node tip.hash gate)
      (held : At chain' n final) (low : chain.length ≤ n + 1) : Replays finalized post container final chain chain'
  | resumed {below : List L2Block} {parent existing block : L2Block} {sync : Option (List Bytes)}
      {gate : List ExecutionEntrySol} {txs : List Bytes} {inputs : BlockHeaderInputs}
      (resumed : post.settlement.resumed = true) (starts : post.settlement.entryState = some existing.hash)
      (content : syncOf node container ⟨.ofNat (below.length + 1), post.txHash⟩ parent post.settlement =
        .ok (sync, gate))
      (replaced : resumeReplayTxs existing.hash (some final) existing.txs (sync.getD []) = some txs)
      (header : BlockHeaderInputs.fromSpan container.span (container.span.blockTxCounts.length - 1) = .ok inputs)
      (built : node.execute parent txs inputs = .ok block) (open_ : finalized ≤ below.length)
      (gated : Gated node final gate) (root : block.hash = final) :
      Replays finalized post container final (below ++ [parent, existing]) (below ++ [parent, block])
  | idle {below : List L2Block} {parent existing : L2Block} {sync : Option (List Bytes)} {gate : List ExecutionEntrySol}
      (resumed : post.settlement.resumed = true) (starts : post.settlement.entryState = some existing.hash)
      (content : syncOf node container ⟨.ofNat (below.length + 1), post.txHash⟩ parent post.settlement =
        .ok (sync, gate))
      (gated : Gated node final gate) (root : existing.hash = final) :
      Replays finalized post container final (below ++ [parent, existing]) (below ++ [parent, existing])

end

def Recording (node : Node) : Prop :=
  ∀ {parent txs inputs block}, node.execute parent txs inputs = .ok block → block.txs = txs ∧ block.inputs = inputs

section
variable {e : Inner} {α : Type}

theorem Succeeds.call (quiet : e.faults = []) (ok : Q () e) : Succeeds (call err) e Q := by
  simp only [Succeeds, Deriver.call, leaves_bind, leaves_get, quiet]
  exact ok

theorem Succeeds.blockByNumber (quiet : e.faults = [])
    (ok : Q e.chain[n]? e) : Succeeds (blockByNumber n) e Q := by
  simp only [Succeeds, Deriver.blockByNumber, leaves_bind]
  exact Succeeds.call quiet ok

theorem Succeeds.l2BlockAt (quiet : e.faults = [])
    (held : e.chain[n]? = some b) (ok : Q b e) : Succeeds (l2BlockAt n) e Q := by
  simp only [Succeeds, Deriver.l2BlockAt, leaves_bind]
  refine Succeeds.blockByNumber quiet ?_
  rw [held]
  exact ok

theorem Succeeds.l2HashAt {n hash} (quiet : e.faults = []) (held : At e.chain n hash)
    (ok : Q hash e) : Succeeds (l2HashAt n) e Q := by
  obtain ⟨b, hb, rfl⟩ := held
  simp only [Succeeds, Deriver.l2HashAt, leaves_bind]
  exact Succeeds.l2BlockAt quiet hb ok

theorem Succeeds.blockAt (quiet : e.faults = [])
    (ok : Q (e.chain.findIdx? (·.hash = c)) e) : Succeeds (blockAt c) e Q := by
  simp only [Succeeds, Deriver.blockAt, leaves_bind]
  exact Succeeds.call quiet ok

theorem Succeeds.lift (done : x = .ok a) (ok : Q a e) : Succeeds (lift x : M α) e Q := by
  rw [done]
  exact ok

theorem Succeeds.hashOr {given n hash} (quiet : e.faults = []) (same : ∀ h ∈ given, h = hash)
    (held : At e.chain n hash) (ok : Q hash e) : Succeeds (hashOr given n) e Q := by
  cases given with
  | some h =>
    rw [same h rfl]
    exact ok
  | none => exact Succeeds.l2HashAt quiet held ok

end

variable {node : Node} {numberOf : B256 → Nat} {head : L1CanonicalHead} {chain chain' : List L2Block} {e : Inner}

/-- The local chain holds at least `chain`, and no call fails. -/
structure Ready (node : Node) (numberOf : B256 → Nat) (head : L1CanonicalHead) (chain : List L2Block) (e : Inner) :
    Prop where
  head_eq : e.head = head
  quiet : e.faults = []
  chained : Chained node numberOf e.chain
  below : chain <+: e.chain

variable {hash : B256} {n fromBlock : Nat} {tip : L2Block} {span : DecodedSpan} {sync : Option (List Bytes)}
  {settlement : Settlement} {Q : Unit → Inner → Prop}

theorem At.of_below (held : At chain n hash) (below : chain <+: chain') : At chain' n hash := by
  obtain ⟨b, hb, same⟩ := held
  obtain ⟨rest, rfl⟩ := below
  exact ⟨b, (getElem?_append_left (List.getElem?_eq_some_iff.mp hb).1).trans hb, same⟩

theorem Ready.getElem? (ready : Ready node numberOf head chain e) (held : chain[n]? = some b) :
    e.chain[n]? = some b := by
  obtain ⟨rest, eq⟩ := ready.below
  rw [← eq]
  exact (getElem?_append_left (List.getElem?_eq_some_iff.mp held).1).trans held

theorem Ready.take_length (ready : Ready node numberOf head chain e) : e.chain.take chain.length = chain :=
  (prefix_iff_eq_take.mp ready.below).symm

theorem Ready.chained_left (ready : Ready node numberOf head chain e) : Chained node numberOf chain := by
  have := ready.chained.take chain.length
  rwa [ready.take_length] at this

theorem getElem?_of_getLast? (last : chain.getLast? = some tip) : chain[chain.length - 1]? = some tip := by
  rw [← getLast?_eq_getElem?]
  exact last

theorem Chained.findIdx? (chained : Chained node numberOf chain) (held : At chain n hash) :
    chain.findIdx? (·.hash = hash) = some n := by
  have isSome : (chain.findIdx? (·.hash = hash)).isSome := by
    obtain ⟨b, hb, same⟩ := held
    rw [findIdx?_isSome, any_eq_true]
    exact ⟨b, mem_of_getElem? hb, decide_eq_true same⟩
  obtain ⟨m, found⟩ := Option.isSome_iff_exists.mp isSome
  rw [found, ← chained.number (at_of_findIdx? found), chained.number held]

theorem Ready.replayBlock (ready : Ready node numberOf head chain e) (engine : Sealing node numberOf)
    (last : chain.getLast? = some tip) (built : node.execute tip txs inputs = .ok block)
    (place : parent + 1 = chain.length) :
    Succeeds (replayBlock node parent txs inputs) e
      (fun hash e' => hash = block.hash ∧ Ready node numberOf head (chain ++ [block]) e') := by
  have held : chain[parent]? = some tip := by
    rw [← getElem?_of_getLast? last, ← place]
    rfl
  simp only [Deriver.replayBlock, commitDerived, Succeeds, leaves_bind]
  refine Succeeds.l2BlockAt ready.quiet (ready.getElem? held) (Succeeds.lift built (Succeeds.call ready.quiet ?_))
  rw [leaves_modify]
  have cut : e.chain.take (parent + 1) = chain := by
    rw [place]
    exact ready.take_length
  refine ⟨rfl, ready.head_eq, ready.quiet, ?_, ?_⟩
  · have chained := ready.chained.take (parent + 1)
    rw [cut] at chained ⊢
    exact chained.concat engine last built
  · exact ⟨[], by rw [cut, append_nil]⟩

theorem Ready.local_matches (ready : Ready node numberOf head chain e) (records : Recording node)
    (last : chain.getLast? = some tip) (built : node.execute tip txs inputs = .ok block)
    (held : e.chain[chain.length]? = some b) (sameTxs : b.txs = txs) (sameInputs : b.inputs = inputs) :
    Ready node numberOf head (chain ++ [block]) e := by
  obtain ⟨before, rfl⟩ := getLast?_eq_some_iff.mp last
  have place : (before ++ [tip]).length = before.length + 1 := by simp
  rw [place] at held
  obtain ⟨parent, txs', inputs', hp, executed⟩ := ready.chained.built held
  have same : parent = tip := by
    have := ready.getElem? (getElem?_concat_length (l := before) (a := tip))
    rw [hp] at this
    exact Option.some.inj this
  obtain ⟨rfl, rfl⟩ := records executed
  rw [same, sameTxs, sameInputs, built] at executed
  obtain rfl : block = b := Except.ok.inj executed
  refine ⟨ready.head_eq, ready.quiet, ready.chained, ?_⟩
  have next := take_add_one (l := e.chain) (i := before.length + 1)
  rw [held, ← place, ready.take_length] at next
  exact prefix_iff_eq_take.mpr (by rw [length_append, length_singleton, next]; rfl)

theorem Built.chained (engine : Sealing node numberOf) :
    ∀ {i chain}, Built node span sync slices i chain chain' → Chained node numberOf chain →
      Chained node numberOf chain' ∧ chain <+: chain' ∧ chain'.length = chain.length + slices.length := by
  induction slices with
  | nil =>
    rintro i chain rfl chained
    exact ⟨chained, prefix_refl _, rfl⟩
  | cons userTxs rest ih =>
    rintro i chain ⟨inputs, tip, block, -, last, executed, built⟩ chained
    obtain ⟨chained, below, length⟩ := ih built (chained.concat engine last executed)
    refine ⟨chained, (prefix_append _ _).trans below, ?_⟩
    rw [length, length_append, length_singleton, length_cons]
    omega

/-- Whatever part of the range is there, the loop ends with all of it. -/
theorem Ready.reconcileRange (engine : Sealing node numberOf) (records : Recording node) (positive : 0 < fromBlock) :
    ∀ {i chain e} (active : Bool) (replayed : Nat),
      Ready node numberOf head chain e → Built node span sync slices i chain chain' → chain.length = fromBlock + i →
      Succeeds (reconcileRange node span sync fromBlock slices i active replayed) e (fun r e' =>
        Ready node numberOf head chain' e' ∧ ∀ hash ∈ r.2, chain'.getLast?.map L2Block.hash = some hash) := by
  induction slices with
  | nil =>
    rintro i chain e active replayed ready rfl length
    exact ⟨ready, by simp⟩
  | cons userTxs rest ih =>
    rintro i chain e active replayed ready ⟨inputs, tip, block, header, last, executed, built⟩ length
    have next : (chain ++ [block]).length = fromBlock + (i + 1) := by
      rw [length_append, length_singleton, length]
      omega
    simp only [Succeeds, Deriver.reconcileRange, leaves_bind]
    refine Succeeds.lift header (Succeeds.blockByNumber ready.quiet ?_)
    refine Leaves.ite (fun _ => ?_) fun matched => ?_
    · rw [leaves_bind]
      refine (ready.replayBlock engine last executed (by omega)).mono ?_ fun _ failed => failed
      rintro _ e' ⟨rfl, ready⟩
      refine Leaves.ite (fun done => ?_) fun _ => ih true _ ready built next
      subst done
      obtain rfl : chain' = chain ++ [block] := built
      exact ⟨ready, by simp⟩
    · have matched : (e.chain[fromBlock + i]?.any fun b => b.txs = slotTxs sync userTxs rest ∧ b.inputs = inputs) := by
        rw [Bool.or_eq_true, not_or, Bool.not_eq_true', Bool.not_eq_false] at matched
        exact matched.2
      obtain ⟨b, held, same⟩ : ∃ b, e.chain[fromBlock + i]? = some b ∧
          b.txs = slotTxs sync userTxs rest ∧ b.inputs = inputs := by
        cases held : e.chain[fromBlock + i]? with
        | none => simp [held] at matched
        | some b => exact ⟨b, rfl, by simpa [held] using matched⟩
      rw [← length] at held
      exact ih false _ (ready.local_matches records last executed held same.1 same.2) built next

theorem Succeeds.syncContent {Q : Option (List Bytes) × List ExecutionEntrySol → Inner → Prop} (quiet : e.faults = [])
    (held : e.chain[fromBlock - 1]? = some parent) (rebuilt : syncOf node container ref parent settlement = .ok content)
    (ok : Q content e) :
    Succeeds (syncContent node container ref fromBlock settlement) e Q := by
  unfold syncOf at rebuilt
  rw [Deriver.syncContent]
  cases cfg : node.systemTxCfg with
  | none =>
    rw [cfg] at rebuilt
    cases rebuilt
    exact ok
  | some cfg' =>
    rw [cfg] at rebuilt
    obtain ⟨⟨outbound, inbound⟩, directions, rebuilt⟩ := bind_eq_ok.mp rebuilt
    obtain ⟨txs, full, rebuilt⟩ := bind_eq_ok.mp rebuilt
    obtain ⟨slots, selected, rebuilt⟩ := bind_eq_ok.mp rebuilt
    cases rebuilt
    simp only [Succeeds, leaves_bind]
    exact Succeeds.lift directions (Succeeds.l2BlockAt quiet held (Succeeds.lift full (Succeeds.lift selected ok)))

theorem Ready.boundary (ready : Ready node numberOf head chain e) (engine : Sealing node numberOf)
    (positive : 0 < fromBlock) {Q} (ok : Q (e.chain[fromBlock]?).isSome e) :
    Succeeds (localBatchBoundaryMatches fromBlock) e Q := by
  obtain ⟨n, rfl⟩ : ∃ n, fromBlock = n + 1 := ⟨fromBlock - 1, by omega⟩
  simp only [Succeeds, Deriver.localBatchBoundaryMatches, leaves_bind]
  refine Succeeds.blockByNumber ready.quiet ?_
  cases held : e.chain[n + 1]? with
  | none =>
    rw [held] at ok
    exact ok
  | some b =>
    rw [held] at ok
    obtain ⟨parent, txs, inputs, hp, built⟩ := ready.chained.built held
    simp only [Nat.add_one_ne_zero, if_false, leaves_bind, Nat.add_sub_cancel]
    refine Succeeds.l2BlockAt ready.quiet hp ?_
    simpa [engine.parent built] using ok

theorem Ready.reconcileFresh (ready : Ready node numberOf head chain e) (engine : Sealing node numberOf)
    (records : Recording node) (distinct : CollisionFree node) (filled : span.blockTxCounts ≠ [])
    (some_ : 0 < chain.length) (settles : settlement.finalState = some final)
    (built : Built node span sync (blockSlices span.blockTxCounts span.transactions) 0 chain chain')
    (held : At chain' n final) (stale : Bool) :
    Succeeds (reconcileFresh node span sync settlement chain.length stale) e (fun r e' =>
      Ready node numberOf head chain' e' ∧ ∀ hash ∈ r.2, chain'.getLast?.map L2Block.hash = some hash) := by
  obtain ⟨chained', below, length⟩ := built.chained engine ready.chained_left
  rw [blockSlices_length] at length
  have nonempty : 0 < span.blockTxCounts.length := length_pos_iff.mpr filled
  simp only [Succeeds, Deriver.reconcileFresh, leaves_bind]
  refine Succeeds.blockByNumber ready.quiet (Leaves.ite (fun derived => ?_) fun _ => ?_)
  · -- the last block of the range is the settled root, so the whole range is there
    have terminal : At e.chain (chain.length + (span.blockTxCounts.length - 1)) final := by
      unfold rangeAlreadyDerived at derived
      split at derived
      next terminal settled is settles' =>
        obtain ⟨b, hb, rfl⟩ := Option.map_eq_some_iff.mp is
        rw [settles] at settles'
        cases settles'
        exact ⟨b, hb, of_decide_eq_true derived⟩
      next => cases derived
    have height : n = chain.length + (span.blockTxCounts.length - 1) := by
      rw [← chained'.number held, ready.chained.number terminal]
    have genesis : chain'[0]? = e.chain[0]? := by
      obtain ⟨more, rfl⟩ := below
      obtain ⟨rest, eq⟩ := ready.below
      rw [← eq, getElem?_append_left some_, getElem?_append_left some_]
    rw [height] at held
    have same := chained'.take_eq ready.chained engine distinct genesis held terminal
    refine ⟨⟨ready.head_eq, ready.quiet, ready.chained, ?_⟩, by simp⟩
    rw [take_of_length_le (by omega)] at same
    rw [same]
    exact take_prefix _ _
  · exact Ready.reconcileRange engine records some_ stale 0 ready built rfl

theorem Ready.checkOutbound (ready : Ready node numberOf head chain e) {gate ref toBlock given}
    (gated : Gated node hash gate) (held : At e.chain toBlock hash) (same : ∀ h ∈ given, h = hash) (ok : Q () e) :
    Succeeds (checkOutbound node gate ref toBlock given) e Q := by
  rw [Deriver.checkOutbound]
  refine Leaves.ite (fun _ => ok) fun paid => ?_
  rw [leaves_bind]
  refine Succeeds.hashOr ready.quiet same held (Succeeds.lift ?_ ok)
  rw [gated.resolve_left paid]
  rfl

theorem Ready.retreatForResume (ready : Ready node numberOf head chain e)
    (held : chain[fromBlock - 1]? = some parent) (open_ : head.finalizedL2 < fromBlock) :
    Succeeds (retreatForResume fromBlock) e (fun _ e' => Ready node numberOf head chain e' ∧ e'.chain = e.chain) := by
  have last := (List.getElem?_eq_some_iff.mp (ready.getElem? held)).1
  rw [Deriver.retreatForResume, Succeeds, leaves_bind, leaves_get, ready.head_eq]
  refine Leaves.ite (fun _ => ?_) fun _ => ⟨ready, rfl⟩
  rw [if_neg (Nat.not_le.mpr open_)]
  simp only [advanceSafeFinalized, leaves_bind]
  refine Succeeds.l2BlockAt ready.quiet (ready.getElem? held) ?_
  refine Succeeds.l2BlockAt ready.quiet (getElem?_eq_getElem (show head.finalizedL2 < e.chain.length by omega)) ?_
  rw [leaves_modify]
  refine Succeeds.call ready.quiet ?_
  rw [leaves_modify]
  exact ⟨⟨ready.head_eq, ready.quiet, ready.chained, ready.below⟩, rfl⟩

section
variable {below : List L2Block} {parent existing block : L2Block} {span : DecodedSpan} {new txs : List Bytes}
  {inputs : BlockHeaderInputs} {settlement : Settlement} {ref : BatchRef} {final : B256}

theorem Ready.reconcileResumed (ready : Ready node numberOf head (below ++ [parent, existing]) e)
    (engine : Sealing node numberOf) (settles : settlement.finalState = some final)
    (replaced : resumeReplayTxs existing.hash (some final) existing.txs new = some txs)
    (header : BlockHeaderInputs.fromSpan span (span.blockTxCounts.length - 1) = .ok inputs)
    (built : node.execute parent txs inputs = .ok block) (open_ : head.finalizedL2 ≤ below.length) :
    Succeeds (reconcileResumed node span new settlement ref (below.length + 1) false) e (fun r e' =>
      Ready node numberOf head (below ++ [parent, block]) e' ∧ ∀ hash ∈ r.2, hash = block.hash) := by
  have here : (below ++ [parent, existing])[below.length + 1]? = some existing := by simp
  have before : (below ++ [parent, existing])[below.length + 1 - 1]? = some parent := by simp
  simp only [Succeeds, Deriver.reconcileResumed, Bool.false_eq_true, if_false, leaves_bind]
  refine Succeeds.l2BlockAt ready.quiet (ready.getElem? here) ?_
  refine Succeeds.l2HashAt ready.quiet ⟨existing, ready.getElem? here, rfl⟩ ?_
  rw [settles, replaced]
  simp only [leaves_bind]
  refine (ready.retreatForResume before (Nat.lt_succ_of_le open_)).mono ?_ fun _ failed => failed
  rintro _ e' ⟨ready, -⟩
  refine Succeeds.lift header ?_
  rw [leaves_modify]
  have cut : (below ++ [parent, existing]) = (below ++ [parent]) ++ [existing] := by simp
  have shorter : Ready node numberOf head (below ++ [parent])
      { e' with rewritten := e'.rewritten ++ [(below.length + 1, e'.head.finalizedL2)] } :=
    ⟨ready.head_eq, ready.quiet, ready.chained, ((prefix_append _ _).trans (cut ▸ ready.below))⟩
  refine (shorter.replayBlock engine (by simp) built (by simp)).mono ?_ fun _ failed => failed
  rintro _ e'' ⟨rfl, ready⟩
  refine ⟨?_, by simp⟩
  rw [append_assoc] at ready
  exact ready

theorem Ready.resumed_idle (ready : Ready node numberOf head (below ++ [parent, existing]) e)
    (settles : settlement.finalState = some existing.hash) :
    Succeeds (Deriver.reconcileResumed node span new settlement ref (below.length + 1) false) e (fun r e' =>
      Ready node numberOf head (below ++ [parent, existing]) e' ∧ ∀ hash ∈ r.2, hash = existing.hash) := by
  have here : (below ++ [parent, existing])[below.length + 1]? = some existing := by simp
  simp only [Succeeds, Deriver.reconcileResumed, Bool.false_eq_true, if_false, leaves_bind]
  refine Succeeds.l2BlockAt ready.quiet (ready.getElem? here) ?_
  refine Succeeds.l2HashAt ready.quiet ⟨existing, ready.getElem? here, rfl⟩ ?_
  rw [settles, resumeReplayTxs, if_pos rfl]
  exact ⟨ready, by simp⟩

end

theorem Ready.checkEntryRoot (ready : Ready node numberOf head chain e)
    (starts : ∀ root ∈ entryRoot, At e.chain (fromBlock - 1) root) (ok : Q () e) :
    Succeeds (checkEntryRoot entryRoot fromBlock) e Q := by
  cases entryRoot with
  | none => exact ok
  | some root =>
    simp only [Succeeds, Deriver.checkEntryRoot, leaves_bind]
    refine Succeeds.l2HashAt ready.quiet (starts root rfl) ?_
    rw [if_pos rfl]
    exact ok

theorem Ready.checkClaimedState (ready : Ready node numberOf head chain e)
    {anchor toBlock} (starts : ∀ root ∈ entryRoot, At e.chain (fromBlock - 1) root)
    (long : toBlock < e.chain.length) (held : At e.chain n final) (low : anchor ≤ n) (high : n ≤ toBlock)
    {Q} (ok : Q (some n) e) :
    Succeeds (checkClaimedState entryRoot (some final) anchor fromBlock toBlock given) e Q := by
  simp only [Succeeds, Deriver.checkClaimedState, leaves_bind]
  refine ready.checkEntryRoot starts ?_
  rw [leaves_get, if_neg (by omega), leaves_bind]
  refine Succeeds.blockAt ready.quiet ?_
  rw [ready.chained.findIdx? held, inSettleableRange_eq_some.mpr ⟨rfl, low, high⟩]
  exact ok

theorem Ready.batchStart (ready : Ready node numberOf head chain e)
    (height : numberOf entry = cursor) {Q} (ok : Q cursor e) :
    Succeeds (batchStart cursor (some entry) window) e Q := by
  simp only [Succeeds, Deriver.batchStart, batchAnchor, leaves_bind]
  refine Succeeds.blockAt ready.quiet ?_
  have start : (inSettleableRange (e.chain.findIdx? (·.hash = entry)) (cursor - window) cursor).getD cursor
    = cursor := by
    cases found : e.chain.findIdx? (·.hash = entry) with
    | none => rfl
    | some m =>
      have same : m = cursor := by rw [← ready.chained.number (at_of_findIdx? found), height]
      rw [inSettleableRange_eq_some.mpr ⟨rfl, by omega, by omega⟩, Option.getD_some, same]
  simp only [leaves_pure, start]
  exact ok

theorem Ready.checkCursorRoot (ready : Ready node numberOf head chain e) (starts : settlement.entryState = some entry)
    (held : At e.chain anchor hash) (accepted : cursorRootAccepted hash entry settlement.finalState) (ok : Q () e) :
    Succeeds (checkCursorRoot anchor fromBlock settlement) e Q := by
  rw [Deriver.checkCursorRoot, starts]
  simp only [leaves_bind]
  refine Succeeds.l2HashAt ready.quiet held ?_
  rw [if_pos accepted]
  exact ok

section
variable {post : Post} {container : DecodedContainer} {final : B256}

theorem Ready.deriveFresh (ready : Ready node numberOf head chain e) (engine : Sealing node numberOf)
    (records : Recording node) (distinct : CollisionFree node) (settles : post.settlement.finalState = some final)
    (fresh : post.settlement.resumed = false) (filled : container.span.blockTxCounts ≠ [])
    (last : chain.getLast? = some parent) (starts : post.settlement.entryState = some parent.hash)
    (content : syncOf node container ⟨.ofNat chain.length, post.txHash⟩ parent post.settlement = .ok (sync, gate))
    (built : Built node container.span sync (blockSlices container.span.blockTxCounts container.span.transactions) 0
      chain chain')
    (top : chain'.getLast? = some tip) (gated : Gated node tip.hash gate) (held : At chain' n final)
    (low : chain.length ≤ n + 1) :
    Succeeds (deriveBatch node (chain.length - 1) post container) e
      (fun r e' => r.2 = numberOf final ∧ Ready node numberOf head chain' e') := by
  have here : chain[chain.length - 1]? = some parent := getElem?_of_getLast? last
  have long : 0 < chain.length := by
    have := (List.getElem?_eq_some_iff.mp here).1
    omega
  obtain ⟨-, below, length⟩ := built.chained engine ready.chained_left
  rw [blockSlices_length] at length
  have nonempty : 0 < container.span.blockTxCounts.length := length_pos_iff.mpr filled
  have entry : At chain (chain.length - 1) parent.hash := ⟨parent, here, rfl⟩
  have entry' := entry.of_below ready.below
  rw [Deriver.deriveBatch, Succeeds, leaves_bind, starts]
  refine ready.batchStart (ready.chained.number entry') ?_
  simp only [batchL2Range, fresh, Bool.false_eq_true, if_false, leaves_bind]
  refine ready.checkCursorRoot starts entry' (.inl rfl) ?_
  rw [Nat.sub_add_cancel long]
  simp only [reconcileBatchBlocks, leaves_bind]
  refine Succeeds.syncContent ready.quiet (ready.getElem? here) content ?_
  refine ready.boundary engine long ?_
  simp only [fresh, Bool.false_eq_true, if_false, leaves_bind]
  refine (ready.reconcileFresh engine records distinct filled long settles built held _).mono ?_ fun _ failed => failed
  rintro ⟨replayed, given⟩ e' ⟨ready', same⟩
  have tipAt : At e'.chain (chain.length + (container.span.blockTxCounts.length - 1)) tip.hash := by
    have place : chain'.length - 1 = chain.length + (container.span.blockTxCounts.length - 1) := by omega
    rw [← place]
    exact ⟨tip, ready'.getElem? (getElem?_of_getLast? top), rfl⟩
  have given_tip : ∀ h ∈ given, h = tip.hash := by
    intro h hh
    have := same h hh
    rw [top] at this
    exact (Option.some.inj this).symm
  refine ready'.checkOutbound gated tipAt given_tip ?_
  have high : n < chain'.length := held.lt
  have long' : chain'.length ≤ e'.chain.length := ready'.below.length_le
  have height : numberOf final = n := ready'.chained.number (held.of_below ready'.below)
  rw [leaves_pure, settles]
  refine ready'.checkClaimedState ?_ ?_ (held.of_below ready'.below) ?_ ?_ ⟨height.symm, ready'⟩
  · rintro _ ⟨⟩
    exact (entry.of_below below).of_below ready'.below
  · rw [DecodedSpan.blockCount]
    omega
  · omega
  · rw [DecodedSpan.blockCount]
    omega

theorem Ready.deriveResumed {below parent there block sync}
    {gate entry} (ready : Ready node numberOf head (below ++ [parent, there]) e)
    (engine : Sealing node numberOf) (settles : post.settlement.finalState = some final)
    (resumed : post.settlement.resumed = true) (starts : post.settlement.entryState = some entry)
    (height : numberOf entry = below.length + 1)
    (accepted : cursorRootAccepted there.hash entry post.settlement.finalState)
    (content : syncOf node container ⟨.ofNat (below.length + 1), post.txHash⟩ parent post.settlement = .ok (sync, gate))
    (gated : Gated node final gate) (root : block.hash = final)
    (step : Succeeds (Deriver.reconcileResumed node container.span (sync.getD []) post.settlement
      ⟨.ofNat (below.length + 1), post.txHash⟩ (below.length + 1) false) e (fun r e' =>
        Ready node numberOf head (below ++ [parent, block]) e' ∧ ∀ hash ∈ r.2, hash = block.hash)) :
    Succeeds (deriveBatch node (below.length + 1) post container) e
      (fun r e' => r.2 = numberOf final ∧ Ready node numberOf head (below ++ [parent, block]) e') := by
  have here : At e.chain (below.length + 1) there.hash := ⟨there, ready.getElem? (by simp), rfl⟩
  have before : e.chain[below.length + 1 - 1]? = some parent := ready.getElem? (by simp)
  rw [Deriver.deriveBatch, Succeeds, leaves_bind, starts]
  refine ready.batchStart height ?_
  simp only [batchL2Range, resumed, if_true, leaves_bind]
  refine ready.checkCursorRoot starts here accepted ?_
  simp only [reconcileBatchBlocks, leaves_bind]
  refine Succeeds.syncContent ready.quiet before content ?_
  refine ready.boundary engine (Nat.succ_pos _) ?_
  obtain ⟨b, hb, -⟩ := here
  simp only [hb, Option.isSome_some, Bool.not_true, resumed, if_true, leaves_bind]
  refine step.mono ?_ fun _ failed => failed
  rintro ⟨replayed, given⟩ e' ⟨ready', same⟩
  have held : At e'.chain (below.length + 1) final := ⟨block, ready'.getElem? (by simp), root⟩
  refine ready'.checkOutbound gated held (root ▸ same) ?_
  rw [leaves_pure, settles]
  refine ready'.checkClaimedState (by simp) held.lt held (Nat.le_refl _) (Nat.le_refl _) ⟨?_, ready'⟩
  exact (ready'.chained.number held).symm

/-- A batch is derived from any local chain that holds its start. -/
theorem Ready.deriveBatch (ready : Ready node numberOf head chain e) (engine : Sealing node numberOf)
    (records : Recording node) (distinct : CollisionFree node) (settles : post.settlement.finalState = some final)
    (replays : Replays node head.finalizedL2 post container final chain chain') :
    Succeeds (deriveBatch node (chain.length - 1) post container) e
      (fun r e' => r.2 = numberOf final ∧ Ready node numberOf head chain' e') := by
  cases replays with
  | fresh fresh filled last starts content built top gated held low =>
    exact ready.deriveFresh engine records distinct settles fresh filled last starts content built top gated held low
  | @resumed below parent existing block sync gate txs inputs resumed starts content replaced header built open_
    gated root =>
    have height : numberOf existing.hash = below.length + 1 := ready.chained_left.numbered (by simp)
    rw [length_append]
    refine ready.deriveResumed engine settles resumed starts height (.inl rfl) content gated root ?_
    exact ready.reconcileResumed engine settles replaced header built open_
  | @idle below parent existing sync gate resumed starts content gated root =>
    have height : numberOf existing.hash = below.length + 1 := ready.chained_left.numbered (by simp)
    rw [length_append]
    refine ready.deriveResumed engine settles resumed starts height (.inl rfl) content gated root ?_
    exact ready.resumed_idle (settles.trans (congrArg some root.symm))

theorem Ready.deriveBatch_again (ready : Ready node numberOf head chain' e) (chained : Chained node numberOf chain)
    (engine : Sealing node numberOf) (settles : post.settlement.finalState = some final)
    (resumed : post.settlement.resumed = true)
    (replays : Replays node head.finalizedL2 post container final chain chain') :
    Succeeds (Deriver.deriveBatch node (chain.length - 1) post container) e
      (fun r e' => r.2 = numberOf final ∧ Ready node numberOf head chain' e') := by
  cases replays with
  | fresh fresh => simp [fresh] at resumed
  | @resumed below parent existing block sync gate txs inputs _ starts content replaced header built open_ gated root =>
    have height : numberOf existing.hash = below.length + 1 := chained.numbered (by simp)
    rw [length_append]
    refine ready.deriveResumed engine settles resumed starts height (.inr ?_) content gated root ?_
    · rw [settles, root]
    · exact ready.resumed_idle (settles.trans (congrArg some root.symm))
  | @idle below parent existing sync gate _ starts content gated root =>
    have height : numberOf existing.hash = below.length + 1 := chained.numbered (by simp)
    rw [length_append]
    refine ready.deriveResumed engine settles resumed starts height (.inl rfl) content gated root ?_
    exact ready.resumed_idle (settles.trans (congrArg some root.symm))

theorem Replays.settled (replays : Replays node finalized post container final chain chain') :
    ∃ n, At chain' n final ∧ chain.length ≤ n + 1 := by
  cases replays with
  | @fresh _ _ _ _ _ _ n _ _ _ _ _ _ _ _ held low => exact ⟨n, held, low⟩
  | @resumed below _ _ block _ _ _ _ _ _ _ _ _ _ _ _ root =>
    exact ⟨below.length + 1, ⟨block, by simp, root⟩, by simp⟩
  | @idle below _ existing _ _ _ _ _ _ root => exact ⟨below.length + 1, ⟨existing, by simp, root⟩, by simp⟩

end

/-- The record a post leaves: it ends at the height of its settled root. -/
def recordOf (numberOf : B256 → Nat) (post : Post) : BatchRecord :=
  ⟨post.id, post.txHash, numberOf (post.settlement.finalState.getD 0)⟩

/-- The posts that are taken replay one after the other, each on the chain cut
where the one before it was settled. -/
def ReplaysAll (node : Node) (numberOf : B256 → Nat) (head : L1CanonicalHead) :
    List Post → List L2Block → List L2Block → Prop
  | [], chain, last => last = chain
  | post :: rest, chain, last =>
    if ¬head.isProcessed post.id ∧ Derives node post then
      ∃ container final next, decodeOurPayload node post.batch.callData = .ok (some container) ∧
        post.settlement.finalState = some final ∧ Replays node head.finalizedL2 post container final chain next ∧
        ReplaysAll node numberOf head rest (next.take (numberOf final + 1)) last
    else ReplaysAll node numberOf head rest chain last

section
variable {post : Post} {rest : List Post} {container : DecodedContainer} {cursor replayed : Nat}
  {batches : List BatchRecord} {Q : List BatchRecord × Nat × Nat → Inner → Prop} {E : Inner → Prop}

theorem leaves_scanned_skip (idle : ¬(¬e.head.isProcessed post.id ∧ Derives node post)) :
    Leaves (reconcileScanned node (post :: rest) cursor batches replayed) e Q E ↔
      Leaves (reconcileScanned node rest cursor batches replayed) e Q E := by
  simp only [reconcileScanned, leaves_bind, leaves_get]
  split
  next => rfl
  next new =>
    split
    next => rfl
    next settled =>
      have foreign : decodeOurPayload node post.batch.callData = .ok none := by
        by_contra ours
        exact idle ⟨new, settled, ours⟩
      rw [foreign]
      rfl

theorem leaves_scanned_take (taken : ¬e.head.isProcessed post.id ∧ Derives node post)
    (decoded : decodeOurPayload node post.batch.callData = .ok (some container)) :
    Leaves (reconcileScanned node (post :: rest) cursor batches replayed) e Q E ↔
      Leaves (deriveBatch node cursor post container) e (fun r e' =>
        Leaves (reconcileScanned node rest r.2 (batches ++ [⟨post.id, post.txHash, r.2⟩]) (replayed + r.1)) e' Q E)
        E := by
  simp only [reconcileScanned, leaves_bind, leaves_get, if_neg taken.1, if_neg taken.2.1, decoded, lift, leaves_pure]

end

theorem Ready.take (ready : Ready node numberOf head chain e) (n : Nat) : Ready node numberOf head (chain.take n) e :=
  ⟨ready.head_eq, ready.quiet, ready.chained, ( take_prefix _ _).trans ready.below⟩

def Loops (node : Node) (numberOf : B256 → Nat) (head : L1CanonicalHead) (posts : List Post) (cursor : Nat)
    (last : List L2Block) (e : Inner) : Prop :=
  ∀ (batches : List BatchRecord) (replayed : Nat),
    Succeeds (reconcileScanned node posts cursor batches replayed) e (fun r e' =>
      r.1 = batches ++ (takes node head posts).map (recordOf numberOf) ∧ r.2.1 = last.length - 1 ∧
        cursor < last.length ∧ Ready node numberOf head last e')

variable {post : Post} {cursor : Nat} {posts later : List Post} {hash : B256}

theorem Loops.cons {next}
    (taken : ¬head.isProcessed post.id ∧ Derives node post) (head_eq : e.head = head)
    (decoded : decodeOurPayload node post.batch.callData = .ok (some container))
    (settles : post.settlement.finalState = some final) (long : 0 < chain.length)
    (replays : Replays node head.finalizedL2 post container final chain next)
    (derived : Succeeds (deriveBatch node (chain.length - 1) post container) e
      (fun r e' => r.2 = numberOf final ∧ Ready node numberOf head next e'))
    (more : ∀ {e'}, Ready node numberOf head (next.take (numberOf final + 1)) e' →
      0 < (next.take (numberOf final + 1)).length →
      Loops node numberOf head rest ((next.take (numberOf final + 1)).length - 1) last e') :
    Loops node numberOf head (post :: rest) (chain.length - 1) last e := by
  intro batches replayed
  rw [Succeeds, leaves_scanned_take (head_eq ▸ taken) decoded, takes_pos taken.1 taken.2]
  refine derived.mono ?_ fun _ failed => failed
  rintro ⟨here, _⟩ e' ⟨rfl, ready'⟩
  obtain ⟨n, held, low⟩ := replays.settled
  have height : numberOf final = n := ready'.chained_left.number held
  have bound := held.lt
  have size : (next.take (numberOf final + 1)).length = n + 1 := by
    rw [length_take]
    omega
  have cursor : numberOf final = (next.take (numberOf final + 1)).length - 1 := by omega
  have rest := more (ready'.take (numberOf final + 1)) (by omega) (batches ++ [⟨post.id, post.txHash, numberOf final⟩])
    (replayed + here)
  rw [← cursor] at rest
  refine rest.mono ?_ fun _ failed => failed
  rintro r e'' ⟨recorded, reached, grown, ready''⟩
  refine ⟨?_, reached, by omega, ready''⟩
  rw [recorded, map_cons, append_assoc, recordOf, settles]
  rfl

theorem Loops.skip (head_eq : e.head = head) (idle : ¬(¬head.isProcessed post.id ∧ Derives node post))
    (more : Loops node numberOf head rest cursor last e) :
    Loops node numberOf head (post :: rest) cursor last e := by
  intro batches replayed
  rw [Succeeds, leaves_scanned_skip (head_eq ▸ idle), takes_neg idle]
  exact more batches replayed

theorem Ready.reconcileScanned (engine : Sealing node numberOf) (records : Recording node)
    (distinct : CollisionFree node) :
    ∀ {chain e}, Ready node numberOf head chain e → 0 < chain.length →
      ReplaysAll node numberOf head posts chain last → Loops node numberOf head posts (chain.length - 1) last e := by
  induction posts with
  | nil =>
    rintro chain e ready long rfl batches replayed
    exact ⟨by simp [takes], rfl, by omega, ready⟩
  | cons post rest ih =>
    intro chain e ready long replays
    unfold ReplaysAll at replays
    split at replays
    next taken =>
      obtain ⟨container, final, next, decoded, settles, replays, more⟩ := replays
      exact Loops.cons taken ready.head_eq decoded settles long replays
        (ready.deriveBatch engine records distinct settles replays) fun ready' long' => ih ready' long' more
    next idle => exact Loops.skip ready.head_eq idle (ih ready long replays)

theorem Loops.reconcileScannedBatches
    (loops : Loops node numberOf head posts cursor last e) (finalized : head.finalizedL2 ≤ cursor) :
    Succeeds (reconcileScannedBatches node posts cursor) e (fun r e' => r.2 = last.length - 1 ∧ 0 < last.length ∧
      Ready node numberOf (head.appendMany ((takes node head posts).map (recordOf numberOf))) last e') := by
  simp only [Succeeds, Deriver.reconcileScannedBatches, leaves_bind]
  refine (loops [] 0).mono ?_ fun _ failed => failed
  rintro ⟨batches, reached, replayed⟩ e' ⟨recorded, rfl, high, ready⟩
  obtain rfl : batches = (takes node head posts).map (recordOf numberOf) := recorded
  rw [leaves_modify, leaves_get]
  have long := ready.below.length_le
  have top : e'.head.appendMany ((takes node head posts).map (recordOf numberOf)) =
      head.appendMany ((takes node head posts).map (recordOf numberOf)) := by rw [ready.head_eq]
  refine Leaves.ite (fun _ => ⟨rfl, by omega, top, ready.quiet, ready.chained, ready.below⟩) fun _ => ?_
  have floor : (e'.head.appendMany ((takes node head posts).map (recordOf numberOf))).finalizedL2 <
    e'.chain.length := by
    rw [appendMany_finalized, ready.head_eq]
    omega
  simp only [advanceSafeFinalized, leaves_bind]
  refine Succeeds.l2BlockAt ready.quiet (getElem?_eq_getElem (show last.length - 1 < e'.chain.length by omega)) ?_
  refine Succeeds.l2BlockAt ready.quiet (getElem?_eq_getElem floor) ?_
  rw [leaves_modify]
  refine Succeeds.call ready.quiet ?_
  rw [leaves_modify]
  exact ⟨rfl, by omega, top, ready.quiet, ready.chained, ready.below⟩

/-- Safe is below the index while a boot reads its first chunk. -/
def Booting : Forkchoice := fun head safe sent rewritten =>
  safe < head.cursor ∧ (∀ p ∈ sent, p.2 ≤ p.1) ∧ ∀ p ∈ rewritten, p.2 < p.1

theorem booting_settles (head : L1CanonicalHead) : Settles Booting Ordered .any head := by
  refine ⟨fun _ => trivial, fun holds above _ low indexed => ⟨trivial, trivial, fun reached => ?_, ?_⟩⟩
  · have := holds.1
    omega
  · exact ⟨low, Nat.le_refl _, indexed, sent_append holds.2.1 low, holds.2.2⟩

theorem booting_resumes {head : L1CanonicalHead} {cursor : Nat} (above : head.cursor ≤ cursor)
    (open_ : head.finalizedL2 < cursor) : Resumes Booting head cursor := by
  refine ⟨fun holds reached _ => ?_, fun holds _ => ⟨holds.1, holds.2.1, fun p hp => ?_⟩⟩
  · have := holds.1
    omega
  · rcases mem_append.mp hp with hp | hp
    · exact holds.2.2 p hp
    · obtain rfl := mem_singleton.mp hp
      exact open_

section
variable {d : Inner} {root : B256} {l1 : List Post} (engine : Sealing node numberOf) (records : Recording node)
  (distinct : CollisionFree node) (l1Posts : L1Posts node numberOf root l1)
include engine records distinct l1Posts

/-- A chunk that replays is read to its end. -/
theorem Good.replays {P Q E : Forkchoice} (good : Good P node numberOf root l1 d) (quiet : d.faults = [])
    (mem : ∀ p ∈ first, p ∈ l1) (ordered : first.Pairwise fun p q => ¬PostId.positionLe q.id p.id)
    (resumes : ∀ p ∈ takes node d.head first, p.settlement.resumed = true →
      ∀ cursor, d.head.cursor ≤ cursor → Resumes P d.head cursor) (settles : Settles P Q E d.head)
    (replays : ReplaysAll node numberOf d.head first (d.chain.take (d.head.cursor + 1)) last) :
    Succeeds (Deriver.reconcileScannedBatches node first d.head.cursor) d (fun r d' => (Good Q node numberOf root l1 d' ∧
      r.2 = d'.head.cursor ∧ Advances numberOf l1 (takes node d.head first) d.reached d'.reached) ∧
      d'.head = d.head.appendMany ((takes node d.head first).map (recordOf numberOf)) ∧ d'.faults = [] ∧
      d'.chain.take (d'.head.cursor + 1) = last) := by
  have firsty : Ready node numberOf d.head (d.chain.take (d.head.cursor + 1)) d :=
    ⟨rfl, quiet, good.chained, take_prefix _ _⟩
  have size : (d.chain.take (d.head.cursor + 1)).length = d.head.cursor + 1 := by
    have := good.long
    rw [length_take]
    omega
  have loops := Ready.reconcileScanned engine records distinct firsty (by omega) replays
  rw [size, Nat.add_sub_cancel] at loops
  have spec := good.reconcileScannedBatches engine l1Posts mem (ordered.filter _) (below_one _ _) resumes settles
  refine (spec.and (loops.reconcileScannedBatches good.index.finalized)).mono ?_ fun _ never => never.2
  rintro ⟨_, reached⟩ d' ⟨⟨good', cursor, moved⟩, top, long, firsty'⟩
  obtain rfl : reached = d'.head.cursor := cursor
  refine ⟨⟨good', rfl, moved⟩, firsty'.head_eq, firsty'.quiet, ?_⟩
  rw [show d'.head.cursor + 1 = last.length by change d'.head.cursor = _ at top; omega]
  exact firsty'.take_length

theorem Good.boots (good : Good Booting node numberOf root l1 d) (quiet : d.faults = [])
    (scanned : Scanned l1 (.ok first :: more))
    (open_ : ∀ p ∈ takes node d.head first, p.settlement.resumed = true → d.head.finalizedL2 < d.head.cursor)
    (replays : ReplaysAll node numberOf d.head first (d.chain.take (d.head.cursor + 1)) last) :
    Leaves (Deriver.syncBatches node (.ok first :: more) d.head.cursor) d (fun _ => Good Ordered node numberOf root l1)
      (Good Ordered node numberOf root l1) := by
  obtain ⟨mem, ordered⟩ := scanned first mem_cons_self
  rw [Deriver.syncBatches, leaves_bind, leaves_lift]
  refine ⟨?_, fun e failed => by cases failed⟩
  rintro _ ⟨⟩
  rw [leaves_bind]
  refine (good.replays engine records distinct l1Posts quiet mem ordered ?_ (booting_settles _) replays).mono ?_
    fun _ never => never.elim
  · intro p taken resumed cursor above
    exact booting_resumes above (Nat.lt_of_lt_of_le (open_ p taken resumed) above)
  · rintro ⟨_, reached⟩ d' ⟨⟨good', cursor, -⟩, -⟩
    obtain rfl : reached = d'.head.cursor := cursor
    exact good'.syncBatches steady_ordered engine l1Posts fun later hr => scanned later (mem_cons_of_mem _ hr)

end

end Eez.Deriver
