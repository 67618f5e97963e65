import EezRollup.Deriver.Handlers

/-! A batch that starts at or above the cursor leaves the chain below it alone, and the root L1
settled for it is the block at the height it is recorded with. -/
namespace Eez.Deriver
open List Octets Outcome Codec Scan Faulty

section
variable {α : Type} {d : Inner} {E : Inner → Prop}

theorem Leaves.call_drop {Q} {faults : List Bool} (answers : d.faults = faults.drop k)
    (ok : Q () { d with faults := faults.drop (k + 1) })
    (failed : faults[k]? = some true → E { d with faults := faults.drop (k + 1) }) : Leaves (call e) d Q E := by
  simp only [Deriver.call, leaves_bind, leaves_get]
  have here : faults[k]? = d.faults.head? := by rw [answers, head?_drop]
  have later : faults.drop (k + 1) = d.faults.tail := by rw [answers, tail_drop]
  rw [later] at ok failed
  rw [here] at failed
  cases given : d.faults with
  | nil =>
    rw [given] at ok
    have same : d = { d with faults := [] } := by rw [← given]
    rw [same]
    exact ok
  | cons fault rest =>
    rw [given] at ok failed
    cases fault with
    | true => exact failed rfl
    | false => exact ok

theorem Leaves.call {Q} (ok : ∀ faults, Q () { d with faults })
    (failed : ∀ faults, E { d with faults }) : Leaves (call e) d Q E :=
  Leaves.call_drop (k := 0) rfl (ok _) fun _ => failed _

theorem Leaves.blockByNumber {n Q}
    (ok : ∀ faults, Q d.chain[n]? { d with faults }) (failed : ∀ faults, E { d with faults }) :
    Leaves (blockByNumber n) d Q E := by
  simp only [Deriver.blockByNumber, leaves_bind]
  exact Leaves.call ok failed

theorem Leaves.l2BlockAt {n Q}
    (ok : ∀ faults b, d.chain[n]? = some b → Q b { d with faults }) (failed : ∀ faults, E { d with faults }) :
    Leaves (l2BlockAt n) d Q E := by
  simp only [Deriver.l2BlockAt, leaves_bind]
  refine Leaves.blockByNumber (fun faults => ?_) failed
  cases held : d.chain[n]? with
  | none => exact failed faults
  | some b => exact ok faults b held

theorem Leaves.l2HashAt {n Q}
    (ok : ∀ faults b, d.chain[n]? = some b → Q b.hash { d with faults }) (failed : ∀ faults, E { d with faults }) :
    Leaves (l2HashAt n) d Q E := by
  simp only [Deriver.l2HashAt, leaves_bind]
  exact Leaves.l2BlockAt ok failed

theorem Leaves.blockAt {Q}
    (ok : ∀ faults, Q (d.chain.findIdx? (·.hash = c)) { d with faults }) (failed : ∀ faults, E { d with faults }) :
    Leaves (blockAt c) d Q E := by
  simp only [Deriver.blockAt, leaves_bind]
  exact Leaves.call ok failed

theorem Leaves.hashOr {hash n Q} (given : ∀ h, hash = some h → Q h d)
    (ok : ∀ faults b, hash = none → d.chain[n]? = some b → Q b.hash { d with faults })
    (failed : ∀ faults, E { d with faults }) : Leaves (hashOr hash n) d Q E := by
  cases hash with
  | some h => exact given h rfl
  | none => exact Leaves.l2HashAt (fun faults b hb => ok faults b rfl hb) failed

theorem Leaves.lift {Q} (ok : ∀ a, x = .ok a → Q a d) (failed : E d) : Leaves (lift x : M α) d Q E :=
  leaves_lift.mpr ⟨ok, fun _ _ => failed⟩

theorem Leaves.ite {c} [Decidable c] {x y : M α} {Q} (pos : c → Leaves x d Q E)
    (neg : ¬c → Leaves y d Q E) : Leaves (if c then x else y) d Q E := by
  split
  · exact pos ‹_›
  · exact neg ‹_›

end

/-- The engine seals the height of a block and its parent into the hash. -/
structure Sealing (node : Node) (numberOf : B256 → Nat) : Prop where
  number : ∀ {parent txs inputs block}, node.execute parent txs inputs = .ok block →
    numberOf block.hash = numberOf parent.hash + 1
  parent : ∀ {parent txs inputs block}, node.execute parent txs inputs = .ok block → block.parentHash = parent.hash

structure Chained (node : Node) (numberOf : B256 → Nat) (chain : List L2Block) : Prop where
  numbered : ∀ {n b}, chain[n]? = some b → numberOf b.hash = n
  built : ∀ {n b}, chain[n + 1]? = some b →
    ∃ parent txs inputs, chain[n]? = some parent ∧ node.execute parent txs inputs = .ok b

def At (chain : List L2Block) (n : Nat) (hash : B256) : Prop := ∃ b, chain[n]? = some b ∧ b.hash = hash

variable {node : Node} {numberOf : B256 → Nat} {chain base : List L2Block}

variable {hash : B256} {n : Nat}

theorem At.lt (h : At chain n hash) : n < chain.length := by
  obtain ⟨b, hb, -⟩ := h
  exact (List.getElem?_eq_some_iff.mp hb).1

theorem Chained.number (h : Chained node numberOf chain) (held : At chain n hash) : numberOf hash = n := by
  obtain ⟨b, hb, rfl⟩ := held
  exact h.numbered hb

theorem at_of_findIdx? (found : chain.findIdx? (·.hash = hash) = some n) : At chain n hash := by
  obtain ⟨bound, same, -⟩ := findIdx?_eq_some_iff_getElem.mp found
  exact ⟨_, getElem?_eq_getElem bound, of_decide_eq_true same⟩

theorem Chained.take (h : Chained node numberOf chain) (k : Nat) : Chained node numberOf (chain.take k) := by
  have mem : ∀ {n b}, (chain.take k)[n]? = some b → n < k ∧ chain[n]? = some b := by
    intro n b hb
    rcases Nat.lt_or_ge n k with low | high
    · exact ⟨low, (getElem?_take_of_lt low).symm.trans hb⟩
    · rw [getElem?_eq_none (by rw [length_take]; omega)] at hb
      cases hb
  constructor
  · intro n b hb
    exact h.numbered (mem hb).2
  · intro n b hb
    obtain ⟨low, hb⟩ := mem hb
    obtain ⟨parent, txs, inputs, hp, built⟩ := h.built hb
    exact ⟨parent, txs, inputs, (getElem?_take_of_lt (by omega)).trans hp, built⟩

theorem Chained.concat (h : Chained node numberOf chain) (engine : Sealing node numberOf)
    (last : chain.getLast? = some tip) (built : node.execute tip txs inputs = .ok block) :
    Chained node numberOf (chain ++ [block]) := by
  obtain ⟨before, rfl⟩ := getLast?_eq_some_iff.mp last
  have tipAt : (before ++ [tip])[before.length]? = some tip := getElem?_concat_length
  have length : (before ++ [tip]).length = before.length + 1 := by simp
  have old : ∀ {n}, n < before.length + 1 → (before ++ [tip] ++ [block])[n]? = (before ++ [tip])[n]? :=
    fun low => getElem?_append_left (by omega)
  have new : ∀ {n b}, ¬n < before.length + 1 → (before ++ [tip] ++ [block])[n]? = some b →
      n = before.length + 1 ∧ b = block := by
    intro n b high hb
    obtain ⟨bound, -⟩ := List.getElem?_eq_some_iff.mp hb
    simp only [length_append, length_singleton] at bound
    obtain rfl : n = before.length + 1 := by omega
    rw [getElem?_append_right (by omega), length, Nat.sub_self] at hb
    cases hb
    exact ⟨rfl, rfl⟩
  constructor
  · intro n b hb
    by_cases low : n < before.length + 1
    · exact h.numbered ((old low).symm.trans hb)
    · obtain ⟨rfl, rfl⟩ := new low hb
      rw [engine.number built, h.numbered tipAt]
  · intro n b hb
    by_cases low : n + 1 < before.length + 1
    · obtain ⟨parent, txs, inputs, hp, built⟩ := h.built ((old low).symm.trans hb)
      exact ⟨parent, txs, inputs, (old (by omega)).trans hp, built⟩
    · obtain ⟨same, rfl⟩ := new low hb
      obtain rfl : n = before.length := by omega
      exact ⟨tip, txs, inputs, (old (by omega)).trans tipAt, built⟩

/-- No two executions seal different blocks with one hash. -/
def CollisionFree (node : Node) : Prop :=
  ∀ {p t i b p' t' i' b'}, node.execute p t i = .ok b → node.execute p' t' i' = .ok b' → b.hash = b'.hash → b = b'

theorem Chained.take_eq (h : Chained node numberOf chain) (h' : Chained node numberOf other)
    (engine : Sealing node numberOf) (distinct : CollisionFree node) (genesis : chain[0]? = other[0]?)
    (held : At chain n hash) (held' : At other n hash) : chain.take (n + 1) = other.take (n + 1) := by
  induction n generalizing hash with
  | zero => rw [take_add_one, take_add_one, genesis]; rfl
  | succ n ih =>
    obtain ⟨b, hb, rfl⟩ := held
    obtain ⟨b', hb', same⟩ := held'
    obtain ⟨parent, txs, inputs, hp, built⟩ := h.built hb
    obtain ⟨parent', txs', inputs', hp', built'⟩ := h'.built hb'
    obtain rfl := distinct built built' same.symm
    have parents : parent'.hash = parent.hash := by rw [← engine.parent built, ← engine.parent built']
    have below := ih ⟨parent, hp, rfl⟩ ⟨parent', hp', parents⟩
    rw [take_add_one, below, hb, ← hb', ← take_add_one]

/-- The ordering of the forkchoice heights, and what was sent and rewritten. -/
structure Ordered (head : L1CanonicalHead) (safe : Nat) (sent rewritten : List (Nat × Nat)) : Prop where
  finalized_le : head.finalizedL2 ≤ safe
  safe_le : safe ≤ head.cursor
  indexed : head.lastIndexedL2 = head.cursor
  sent_le : ∀ p ∈ sent, p.2 ≤ p.1
  rewritten_gt : ∀ p ∈ rewritten, p.2 < p.1

theorem sent_append {finalized : Nat} (sent_le : ∀ p ∈ sent, p.2 ≤ p.1) (le : finalized ≤ safe) :
    ∀ p ∈ sent ++ [(safe, finalized)], p.2 ≤ p.1 := by
  intro p hp
  rcases mem_append.mp hp with hp | hp
  · exact sent_le p hp
  · obtain rfl := mem_singleton.mp hp
    exact le

/-- A condition on the heights, and on what was sent and rewritten. -/
abbrev Forkchoice := L1CanonicalHead → Nat → List (Nat × Nat) → List (Nat × Nat) → Prop

/-- What a batch on top of `cursor` keeps: the index, the condition on the heights,
and the blocks of `base`. -/
structure Kept (P : Forkchoice) (node : Node) (numberOf : B256 → Nat) (head : L1CanonicalHead) (cursor : Nat)
    (base : List L2Block) (d : Inner) : Prop where
  head_eq : d.head = head
  ordered : P head d.safeL2Block d.sent d.rewritten
  chained : Chained node numberOf d.chain
  below : base <+: d.chain
  long : cursor < d.chain.length

/-- The condition holds through a resumed batch at `cursor`: safe steps back, and the
height is replaced. -/
structure Resumes (P : Forkchoice) (head : L1CanonicalHead) (cursor : Nat) : Prop where
  back {safe sent rewritten} : P head safe sent rewritten → cursor ≤ safe → head.finalizedL2 < cursor →
    P head safe (sent ++ [(cursor - 1, head.finalizedL2)]) rewritten ∧
      P head (cursor - 1) (sent ++ [(cursor - 1, head.finalizedL2)]) rewritten
  rewrite {safe sent rewritten} : P head safe sent rewritten → safe < cursor →
    P head safe sent (rewritten ++ [(cursor, head.finalizedL2)])

variable {P : Forkchoice}

variable {head : L1CanonicalHead} {cursor : Nat} {d : Inner}

theorem Kept.setFaults (k : Kept P node numberOf head cursor base d) (faults : List Bool) :
    Kept P node numberOf head cursor base { d with faults } :=
  ⟨k.head_eq, k.ordered, k.chained, k.below, k.long⟩

theorem Kept.commit (k : Kept P node numberOf head cursor base d) (engine : Sealing node numberOf) {parent}
    (held : d.chain[parent]? = some tip) (built : node.execute tip txs inputs = .ok block)
    (low : cursor ≤ parent + 1) (above : base.length ≤ parent + 1) :
    Kept P node numberOf head cursor base { d with chain := d.chain.take (parent + 1) ++ [block] } ∧
      At (d.chain.take (parent + 1) ++ [block]) (parent + 1) block.hash := by
  have bound := (List.getElem?_eq_some_iff.mp held).1
  have length : (d.chain.take (parent + 1)).length = parent + 1 := by
    rw [length_take]
    omega
  have last : (d.chain.take (parent + 1)).getLast? = some tip := by
    rw [getLast?_eq_getElem?, length, Nat.add_sub_cancel, getElem?_take_of_lt (Nat.lt_succ_self _)]
    exact held
  refine ⟨⟨k.head_eq, k.ordered, (k.chained.take _).concat engine last built, ?_, ?_⟩, block, ?_, rfl⟩
  · exact (prefix_take_iff.mpr ⟨k.below, above⟩).trans (prefix_append _ _)
  · simp only [length_append, length, length_singleton]
    omega
  · rw [getElem?_append_right (by omega), length, Nat.sub_self]
    rfl

theorem Kept.replayBlock (k : Kept P node numberOf head cursor base d) (engine : Sealing node numberOf) {parent}
    (low : cursor ≤ parent + 1) (above : base.length ≤ parent + 1) (txs : List Bytes) (inputs : BlockHeaderInputs) :
    Leaves (replayBlock node parent txs inputs) d
      (fun hash d => Kept P node numberOf head cursor base d ∧ At d.chain (parent + 1) hash)
      (Kept P node numberOf head cursor base) := by
  simp only [Deriver.replayBlock, leaves_bind]
  refine Leaves.l2BlockAt (fun faults p hp => ?_) k.setFaults
  refine Leaves.lift (fun block built => ?_) (k.setFaults faults)
  simp only [commitDerived, leaves_bind]
  refine Leaves.call (fun faults => ?_) k.setFaults
  exact (k.setFaults faults).commit engine hp built low above

theorem Kept.reconcileRange (engine : Sealing node numberOf) (span : DecodedSpan) (sync : Option (List Bytes))
    {fromBlock} (low : cursor < fromBlock) (above : base.length ≤ fromBlock) (slices : List (List Bytes)) :
    ∀ {d} (i : Nat) (active : Bool) (replayed : Nat), Kept P node numberOf head cursor base d →
      Leaves (reconcileRange node span sync fromBlock slices i active replayed) d
        (fun r d => Kept P node numberOf head cursor base d ∧
          ∀ hash, r.2 = some hash → At d.chain (fromBlock + i + slices.length - 1) hash)
        (Kept P node numberOf head cursor base) := by
  induction slices with
  | nil =>
    intro d i active replayed k
    refine ⟨k, ?_⟩
    intro hash none
    cases none
  | cons userTxs rest ih =>
    intro d i active replayed k
    have last : fromBlock + i + (userTxs :: rest).length - 1 = fromBlock + (i + 1) + rest.length - 1 := by
      rw [length_cons]
      omega
    have later : ∀ {d} active replayed, Kept P node numberOf head cursor base d →
        Leaves (Deriver.reconcileRange node span sync fromBlock rest (i + 1) active replayed) d
          (fun r d => Kept P node numberOf head cursor base d ∧
            ∀ hash, r.2 = some hash → At d.chain (fromBlock + i + (userTxs :: rest).length - 1) hash)
          (Kept P node numberOf head cursor base) := by
      intro d active replayed k
      rw [last]
      exact ih (i + 1) active replayed k
    simp only [Deriver.reconcileRange, leaves_bind]
    refine Leaves.lift (fun inputs _ => ?_) k
    refine Leaves.blockByNumber (fun faults => ?_) k.setFaults
    refine Leaves.ite (fun _ => ?_) fun _ => later _ _ (k.setFaults faults)
    rw [leaves_bind]
    refine ((k.setFaults faults).replayBlock engine (by omega) (by omega) _ _).mono ?_ fun _ kept => kept
    intro hash d kept
    refine Leaves.ite (fun single => ?_) fun _ => later _ _ kept.1
    subst single
    refine ⟨kept.1, ?_⟩
    intro h same
    cases same
    have there := kept.2
    rw [show fromBlock + i - 1 + 1 = fromBlock + i + [userTxs].length - 1 by simp; omega] at there
    exact there

theorem blockSlices_length (counts : List UInt32) (txs : List RawTx) :
    (blockSlices counts txs).length = counts.length := by
  induction counts generalizing txs with
  | nil => rfl
  | cons count counts ih => simp [blockSlices, ih]

theorem Kept.reconcileFresh (k : Kept P node numberOf head cursor base d) (engine : Sealing node numberOf)
    (above : base.length ≤ cursor + 1) (span : DecodedSpan) (sync : Option (List Bytes)) (settlement : Settlement)
    (stale : Bool) :
    Leaves (reconcileFresh node span sync settlement (cursor + 1) stale) d
      (fun r d => Kept P node numberOf head cursor base d ∧
        ∀ hash, r.2 = some hash → At d.chain (cursor + span.blockCount) hash)
      (Kept P node numberOf head cursor base) := by
  simp only [Deriver.reconcileFresh, leaves_bind]
  refine Leaves.blockByNumber (fun faults => ?_) k.setFaults
  refine Leaves.ite (fun _ => ?_) fun _ => ?_
  · refine ⟨k.setFaults faults, ?_⟩
    intro hash none
    cases none
  · have range := Kept.reconcileRange engine span sync (Nat.lt_succ_self cursor) above
      (blockSlices span.blockTxCounts span.transactions) 0 stale 0 (k.setFaults faults)
    rw [blockSlices_length, show cursor + 1 + 0 + span.blockTxCounts.length - 1 = cursor + span.blockCount by
      unfold DecodedSpan.blockCount; omega] at range
    exact range

theorem Kept.retreatForResume (k : Kept P node numberOf head cursor base d) (resumes : Resumes P head cursor) :
    Leaves (retreatForResume cursor) d
      (fun _ d => Kept P node numberOf head cursor base d ∧ d.safeL2Block < cursor)
      (Kept P node numberOf head cursor base) := by
  simp only [Deriver.retreatForResume, leaves_bind, leaves_get, k.head_eq]
  refine Leaves.ite (fun reached => ?_) fun higher => ⟨k, Nat.not_le.mp higher⟩
  refine Leaves.ite (fun _ => k) fun higher => ?_
  rw [leaves_bind]
  refine Leaves.l2BlockAt (fun faults _ _ => ?_) k.setFaults
  rw [leaves_bind]
  refine Leaves.l2BlockAt (fun faults _ _ => ?_) k.setFaults
  simp only [advanceSafeFinalized, leaves_bind, leaves_modify]
  obtain ⟨sent, back⟩ := resumes.back k.ordered reached (Nat.not_le.mp higher)
  refine Leaves.call (fun faults => ⟨⟨k.head_eq, back, k.chained, k.below, k.long⟩, ?_⟩) fun faults =>
    ⟨k.head_eq, sent, k.chained, k.below, k.long⟩
  omega

theorem Kept.reconcileResumed (k : Kept P node numberOf head cursor base d) (engine : Sealing node numberOf)
    (resumes : Resumes P head cursor) (above : base.length ≤ max 1 cursor) (span : DecodedSpan) (content : List Bytes) (settlement : Settlement)
    (ref : BatchRef) (stale : Bool) :
    Leaves (reconcileResumed node span content settlement ref cursor stale) d
      (fun r d => Kept P node numberOf head cursor base d ∧ ∀ hash, r.2 = some hash → At d.chain cursor hash)
      (Kept P node numberOf head cursor base) := by
  simp only [Deriver.reconcileResumed]
  refine Leaves.ite (fun _ => k) fun _ => ?_
  simp only [leaves_bind]
  refine Leaves.l2BlockAt (fun faults existing _ => ?_) k.setFaults
  refine Leaves.l2HashAt (fun faults held _ => ?_) k.setFaults
  split
  · refine ⟨k.setFaults faults, ?_⟩
    intro hash none
    cases none
  · simp only [leaves_bind]
    refine ((k.setFaults faults).retreatForResume resumes).mono ?_ fun _ kept => kept
    rintro ⟨⟩ d ⟨k, higher⟩
    refine Leaves.lift (fun inputs _ => ?_) k
    rw [leaves_modify]
    have logged : Kept P node numberOf head cursor base
        { d with rewritten := d.rewritten ++ [(cursor, d.head.finalizedL2)] } := by
      refine ⟨k.head_eq, ?_, k.chained, k.below, k.long⟩
      rw [k.head_eq]
      exact resumes.rewrite k.ordered higher
    refine (logged.replayBlock engine (by omega) (by omega) _ _).mono ?_ fun _ kept => kept
    intro hash d kept
    refine ⟨kept.1, ?_⟩
    intro h same
    cases same
    have there := kept.2
    rw [Nat.sub_add_cancel (by omega)] at there
    exact there

section
variable {α : Type} {E : Inner → Prop}

variable {fromBlock : Nat} {Q : Unit → Inner → Prop}

theorem Leaves.syncContent {Q : Option (List Bytes) × List ExecutionEntrySol → Inner → Prop}
    (ok : ∀ r faults, Q r { d with faults }) (failed : ∀ faults, E { d with faults }) :
    Leaves (syncContent node container ref fromBlock settlement) d Q E := by
  unfold Deriver.syncContent
  split
  · exact ok _ d.faults
  · simp only [leaves_bind]
    refine Leaves.lift (fun _ _ => ?_) (failed d.faults)
    refine Leaves.l2BlockAt (fun faults _ _ => ?_) failed
    refine Leaves.lift (fun _ _ => ?_) (failed faults)
    refine Leaves.lift (fun _ _ => ?_) (failed faults)
    exact ok _ faults

theorem Leaves.localBatchBoundaryMatches {Q}
    (ok : ∀ r faults, Q r { d with faults }) (failed : ∀ faults, E { d with faults }) :
    Leaves (localBatchBoundaryMatches fromBlock) d Q E := by
  simp only [Deriver.localBatchBoundaryMatches, leaves_bind]
  refine Leaves.blockByNumber (fun faults => ?_) failed
  split
  · exact ok _ faults
  · refine Leaves.ite (fun _ => failed faults) fun _ => ?_
    rw [leaves_bind]
    exact Leaves.l2BlockAt (fun faults _ _ => ok _ faults) failed

theorem Leaves.checkOutbound {gate} {ref : BatchRef} {toBlock} {hash : Option B256}
    (ok : ∀ faults, Q () { d with faults }) (failed : ∀ faults, E { d with faults }) :
    Leaves (checkOutbound node gate ref toBlock hash) d Q E := by
  refine Leaves.ite (fun _ => ok d.faults) fun _ => ?_
  rw [leaves_bind]
  refine Leaves.hashOr (fun _ _ => ?_) (fun faults _ _ _ => ?_) failed
  · exact Leaves.lift (fun _ _ => ok d.faults) (failed d.faults)
  · exact Leaves.lift (fun _ _ => ok faults) (failed faults)

theorem Leaves.checkEntryRoot {entry}
    (ok : ∀ faults, Q () { d with faults }) (failed : ∀ faults, E { d with faults }) :
    Leaves (checkEntryRoot entry fromBlock) d Q E := by
  unfold Deriver.checkEntryRoot
  split
  · exact ok d.faults
  · rw [leaves_bind]
    refine Leaves.l2HashAt (fun faults _ _ => ?_) failed
    exact Leaves.ite (fun _ => ok faults) fun _ => failed faults

theorem Leaves.checkCursorRoot {anchor} {settlement : Settlement}
    (ok : ∀ faults, Q () { d with faults }) (failed : ∀ faults, E { d with faults }) :
    Leaves (checkCursorRoot anchor fromBlock settlement) d Q E := by
  unfold Deriver.checkCursorRoot
  split
  · exact ok d.faults
  · rw [leaves_bind]
    refine Leaves.l2HashAt (fun faults _ _ => ?_) failed
    exact Leaves.ite (fun _ => ok faults) fun _ => failed faults

theorem inSettleableRange_eq_some :
    inSettleableRange found low high = some n ↔ found = some n ∧ low ≤ n ∧ n ≤ high := by
  simp [inSettleableRange, Option.filter_eq_some_iff]

theorem Leaves.batchStart (chained : Chained node numberOf d.chain) (above : cursor ≤ numberOf root)
    {Q} (ok : ∀ faults, Q cursor { d with faults }) (failed : ∀ faults, E { d with faults }) :
    Leaves (batchStart cursor (some root) window) d Q E := by
  simp only [Deriver.batchStart, batchAnchor, leaves_bind]
  refine Leaves.blockAt (fun faults => ?_) failed
  cases inside : inSettleableRange (d.chain.findIdx? (·.hash = root)) (cursor - window) cursor with
  | none => exact ok faults
  | some n =>
    obtain ⟨found, -, high⟩ := inSettleableRange_eq_some.mp inside
    have number := chained.number (at_of_findIdx? found)
    obtain rfl : n = cursor := by omega
    exact ok faults

theorem Leaves.checkClaimedState {entry hash root toBlock} (range : cursor ≤ toBlock)
    (replayed : ∀ h, hash = some h → At d.chain toBlock h) {Q}
    (ok : ∀ last faults, cursor ≤ last → last ≤ toBlock → At d.chain last root → Q (some last) { d with faults })
    (failed : ∀ faults, E { d with faults }) :
    Leaves (checkClaimedState entry (some root) cursor fromBlock toBlock hash) d Q E := by
  simp only [Deriver.checkClaimedState, leaves_bind]
  refine Leaves.checkEntryRoot (fun faults => ?_) failed
  rw [leaves_get]
  refine Leaves.ite (fun _ => failed faults) fun _ => ?_
  rw [leaves_bind]
  refine Leaves.blockAt (fun faults => ?_) failed
  split
  next settledEnd inside =>
    obtain ⟨found, low, high⟩ := inSettleableRange_eq_some.mp inside
    exact ok settledEnd faults low high (at_of_findIdx? found)
  next =>
    rw [leaves_bind]
    have answer : ∀ {h} faults, At d.chain toBlock h → Leaves (if h = root then
        (pure (some toBlock) : M (Option Nat)) else throw (.localDiverged (.ofNat toBlock) none))
        { d with faults } Q E := by
      intro h faults there
      refine Leaves.ite (fun same => ?_) fun _ => failed faults
      subst same
      exact ok toBlock faults range (Nat.le_refl _) there
    refine Leaves.hashOr (fun h given => ?_) (fun faults b _ hb => ?_) failed
    · exact answer faults (replayed h given)
    · exact answer faults ⟨b, hb, rfl⟩

end

theorem Kept.reconcileBatchBlocks (engine : Sealing node numberOf) (container : DecodedContainer) (txHash : B256)
    (settlement : Settlement) (k : Kept P node numberOf head cursor base d)
    (resumes : settlement.resumed = true → Resumes P head cursor)
    (above : base.length ≤ max 1 (batchL2Range cursor settlement.resumed container.span.blockCount).1) :
    Leaves (reconcileBatchBlocks node (batchL2Range cursor settlement.resumed container.span.blockCount).1
        container txHash settlement) d
      (fun r d => Kept P node numberOf head cursor base d ∧ ∀ hash, r.2 = some hash →
        At d.chain (batchL2Range cursor settlement.resumed container.span.blockCount).2 hash)
      (Kept P node numberOf head cursor base) := by
  simp only [Deriver.reconcileBatchBlocks, leaves_bind]
  refine Leaves.syncContent (fun content faults => ?_) k.setFaults
  refine Leaves.localBatchBoundaryMatches (fun boundary faults => ?_) k.setFaults
  have finish : ∀ {r : Nat × Option B256} {ref toBlock number d},
      Kept P node numberOf head cursor base d ∧ (∀ hash, r.2 = some hash → At d.chain number hash) →
      Leaves (Deriver.checkOutbound node content.2 ref toBlock r.2) d
        (fun _ d => Leaves (pure (r.1, r.2) : M _) d (fun r d => Kept P node numberOf head cursor base d ∧
          ∀ hash, r.2 = some hash → At d.chain number hash) (Kept P node numberOf head cursor base))
        (Kept P node numberOf head cursor base) :=
    fun kept => Leaves.checkOutbound (fun faults => ⟨kept.1.setFaults faults, kept.2⟩) kept.1.setFaults
  unfold batchL2Range at above ⊢
  by_cases resumed : settlement.resumed = true
  · have resumes := resumes resumed
    simp only [resumed, if_true] at above ⊢
    simp only [leaves_bind]
    refine ((k.setFaults faults).reconcileResumed engine resumes above _ _ settlement _ _).mono ?_ fun _ kept => kept
    intro r d kept
    exact finish kept
  · simp only [resumed, Bool.false_eq_true, if_false] at above ⊢
    simp only [leaves_bind]
    refine ((k.setFaults faults).reconcileFresh engine (by omega) _ _ settlement _).mono ?_ fun _ kept => kept
    intro r d kept
    exact finish kept

/-- A batch that starts at or above the cursor ends at its settled root, at or
above the cursor; failing, it leaves the blocks below its range. -/
theorem Kept.deriveBatch (engine : Sealing node numberOf) {post} (container : DecodedContainer)
    (k : Kept P node numberOf head cursor base d) (resumes : post.settlement.resumed = true → Resumes P head cursor)
    (above : base.length ≤ max 1 (batchL2Range cursor post.settlement.resumed container.span.blockCount).1)
    (starts : post.settlement.entryState = some entry) (settles : post.settlement.finalState = some root)
    (high : cursor ≤ numberOf entry) :
    Leaves (deriveBatch node cursor post container) d
      (fun r d => Kept P node numberOf head r.2 base d ∧ cursor ≤ r.2 ∧
        r.2 ≤ (batchL2Range cursor post.settlement.resumed container.span.blockCount).2 ∧ At d.chain r.2 root)
      (Kept P node numberOf head cursor base) := by
  simp only [Deriver.deriveBatch, leaves_bind, starts]
  refine Leaves.batchStart k.chained high (fun faults => ?_) k.setFaults
  refine Leaves.checkCursorRoot (fun faults => ?_) k.setFaults
  refine (Kept.reconcileBatchBlocks engine container post.txHash post.settlement (k.setFaults faults) resumes
    above).mono ?_
    fun _ kept => kept
  rintro ⟨count, hash⟩ d ⟨k, replayed⟩
  rw [settles]
  have range : cursor ≤ (batchL2Range cursor post.settlement.resumed container.span.blockCount).2 := by
    unfold batchL2Range
    split
    · exact Nat.le_refl _
    · exact Nat.le_add_right _ _
  refine Leaves.checkClaimedState range replayed (fun last faults low high there => ?_) k.setFaults
  exact ⟨⟨k.head_eq, k.ordered, k.chained, k.below, there.lt⟩, low, high, there⟩

end Eez.Deriver
