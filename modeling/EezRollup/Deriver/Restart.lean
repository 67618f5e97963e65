import EezRollup.Deriver.World

/-! After a failure a chunk is read again from the old cursor over the blocks that are there by
then. Only the block at the cursor can stand in the way. -/
open List
namespace Eez.Deriver
open Octets Outcome Codec Scan Faulty

variable {node : Node} {numberOf : B256 → Nat} {head : L1CanonicalHead} {chain chain' last : List L2Block} {e : Inner}
  {hash : B256}

/-- What the retry and the uninterrupted run come to is the same: the cursor, the
index, and the blocks up to the cursor. -/
def Restarts (node : Node) (posts : List Post) (d stopped : Inner) : Prop :=
  ∃ r e r' e', exec (reconcileScannedBatches node posts d.head.cursor) { stopped with faults := [] } = (.ok r, e) ∧
    exec (reconcileScannedBatches node posts d.head.cursor) { d with faults := [] } = (.ok r', e') ∧
    r.2 = r'.2 ∧ e.head = e'.head ∧ e.chain.take (r.2 + 1) = e'.chain.take (r.2 + 1)

/-- The block at the cursor is one the first post that is taken accepts. -/
def Reenters (node : Node) (posts : List Post) (d stopped : Inner) : Prop :=
  ∀ post ∈ (takes node d.head posts).head?, ∀ entry ∈ post.settlement.entryState,
    ∀ b ∈ stopped.chain[d.head.cursor]?, cursorRootAccepted b.hash entry post.settlement.finalState

section
variable {post : Post} {container : DecodedContainer} {final : B256} {finalized : Nat}

theorem Replays.starts (replays : Replays node finalized post container final chain chain') :
    ∃ entry, post.settlement.entryState = some entry ∧ At chain (chain.length - 1) entry := by
  cases replays with
  | @fresh _ _ parent _ _ _ _ _ _ last starts => exact ⟨_, starts, parent, getElem?_of_getLast? last, rfl⟩
  | @resumed _ _ existing _ _ _ _ _ _ starts | @idle _ _ existing _ _ _ starts =>
    exact ⟨_, starts, existing, by simp, rfl⟩

theorem Replays.chained (engine : Sealing node numberOf) (chained : Chained node numberOf chain)
    (replays : Replays node finalized post container final chain chain') :
    Chained node numberOf chain' ∧ chain'[0]? = chain[0]? := by
  cases replays with
  | @fresh _ _ parent _ _ _ _ _ _ last _ _ built =>
    obtain ⟨chained', below, -⟩ := built.chained engine chained
    refine ⟨chained', ?_⟩
    obtain ⟨more, rfl⟩ := below
    exact getElem?_append_left (length_pos_of_ne_nil (by rintro rfl; cases last))
  | @resumed below parent existing block _ _ _ _ _ _ _ _ _ built =>
    have cut : Chained node numberOf (below ++ [parent]) := by
      have := chained.take (below.length + 1)
      rwa [show (below ++ [parent, existing]).take (below.length + 1) = below ++ [parent] by
        simp [List.take_append]] at this
    refine ⟨?_, ?_⟩
    · have := cut.concat engine (by simp) built
      rwa [append_assoc] at this
    · cases below <;> rfl
  | idle => exact ⟨chained, rfl⟩

theorem Replays.resumed_at (resumed : post.settlement.resumed = true)
    (replays : Replays node finalized post container final chain chain') :
    chain'.length = chain.length ∧ At chain' (chain.length - 1) final := by
  cases replays with
  | fresh fresh => simp [fresh] at resumed
  | @resumed _ _ _ block _ _ _ _ _ _ _ _ _ _ _ _ root => exact ⟨by simp, block, by simp, root⟩
  | @idle _ _ existing _ _ _ _ _ _ root => exact ⟨rfl, existing, by simp, root⟩

theorem Replays.fresh_below (engine : Sealing node numberOf) (chained : Chained node numberOf chain)
    (fresh : post.settlement.resumed = false) (replays : Replays node finalized post container final chain chain') :
    chain <+: chain' := by
  cases replays with
  | fresh _ _ _ _ _ built => exact (built.chained engine chained).2.1
  | resumed resumed => simp [fresh] at resumed
  | idle => exact prefix_refl _

end

theorem Ready.of_at (engine : Sealing node numberOf) (distinct : CollisionFree node)
    (head_eq : e.head = head) (quiet : e.faults = []) (chained : Chained node numberOf e.chain)
    (left : Chained node numberOf chain) (genesis : chain[0]? = e.chain[0]?) (held : At chain (chain.length - 1) hash)
    (held' : At e.chain (chain.length - 1) hash) : Ready node numberOf head chain e := by
  refine ⟨head_eq, quiet, chained, ?_⟩
  have same := left.take_eq chained engine distinct genesis held held'
  have bound := held.lt
  rw [Nat.sub_add_cancel (by omega), List.take_length] at same
  rw [same]
  exact take_prefix _ _

section
variable {post : Post} {container : DecodedContainer} {final entry : B256}

theorem Replays.again (engine : Sealing node numberOf) (records : Recording node) (distinct : CollisionFree node)
    (head_eq : e.head = head) (quiet : e.faults = []) (chained : Chained node numberOf e.chain)
    (left : Chained node numberOf chain) (genesis : chain[0]? = e.chain[0]?)
    (settles : post.settlement.finalState = some final) (starts : post.settlement.entryState = some entry)
    (replays : Replays node head.finalizedL2 post container final chain chain')
    (there : At e.chain (chain.length - 1) hash) (accepted : cursorRootAccepted hash entry post.settlement.finalState) :
    Succeeds (deriveBatch node (chain.length - 1) post container) e
      (fun r e' => r.2 = numberOf final ∧ Ready node numberOf head chain' e') := by
  obtain ⟨entry', starts', held⟩ := replays.starts
  obtain rfl : entry = entry' := Option.some.inj (starts.symm.trans starts')
  obtain ⟨chained', genesis'⟩ := replays.chained engine left
  by_cases same : hash = entry
  · subst same
    have ready := Ready.of_at engine distinct head_eq quiet chained left genesis held there
    exact ready.deriveBatch engine records distinct settles replays
  · obtain rfl : final = hash := Option.some.inj (settles.symm.trans (accepted.resolve_left same))
    cases resumed : post.settlement.resumed with
    | true =>
      obtain ⟨length, settled⟩ := replays.resumed_at resumed
      rw [← length] at settled there
      have ready := Ready.of_at engine distinct head_eq quiet chained chained' (genesis'.trans genesis) settled there
      exact ready.deriveBatch_again left engine settles resumed replays
    | false =>
      -- a fresh post whose root is at the cursor settled its entry state
      obtain ⟨n, settled, -⟩ := replays.settled
      have height : n = chain.length - 1 := by rw [← chained'.number settled, chained.number there]
      obtain ⟨b, hb, isEntry⟩ := held.of_below (replays.fresh_below engine left resumed)
      obtain ⟨b', hb', isFinal⟩ := settled
      rw [height, hb] at hb'
      cases hb'
      exact absurd (isFinal.symm.trans isEntry) same

end

theorem leaves_scanned_idle (none : takes node e.head posts = []) :
    Leaves (reconcileScanned node posts cursor batches replayed) e Q E ↔ Q (batches, cursor, replayed) e := by
  induction posts with
  | nil => exact Iff.rfl
  | cons post rest ih =>
    by_cases taken : ¬e.head.isProcessed post.id ∧ Derives node post
    · rw [takes_pos taken.1 taken.2] at none
      cases none
    · rw [takes_neg taken] at none
      rw [leaves_scanned_skip taken, ih none]

section
variable (first : takes node head posts = post :: later) (replays : ReplaysAll node numberOf head posts chain last)
include first replays

/-- What holds at the first post that is taken holds of the whole list, as far as
posts that are not taken make no difference. -/
theorem ReplaysAll.at_first {C : List Post → Prop}
    (skip : ∀ p rest, ¬(¬head.isProcessed p.id ∧ Derives node p) → C rest → C (p :: rest))
    (take : ∀ rest container final next, ¬head.isProcessed post.id ∧ Derives node post →
      decodeOurPayload node post.batch.callData = .ok (some container) → post.settlement.finalState = some final →
      Replays node head.finalizedL2 post container final chain next →
      ReplaysAll node numberOf head rest (next.take (numberOf final + 1)) last → C (post :: rest)) : C posts := by
  induction posts with
  | nil => cases first
  | cons p rest ih =>
    unfold ReplaysAll at replays
    split at replays
    next taken =>
      obtain ⟨container, final, next, decoded, settles, replays, more⟩ := replays
      rw [takes_pos taken.1 taken.2] at first
      obtain ⟨rfl, -⟩ := List.cons.inj first
      exact take rest container final next taken decoded settles replays more
    next idle =>
      rw [takes_neg idle] at first
      exact skip p rest idle (ih first replays)

theorem ReplaysAll.entry : ∃ entry, post.settlement.entryState = some entry := by
  apply ReplaysAll.at_first first replays
  · intro p rest _ found
    exact found
  · intro rest container final next _ _ _ replays _
    obtain ⟨entry, starts, -⟩ := replays.starts
    exact ⟨entry, starts⟩

end

theorem ReplaysAll.again (engine : Sealing node numberOf) (records : Recording node) (distinct : CollisionFree node)
    (head_eq : e.head = head) (quiet : e.faults = []) (chained : Chained node numberOf e.chain) {entry}
    (left : Chained node numberOf chain) (genesis : chain[0]? = e.chain[0]?) (long : 0 < chain.length)
    (there : At e.chain (chain.length - 1) hash) (first : takes node head posts = post :: later)
    (starts : post.settlement.entryState = some entry)
    (accepted : cursorRootAccepted hash entry post.settlement.finalState)
    (replays : ReplaysAll node numberOf head posts chain last) :
    Loops node numberOf head posts (chain.length - 1) last e := by
  apply ReplaysAll.at_first first replays
  · intro p rest idle loops
    exact Loops.skip head_eq idle loops
  · intro rest container final next taken decoded settles replays more
    have derived := replays.again engine records distinct head_eq quiet chained left genesis settles starts there
      accepted
    exact Loops.cons taken head_eq decoded settles long replays derived fun ready' long' =>
      Ready.reconcileScanned engine records distinct ready' long' more

theorem ReplaysAll.refused (head_eq : e.head = head) (quiet : e.faults = []) (chained : Chained node numberOf e.chain)
    {entry} (left : Chained node numberOf chain) (there : At e.chain (chain.length - 1) hash)
    (first : takes node head posts = post :: later) (starts : post.settlement.entryState = some entry)
    (refused : ¬cursorRootAccepted hash entry post.settlement.finalState)
    (replays : ReplaysAll node numberOf head posts chain last) (batches : List BatchRecord) (replayed : Nat) :
    Leaves (reconcileScanned node posts (chain.length - 1) batches replayed) e (fun _ _ => False) (fun _ => True) := by
  apply ReplaysAll.at_first first replays
  · intro p rest idle fails
    rw [leaves_scanned_skip (head_eq ▸ idle)]
    exact fails
  · intro rest container final next taken decoded settles replays _
    obtain ⟨entry', starts', held⟩ := replays.starts
    obtain rfl : entry = entry' := Option.some.inj (starts.symm.trans starts')
    have ready : Ready node numberOf head [] e := ⟨head_eq, quiet, chained, nil_prefix⟩
    rw [leaves_scanned_take (head_eq ▸ taken) decoded, deriveBatch, leaves_bind, starts]
    have start : Succeeds (batchStart (chain.length - 1) (some entry) container.span.blockCount) e
        (fun anchor e' => anchor = chain.length - 1 ∧ e' = e) := ready.batchStart (left.number held) ⟨rfl, rfl⟩
    refine start.mono ?_ fun _ failed => failed.elim
    rintro _ _ ⟨rfl, rfl⟩
    rw [leaves_bind, checkCursorRoot, starts, leaves_bind]
    have read : Succeeds (l2HashAt (chain.length - 1)) _ (fun root _ => root = hash) :=
      Succeeds.l2HashAt quiet there rfl
    refine read.mono ?_ fun _ failed => failed.elim
    rintro _ _ rfl
    rw [if_neg refused]
    trivial

variable {root : B256} {l1 : List Post} {d : Inner}

theorem Good.stopped (good : Good .any node numberOf root l1 d) (engine : Sealing node numberOf)
    (l1Posts : L1Posts node numberOf root l1) (mem : ∀ p ∈ posts, p ∈ l1)
    (ordered : posts.Pairwise fun p q => ¬PostId.positionLe q.id p.id) (faults : List Bool) :
    Kept .any node numberOf d.head d.head.cursor (d.chain.take 1)
      (exec (Deriver.reconcileScanned node posts d.head.cursor [] 0) { d with faults }).2 := by
  have loop := (good.setFaults faults).reconcileScanned engine l1Posts mem (ordered.filter _) (below_one _ _)
    fun _ _ _ _ _ => steady_any.resumes _ _
  refine Leaves.final (loop.mono ?_ fun _ kept => kept)
  rintro r d' ⟨kept, chunk, -⟩
  exact kept.lower chunk.above

theorem Loops.returns (loops : Loops node numberOf d.head posts d.head.cursor last e)
    (finalized : d.head.finalizedL2 ≤ d.head.cursor) :
    ∃ r e', exec (Deriver.reconcileScannedBatches node posts d.head.cursor) e = (.ok r, e') ∧ r.2 = last.length - 1 ∧
      e'.head = d.head.appendMany ((takes node d.head posts).map (recordOf numberOf)) ∧
      e'.chain.take (r.2 + 1) = last := by
  obtain ⟨r, e', ran, cursor, long, ready⟩ := (loops.reconcileScannedBatches finalized).exists_exec
  refine ⟨r, e', ran, cursor, ready.head_eq, ?_⟩
  rw [cursor, Nat.sub_add_cancel long]
  exact (prefix_iff_eq_take.mp ready.below).symm

/-- A chunk that was stopped before its records were appended is restarted
exactly when the block at the cursor is the entry or the final state of the first
post that is taken. -/
theorem restarts_iff_reenters (engine : Sealing node numberOf) (records : Recording node)
    (distinct : CollisionFree node)
    (l1Posts : L1Posts node numberOf root l1) (good : Good .any node numberOf root l1 d) {posts : List Post}
    (mem : ∀ p ∈ posts, p ∈ l1) (ordered : posts.Pairwise fun p q => ¬PostId.positionLe q.id p.id)
    (replays : ReplaysAll node numberOf d.head posts (d.chain.take (d.head.cursor + 1)) last) (faults : List Bool) :
    Restarts node posts d (exec (reconcileScanned node posts d.head.cursor [] 0) { d with faults }).2 ↔
      Reenters node posts d (exec (reconcileScanned node posts d.head.cursor [] 0) { d with faults }).2 := by
  have kept := good.stopped engine l1Posts mem ordered faults
  have untouched : takes node d.head posts = [] →
      (exec (reconcileScanned node posts d.head.cursor [] 0) { d with faults }).2.chain = d.chain := by
    intro none
    have none : takes node { d with faults }.head posts = [] := none
    have idle : Leaves (reconcileScanned node posts d.head.cursor [] 0) { d with faults }
        (fun _ d' => d'.chain = d.chain) (fun d' => d'.chain = d.chain) := (leaves_scanned_idle none).mpr rfl
    exact Leaves.final idle
  generalize (exec (reconcileScanned node posts d.head.cursor [] 0) { d with faults }).2 = stopped at kept untouched ⊢
  have size : (d.chain.take (d.head.cursor + 1)).length = d.head.cursor + 1 := by
    have := good.long
    rw [length_take]
    omega
  have left : Chained node numberOf (d.chain.take (d.head.cursor + 1)) := good.chained.take _
  have whole : Loops node numberOf d.head posts d.head.cursor last { d with faults := [] } := by
    have ready : Ready node numberOf d.head (d.chain.take (d.head.cursor + 1)) { d with faults := [] } :=
      ⟨rfl, rfl, good.chained, take_prefix _ _⟩
    have := Ready.reconcileScanned engine records distinct ready (by omega) replays
    rwa [size] at this
  have finalized : d.head.finalizedL2 ≤ d.head.cursor := good.index.finalized
  have genesis : (d.chain.take (d.head.cursor + 1))[0]? = stopped.chain[0]? := by
    obtain ⟨rest, eq⟩ := kept.below
    have some_ : 0 < (d.chain.take 1).length := by
      have := good.long
      rw [length_take]
      omega
    rw [← eq, getElem?_append_left some_, getElem?_take_of_lt (Nat.succ_pos _), getElem?_take_of_lt Nat.one_pos]
  have quiet : ∀ {hash}, At stopped.chain d.head.cursor hash → At { stopped with faults := [] }.chain
      ((d.chain.take (d.head.cursor + 1)).length - 1) hash := by
    intro hash held
    rw [size]
    exact held
  constructor
  · rintro ⟨r, e, r', e', ran, -⟩ post first entry starts b there
    by_contra refused
    obtain ⟨later, first⟩ := head?_eq_some_iff.mp first
    have stop := ReplaysAll.refused (e := { stopped with faults := [] }) kept.head_eq rfl kept.chained left
      (quiet ⟨b, there, rfl⟩) first starts refused replays [] 0
    rw [size, Nat.add_sub_cancel] at stop
    have fails : Leaves (reconcileScannedBatches node posts d.head.cursor) { stopped with faults := [] }
        (fun _ _ => False) (fun _ => True) := by
      rw [reconcileScannedBatches, leaves_bind]
      exact stop.mono (fun _ _ never => never.elim) fun _ _ => trivial
    exact fails.ok ran
  · intro reenters
    have again : Loops node numberOf d.head posts d.head.cursor last { stopped with faults := [] } := by
      cases first : takes node d.head posts with
      | nil =>
        have ready : Ready node numberOf d.head (d.chain.take (d.head.cursor + 1)) { stopped with faults := [] } :=
          ⟨kept.head_eq, rfl, kept.chained, untouched first ▸ take_prefix _ _⟩
        have := Ready.reconcileScanned engine records distinct ready (by omega) replays
        rwa [size] at this
      | cons post later =>
        obtain ⟨entry, starts⟩ := replays.entry first
        have there : stopped.chain[d.head.cursor]? = some _ := getElem?_eq_getElem kept.long
        have accepted := reenters post (by rw [first]; rfl) entry starts _ there
        have := replays.again (e := { stopped with faults := [] }) engine records distinct kept.head_eq rfl
          kept.chained left genesis (by omega) (quiet ⟨_, there, rfl⟩) first starts accepted
        rwa [size] at this
    obtain ⟨r, e, ran, cursor, head_eq, chain⟩ := again.returns finalized
    obtain ⟨r', e', ran', cursor', head_eq', chain'⟩ := whole.returns finalized
    exact ⟨r, e, r', e', ran, ran', cursor.trans cursor'.symm, head_eq.trans head_eq'.symm,
      by rw [chain, cursor, ← cursor', chain']⟩

namespace World

def countingStart : Inner :=
  ⟨⟨1, 0, [⟨⟨1, 1, 0⟩, 1, 1⟩], none⟩, 1, [genesis, ⟨7, 0, [], ⟨0, [7]⟩⟩], [], [], []⟩

theorem countingStart_good (first : countingPost 1 7 0 7 false ∈ l1) :
    Good Ordered countingNode digits 0 l1 countingStart := by
  refine ⟨⟨rfl, by decide, pairwise_singleton _ _, pairwise_singleton _ _, ?_⟩,
    ⟨by decide, by decide, rfl, by simp [countingStart], by simp [countingStart]⟩, countingChain_chained, by decide⟩
  intro r hr
  obtain rfl := mem_singleton.mp hr
  exact .inr ⟨_, first, rfl, countingPost_derives, 7, rfl, by simp [digits]⟩

/-- A resumed post and a fresh one, stopped in the second. -/
theorem restarts_resumed_once :
    Restarts countingNode [countingPost 2 9 7 9 true, countingPost 3 5 9 2309 false] countingStart
      (exec (reconcileScanned countingNode [countingPost 2 9 7 9 true, countingPost 3 5 9 2309 false] 1 [] 0)
        { countingStart with faults := replicate 12 false ++ [true] }).2 := by
  have replays : ReplaysAll countingNode digits countingStart.head
      [countingPost 2 9 7 9 true, countingPost 3 5 9 2309 false] (countingStart.chain.take 2)
      [genesis, ⟨9, 0, [], ⟨0, [9]⟩⟩, ⟨2309, 9, [], ⟨0, [5]⟩⟩] := by
    refine counting_replays (by decide) (counting_resumed (by decide) (by decide)) ?_
    rw [show digits 9 = 1 by simp [digits]]
    exact counting_replays (by decide) (counting_fresh (by decide)) (by simp [digits, ReplaysAll])
  refine (restarts_iff_reenters countingNode_sealing countingNode_recording countingNode_collisionFree
    countingPosts_once (countingStart_good mem_cons_self).forget ?_ (by decide) replays _).mpr ?_
  · intro p hp
    exact mem_cons_of_mem _ hp
  · intro post first entry starts b there
    have root : (exec (reconcileScanned countingNode [countingPost 2 9 7 9 true, countingPost 3 5 9 2309 false] 1
        [] 0) { countingStart with faults := replicate 12 false ++ [true] }).2.chain[1]?.map L2Block.hash =
        some 9 := by decide +kernel
    have taken : (takes countingNode countingStart.head
        [countingPost 2 9 7 9 true, countingPost 3 5 9 2309 false]).head? = some (countingPost 2 9 7 9 true) := by
      rw [takes_pos (by decide) countingPost_derives]
      rfl
    rw [taken] at first
    cases first
    refine .inr ?_
    have same : some 9 = some b.hash := root.symm.trans (congrArg (Option.map L2Block.hash) there)
    exact same

/-- Two resumed posts leave block 1 with the root of the second, and the first
does not accept it when the chunk is read again. -/
theorem unrestarted_resumed_twice :
    let posts := [countingPost 2 9 7 9 true, countingPost 3 11 9 11 true, countingPost 4 5 11 2821 false]
    let stopped := exec (reconcileScanned countingNode posts 1 [] 0)
      { countingStart with faults := replicate 21 false ++ [true] }
    L1Posts countingNode digits 0 (countingPost 1 7 0 7 false :: posts) ∧
      Good Ordered countingNode digits 0 (countingPost 1 7 0 7 false :: posts) countingStart ∧
      ReplaysAll countingNode digits countingStart.head posts (countingStart.chain.take 2)
        [genesis, ⟨11, 0, [], ⟨0, [11]⟩⟩, ⟨2821, 11, [], ⟨0, [5]⟩⟩] ∧
      stopped.1 = .error (.l2Provider "read failed") ∧ ¬Restarts countingNode posts countingStart stopped.2 := by
  refine ⟨⟨by decide, by decide, ?_⟩, countingStart_good mem_cons_self, ?_, by decide +kernel, ?_⟩
  · refine counting_roots (by simp [digits]) (counting_roots (by simp [digits]) ?_)
    exact counting_roots (by simp [digits]) (counting_roots (by simp [digits]) trivial)
  · refine counting_replays (by decide) (counting_resumed (by decide) (by decide)) ?_
    rw [show digits 9 = 1 by simp [digits]]
    refine counting_replays (by decide) (counting_resumed (by decide) (by decide)) ?_
    rw [show digits 11 = 1 by simp [digits]]
    exact counting_replays (by decide) (counting_fresh (by decide)) (by simp [digits, ReplaysAll])
  · rintro ⟨r, e, -, -, ran, -⟩
    have refused : (exec (reconcileScannedBatches countingNode
        [countingPost 2 9 7 9 true, countingPost 3 11 9 11 true, countingPost 4 5 11 2821 false] 1)
        { (exec (reconcileScanned countingNode
            [countingPost 2 9 7 9 true, countingPost 3 11 9 11 true, countingPost 4 5 11 2821 false] 1 [] 0)
            { countingStart with faults := replicate 21 false ++ [true] }).2 with faults := [] }).1 =
        .error (.localDiverged 1 none) := by decide +kernel
    have never : Except.error (DeriverError.localDiverged 1 none) = Except.ok r :=
      refused.symm.trans (congrArg Prod.fst ran)
    cases never

end World

end Eez.Deriver
