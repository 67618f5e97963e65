import EezRollup.Scan.Reading

/-! What one item does to the posts being read and to the owners of the queues. -/
namespace Eez.Scan
open List Octets Outcome

/-- Everything an item can do at its place. -/
inductive Moves (us : UInt64) (here : String) (w : Walk) : Kind → Place → Walk → Prop where
  | listed {spi : B256} {ids : List UInt64} {i : Nat} {r : Reading} (held : w.posts[i]? = some r)
      (reported : r.nextLeading = r.run) : Moves us here w (.posted spi ids) (.ours i) (w.reset ids (some i))
  | unlisted {spi : B256} {ids : List UInt64} {place : Place} (other : ∀ i, place ≠ .ours i) :
      Moves us here w (.posted spi ids) place (w.reset ids none)
  | skipped {slot : UInt64} {i next : Nat} {r r' : Reading} (held : w.posts[i]? = some r)
      (led : r.leading here = .ok (next, r')) (same : slot = UInt64.ofNat next) :
      Moves us here w (.skipped slot) (.ours i) (w.update i r')
  | passed {slot : UInt64} {place : Place} (other : ∀ i, place ≠ .ours i) (inside : place ≠ .between) :
      Moves us here w (.skipped slot) place w
  | inCall {record : Record} {i : Nat} {r r' : Reading} (held : w.posts[i]? = some r)
      (read : r.inCall record here = .ok r') : Moves us here w (.record record) (.ours i) (w.update i r')
  | silent {record : Record} {place : Place} (other : ∀ i, place ≠ .ours i) (silent : record.updates us = false) :
      Moves us here w (.record record) place w
  | deferred {record : Record} {place : Place} {consumed : Consumed} {i : Nat} {r r' : Reading}
      (outside : place = .between ∨ place = .untraced) (carried : record.consumed = some consumed)
      (ours : record.updates us = true) (owner : w.owners consumed.queue = some (some i))
      (held : w.posts[i]? = some r) (read : r.deferred record consumed here = .ok r') :
      Moves us here w (.record record) place (w.update i r')

theorem readItem_moves (h : readItem block us w tx item place = .ok w') :
    ∃ log, tx.logs[item.last]? = some log ∧ Moves us (atLog block.number log) w item.kind place w' := by
  obtain ⟨log, hlog, h⟩ := bind_eq_ok.mp h
  refine ⟨log, index_eq_ok.mp hlog, ?_⟩
  cases kind : item.kind with
  | posted spi ids =>
    cases place with
    | ours i =>
      simp only [kind, bind_eq_ok, index_eq_ok, ensure_eq_ok, exists_const, pure_eq_ok] at h
      obtain ⟨r, held, reported, rfl⟩ := h
      exact .listed held reported
    | foreign | between | untraced =>
      simp only [kind, pure_eq_ok] at h
      subst h
      exact .unlisted (by simp)
  | skipped slot =>
    cases place with
    | ours i =>
      simp only [kind, bind_eq_ok, index_eq_ok, ensure_eq_ok, exists_const, pure_eq_ok, Prod.exists] at h
      obtain ⟨r, held, next, r', led, same, rfl⟩ := h
      exact .skipped held led same
    | foreign | between | untraced =>
      simp only [kind, bind_eq_ok, ensure_eq_ok, exists_const, pure_eq_ok] at h
      obtain ⟨inside, rfl⟩ := h
      exact .passed (by simp) inside
  | record record =>
    cases place with
    | ours i =>
      simp only [kind, bind_eq_ok, index_eq_ok, pure_eq_ok] at h
      obtain ⟨r, held, r', read, rfl⟩ := h
      exact .inCall held read
    | foreign =>
      simp only [kind, bind_eq_ok, ensure_eq_ok, exists_const, pure_eq_ok] at h
      obtain ⟨silent, rfl⟩ := h
      exact .silent (by simp) silent
    | between | untraced =>
      cases carried : record.consumed with
      | none =>
        simp only [kind, carried, bind_eq_ok, ensure_eq_ok, exists_const, pure_eq_ok] at h
        obtain ⟨⟨-, silent⟩, rfl⟩ := h
        exact .silent (by simp) silent
      | some consumed =>
        simp only [kind, carried] at h
        split at h
        next ours =>
          simp only [bind_eq_ok, require_eq_ok, index_eq_ok, pure_eq_ok, Option.join_eq_some_iff] at h
          obtain ⟨i, owner, r, held, r', read, rfl⟩ := h
          exact .deferred (by simp) carried ours owner held read
        next silent =>
          cases h
          exact .silent (by simp) (by simpa using silent)

def AllRead (us : UInt64) (posts : List Reading) : Prop := ∀ r ∈ posts, ∃ credits, Reads us r credits

theorem AllRead.set (all : AllRead us posts) (read : ∃ credits, Reads us r' credits) : AllRead us (posts.set i r') := by
  intro r hr
  rcases mem_or_eq_of_mem_set hr with hr | rfl
  · exact all r hr
  · exact read

theorem Moves.allRead (moves : Moves us here w kind place w') (all : AllRead us w.posts) : AllRead us w'.posts := by
  cases moves with
  | listed | unlisted | passed | silent => exact all
  | skipped held led =>
    obtain ⟨credits, before⟩ := all _ (mem_of_getElem? held)
    exact all.set ⟨credits, .skipped before led⟩
  | inCall held read =>
    obtain ⟨credits, before⟩ := all _ (mem_of_getElem? held)
    exact all.set ⟨_, .inCall before read⟩
  | deferred _ _ _ _ held read =>
    obtain ⟨credits, before⟩ := all _ (mem_of_getElem? held)
    obtain ⟨i, slot, -⟩ := Reading.deferred_eq_ok.mp read
    exact all.set ⟨_, .deferred before slot read⟩

section
variable {ext : Externals} {block : Block} {us : UInt64}

theorem startPosts_allRead : ∀ {posts posts' : List Reading} {places : List Place},
      startPosts ext block us tx txHash calls posts = .ok (places, posts') → AllRead us posts → AllRead us posts' := by
  induction calls with
  | nil =>
    intro posts posts' places h all
    cases h
    exact all
  | cons call rest ih =>
    intro posts posts' places h all
    unfold startPosts at h
    split at h
    next =>
      simp only [bind_eq_ok, pure_eq_ok, Prod.exists, Prod.mk.injEq] at h
      obtain ⟨log, -, batch, -, r, new, places, started, h, -, rfl⟩ := h
      refine ih h ?_
      intro r' hr'
      rcases mem_append.mp hr' with hr' | hr'
      · exact all r' hr'
      · obtain rfl := mem_singleton.mp hr'
        exact ⟨[], .started new⟩
    next =>
      simp only [bind_eq_ok, pure_eq_ok, Prod.exists, Prod.mk.injEq] at h
      obtain ⟨places, started, h, -, rfl⟩ := h
      exact ih h all

theorem label_allRead (h : label ext block tx txCalls us posts = .ok (places, posts'))
    (all : AllRead us posts) : AllRead us posts' := by
  cases txCalls with
  | none =>
    cases h
    exact all
  | some calls =>
    simp only [label, bind_eq_ok] at h
    obtain ⟨head, -, -, -, h⟩ := h
    split at h
    next =>
      simp only [bind_eq_ok] at h
      obtain ⟨_, _, _, _, h⟩ := h
      cases h
    next =>
      simp only [bind_eq_ok, pure_eq_ok, Prod.exists, Prod.mk.injEq] at h
      obtain ⟨labels, -, -, -, byCall, started, starts, _, -, -, rfl⟩ := h
      exact startPosts_allRead starts all

theorem labelTxs_allRead : ∀ {posts posts' : List Reading} {placements : List Placement},
      labelTxs ext block callsByTx us txs posts = .ok (placements, posts') → AllRead us posts → AllRead us posts' := by
  induction txs with
  | nil =>
    intro posts posts' placements h all
    cases h
    exact all
  | cons tx txs ih =>
    intro posts posts' placements h all
    simp only [labelTxs, bind_eq_ok, pure_eq_ok, Prod.exists, Prod.mk.injEq] at h
    obtain ⟨head, -, places, started, labelled, rest, posts'', h, -, rfl⟩ := h
    exact ih h (label_allRead labelled all)

theorem distinct_of_nodup {applied : List AppliedEntry} :
    ∀ {seen : List Nat}, (applied.map AppliedEntry.entryIndex).Nodup →
      (∀ a ∈ applied, a.entryIndex ∉ seen) → Settlement.distinct seen applied = true := by
  induction applied with
  | nil =>
    intro seen _ _
    rfl
  | cons a rest ih =>
    intro seen nodup unseen
    obtain ⟨new, nodup⟩ := nodup_cons.mp nodup
    simp only [Settlement.distinct, Bool.and_eq_true, Bool.not_eq_true', contains_eq_mem, decide_eq_false_iff_not]
    refine ⟨unseen a mem_cons_self, ih nodup ?_⟩
    intro b hb seenB
    rcases mem_cons.mp seenB with same | seenB
    · exact new (same ▸ mem_map_of_mem hb)
    · exact unseen b (mem_cons_of_mem _ hb) seenB

theorem creditedEntry_eq_some (h : creditedEntry roles credit = some a) :
    a.entryIndex = credit.entryIndex ∧ roles[a.entryIndex]? = some (some a.role) := by
  obtain ⟨role, given, rfl⟩ := Option.map_eq_some_iff.mp h
  exact ⟨rfl, Option.join_eq_some_iff.mp given⟩

theorem creditedEntry_sublist (roles : List (Option EntryRole)) (credits : List Credit) :
    ((credits.filterMap (creditedEntry roles)).map AppliedEntry.entryIndex).Sublist
    (credits.map Credit.entryIndex) := by
  induction credits with
  | nil => exact .slnil
  | cons credit rest ih =>
    rw [filterMap_cons]
    cases h : creditedEntry roles credit with
    | none => exact ih.cons _
    | some a =>
      simp only [map_cons]
      rw [(creditedEntry_eq_some h).1]
      exact ih.cons_cons _

structure ListsOnce (us : UInt64) (batch : EvmBatch) (applied : List AppliedEntry) : Prop where
  nodup : (applied.map AppliedEntry.entryIndex).Nodup
  bounded : ∀ a ∈ applied, a.entryIndex < batch.entries.length
  roles : ∀ a ∈ applied, (entryRoles batch.entries us)[a.entryIndex]? = some (some a.role)
  credits : ∃ credits, CreditedOnce us batch applied credits
  asserted : Settlement.distinct [] applied = true

theorem CreditedOnce.lists {batch applied credits} (once : CreditedOnce us batch applied credits) :
    ListsOnce us batch applied := by
  have nodup : (applied.map AppliedEntry.entryIndex).Nodup := by
    rw [once.applied]
    exact once.distinct.sublist (creditedEntry_sublist _ _)
  have credit : ∀ a ∈ applied, ∃ credit ∈ credits, a.entryIndex = credit.entryIndex ∧
      (entryRoles batch.entries us)[a.entryIndex]? = some (some a.role) := by
    intro a ha
    rw [once.applied] at ha
    obtain ⟨credit, mem, h⟩ := mem_filterMap.mp ha
    exact ⟨credit, mem, creditedEntry_eq_some h⟩
  refine ⟨nodup, ?_, ?_, ⟨credits, once⟩, distinct_of_nodup nodup (by simp)⟩
  · intro a ha
    obtain ⟨credit, mem, same, -⟩ := credit a ha
    rw [same]
    exact once.bounded credit mem
  · intro a ha
    obtain ⟨-, -, -, role⟩ := credit a ha
    exact role

/-- Whatever the logs and the calls, a block that is read credits no entry twice
and none to the wrong slot. -/
theorem readBlock_listsOnce {callsByTx : UInt64 → Option (List Call × Nat)} {posts : List Post}
    (h : readBlock ext block callsByTx us = .ok posts) :
    ∀ post ∈ posts, ListsOnce us post.batch post.settlement.applied := by
  simp only [readBlock, bind_eq_ok, Prod.exists] at h
  obtain ⟨txs, -, placements, started, labelled, walked, walk, finished⟩ := h
  have all : AllRead us walked.posts := by
    refine foldlM_invariant (P := fun w : Walk => AllRead us w.posts) ?_ ?_ walk
    · intro w p w' all step
      obtain ⟨log, -, moves⟩ := readItem_moves step
      exact moves.allRead all
    · exact labelTxs_allRead labelled (by intro r hr; cases hr)
  intro post mem
  obtain ⟨r, hr, finish⟩ := forall₂_exists_right (mapM_eq_ok.mp finished).flip post mem
  obtain ⟨credits, reads⟩ := all r hr
  obtain ⟨finalState, entryState, resumed, rfl⟩ := Reading.finish_eq_ok finish
  exact reads.credited.once.lists

end

def twoEntries : EvmBatch where
  expectedRootPerRollup := []
  entries := [⟨[⟨1, 0, 4, 5⟩], 0, [], [], 0, 1, true, []⟩, ⟨[⟨1, 0, 5, 6⟩], 9, [], [], 0, 1, true, []⟩]
  staticEntries := []
  immediateEntryCount := 1
  immediateStaticEntryCount := 0
  proofSystems := []
  rollupIdsWithProofSystems := [⟨1, []⟩]
  blobIndices := []
  callData := []
  proofs := []
  blockNumber := 0
  bindMsgSenderInPublicInput := false

def zeroExternals : Externals where
  keccak256 := fun _ => 0
  decodePostAndVerifyBatch := fun _ => .ok twoEntries
  decodeBatchPosted := fun _ => .error ""
  decodeExecutionConsumed := fun _ => .error ""
  decodeL2ExecutionPerformed := fun _ => .error ""
  decodeEntryExecuted := fun _ => .error ""
  decodeL2TxSkipped := fun _ => .error ""
  debugLog := fun _ => ""

def deferredBlock : Block :=
  ⟨1, 1, [⟨0, 10, 0, .root 1 5⟩, ⟨0, 10, 1, .executed 0 0⟩, ⟨0, 10, 2, .posted 0 [1]⟩,
    ⟨1, 11, 3, .consumed ⟨9, 1, 0⟩⟩, ⟨1, 11, 4, .root 1 6⟩, ⟨1, 11, 5, .executed 0 0⟩]⟩

def deferredCalls : UInt64 → Option (List Call × Nat) := fun i => if i = 0 then some ([⟨[], 0, 3⟩], 3) else none

def deferredPost : Post :=
  ⟨⟨1, 1, 2⟩, 10, 0, twoEntries, ⟨[⟨0, .anchor⟩, ⟨1, .inbound 0⟩], some 6, some 4, false⟩⟩

theorem readBlock_deferredBlock : readBlock zeroExternals deferredBlock deferredCalls 1 = .ok [deferredPost] := by
  decide +kernel

theorem listsOnce_deferredBlock : ListsOnce 1 twoEntries [⟨0, .anchor⟩, ⟨1, .inbound 0⟩] :=
  readBlock_listsOnce readBlock_deferredBlock deferredPost (mem_singleton.mpr rfl)

end Eez.Scan
