import EezRollup.Watcher.Entries

/-! What each request and each path of a cycle leaves, and from it every run. -/
open List
namespace Eez.Watcher
open WatcherState
open Octets Faulty Scan

structure Same (c c' : Cycle) : Prop where
  state : c'.state = c.state
  emitted : c'.emitted = c.emitted

/-- A program that changes nothing and returns what satisfies `P`. -/
def Reads {α : Type} (x : M α) (P : α → Prop) : Prop := ∀ c, Leaves x c (fun a c' => P a ∧ Same c c') (Same c)

section
variable {α β : Type} {x : M α} {P : α → Prop}

theorem Same.trans (first : Same a b) (next : Same b c) : Same a c :=
  ⟨next.state.trans first.state, next.emitted.trans first.emitted⟩

theorem reads_pure (holds : P a) : Reads (pure a) P := fun _ => ⟨holds, rfl, rfl⟩

theorem reads_throw {e : Halt} : Reads (throw e : M α) P := fun _ => ⟨rfl, rfl⟩

theorem Reads.bind {f : α → M β} (first : Reads x P) (next : ∀ a, P a → Reads (f a) Q) : Reads (x >>= f) Q := by
  intro c
  rw [leaves_bind]
  apply (first c).mono
  · intro a b read
    apply (next a read.1 b).mono
    · intro y d read'
      exact ⟨read'.1, read.2.trans read'.2⟩
    · intro d same
      exact read.2.trans same
  · intro b same
    exact same

theorem Reads.mono {Q : α → Prop} (reads : Reads x P) (weaken : ∀ a, P a → Q a) : Reads x Q := by
  intro c
  apply (reads c).mono
  · intro a b read
    exact ⟨weaken a read.1, read.2⟩
  · intro b same
    exact same

theorem Reads.leaves (reads : Reads x P) {Q : α → Cycle → Prop} {E : Cycle → Prop}
    (ok : ∀ a c', P a → Same c c' → Q a c') (failed : ∀ c', Same c c' → E c') : Leaves x c Q E := by
  apply (reads c).mono
  · intro a c' read
    exact ok a c' read.1 read.2
  · intro c' same
    exact failed c' same

theorem reads_ask : Reads ask fun _ => True := by
  intro c
  unfold ask
  simp only [leaves_bind, leaves_get]
  cases c.answers with
  | nil | cons answer answers => exact ⟨trivial, rfl, rfl⟩

theorem reads_request (failed : String → L1Error) : Reads (request failed) fun _ => True := by
  apply reads_ask.bind
  intro answer _
  cases answer with
  | none => exact reads_pure trivial
  | some reason => exact reads_throw

end

/-- A block of the chain served. -/
structure Snap (t : BlockTree) (src : Source) (b : BlockSnapshot) : Prop where
  hash : t.chain b.hash = src.chain.take (b.number + 1)
  parent : t.chain b.parentHash = src.chain.take b.number
  bound : b.number < src.chain.length

variable {b : BlockSnapshot} {src : Source} {t : BlockTree}

theorem Snap.height (snap : Snap t src b) : (t.chain b.hash).length = b.number + 1 := by
  have bound := snap.bound
  rw [snap.hash, length_take]
  omega

theorem Snap.walk_start (snap : Snap t src b) :
    t.chain b.parentHash = src.chain.take (b.number - 1 + 1) ∧ b.number - 1 < src.chain.length ∨
      t.chain b.parentHash = [] ∧ b.number - 1 = 0 := by
  have parent := snap.parent
  have bound := snap.bound
  cases number : b.number with
  | zero => rw [number] at parent; exact .inr ⟨parent, rfl⟩
  | succ m => rw [number] at parent bound; exact .inl ⟨parent, by omega⟩

theorem Snap.number_ne_zero (snap : Snap t src b) (parent : t.chain b.parentHash ≠ []) : b.number ≠ 0 := by
  intro zero
  apply parent
  rw [snap.parent, zero]
  rfl

section
variable {t : BlockTree} {src : Source} {head : B256} (on : src.chain = t.chain head)
include on

variable {b boundary : BlockSnapshot} {n low : Nat}

theorem snap_of_snapshot (served : src.snapshot n = some b) : b.number = n ∧ Snap t src b := by
  unfold Source.snapshot at served
  obtain ⟨block, at_n, eq⟩ := Option.map_eq_some_iff.mp served
  subst eq
  refine ⟨rfl, ?_, ?_, (List.getElem?_eq_some_iff.mp at_n).1⟩
  · rw [on] at at_n ⊢
    exact t.chain_take at_n
  · rw [on] at at_n ⊢
    exact t.chain_parent at_n

omit on in
theorem reads_byTag {P : BlockSnapshot → Prop} (served : ∀ b, src.byTag tag = some b → P b) :
    Reads (fetchBlockByTag src tag) P := by
  apply (reads_request _).bind
  intro _ _
  cases found : src.byTag tag with
  | none => exact reads_throw
  | some b => exact reads_pure (served b found)

theorem reads_latest : Reads (fetchBlockByTag src .latest) fun b => Snap t src b ∧ b.number + 1 = src.chain.length := by
  apply reads_byTag
  intro b served
  obtain ⟨number, snap⟩ := snap_of_snapshot on served
  have bound := snap.bound
  exact ⟨snap, by omega⟩

theorem reads_number (n : Nat) : Reads (fetchBlockByTag src (.number n)) fun b => Snap t src b ∧ b.number = n := by
  apply reads_byTag
  intro b served
  obtain ⟨number, snap⟩ := snap_of_snapshot on served
  exact ⟨snap, number⟩

theorem reads_hash (hash : B256) : Reads (fetchBlockByHash src hash) fun b => Snap t src b ∧ b.hash = hash := by
  apply (reads_request _).bind
  intro _ _
  cases found : src.byHash hash with
  | none => exact reads_throw
  | some b =>
    apply reads_pure
    unfold Source.byHash at found
    obtain ⟨n, at_n, served⟩ := Option.bind_eq_some_iff.mp found
    refine ⟨(snap_of_snapshot on served).2, ?_⟩
    unfold Source.snapshot at served
    obtain ⟨block, get, eq⟩ := Option.map_eq_some_iff.mp served
    obtain ⟨bound, hashes, _⟩ := findIdx?_eq_some_iff_getElem.mp at_n
    obtain ⟨_, get⟩ := List.getElem?_eq_some_iff.mp get
    rw [get] at hashes
    rw [← eq]
    exact of_decide_eq_true hashes

theorem Snap.entry (snap : Snap t src b) : entryAt src.chain b.number = (b.number, b.hash) :=
  entry_eq on snap.hash snap.bound

theorem reads_walkBack {s : WatcherState} (kept : Kept t s.recent h)
    (at_n : t.chain cursor = src.chain.take (n + 1) ∧ n < src.chain.length ∨ t.chain cursor = [] ∧ n = 0) :
    Reads (walkBackToCommon src s hops cursor n) fun found => ∀ common, found = some common →
      (common.number, common.hash) ∈ s.recent ∧ t.chain common.hash = src.chain.take (common.number + 1) ∧
        common.number ≤ n ∧ n < common.number + hops ∧ t.chain cursor ≠ [] := by
  induction hops generalizing n cursor with
  | zero => exact reads_pure fun _ none => by cases none
  | succ hops ih =>
    unfold walkBackToCommon
    split
    · next known =>
      apply reads_pure
      intro common eq
      cases eq
      obtain ⟨number, found⟩ := Option.isSome_iff_exists.mp known
      obtain ⟨e, found, _⟩ := Option.map_eq_some_iff.mp found
      have mem := mem_of_find?_eq_some found
      have hash : e.2 = cursor := by simpa using find?_some found
      have height := kept.height mem
      rw [hash] at height
      cases at_n with
      | inl at_n =>
        have number : e.1 = n := by
          rw [at_n.1, length_take] at height
          omega
        subst number hash
        refine ⟨mem, at_n.1, Nat.le_refl _, by change e.1 < e.1 + _; omega, ?_⟩
        intro empty
        rw [empty] at height
        cases height
      | inr none =>
        rw [none.1] at height
        cases height
    · split
      · exact reads_pure fun _ none => by cases none
      · next positive =>
        have at_n := at_n.resolve_right fun none => positive none.2
        apply (reads_hash on cursor).bind
        intro block read
        have number : block.number = n := by
          have height := read.1.height
          rw [read.2, at_n.1, length_take] at height
          omega
        have parent := read.1.parent
        rw [number] at parent ⊢
        have older : t.chain block.parentHash = src.chain.take (n - 1 + 1) ∧ n - 1 < src.chain.length := by
          rw [show n - 1 + 1 = n by omega]
          exact ⟨parent, by omega⟩
        apply (ih (.inl older)).mono
        · intro found common_of common eq
          obtain ⟨mem, chain, le, near, _⟩ := common_of common eq
          refine ⟨mem, chain, by omega, by omega, ?_⟩
          intro empty
          have height := height_of_take at_n.1 at_n.2
          rw [empty] at height
          cases height

theorem reads_byHeight {s : WatcherState} {entries} (sub : ∀ e ∈ entries, e ∈ s.recent) :
    Reads (findCommonAncestorByHeight src entries) fun found => ∀ common, found = some common →
      (common.number, common.hash) ∈ s.recent := by
  induction entries with
  | nil => exact reads_pure fun _ none => by cases none
  | cons e entries ih =>
    apply (reads_number on e.1).bind
    intro canonical _
    split
    · apply reads_pure
      intro common eq
      cases eq
      exact sub e mem_cons_self
    · exact ih fun e mem => sub e (mem_cons_of_mem _ mem)

theorem Snap.entries_concat (snap : Snap t src b) (le : low ≤ b.number) :
    entries src.chain low (b.number - low) ++ [(b.number, b.hash)] = entries src.chain low (b.number + 1 - low) := by
  rw [show b.number + 1 - low = b.number - low + 1 by omega, Watcher.entries_concat,
    show low + (b.number - low) = b.number by omega, snap.entry on]

theorem reads_ancestors (below : t.chain parent = src.chain.take n) (bound : n < src.chain.length) :
    Reads (ancestorsOf src room parent n) fun older => ∃ low ≤ n, older = entries src.chain low (n - low) := by
  induction room generalizing n parent with
  | zero => exact reads_pure ⟨n, Nat.le_refl _, by rw [Nat.sub_self]; rfl⟩
  | succ room ih =>
    unfold ancestorsOf
    split
    · exact reads_pure ⟨n, Nat.le_refl _, by rw [Nat.sub_self]; rfl⟩
    · apply (reads_hash on parent).bind
      intro block read
      have number : block.number + 1 = n := by
        have height := read.1.height
        rw [read.2, below, length_take] at height
        omega
      apply (ih read.1.parent read.1.bound).bind
      rintro older ⟨low, le, rfl⟩
      refine reads_pure ⟨low, by omega, ?_⟩
      rw [read.1.entries_concat on le, number]

theorem reads_window (snap : Snap t src boundary) (depth : Nat) :
    Reads (fetchAncestorWindow src boundary depth) fun window =>
      ∃ low ≤ boundary.number, window = entries src.chain low (boundary.number + 1 - low) := by
  apply (reads_ancestors on snap.parent snap.bound).bind
  rintro older ⟨low, le, rfl⟩
  exact reads_pure ⟨low, le, snap.entries_concat on le⟩

omit on in
theorem reads_narrowed (le : low ≤ high) :
    Reads (fetchNarrowed low high) fun reached => low ≤ reached ∧ reached ≤ high := by
  induction span : high - low using Nat.strong_induction_on generalizing high with
  | h m ih =>
    rw [fetchNarrowed]
    apply reads_ask.bind
    intro answer _
    cases answer with
    | none => exact reads_pure ⟨le, Nat.le_refl _⟩
    | some reason =>
      dsimp only
      split
      · next narrow =>
        have wider := narrow.2
        apply (ih (low + (high - low) / 2 - low) (by omega) (by omega) rfl).mono
        intro reached within
        omega
      · exact reads_throw

omit on in
theorem reads_scan (le : low ≤ high) : Reads (scanBatchLogsRangeAdaptive src low high) fun out =>
      out.1 = src.posts low out.2 ∧ low ≤ out.2 ∧ out.2 ≤ high := by
  apply (reads_narrowed le).bind
  intro reached within
  apply ((reads_request _).bind fun _ _ => reads_pure (P := fun posts => posts = src.posts low reached) rfl).bind
  intro posts eq
  exact reads_pure ⟨eq, within⟩

omit on in
theorem reads_scanRange (low high : Nat) : Reads (scanRange src low high) fun posts => posts = src.posts low high := by
  apply (reads_request _).bind
  intro _ _
  apply (reads_request _).bind
  intro _ _
  exact reads_pure rfl

def strip (e : Nat × B256 × UInt64) : Nat × B256 := (e.1, e.2.1)

theorem reads_collectBack {span cursor} (chain : t.chain cursor = src.chain.take (n + 1)) (bound : n < src.chain.length)
    (ends : n = low + span) :
    Reads (collectBack src low (span + 1) cursor n) fun l => l.map strip = entries src.chain low (span + 1) := by
  have here := entry_eq on chain bound
  induction span generalizing n cursor with
  | zero =>
    unfold collectBack
    apply (reads_hash on cursor).bind
    intro block read
    rw [if_pos (by omega)]
    apply reads_pure
    rw [entries_one, ← Nat.add_zero low, ← ends, here]
    rfl
  | succ span ih =>
    unfold collectBack
    apply (reads_hash on cursor).bind
    intro block read
    have number : block.number = n := by
      have height := read.1.height
      rw [read.2, chain, length_take] at height
      omega
    have parent := read.1.parent
    rw [number] at parent
    rw [if_neg (by omega), number]
    have older_chain : t.chain block.parentHash = src.chain.take (n - 1 + 1) := by
      rw [parent, show n - 1 + 1 = n by omega]
    have older_bound : n - 1 < src.chain.length := by omega
    apply (ih older_chain older_bound (by omega) (entry_eq on older_chain older_bound)).bind
    intro older older_eq
    apply reads_pure
    rw [map_append, older_eq, Watcher.entries_concat (n := span + 1), ← ends, here]
    rfl

theorem reads_boundary (snap : Snap t src latest) (n : Nat) :
    Reads (chunkBoundary src latest n) fun b => Snap t src b ∧ b.number = n := by
  unfold chunkBoundary
  split
  · next eq => exact reads_pure ⟨snap, eq.symm⟩
  · exact reads_number on n

theorem reads_reached (snap : Snap t src boundary) (number : boundary.number = chunk) :
    Reads (reachedBoundary src boundary chunk reached) fun b => Snap t src b ∧ b.number = reached := by
  unfold reachedBoundary
  split
  · next eq => exact reads_pure ⟨snap, number.trans eq.symm⟩
  · exact reads_number on reached

theorem reads_catchUpWindow (snap : Snap t src boundary) (depth : Nat) :
    Reads (catchUpWindow src latest boundary depth) fun window =>
      ∃ low ≤ boundary.number, window = entries src.chain low (boundary.number + 1 - low) := by
  unfold catchUpWindow
  split
  · exact reads_window on snap depth
  · refine reads_pure ⟨boundary.number, Nat.le_refl _, ?_⟩
    rw [Nat.add_sub_cancel_left, entries_one, snap.entry on]

end

section
variable {c : Cycle} {E : Cycle → Prop}

@[simp] theorem leaves_emit : Leaves (emit event) c Q E ↔ Q () { c with emitted := c.emitted ++ [event] } := Iff.rfl

theorem leaves_emitScannedBatches {Q : Unit → Cycle → Prop}
    (done : Q () { c with emitted := c.emitted ++ (peeked posts).map Replay.posted }) :
    Leaves (emitScannedBatches posts) c Q E := by
  induction posts generalizing c with
  | nil =>
    change Q () c
    simpa [peeked] using done
  | cons post rest ih =>
    unfold emitScannedBatches
    simp only [leaves_bind, leaves_emit]
    apply ih
    simpa [peeked, Replay.posted] using done

def headOf (e : Nat × B256 × UInt64) : L1Event := .newHead e.1 e.2.1 e.2.2

theorem leaves_pushHeads {l : List (Nat × B256 × UInt64)} {Q : Unit → Cycle → Prop}
    (done : Q () { c with state := pushAll (l.map strip) c.state, emitted := c.emitted ++ l.map headOf }) :
    Leaves (pushHeads l) c Q E := by
  induction l generalizing c with
  | nil =>
    change Q () c
    simpa [pushAll] using done
  | cons e l ih =>
    unfold pushHeads
    simp only [leaves_bind, leaves_modify, leaves_emit]
    apply ih
    simpa [pushAll, strip, headOf] using done

end

theorem peeked_scanned {high : Nat} (low : Nat) (chain : t.chain h = src.chain.take (high + 1)) :
    peeked (src.posts low high) = marked ((t.chain h).drop low) := by
  unfold Source.posts
  rw [← chain]
  exact peeked_posts (t.laidFrom_drop h low)

def Quiet (c : Cycle) : Prop := ∀ post last, .batchPosted post last ∉ c.emitted

def Told (c : Cycle) : Prop :=
  ∀ post last, .batchPosted post last ∈ c.emitted → (post.id.l1Block.toNat, post.id.l1BlockHash) ∈ c.state.recent

structure Clean (t : BlockTree) (r : Replay) (c : Cycle) : Prop where
  tracks : ∃ n h, Tracks t (r.onAll c.emitted) c.state n h
  told : Told c

section
variable {t : BlockTree} {r : Replay} {c c' : Cycle} {n n' : Nat} {h h' : B256}

theorem Same.quiet (same : Same c c') (quiet : Quiet c) : Quiet c' := by
  unfold Quiet
  rw [same.emitted]
  exact quiet

theorem Same.clean (same : Same c c') (clean : Clean t r c) : Clean t r c' := by
  constructor
  · rw [same.emitted, same.state]
    exact clean.tracks
  · unfold Told
    rw [same.emitted, same.state]
    exact clean.told

theorem Quiet.clean (quiet : Quiet c) (tracks : Tracks t (r.onAll c.emitted) c.state n h) : Clean t r c :=
  ⟨⟨n, h, tracks⟩, fun post last mem => absurd mem (quiet post last)⟩

theorem Quiet.append (quiet : Quiet c) (other : ∀ post last, .batchPosted post last ≠ event)
    (emitted : c'.emitted = c.emitted ++ [event]) : Quiet c' := by
  intro post last told
  rw [emitted, mem_append, mem_singleton] at told
  cases told with
  | inl told => exact quiet post last told
  | inr told => exact other post last told

end

/-- How far a cycle that began at `c` has come: it may have gone back in the ring, then, `filled`, told the
blocks above its tip, and last a finalized block. -/
inductive Passed (t : BlockTree) (src : Source) (c : Cycle) : Bool → Cycle → Prop
  | began {c' : Cycle} : Same c c' → Passed t src c false c'
  | back {c₁ c' : Cycle} {e : Nat × B256} (old new : B256) (number : Nat) : Passed t src c false c₁ →
    e ∈ c₁.state.recent →
      c'.state = c₁.state.rewindTo e.1 → c'.emitted = c₁.emitted ++ [.reorg e.1 e.2 old number new] →
      Passed t src c false c'
  | filled {c₁ c' : Cycle} {n : Nat} {h : B256} (m : Nat) (heads : List L1Event) : Passed t src c false c₁ →
      c₁.state.tip = some (n, h) → t.chain h = src.chain.take (n + 1) → m < c₁.state.reorgMaxDepth →
      n + 1 + m < src.chain.length → (∀ e ∈ heads, ∃ n h ts, e = .newHead n h ts) →
      c'.state = pushAll (entries src.chain (n + 1) (m + 1)) c₁.state →
      c'.emitted = c₁.emitted ++ heads ++
        (marked ((t.chain (entryAt src.chain (n + 1 + m)).2).drop (n + 1))).map Replay.posted → Passed t src c true c'
  | finalized {c₁ c' : Cycle} {filled : Bool} (number : Nat) (hash : B256) : Passed t src c filled c₁ →
      c'.state = { c₁.state with lastFinalizedHash := some hash } →
      c'.emitted = c₁.emitted ++ [.finalized number hash] → Passed t src c filled c'

/-- Far behind, the ring is seeded anew at block `b`, where a chunk from the tip on ends. -/
inductive Reseeded (t : BlockTree) (src : Source) (c c' : Cycle) : Prop
  | mk {n low b : Nat} {h : B256} (ts : UInt64) : c.state.tip = some (n, h) → t.chain h = src.chain.take (n + 1) →
      n + c.state.reorgMaxDepth + 1 < src.chain.length → n < b → low ≤ b → b < src.chain.length →
      c'.state = pushAll (entries src.chain low (b + 1 - low)) (c.state.rewindTo 0) →
      c'.emitted = c.emitted ++ [.newHead b (entryAt src.chain b).2 ts] ++
        (marked ((t.chain (entryAt src.chain b).2).drop (n + 1))).map Replay.posted → Reseeded t src c c'

def Passes (t : BlockTree) (src : Source) (c c' : Cycle) : Prop := ∃ filled, Passed t src c filled c'

section
variable {t : BlockTree} {src : Source} {head : B256} (on : src.chain = t.chain head)
variable {r : Replay} {c₀ c c' : Cycle} {n : Nat} {h : B256} {latest : BlockSnapshot} {filled : Bool}

theorem Passed.same (passed : Passed t src c₀ filled c) (same : Same c c') : Passed t src c₀ filled c' := by
  cases passed with
  | began before => exact .began (before.trans same)
  | back old new number before mem state emitted =>
    exact .back old new number before mem (same.state.trans state) (same.emitted.trans emitted)
  | filled m heads before tip chain near bound only state emitted =>
    exact .filled m heads before tip chain near bound only (same.state.trans state) (same.emitted.trans emitted)
  | finalized number hash before state emitted =>
    exact .finalized number hash before (same.state.trans state) (same.emitted.trans emitted)

theorem Same.ring (same : Same c c') (ring : Ring t c.state n h) : Ring t c'.state n h := by
  rw [same.state]
  exact ring

theorem maybeRefresh_passes (passes : Passes t src c₀ c) (tick : Nat) :
    Leaves (maybeRefresh src tick) c (fun _ c' => Passes t src c₀ c') (Passes t src c₀) := by
  obtain ⟨filled, passed⟩ := passes
  unfold maybeRefresh
  split
  · unfold refreshFinalized
    simp only [leaves_bind]
    refine reads_ask.leaves ?_ fun c' same => ⟨filled, passed.same same⟩
    intro answer c₁ _ same
    have passes : Passes t src c₀ c₁ := ⟨filled, passed.same same⟩
    cases answer with
    | some reason =>
      dsimp only
      split
      · exact passes
      · exact passes
    | none =>
      dsimp only
      cases src.byTag .finalized with
      | none => exact passes
      | some finalized =>
        simp only [leaves_bind, leaves_get]
        split
        · exact passes
        · simp only [leaves_bind, leaves_modify, leaves_emit]
          exact ⟨filled, .finalized finalized.number finalized.hash (passed.same same) rfl rfl⟩
  · exact ⟨filled, passed⟩

theorem retreat_passes (passed : Passed t src c₀ false c) (ring : Ring t c.state n h) {common : CommonAncestor}
    (mem : (common.number, common.hash) ∈ c.state.recent) :
    Leaves (retreat latest n h common) c (fun _ c' => Passed t src c₀ false c' ∧
      Ring t c'.state common.number common.hash ∧ c'.state.reorgMaxDepth = c.state.reorgMaxDepth) E := by
  unfold retreat
  split
  · simp only [leaves_bind, leaves_emit, leaves_modify]
    exact ⟨.back h latest.hash latest.number passed mem rfl rfl, ring.rewind mem, rfl⟩
  · next stays =>
    -- The ancestor is the tip itself.
    have hash : h = common.hash := not_not.mp fun differ => stays (.inr differ)
    refine ⟨passed, ?_, rfl⟩
    rw [ring.number_eq mem hash, ← hash]
    exact ring

include on

theorem extendByOne_passes (passed : Passed t src c₀ false c) (ring : Ring t c.state n h) (snap : Snap t src latest)
    (parent : h = latest.parentHash) (number : latest.number = n + 1) :
    Leaves (extendByOne src latest) c (fun _ c' => Passes t src c₀ c') (Passes t src c₀) := by
  unfold extendByOne
  simp only [leaves_bind]
  refine (reads_scanRange latest.number latest.number).leaves ?_ fun c' same => ⟨_, passed.same same⟩
  rintro posts c₁ rfl same
  simp only [leaves_modify, leaves_emit]
  apply leaves_emitScannedBatches
  have ring := same.ring ring
  have bound := snap.bound
  have chain : t.chain h = src.chain.take (n + 1) := by
    rw [parent, ← number]
    exact snap.parent
  have entry := snap.entry on
  refine ⟨true, .filled 0 [.newHead latest.number latest.hash latest.timestamp] (passed.same same) ring.tip chain
    ring.depth (by omega) ?_ ?_ ?_⟩
  · intro e mem
    exact ⟨_, _, _, mem_singleton.mp mem⟩
  · rw [entries_one, ← number, entry]
    rfl
  · rw [peeked_scanned latest.number snap.hash, Nat.add_zero, ← number, entry]

theorem scanAndFill_passes {common : CommonAncestor} (passed : Passed t src c₀ false c)
    (ring : Ring t c.state common.number common.hash) (snap : Snap t src latest)
    (chain : t.chain common.hash = src.chain.take (common.number + 1)) (lower : common.number < latest.number)
    (near : latest.number ≤ common.number + c.state.reorgMaxDepth) :
    Leaves (scanAndFill src latest common) c (fun _ c' => Passes t src c₀ c') (Passes t src c₀) := by
  have failed : ∀ c', Same c c' → Passes t src c₀ c' := fun c' same => ⟨_, passed.same same⟩
  unfold scanAndFill
  simp only [leaves_bind]
  refine (reads_scan lower).leaves ?_ failed
  rintro ⟨posts, reached⟩ c₁ ⟨posts_eq, low, high⟩ same₁
  dsimp only at posts_eq low high ⊢
  subst posts_eq
  refine (reads_boundary on snap reached).leaves ?_ fun c' same => failed c' (same₁.trans same)
  rintro boundary c₂ ⟨at_boundary, rfl⟩ same₂
  obtain ⟨m, number⟩ : ∃ m, boundary.number = common.number + 1 + m := ⟨boundary.number - (common.number + 1), by omega⟩
  have bound := at_boundary.bound
  unfold fillForward
  rw [if_neg (by omega), show boundary.number - (common.number + 1) + 1 = m + 1 by omega]
  simp only [leaves_bind]
  refine (reads_collectBack on at_boundary.hash bound number).leaves ?_
    fun c' same => failed c' ((same₁.trans same₂).trans same)
  intro l c₃ l_eq same₃
  have same := (same₁.trans same₂).trans same₃
  have ring := same.ring ring
  rw [← same.state] at near
  apply leaves_pushHeads
  apply leaves_emitScannedBatches
  refine ⟨true, .filled m (l.map headOf) (passed.same same) ring.tip chain (by omega) (by omega) ?_ ?_ ?_⟩
  · intro e mem
    obtain ⟨x, _, eq⟩ := mem_map.mp mem
    exact ⟨_, _, _, eq.symm⟩
  · rw [l_eq]
  · rw [peeked_scanned (common.number + 1) at_boundary.hash, ← number, at_boundary.entry on]

theorem walkAndFill_passes (passed : Passed t src c₀ false c) (ring : Ring t c.state n h) (snap : Snap t src latest) :
    Leaves (walkAndFill src latest n h) c (fun _ c' => Passes t src c₀ c') (Passes t src c₀) := by
  unfold walkAndFill
  simp only [leaves_bind, leaves_get]
  refine (reads_walkBack on ring.kept snap.walk_start).leaves ?_ fun c' same => ⟨_, passed.same same⟩
  intro found c₁ common_of same
  have passed := passed.same same
  cases found with
  | none => exact ⟨_, passed⟩
  | some common =>
    obtain ⟨mem, chain, le, near, parent⟩ := common_of common rfl
    rw [← same.state] at mem near
    have positive := snap.number_ne_zero parent
    simp only [leaves_bind]
    apply (retreat_passes passed (same.ring ring) mem).mono _ (fun c' passes => passes)
    rintro _ c₂ ⟨passed, ring, depth⟩
    exact scanAndFill_passes on passed ring snap chain (by omega) (by omega)

theorem catchUpReorg_passes (passed : Passed t src c₀ false c) (old : B256) :
    Leaves (catchUpReorg src latest old) c (fun _ c' => Passes t src c₀ c') (Passes t src c₀) := by
  unfold catchUpReorg
  simp only [leaves_bind, leaves_get]
  refine (reads_byHeight on (s := c.state) fun e mem => mem_reverse.mp mem).leaves ?_
    fun c' same => ⟨_, passed.same same⟩
  intro found c₁ common_of same
  have passed := passed.same same
  cases found with
  | none => exact ⟨_, passed⟩
  | some common =>
    have mem := common_of common rfl
    rw [← same.state] at mem
    simp only [leaves_bind, leaves_emit, leaves_modify]
    exact ⟨false, .back old latest.hash latest.number passed mem rfl rfl⟩

theorem catchUpChunk_reseeds (begun : Same c₀ c) (ring : Ring t c.state n h) (snap : Snap t src latest)
    (chain : t.chain h = src.chain.take (n + 1)) (far : n + c.state.reorgMaxDepth < latest.number) :
    Leaves (catchUpChunk src latest n) c (fun _ c' => Reseeded t src c₀ c') (Passes t src c₀) := by
  have failed : ∀ c', Same c c' → Passes t src c₀ c' := fun c' same => ⟨_, .began (begun.trans same)⟩
  have bound := snap.bound
  unfold catchUpChunk
  simp only [leaves_bind]
  refine (reads_boundary on snap _).leaves ?_ failed
  rintro chunk c₁ ⟨at_chunk, chunk_number⟩ same₁
  refine (reads_scan ?_).leaves ?_ fun c' same => failed c' (same₁.trans same)
  · unfold logScanChunkBlocks
    omega
  rintro ⟨posts, reached⟩ c₂ ⟨posts_eq, low, _⟩ same₂
  dsimp only at posts_eq low ⊢
  subst posts_eq
  have same₂ := same₁.trans same₂
  refine (reads_reached on at_chunk chunk_number).leaves ?_ fun c' same => failed c' (same₂.trans same)
  rintro boundary c₃ ⟨at_boundary, rfl⟩ same₃
  have same₃ := same₂.trans same₃
  simp only [leaves_get]
  refine (reads_catchUpWindow on at_boundary _).leaves ?_ fun c' same => failed c' (same₃.trans same)
  rintro window c₄ ⟨first, le, rfl⟩ same₄
  have same := begun.trans (same₃.trans same₄)
  simp only [leaves_modify, leaves_emit]
  apply leaves_emitScannedBatches
  rw [begun.state] at ring far
  refine .mk boundary.timestamp ring.tip chain (by omega) low le at_boundary.bound (by rw [same.state]) ?_
  rw [peeked_scanned (n + 1) at_boundary.hash, at_boundary.entry on, same.emitted]

theorem pollCycle_passes (ring : Ring t c.state n h) (tick : Nat) :
    Leaves (pollCycle src tick) c (fun _ c' => Passes t src c c' ∨ Reseeded t src c c') (Passes t src c) := by
  unfold pollCycle
  simp only [leaves_bind]
  refine (reads_latest on).leaves ?_ fun c' same => ⟨_, .began same⟩
  rintro latest c₁ ⟨snap, _⟩ same₁
  have passed : Passed t src c false c₁ := .began same₁
  have ring := same₁.ring ring
  have refresh : ∀ (_ : Unit) c', Passes t src c c' → Leaves (maybeRefresh src tick) c'
      (fun _ c' => Passes t src c c' ∨ Reseeded t src c c') (Passes t src c) :=
    fun _ c' passes => (maybeRefresh_passes passes tick).mono (fun _ _ => .inl) fun _ => id
  simp only [leaves_get, ring.tip]
  split
  · exact refresh () c₁ ⟨_, passed⟩
  · split
    · next child =>
      rw [leaves_bind]
      exact (extendByOne_passes on passed ring snap child.1 child.2).mono refresh fun _ => id
    · split
      · next behind =>
        simp only [leaves_bind]
        refine (reads_number on n).leaves ?_ fun c' same => ⟨_, passed.same same⟩
        rintro old c₂ ⟨at_old, number⟩ same₂
        split
        · exact (catchUpReorg_passes on (passed.same same₂) h).mono (fun _ _ => .inl) fun _ => id
        · next stays =>
          have chain := at_old.hash
          rw [not_not.mp stays, number] at chain
          rw [← same₂.state] at behind
          exact (catchUpChunk_reseeds on (same₁.trans same₂) (same₂.ring ring) snap chain behind).mono
            (fun _ _ => .inr) fun _ => id
      · rw [leaves_bind]
        exact (walkAndFill_passes on passed ring snap).mono refresh fun _ => id

/-- Nothing but posts of blocks the ring has is told, and none before the ring is filled up. -/
theorem Passed.clean (tracks : Tracks t (r.onAll c.emitted) c.state n h) (quiet : Quiet c)
    (passed : Passed t src c filled c') : Clean t r c' ∧ (filled = false → Quiet c') := by
  induction passed with
  | began same => exact ⟨same.clean (quiet.clean tracks), fun _ => same.quiet quiet⟩
  | @back c₁ c' e old new number _ mem state emitted ih =>
    obtain ⟨⟨⟨_, _, tracks⟩, _⟩, quiet⟩ := ih
    have quiet : Quiet c' := (quiet rfl).append (by simp) emitted
    refine ⟨quiet.clean (n := e.1) (h := e.2) ?_, fun _ => quiet⟩
    rw [state, emitted, Replay.onAll_append]
    exact tracks.rewind mem old new number
  | @filled c₁ c' n h m heads _ tip chain near bound only state emitted ih =>
    obtain ⟨⟨⟨n', h', tracks⟩, _⟩, quiet⟩ := ih
    obtain ⟨rfl, rfl⟩ := Prod.mk.inj (Option.some.inj (tip.symm.trans tracks.ring.tip))
    have top := chain_entry on bound
    have below : t.chain h <+: src.chain.take (n + 1 + m + 1) := by
      rw [chain]
      exact take_prefix_take_left (by omega)
    have ring := ring_push on tracks.ring.depth tracks.ring.kept below bound
      fun e mem => Nat.le_succ_of_le (tracks.ring.kept.le_last tracks.ring.tip mem)
    refine ⟨⟨⟨n + 1 + m, (entryAt src.chain (n + 1 + m)).2, ?_⟩, ?_⟩, by simp⟩
    · rw [state, emitted, append_assoc, Replay.onAll_append]
      exact tracks.advance ring (top ▸ below) only
    · intro post last mem
      rw [emitted, mem_append, mem_append] at mem
      rw [state]
      rcases mem with (mem | mem) | mem
      · exact absurd mem (quiet rfl post last)
      · obtain ⟨_, _, _, eq⟩ := only _ mem
        cases eq
      · obtain ⟨x, mem, eq⟩ := mem_map.mp mem
        have placed := ring.mem_of_marked (m := n + 1) (fun i low high =>
          ⟨entryAt src.chain i, mem_pushAll (by rw [entries_length]; exact near)
            (mem_entries.mpr ⟨i, low, by omega, rfl⟩), rfl⟩) mem
        cases eq
        exact placed
  | finalized number hash _ state emitted ih =>
    obtain ⟨⟨⟨n, h, tracks⟩, told⟩, quiet⟩ := ih
    refine ⟨⟨⟨n, h, ?_⟩, ?_⟩, fun unfilled => (quiet unfilled).append (by simp) emitted⟩
    · rw [state, emitted, Replay.onAll_append]
      exact ⟨⟨tracks.ring.depth, tracks.ring.tip, tracks.ring.kept⟩, tracks.floor, tracks.posts⟩
    · intro post last mem
      rw [emitted, mem_append, mem_singleton] at mem
      rw [state]
      exact told post last (mem.resolve_right (by simp))

theorem Reseeded.tracks (tracks : Tracks t (r.onAll c.emitted) c.state n h) (reseeded : Reseeded t src c c') :
    ∃ n h, Tracks t (r.onAll c'.emitted) c'.state n h := by
  obtain @⟨n', low, b, h', ts, tip, chain, _, ahead, le, bound, state, emitted⟩ := reseeded
  obtain ⟨rfl, rfl⟩ := Prod.mk.inj (Option.some.inj (tracks.ring.tip.symm.trans tip))
  obtain ⟨k, rfl⟩ : ∃ k, b = low + k := ⟨b - low, by omega⟩
  rw [show low + k + 1 - low = k + 1 by omega] at state
  have below : t.chain h <+: src.chain.take (low + k + 1) := by
    rw [chain]
    exact take_prefix_take_left (by omega)
  have ring := tracks.ring.kept.ring_reseed on tracks.ring.depth below bound
  refine ⟨low + k, (entryAt src.chain (low + k)).2, ?_⟩
  rw [state, emitted, append_assoc, Replay.onAll_append]
  refine tracks.advance ring ((chain_entry on bound) ▸ below) ?_
  intro e mem
  exact ⟨_, _, _, mem_singleton.mp mem⟩

theorem pollCycle_tracks (tracks : Tracks t (r.onAll c.emitted) c.state n h) (quiet : Quiet c) (tick : Nat) :
    Leaves (pollCycle src tick) c
      (fun _ c' => ∃ n h, Tracks t (r.onAll c'.emitted) c'.state n h) (Clean t r) := by
  have clean : ∀ c', Passes t src c c' → Clean t r c' := by
    rintro c' ⟨_, passed⟩
    exact (passed.clean on tracks quiet).1
  apply (pollCycle_passes on tracks.ring tick).mono _ clean
  rintro _ c' (passes | reseeded)
  · exact (clean c' passes).tracks
  · exact reseeded.tracks on tracks

end

structure Poll where
  source : Source
  answers : List (Option String)

structure Watching where
  state : WatcherState
  events : List L1Event
  tickCount : Nat

namespace Watching

def poll (w : Watching) (p : Poll) : Except Halt Unit × Cycle :=
  exec (pollCycle p.source (w.tickCount + 1)) ⟨w.state, [], p.answers⟩

/-- A failed cycle keeps what it did; the next one goes on from there. -/
def tick (w : Watching) (p : Poll) : Watching :=
  ⟨(w.poll p).2.state, w.events ++ (w.poll p).2.emitted, w.tickCount + 1⟩

def replay (seed : Nat) (w : Watching) : Replay := (Replay.mk seed []).onAll w.events

/-- The posts collected are those after the floor up to the ring's tip, in position order. -/
structure Canonical (t : BlockTree) (seed : Nat) (w : Watching) : Prop where
  posts : ∃ n h, w.state.tip = some (n, h) ∧ (t.chain h).length = n + 1 ∧
    (w.replay seed).posts = t.postsAfter (w.replay seed).floor h
  ordered : (w.replay seed).posts.Pairwise fun x y => Before x.1 y.1

def FailsClean (w : Watching) (p : Poll) : Prop := ∀ e c, w.poll p = (.error e, c) → Told c

def Follows (t : BlockTree) (seed : Nat) (w : Watching) : Prop := ∃ n h, Tracks t (w.replay seed) w.state n h

variable {t : BlockTree} {seed : Nat} {w : Watching} {p : Poll}

theorem Follows.poll (follows : Follows t seed w) {head} (on : p.source.chain = t.chain head) :
    Leaves (pollCycle p.source (w.tickCount + 1)) ⟨w.state, [], p.answers⟩
      (fun _ c' => ∃ n h, Tracks t ((w.replay seed).onAll c'.emitted) c'.state n h) (Clean t (w.replay seed)) := by
  obtain ⟨n, h, tracks⟩ := follows
  apply pollCycle_tracks on (n := n) (h := h)
  · exact tracks
  · intro post last mem
    cases mem

theorem Follows.tick (follows : Follows t seed w) (on : ∃ head, p.source.chain = t.chain head) :
    Follows t seed (w.tick p) := by
  obtain ⟨head, on⟩ := on
  have ran := follows.poll on
  unfold Follows Watching.tick Watching.replay
  rw [Replay.onAll_append]
  unfold Leaves at ran
  unfold Watching.poll
  split at ran
  · next eq => rw [eq]; exact ran
  · next eq => rw [eq]; exact ran.tracks

theorem Follows.failsClean (follows : Follows t seed w) (on : ∃ head, p.source.chain = t.chain head) :
    FailsClean w p := by
  intro e c failed
  obtain ⟨head, on⟩ := on
  have ran := follows.poll on
  unfold Watching.poll at failed
  unfold Leaves at ran
  rw [failed] at ran
  exact ran.told

theorem Follows.canonical (follows : Follows t seed w) : Canonical t seed w := by
  obtain ⟨n, h, tracks⟩ := follows
  refine ⟨⟨n, h, tracks.ring.tip, tracks.ring.height, tracks.posts⟩, ?_⟩
  rw [tracks.posts]
  exact t.postsAfter_pairwise _ _

/-- The ring as the watcher fills it before its first cycle. -/
structure Seeded (src : Source) (depth seed : Nat) (hash : B256) (w : Watching) : Prop where
  ran : ∃ answers rest, exec (seedRing src depth seed hash) ⟨new depth, [], answers⟩ =
    (.ok (), ⟨w.state, w.events, rest⟩)
  first : w.tickCount = 0

theorem seedRing_pushes {src : Source} {head hash} (on : src.chain = t.chain head) (depth : Nat)
    (answers : List (Option String)) :
    Leaves (seedRing src depth seed hash) ⟨new depth, [], answers⟩
      (fun _ c' => ∃ low k ts, low + k < src.chain.length ∧ (entryAt src.chain (low + k)).2 = hash ∧
        c'.state = pushAll (entries src.chain low (k + 1)) (new depth) ∧ c'.emitted = [.newHead seed hash ts])
      (fun _ => True) := by
  unfold seedRing
  simp only [leaves_bind]
  refine (reads_hash on hash).leaves ?_ fun _ _ => trivial
  rintro block c₁ ⟨snap, hashes⟩ same₁
  refine (reads_window on snap depth).leaves ?_ fun _ _ => trivial
  rintro window c₂ ⟨low, le, rfl⟩ same₂
  simp only [leaves_modify, leaves_emit]
  have same := same₁.trans same₂
  obtain ⟨k, number⟩ : ∃ k, block.number = low + k := ⟨block.number - low, by omega⟩
  refine ⟨low, k, block.timestamp, number ▸ snap.bound, ?_, ?_, ?_⟩
  · rw [← number, snap.entry on, hashes]
  · rw [same.state, show block.number + 1 - low = k + 1 by omega]
  · rw [same.emitted]
    rfl

theorem new_depth_pos (depth : Nat) : 0 < (new depth).reorgMaxDepth :=
  Nat.lt_of_lt_of_le Nat.zero_lt_one (Nat.le_max_right _ _)

theorem seedRing_tracks {src : Source} {head hash} (on : src.chain = t.chain head) (depth : Nat)
    (height : (t.chain hash).length = seed + 1) (answers : List (Option String)) :
    Leaves (seedRing src depth seed hash) ⟨new depth, [], answers⟩
      (fun _ c' => Tracks t ((Replay.mk seed []).onAll c'.emitted) c'.state seed hash) (fun _ => True) := by
  apply (seedRing_pushes on depth answers).mono _ fun _ => id
  rintro _ c' ⟨low, k, ts, bound, rfl, state, emitted⟩
  have chain := chain_entry on bound
  obtain rfl : low + k = seed := by
    rw [chain, length_take] at height
    omega
  rw [state, emitted]
  have empty : Kept t (new depth).recent (entryAt src.chain (low + k)).2 :=
    ⟨fun mem => absurd mem not_mem_nil, fun mem => absurd mem not_mem_nil, List.Pairwise.nil⟩
  have ring := ring_push on (new_depth_pos depth) empty (chain ▸ prefix_rfl) bound (forall_mem_nil _)
  refine ⟨ring, Nat.le_refl _, ?_⟩
  change [] = t.postsAfter (low + k) _
  unfold BlockTree.postsAfter
  rw [drop_of_length_le (by omega)]
  rfl

/-- In every run from a seeded ring, whatever fails and however the chains of its
cycles differ, the events replay to the ring tip's chain, and a failed cycle has
told only posts of blocks the ring keeps. -/
theorem canonical_throughout (t : BlockTree) {src : Source} {head hash : B256} (on : src.chain = t.chain head)
    {depth seed : Nat} (height : (t.chain hash).length = seed + 1) {w : Watching}
    (seeded : Seeded src depth seed hash w)
    {polls : List Poll} (served : ∀ p ∈ polls, ∃ head, p.source.chain = t.chain head) :
    Runs.Throughout Watching.tick (Canonical t seed) w polls ∧ Runs.Along Watching.tick FailsClean w polls := by
  have start : Follows t seed w := by
    obtain ⟨answers, rest, ran⟩ := seeded.ran
    exact ⟨seed, hash, (seedRing_tracks on depth height answers).ok ran⟩
  have allowed : Runs.Along Watching.tick (fun _ p => ∃ head, p.source.chain = t.chain head) w polls :=
    Runs.along_of_forall served
  constructor
  · exact (Runs.throughout_of_invariant Follows.tick start allowed).imp Follows.canonical
  · exact Runs.along_of_invariant Follows.tick Follows.failsClean start allowed

def seedPost (hash : B256) : Post :=
  ⟨⟨1, hash, 0⟩, 0, 0, ⟨[], [], [], 0, 0, [], [], [], [], [], 0, false⟩, ⟨[], none, none, false⟩⟩

def seedChain : List L1Block := [⟨10, 0, 0, []⟩, ⟨11, 10, 12, [seedPost 11]⟩]

def grownChain : List L1Block := seedChain ++ [⟨12, 11, 24, []⟩]

/-- Block 1 is replaced, and a block follows on the new one. -/
def replacedChain : List L1Block := [⟨10, 0, 0, []⟩, ⟨21, 10, 12, [seedPost 21]⟩, ⟨22, 21, 24, []⟩]

def seedTree : BlockTree :=
  .of [grownChain, seedChain, replacedChain, replacedChain.take 2, seedChain.take 1] (by decide +kernel)

def seededAtOne : Watching := ⟨⟨[(0, 10), (1, 11)], 3, none⟩, [.newHead 1 11 12], 0⟩

def replacingPolls : List Poll := [⟨⟨grownChain, none⟩, []⟩, ⟨⟨replacedChain, none⟩, []⟩]

theorem seeded_seededAtOne : Seeded ⟨seedChain, none⟩ 3 1 11 seededAtOne := ⟨⟨[], [], by decide +kernel⟩, rfl⟩

theorem replacingPolls_served : ∀ p ∈ replacingPolls, ∃ head, p.source.chain = seedTree.chain head := by
  intro p mem
  rcases mem_cons.mp mem with rfl | mem
  · exact ⟨12, by decide +kernel⟩
  · rw [mem_singleton.mp mem]
    exact ⟨22, by decide +kernel⟩

theorem canonical_replaced : Runs.Throughout Watching.tick (Canonical seedTree 1) seededAtOne replacingPolls ∧
      Runs.Along Watching.tick FailsClean seededAtOne replacingPolls := by
  have seed : (Source.mk seedChain none).chain = seedTree.chain 11 := by decide +kernel
  exact canonical_throughout seedTree seed (by decide +kernel) seeded_seededAtOne replacingPolls_served

/-- The seed is replaced, and the post of the block in its place is told and collected. -/
theorem replaced_collects_seed :
    Seeded ⟨seedChain, none⟩ 3 1 11 seededAtOne ∧
      (replacingPolls.foldl Watching.tick seededAtOne).state.tip = some (2, 22) ∧
      ((replacingPolls.foldl Watching.tick seededAtOne).replay 1).posts ≠ seedTree.postsAfter 1 22 := by
  refine ⟨seeded_seededAtOne, ?_, ?_⟩ <;> decide +kernel

end Watching

end Eez.Watcher
