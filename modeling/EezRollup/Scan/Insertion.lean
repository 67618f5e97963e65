import EezRollup.Scan.Labels

/-! A block extended by whole transactions of other rollups. -/
open List
namespace Eez

def Post.relocate (p : Post) (logIndex : UInt64) : Post := { p with id := { p.id with logIndex } }

end Eez

namespace Eez.Scan
open Octets Outcome

namespace Reading

def relocate (r : Reading) (logIndex : UInt64) : Reading := { r with post := r.post.relocate logIndex }

variable {r r' : Reading} {k : UInt64} {i : Nat} {record : Record} {place place' : String}

theorem leading_relocate (led : r.leading place = .ok (i, r')) :
    r'.post = r.post ∧ (r.relocate k).leading place' = .ok (i, r'.relocate k) := by
  obtain ⟨inside, rfl, rfl⟩ := leading_eq_ok.mp led
  exact ⟨rfl, leading_eq_ok.mpr ⟨inside, rfl, rfl⟩⟩

theorem apply_relocate (applied : r.apply i record place = .ok r') :
    r'.post = r.post ∧ (r.relocate k).apply i record place' = .ok (r'.relocate k) := by
  obtain ⟨entry, role, found, restates, has, rfl⟩ := apply_eq_ok.mp applied
  exact ⟨rfl, apply_eq_ok.mpr ⟨entry, role, found, restates, has, rfl⟩⟩

theorem inCall_relocate (read : r.inCall record place = .ok r') :
    r'.post = r.post ∧ (r.relocate k).inCall record place' = .ok (r'.relocate k) := by
  unfold inCall at read ⊢
  cases carried : record.consumed with
  | none =>
    simp only [carried, bind_eq_ok, Prod.exists] at read ⊢
    obtain ⟨next, led, leads, applied⟩ := read
    obtain ⟨samePost, leads⟩ := leading_relocate leads
    obtain ⟨post, applied⟩ := apply_relocate applied
    exact ⟨post.trans samePost, next, _, leads, applied⟩
  | some consumed =>
    simp only [carried, bind_eq_ok, ensure_eq_ok, exists_const] at read ⊢
    obtain ⟨forward, applied⟩ := read
    obtain ⟨post, applied⟩ := apply_relocate applied
    exact ⟨post, forward, applied⟩

theorem deferred_relocate (read : r.deferred record consumed place = .ok r') :
    r'.post = r.post ∧ (r.relocate k).deferred record consumed place' = .ok (r'.relocate k) := by
  obtain ⟨next, routed, forward, applied⟩ := deferred_eq_ok.mp read
  obtain ⟨post, applied⟩ := apply_relocate applied
  exact ⟨post, deferred_eq_ok.mpr ⟨next, routed, forward, applied⟩⟩

theorem finish_relocate {us post} (finished : r.finish us = .ok post) :
    (r.relocate k).finish us = .ok (post.relocate k) := by
  simp only [finish, bind_eq_ok, pure_eq_ok] at finished ⊢
  obtain ⟨entryState, first, finalState, last, rfl⟩ := finished
  exact ⟨entryState, first, finalState, last, rfl⟩

end Reading

abbrev Moved := List (ScannedLog × ScannedLog)

/-- A reading and what it became: the same one, at the log its `BatchPosted` became. -/
def Relocated (moved : Moved) (r r' : Reading) : Prop :=
  ∃ m ∈ moved, r.post.id.logIndex = m.1.logIndex ∧ r' = r.relocate m.2.logIndex

/-- A post and what it became, in the same way. -/
def SamePost (moved : Moved) (p p' : Post) : Prop :=
  ∃ m ∈ moved, p.id.logIndex = m.1.logIndex ∧ p' = p.relocate m.2.logIndex

/-- The readings of two walks correspond. -/
def Walk.Follows (moved : Moved) (w w' : Walk) : Prop := Forall₂ (Relocated moved) w.posts w'.posts

section
variable {moved : Moved} {w w' : Walk} {i : Nat} {r r' : Reading}

theorem Walk.Follows.held (follows : w.Follows moved w') (held : w.posts[i]? = some r) :
    ∃ k, w'.posts[i]? = some (r.relocate k) ∧
      ∀ r₁ : Reading, r₁.post = r.post → (w.update i r₁).Follows moved (w'.update i (r₁.relocate k)) := by
  obtain ⟨_, held', m, mem, index, rfl⟩ := forall₂_getElem? follows held
  refine ⟨m.2.logIndex, held', fun r₁ post => forall₂_set follows ⟨m, mem, ?_, rfl⟩ i⟩
  rw [post, index]

theorem Walk.reset_owners (same : w'.owners q = w.owners q) :
    (w'.reset ids owner).owners q = (w.reset ids owner).owners q := by
  simp only [Walk.reset, same]

/-- An item that is read in one walk is read in a corresponding one, where the
owner it asks for is the same. -/
theorem readItem_follows {block block' : Block} {us : UInt64} {tx tx' : Tx} {item : Item} {place : Place} {w₁ : Walk}
    (read : readItem block us w tx item place = .ok w₁) (follows : w.Follows moved w')
    (found : item.last < tx'.logs.length)
    (owner : ∀ record consumed, item.kind = .record record → record.consumed = some consumed →
      record.updates us = true → place = .between ∨ place = .untraced →
      w'.owners consumed.queue = w.owners consumed.queue) :
    ∃ w₁', readItem block' us w' tx' item place = .ok w₁' ∧ w₁.Follows moved w₁' ∧
      ∀ q, w'.owners q = w.owners q → w₁'.owners q = w₁.owners q := by
  obtain ⟨log', found'⟩ : ∃ log', tx'.logs[item.last]? = some log' := ⟨_, getElem?_eq_getElem found⟩
  unfold readItem at read ⊢
  rw [index_eq_ok.mpr found', ok_bind]
  obtain ⟨log, -, read⟩ := bind_eq_ok.mp read
  cases kind : item.kind with
  | posted spi ids =>
    cases place with
    | ours i =>
      simp only [kind, bind_eq_ok, index_eq_ok, ensure_eq_ok, exists_const, pure_eq_ok] at read ⊢
      obtain ⟨r, held, reported, rfl⟩ := read
      obtain ⟨k, held', -⟩ := follows.held held
      exact ⟨_, ⟨r.relocate k, held', reported, rfl⟩, follows, fun q => Walk.reset_owners⟩
    | foreign | between | untraced =>
      simp only [kind, pure_eq_ok] at read ⊢
      subst read
      exact ⟨_, rfl, follows, fun q => Walk.reset_owners⟩
  | skipped slot =>
    cases place with
    | ours i =>
      simp only [kind, bind_eq_ok, index_eq_ok, ensure_eq_ok, exists_const, pure_eq_ok, Prod.exists] at read ⊢
      obtain ⟨r, held, next, r₁, led, same, rfl⟩ := read
      obtain ⟨k, held', updated⟩ := follows.held held
      obtain ⟨post, led⟩ := Reading.leading_relocate led
      exact ⟨_, ⟨_, held', next, _, led, same, rfl⟩, updated r₁ post, fun q same => same⟩
    | foreign | between | untraced =>
      simp only [kind, bind_eq_ok, ensure_eq_ok, exists_const, pure_eq_ok] at read ⊢
      obtain ⟨inside, rfl⟩ := read
      exact ⟨_, ⟨inside, rfl⟩, follows, fun q same => same⟩
  | record record =>
    cases place with
    | ours i =>
      simp only [kind, bind_eq_ok, index_eq_ok, pure_eq_ok] at read ⊢
      obtain ⟨r, held, r₁, ran, rfl⟩ := read
      obtain ⟨k, held', updated⟩ := follows.held held
      obtain ⟨post, ran⟩ := Reading.inCall_relocate ran
      exact ⟨_, ⟨_, held', _, ran, rfl⟩, updated r₁ post, fun q same => same⟩
    | foreign =>
      simp only [kind, bind_eq_ok, ensure_eq_ok, exists_const, pure_eq_ok] at read ⊢
      obtain ⟨silent, rfl⟩ := read
      exact ⟨_, ⟨silent, rfl⟩, follows, fun q same => same⟩
    | between | untraced =>
      cases carried : record.consumed with
      | none =>
        simp only [kind, carried, bind_eq_ok, ensure_eq_ok, exists_const, pure_eq_ok] at read ⊢
        obtain ⟨silent, rfl⟩ := read
        exact ⟨_, ⟨silent, rfl⟩, follows, fun q same => same⟩
      | some consumed =>
        simp only [kind, carried] at read ⊢
        split at read
        · rename_i ours
          simp only [bind_eq_ok, require_eq_ok, index_eq_ok, pure_eq_ok] at read
          obtain ⟨i, owned, r, held, r₁, ran, rfl⟩ := read
          obtain ⟨k, held', updated⟩ := follows.held held
          obtain ⟨post, ran⟩ := Reading.deferred_relocate ran
          have owned' := owner record consumed kind carried ours (by simp)
          rw [if_pos ours, owned']
          simp only [bind_eq_ok, require_eq_ok, index_eq_ok, pure_eq_ok]
          exact ⟨_, ⟨i, owned, _, held', _, ran, rfl⟩, updated r₁ post, fun q same => same⟩
        · rename_i silent
          obtain rfl := Except.ok.inj read
          rw [if_neg silent]
          exact ⟨_, rfl, follows, fun q same => same⟩

end

/-- Not ours: a post that does not list us, a record that does not update us. -/
def Kind.Foreign (us : UInt64) : Kind → Prop
  | .posted _ ids => us ∉ ids
  | .skipped _ => True
  | .record r => r.updates us = false

/-- A record of ours that is consumed from `queue` outside every call. -/
def Placement.Consumes (us : UInt64) (p : Placement) (queue : UInt64) : Prop :=
  ∃ record consumed, p.item.kind = .record record ∧ record.consumed = some consumed ∧ record.updates us = true ∧
    (p.place = .between ∨ p.place = .untraced) ∧ consumed.queue = queue

/-- The placements of a block among those of an extended one. What is inserted
before a placement lists no queue it consumes from. -/
inductive Weave (us : UInt64) : List Placement → List Placement → Prop where
  | nil : Weave us [] []
  | kept {p : Placement} {tx' : Tx} {ps ps' : List Placement} (found : p.item.last < tx'.logs.length)
      (rest : Weave us ps ps') : Weave us (p :: ps) ({ p with tx := tx' } :: ps')
  | inserted {tx' : Tx} {item : Item} {ps ps' : List Placement} (found : item.last < tx'.logs.length)
      (foreign : item.kind.Foreign us)
      (apart : ∀ spi ids, item.kind = .posted spi ids → ∀ q ∈ ids, ∀ p ∈ ps, ¬p.Consumes us q)
      (rest : Weave us ps ps') : Weave us ps (⟨tx', item, .untraced⟩ :: ps')

section
variable {moved : Moved} {us : UInt64} {block block' : Block}

theorem readItem_inserted {tx : Tx} {item : Item} (found : item.last < tx.logs.length)
    (foreign : item.kind.Foreign us) :
    ∃ w₁, readItem block us w tx item .untraced = .ok w₁ ∧ w₁.posts = w.posts ∧
      ∀ q, (∀ spi ids, item.kind = .posted spi ids → q ∉ ids) → w₁.owners q = w.owners q := by
  obtain ⟨log, found⟩ : ∃ log, tx.logs[item.last]? = some log := ⟨_, getElem?_eq_getElem found⟩
  unfold readItem
  rw [index_eq_ok.mpr found, ok_bind]
  cases kind : item.kind with
  | posted spi ids =>
    refine ⟨w.reset ids none, rfl, rfl, fun q unlisted => ?_⟩
    exact if_neg (unlisted spi ids rfl)
  | skipped slot => exact ⟨w, rfl, rfl, fun q _ => rfl⟩
  | record record =>
    rw [kind] at foreign
    have silent : record.updates us = false := foreign
    refine ⟨w, ?_, rfl, fun q _ => rfl⟩
    cases carried : record.consumed with
    | none => simp [carried, silent, ensure]
    | some consumed => simp [carried, silent]

theorem walk_weave (weave : Weave us ps ps')
    (walked : ps.foldlM (fun w p => readItem block us w p.tx p.item p.place) w = .ok w₁) (follows : w.Follows moved w')
    (owners : ∀ q, (∃ p ∈ ps, p.Consumes us q) → w'.owners q = w.owners q) :
    ∃ w₁', ps'.foldlM (fun w p => readItem block' us w p.tx p.item p.place) w' = .ok w₁' ∧ w₁.Follows moved w₁' := by
  induction weave generalizing w w' with
  | nil =>
    obtain rfl := Except.ok.inj walked
    exact ⟨w', rfl, follows⟩
  | @kept p tx' ps ps' found rest ih =>
    rw [foldlM_cons, bind_eq_ok] at walked
    obtain ⟨next, read, walked⟩ := walked
    have step : ∃ next', readItem block' us w' tx' p.item p.place = .ok next' ∧ next.Follows moved next' ∧
        ∀ q, w'.owners q = w.owners q → next'.owners q = next.owners q :=
      readItem_follows read follows found fun record consumed kind carried ours outside =>
        owners _ ⟨p, .head _, record, consumed, kind, carried, ours, outside, rfl⟩
    obtain ⟨next', read', follows', kept⟩ := step
    have owners' : ∀ q, (∃ p ∈ ps, p.Consumes us q) → next'.owners q = next.owners q := by
      rintro q ⟨p', mem, consumes⟩
      exact kept q (owners q ⟨p', .tail _ mem, consumes⟩)
    obtain ⟨w₁', walked', last⟩ := ih walked follows' owners'
    refine ⟨w₁', ?_, last⟩
    rw [foldlM_cons, bind_eq_ok]
    exact ⟨next', read', walked'⟩
  | @inserted tx' item ps ps' found foreign apart rest ih =>
    have step : ∃ next', readItem block' us w' tx' item .untraced = .ok next' ∧ next'.posts = w'.posts ∧
        ∀ q, (∀ spi ids, item.kind = .posted spi ids → q ∉ ids) → next'.owners q = w'.owners q :=
      readItem_inserted found foreign
    obtain ⟨next', read', posts, others⟩ := step
    have follows' : w.Follows moved next' := by
      rw [Walk.Follows, posts]
      exact follows
    have owners' : ∀ q, (∃ p ∈ ps, p.Consumes us q) → next'.owners q = w.owners q := by
      rintro q ⟨p, mem, consumes⟩
      rw [others q fun spi ids kind listed => apart spi ids kind q listed p mem consumes]
      exact owners q ⟨p, mem, consumes⟩
    obtain ⟨w₁', walked', last⟩ := ih walked follows' owners'
    refine ⟨w₁', ?_, last⟩
    rw [foldlM_cons, bind_eq_ok]
    exact ⟨next', read', walked'⟩

end

theorem finish_follows {w : Walk} (follows : w.Follows moved w')
    (finished : w.posts.mapM (fun r => r.finish us) = .ok posts) :
    ∃ posts', w'.posts.mapM (fun r => r.finish us) = .ok posts' ∧ Forall₂ (SamePost moved) posts posts' := by
  simp only [mapM_eq_ok] at finished ⊢
  unfold Walk.Follows at follows
  generalize w.posts = readings, w'.posts = readings' at follows finished
  induction finished generalizing readings' with
  | nil =>
    cases follows
    exact ⟨[], .nil, .nil⟩
  | @cons r post readings posts finish rest ih =>
    obtain ⟨_, readings', ⟨m, mem, index, rfl⟩, others, rfl⟩ := forall₂_cons_left_iff.mp follows
    obtain ⟨posts', rest', same⟩ := ih readings' others
    refine ⟨post.relocate m.2.logIndex :: posts', .cons (Reading.finish_relocate finish) rest', .cons ?_ same⟩
    obtain ⟨finalState, entryState, resumed, rfl⟩ := Reading.finish_eq_ok finish
    exact ⟨m, mem, index, rfl⟩

/-- A log and the one it became: only the indices differ. -/
def SameLog (l l' : ScannedLog) : Prop := l'.event = l.event ∧ l'.txHash = l.txHash

section
variable {moved : Moved} {us : UInt64} {ext : Externals} {block block' : Block} {tx tx' : Tx}

theorem verify_eq_ok_iff {call spi ids id id' place place' batch} :
    verify ext call spi ids id place = .ok batch ↔ verify ext call spi ids id' place' = .ok batch := by
  simp only [verify, bind_eq_ok, mapError_eq_ok, ensure_eq_ok, exists_const]

theorem labelCalls_eq_ok_iff :
    labelCalls block tx k floor cs labels = .ok labels' ↔ labelCalls block' tx' k floor cs labels = .ok labels' := by
  induction cs generalizing k floor labels with
  | nil => exact Iff.rfl
  | cons c cs ih => simp only [labelCalls, bind_eq_ok, ensureAt_eq_ok, exists_const, ih]

theorem checkStraddle_eq_ok_iff :
    checkStraddle block tx labels items = .ok u ↔ checkStraddle block' tx' labels items = .ok u := by
  induction items with
  | nil => exact Iff.rfl
  | cons item items ih => simp only [checkStraddle, bind_eq_ok, ensureAt_eq_ok, exists_const, ih]

variable (number : block'.number = block.number) (hash : block'.hash = block.hash)
include number hash

theorem startPosts_follows (logs : Forall₂ SameLog tx.logs tx'.logs) (sub : ∀ m ∈ tx.logs.zip tx'.logs, m ∈ moved)
    {txHash cs posts posts' posts₁ places} (started : startPosts ext block us tx txHash cs posts = .ok (places, posts₁))
    (related : Forall₂ (Relocated moved) posts posts') :
    ∃ posts₁', startPosts ext block' us tx' txHash cs posts' = .ok (places, posts₁') ∧
      Forall₂ (Relocated moved) posts₁ posts₁' := by
  induction cs generalizing posts posts' posts₁ places with
  | nil =>
    obtain ⟨rfl, rfl⟩ := Prod.mk.inj (Except.ok.inj started)
    exact ⟨posts', rfl, related⟩
  | cons c cs ih =>
    rw [startPosts] at started ⊢
    split at started
    · rename_i lists
      rw [if_pos lists]
      simp only [bind_eq_ok, Prod.exists, pure_eq_ok, Prod.mk.injEq, index_eq_ok] at started ⊢
      obtain ⟨log, found, batch, verified, reading, new, rest, _, started, rfl, rfl⟩ := started
      obtain ⟨log', found', -⟩ := forall₂_getElem? logs found
      have mem : (log, log') ∈ moved :=
        sub _ (mem_of_getElem? (getElem?_zip_eq_some.mpr ⟨found, found'⟩))
      obtain ⟨bound, rfl⟩ := Reading.new_eq_ok.mp new
      obtain ⟨posts₁', started', related'⟩ :=
        ih started (rel_append related (.cons ⟨(log, log'), mem, rfl, rfl⟩ .nil))
      refine ⟨posts₁', ⟨log', found', batch, verify_eq_ok_iff.mp verified, _,
        Reading.new_eq_ok.mpr ⟨bound, ?_⟩, rest, _,
        started', ?_, rfl⟩, related'⟩
      · rw [number, hash]
        rfl
      · rw [related.length_eq]
    · rename_i lists
      rw [if_neg lists]
      simp only [bind_eq_ok, Prod.exists, pure_eq_ok, Prod.mk.injEq] at started ⊢
      obtain ⟨rest, _, started, rfl, rfl⟩ := started
      obtain ⟨posts₁', started', related'⟩ := ih started related
      exact ⟨posts₁', ⟨rest, _, started', rfl, rfl⟩, related'⟩

theorem label_follows (items : tx'.items = tx.items) (logs : Forall₂ SameLog tx.logs tx'.logs)
    (sub : ∀ m ∈ tx.logs.zip tx'.logs, m ∈ moved) (labelled : label ext block tx calls us posts = .ok (places, posts₁))
    (related : Forall₂ (Relocated moved) posts posts') :
    ∃ posts₁', label ext block' tx' calls us posts' = .ok (places, posts₁') ∧
      Forall₂ (Relocated moved) posts₁ posts₁' := by
  cases calls with
  | none =>
    obtain ⟨rfl, rfl⟩ := Prod.mk.inj (Except.ok.inj labelled)
    exact ⟨posts', by rw [label, items], related⟩
  | some calls =>
    obtain ⟨calls, traced⟩ := calls
    simp only [label, bind_eq_ok, ensure_eq_ok, exists_const, index_eq_ok, items, ← logs.length_eq] at labelled ⊢
    obtain ⟨head, found, counted, labelled⟩ := labelled
    obtain ⟨head', found', -, txHash⟩ := forall₂_getElem? logs found
    split at labelled
    · simp [bind_eq_ok] at labelled
    · rename_i posted
      simp only [bind_eq_ok, Prod.exists, pure_eq_ok, Prod.mk.injEq] at labelled
      obtain ⟨labels, ranges, u, straddles, byCall, _, started, _, placed, rfl, rfl⟩ := labelled
      obtain ⟨posts₁', started', related'⟩ := startPosts_follows number hash logs sub started related
      refine ⟨posts₁', ⟨head', found', counted, ?_⟩, related'⟩
      rw [if_neg posted, txHash]
      simp only [bind_eq_ok, Prod.exists, pure_eq_ok, Prod.mk.injEq]
      exact ⟨labels, labelCalls_eq_ok_iff.mp ranges, u, checkStraddle_eq_ok_iff.mp straddles, byCall, _, started', _,
        placed, rfl, rfl⟩

end

def callsAt (callsByTx : CallsByTx) (logs : List ScannedLog) : Option (List Call × Nat) :=
  logs.head?.bind fun head => callsByTx head.txIndex

section
variable (ext : Externals) (block : Block) (callsByTx callsByTx' : CallsByTx) (us : UInt64)

/-- The transaction of these logs has a record of ours that is consumed from
`queue` outside its calls, whatever posts came before it. -/
def ConsumesOutside (logs : List ScannedLog) (queue : UInt64) : Prop :=
  ∃ tx posts places posts₁, parseTx block.number logs = .ok tx ∧
    label ext block tx (callsAt callsByTx logs) us posts = .ok (places, posts₁) ∧
    ∃ p ∈ tx.items.zip places, Placement.Consumes us ⟨tx, p.1, p.2⟩ queue

/-- A block's transactions among those of an extended one, with the pairs of
logs that correspond. An inserted transaction is written by the grammar, none of
its posts lists us and none of its records updates us, and its posts list no
queue that a later transaction of the block consumes from outside a call for us. -/
inductive Extends : List (List ScannedLog) → List (List ScannedLog) → Moved → Prop where
  | nil : Extends [] [] []
  | kept {logs logs' : List ScannedLog} {txs txs' : List (List ScannedLog)} {moved : Moved}
      (same : Forall₂ SameLog logs logs') (calls : callsAt callsByTx' logs' = callsAt callsByTx logs)
      (rest : Extends txs txs' moved) : Extends (logs :: txs) (logs' :: txs') (logs.zip logs' ++ moved)
  | inserted {logs' : List ScannedLog} {kinds : List Kind} {txs txs' : List (List ScannedLog)} {moved : Moved}
      (nonempty : logs' ≠ []) (written : Decomposes kinds logs') (foreign : ∀ kind ∈ kinds, kind.Foreign us)
      (calls : callsAt callsByTx' logs' = none)
      (apart : ∀ spi ids, Kind.posted spi ids ∈ kinds → ∀ queue ∈ ids, ∀ logs ∈ txs,
        ¬ConsumesOutside ext block callsByTx us logs queue)
      (rest : Extends txs txs' moved) : Extends txs (logs' :: txs') moved

variable {ext block callsByTx callsByTx' us}

variable {posts : List Reading} {ps : List Placement} {tx : Tx} {txs : List Tx}

theorem labelTxs_cons_eq_ok :
    labelTxs ext block callsByTx us (tx :: txs) posts = .ok (ps, posts₂) ↔ tx.logs ≠ [] ∧ ∃ places posts₁ rest,
      label ext block tx (callsAt callsByTx tx.logs) us posts = .ok (places, posts₁) ∧
      labelTxs ext block callsByTx us txs posts₁ = .ok (rest, posts₂) ∧
      ps = (tx.items.zip places).map (fun p => ⟨tx, p.1, p.2⟩) ++ rest := by
  simp only [labelTxs, bind_eq_ok, index_eq_ok, Prod.exists, pure_eq_ok, Prod.mk.injEq]
  cases logs : tx.logs with
  | nil => simp
  | cons head logs =>
    simp only [getElem?_cons_zero, Option.some.injEq, ne_eq, reduceCtorEq, not_false_eq_true, true_and]
    constructor
    · rintro ⟨_, rfl, places, posts₁, labelled, rest, _, later, rfl, rfl⟩
      exact ⟨places, posts₁, rest, labelled, later, rfl⟩
    · rintro ⟨places, posts₁, rest, labelled, later, rfl⟩
      exact ⟨head, rfl, places, posts₁, labelled, rest, posts₂, later, rfl, rfl⟩

theorem labelTxs_placements (labelled : labelTxs ext block callsByTx us txs posts = .ok (ps, posts₁)) (mem : p ∈ ps) :
    ∃ tx ∈ txs, ∃ posts places posts₁, label ext block tx (callsAt callsByTx tx.logs) us posts = .ok (places, posts₁) ∧
      ∃ x ∈ tx.items.zip places, p = ⟨tx, x.1, x.2⟩ := by
  induction txs generalizing posts ps with
  | nil =>
    obtain ⟨rfl, rfl⟩ := Prod.mk.inj (Except.ok.inj labelled)
    cases mem
  | cons tx txs ih =>
    obtain ⟨-, places, posts₂, rest, first, later, rfl⟩ := labelTxs_cons_eq_ok.mp labelled
    obtain mem | mem := mem_append.mp mem
    · obtain ⟨x, member, rfl⟩ := mem_map.mp mem
      exact ⟨tx, .head _, posts, places, posts₂, first, x, member, rfl⟩
    · obtain ⟨tx', listed, found⟩ := ih later mem
      exact ⟨tx', .tail _ listed, found⟩

theorem Weave.keep {ps' : List Placement} (weave : Weave us ps ps') {tx' : Tx} {placed : List (Item × Place)}
    (found : ∀ x ∈ placed, x.1.last < tx'.logs.length) :
    Weave us (placed.map (fun x => ⟨tx, x.1, x.2⟩) ++ ps) (placed.map (fun x => ⟨tx', x.1, x.2⟩) ++ ps') := by
  induction placed with
  | nil => exact weave
  | cons x placed ih =>
    obtain ⟨first, rest⟩ := forall_mem_cons.mp found
    exact .kept first (ih rest)

theorem Weave.insert {ps' : List Placement} (weave : Weave us ps ps') {tx' : Tx} {items : List Item}
    (found : ∀ item ∈ items, item.last < tx'.logs.length) (foreign : ∀ item ∈ items, item.kind.Foreign us)
    (apart : ∀ item ∈ items, ∀ spi ids, item.kind = .posted spi ids → ∀ q ∈ ids, ∀ p ∈ ps, ¬p.Consumes us q) :
    Weave us ps (items.map (fun item => ⟨tx', item, .untraced⟩) ++ ps') := by
  induction items with
  | nil => exact weave
  | cons item items ih =>
    obtain ⟨first, found⟩ := forall_mem_cons.mp found
    obtain ⟨notOurs, foreign⟩ := forall_mem_cons.mp foreign
    obtain ⟨free, apart⟩ := forall_mem_cons.mp apart
    exact .inserted first notOurs free (ih found foreign apart)

theorem untraced_places (tx : Tx) (items : List Item) :
    (items.zip (replicate items.length Place.untraced)).map (fun x => (⟨tx, x.1, x.2⟩ : Placement)) =
      items.map (fun item => ⟨tx, item, .untraced⟩) := by
  induction items with
  | nil => rfl
  | cons item items ih => exact congrArg (_ :: ·) ih

theorem items_inside (parsed : parseTx number logs = .ok tx) :
    tx.logs = logs ∧ ∀ item ∈ tx.items, item.last < logs.length := by
  obtain ⟨kinds, written, rfl⟩ := parseTx_eq_ok.mp parsed
  exact ⟨rfl, fun item mem => (written.tiles.mem (mem_map_of_mem mem)).2.2⟩

theorem parseTx_same (same : Forall₂ SameLog logs logs')
    (parsed : parseTx number logs = .ok tx) : parseTx number logs' = .ok ⟨logs', tx.items⟩ := by
  obtain ⟨kinds, ⟨wellFormed, written⟩, rfl⟩ := parseTx_eq_ok.mp parsed
  refine parseTx_eq_ok.mpr ⟨kinds, ⟨wellFormed, ?_⟩, rfl⟩
  rw [written]
  exact map_eq_map_of_forall₂ (same.imp fun l l' both => both.1.symm)

variable {block' : Block}

theorem labelTxs_extends (number : block'.number = block.number) (hash : block'.hash = block.hash) {all moved : Moved}
    {chunks chunks' : List (List ScannedLog)}
    (extends' : Extends ext block callsByTx callsByTx' us chunks chunks' moved) (sub : ∀ m ∈ moved, m ∈ all)
    (parsed : Forall₂ (fun logs tx => parseTx block.number logs = .ok tx) chunks txs)
    {posts' posts₁ : List Reading} (labelled : labelTxs ext block callsByTx us txs posts = .ok (ps, posts₁))
    (related : Forall₂ (Relocated all) posts posts') :
    ∃ txs' ps' posts₁', Forall₂ (fun logs tx => parseTx block.number logs = .ok tx) chunks' txs' ∧
      labelTxs ext block' callsByTx' us txs' posts' = .ok (ps', posts₁') ∧ Weave us ps ps' ∧
      Forall₂ (Relocated all) posts₁ posts₁' := by
  induction extends' generalizing txs posts posts' ps with
  | nil =>
    cases parsed
    obtain ⟨rfl, rfl⟩ := Prod.mk.inj (Except.ok.inj labelled)
    exact ⟨[], [], posts', .nil, rfl, .nil, related⟩
  | @kept logs logs' chunks chunks' moved same calls rest ih =>
    obtain ⟨tx, txs, first, others, rfl⟩ := forall₂_cons_left_iff.mp parsed
    obtain ⟨nonempty, places, posts₂, ps, labels, later, rfl⟩ := labelTxs_cons_eq_ok.mp labelled
    obtain ⟨logsEq, inside⟩ := items_inside first
    subst logsEq
    have subZip : ∀ m ∈ tx.logs.zip logs', m ∈ all := fun m mem => sub m (mem_append_left _ mem)
    have subRest : ∀ m ∈ moved, m ∈ all := fun m mem => sub m (mem_append_right _ mem)
    have items : (Tx.mk logs' tx.items).items = tx.items := rfl
    have follows : ∃ posts₂', label ext block' ⟨logs', tx.items⟩ (callsAt callsByTx tx.logs) us posts' =
        .ok (places, posts₂') ∧ Forall₂ (Relocated all) posts₂ posts₂' :=
      label_follows number hash items same subZip labels related
    obtain ⟨posts₂', labels', related₂⟩ := follows
    obtain ⟨txs', ps', posts₁', parsed', later', weave, related₁⟩ := ih subRest others later related₂
    have nonempty' : logs' ≠ [] := by
      rintro rfl
      exact nonempty (forall₂_nil_right_iff.mp same)
    rw [← calls] at labels'
    refine ⟨_, _, posts₁', .cons (parseTx_same same first) parsed',
      labelTxs_cons_eq_ok.mpr ⟨nonempty', places, posts₂', ps', labels', later', rfl⟩, weave.keep ?_, related₁⟩
    intro x mem
    exact same.length_eq ▸ inside x.1 (of_mem_zip mem).1
  | @inserted logs' kinds chunks chunks' moved nonempty written foreign calls apart rest ih =>
    obtain ⟨txs', ps', posts₁', parsed', later', weave, related₁⟩ := ih sub parsed labelled related
    have first : parseTx block.number logs' = .ok ⟨logs', placed 0 kinds⟩ :=
      parseTx_eq_ok.mpr ⟨kinds, written, rfl⟩
    have kindOf : ∀ item ∈ placed 0 kinds, item.kind ∈ kinds := fun item mem =>
      placed_kinds 0 kinds ▸ mem_map_of_mem mem
    refine ⟨_, _, posts₁', .cons first parsed', labelTxs_cons_eq_ok.mpr ⟨nonempty,
      replicate (placed 0 kinds).length .untraced, posts', ps', by rw [calls]; rfl, later', rfl⟩, ?_, related₁⟩
    rw [untraced_places]
    refine weave.insert (items_inside first).2 (fun item mem => foreign _ (kindOf item mem)) ?_
    · intro item mem spi ids kind queue listed p later consumes
      -- a placement that consumes from the queue is one of a later transaction
      obtain ⟨tx, member, before, places, after, labels, x, inTx, rfl⟩ := labelTxs_placements labelled later
      obtain ⟨logs, isLater, parsedTx⟩ := forall₂_exists_right (Forall₂.flip (R := flip _) parsed) tx member
      obtain ⟨rfl, -⟩ := items_inside parsedTx
      exact apart spi ids (kind ▸ kindOf item mem) queue listed _ isLater
        ⟨tx, before, places, after, parsedTx, labels, x, inTx, consumes⟩

/-- Reading the extended block returns the same posts with the same settlements,
each with the index of the log that its `BatchPosted` became. -/
theorem readBlock_extends (number : block'.number = block.number) (hash : block'.hash = block.hash)
    {moved : Moved} {posts : List Post} (read : readBlock ext block callsByTx us = .ok posts)
    (extended : Extends ext block callsByTx callsByTx' us (block.logs.splitBy sameTx)
      (block'.logs.splitBy sameTx) moved) :
    ∃ posts', readBlock ext block' callsByTx' us = .ok posts' ∧ Forall₂ (SamePost moved) posts posts' := by
  simp only [readBlock, bind_eq_ok, Prod.exists] at read ⊢
  obtain ⟨txs, parsed, placements, started, labelled, walked, walk, finished⟩ := read
  obtain ⟨txs', placements', started', parsed', labelled', weave, related⟩ :=
    labelTxs_extends number hash extended (fun m mem => mem) (mapM_eq_ok.mp parsed) labelled .nil
  have follows : Walk.Follows moved ⟨started, fun _ => none⟩ ⟨started', fun _ => none⟩ := related
  obtain ⟨walked', walk', last⟩ : ∃ walked', placements'.foldlM
      (fun w p => readItem block' us w p.tx p.item p.place) ⟨started', fun _ => none⟩ = .ok walked' ∧
      walked.Follows moved walked' := walk_weave weave walk follows fun q _ => rfl
  rw [number]
  obtain ⟨posts', finished', same⟩ := finish_follows last finished
  exact ⟨posts', ⟨txs', mapM_eq_ok.mpr parsed', placements', started', labelled', walked', walk', finished'⟩, same⟩

end

def crowdedBlock : Block :=
  ⟨1, 1, [⟨0, 10, 0, .root 1 5⟩, ⟨0, 10, 1, .executed 0 0⟩, ⟨0, 10, 2, .posted 0 [1]⟩,
    ⟨1, 12, 3, .root 5 7⟩, ⟨1, 12, 4, .executed 0 0⟩, ⟨1, 12, 5, .posted 3 [5]⟩,
    ⟨2, 11, 6, .consumed ⟨9, 1, 0⟩⟩, ⟨2, 11, 7, .root 1 6⟩, ⟨2, 11, 8, .executed 0 0⟩]⟩

def crowdedKinds : List Kind := [.record ⟨none, [(5, 7)], 0⟩, .posted 3 [5]]

theorem deferredBlock_never_from_five :
    ¬ConsumesOutside zeroExternals deferredBlock deferredCalls 1 (deferredBlock.logs.drop 3) 5 := by
  rintro ⟨tx, posts, places, posts₁, parsed, -, p, mem, record, consumed, kind, carried, -, -, queue⟩
  obtain ⟨kinds, written, rfl⟩ := parseTx_eq_ok.mp parsed
  have only : kinds = [.record ⟨some ⟨9, 1, 0⟩, [(1, 6)], 0⟩] :=
    written.unique ⟨by simp [Kind.WellFormed, Ascends], rfl⟩
  subst only
  have item := mem_singleton.mp (of_mem_zip mem).1
  rw [show (Placement.mk _ p.1 p.2).item = p.1 from rfl, item] at kind
  cases kind
  cases carried
  exact absurd queue (by decide)

theorem extends_crowdedBlock :
    Extends zeroExternals deferredBlock deferredCalls deferredCalls 1 (deferredBlock.logs.splitBy sameTx)
      (crowdedBlock.logs.splitBy sameTx)
      (deferredBlock.logs.zip (crowdedBlock.logs.take 3 ++ crowdedBlock.logs.drop 6)) := by
  have three : ∀ {a b c a' b' c' : ScannedLog}, SameLog a a' → SameLog b b' → SameLog c c' →
      Forall₂ SameLog [a, b, c] [a', b', c'] := fun a b c => .cons a (.cons b (.cons c .nil))
  have written : Decomposes crowdedKinds ((crowdedBlock.logs.drop 3).take 3) :=
    ⟨by simp [crowdedKinds, Kind.WellFormed, Ascends], rfl⟩
  have foreign : ∀ kind ∈ crowdedKinds, kind.Foreign 1 := by
    simp [crowdedKinds, Kind.Foreign, Record.updates]
  refine .kept (three ⟨rfl, rfl⟩ ⟨rfl, rfl⟩ ⟨rfl, rfl⟩) rfl (.inserted (by decide) written foreign rfl ?_
    (.kept (three ⟨rfl, rfl⟩ ⟨rfl, rfl⟩ ⟨rfl, rfl⟩) rfl .nil))
  intro spi ids posted queue listed logs later
  obtain rfl : logs = deferredBlock.logs.drop 3 := mem_singleton.mp later
  obtain rfl : ids = [5] := by simp_all [crowdedKinds]
  obtain rfl := mem_singleton.mp listed
  exact deferredBlock_never_from_five

theorem readBlock_crowdedBlock :
    ∃ posts', readBlock zeroExternals crowdedBlock deferredCalls 1 = .ok posts' ∧ posts'.length = 1 := by
  have number : crowdedBlock.number = deferredBlock.number := rfl
  have hash : crowdedBlock.hash = deferredBlock.hash := rfl
  obtain ⟨posts', read, same⟩ := readBlock_extends number hash readBlock_deferredBlock extends_crowdedBlock
  exact ⟨posts', read, same.length_eq.symm⟩

end Eez.Scan
