import EezRollup.Composer.PoolOrder

/-! Queue and reservations taken together: no hash is in both, and a nonce of a sender in one
direction has one owner. -/
open List
namespace Eez.Composer
open HeldTx

abbrev NonceSlot := (Address × Direction) × UInt64

def HeldTx.slot (tx : HeldTx) : NonceSlot := (tx.chain, tx.nonce)

def Reservation.slot (r : Reservation) : NonceSlot := ((r.sender, r.direction), r.nonce)

def HeldTx.reservation (tx : HeldTx) : B256 × Reservation := (tx.hash, ⟨tx.sender, tx.direction, tx.nonce⟩)

def PoolState.slots (s : PoolState) : List NonceSlot := s.txs.map slot ++ s.inFlight.map fun r => r.2.slot

namespace PoolState
variable {s : PoolState} {tx : HeldTx} {recovered : List HeldTx}

theorem releaseInFlightBatch_inFlight (txs : List HeldTx) :
    (s.releaseInFlightBatch txs).inFlight = s.inFlight.filter fun r => r.1 ∉ txs.map hash := by
  unfold releaseInFlightBatch
  induction txs generalizing s with
  | nil => simp
  | cons tx txs ih =>
    rw [foldl_cons, ih, releaseInFlight, filter_filter]
    refine filter_congr fun r _ => ?_
    simp [Bool.and_comm]

theorem foldr_recover_inFlight (roots : Roots) :
    (recovered.foldr (recover roots) s).inFlight = s.inFlight.filter fun r => r.1 ∉ recovered.map hash := by
  induction recovered with
  | nil => simp
  | cons tx recovered ih =>
    have released : ∀ p : PoolState, (recover roots tx p).inFlight = (p.releaseInFlight tx).inFlight := by
      intro p
      rw [recover, pushFrontRecovered]
      split
      · rfl
      · split <;> rfl
    rw [foldr_cons, released, releaseInFlight, ih, filter_filter]
    refine filter_congr fun r _ => ?_
    simp

theorem pushFrontBatch_inFlight (recovered : List HeldTx) :
    (s.pushFrontBatch recovered).inFlight = s.inFlight.filter fun r => r.1 ∉ recovered.map hash :=
  foldr_recover_inFlight _

theorem foldl_drain_inFlight {l : List HeldTx} (distinct : (l.map hash).Nodup)
    (fresh : ∀ tx ∈ l, ∀ r ∈ s.inFlight, r.1 ≠ tx.hash) :
    (l.foldl (fun s tx => (s.dropHash tx.hash).markInFlight tx) s).inFlight = s.inFlight ++ l.map reservation := by
  induction l generalizing s with
  | nil => simp
  | cons tx l ih =>
    obtain ⟨absent, distinct⟩ := nodup_cons.mp distinct
    obtain ⟨first, later⟩ := forall_mem_cons.mp fresh
    have marked : ((s.dropHash tx.hash).markInFlight tx).inFlight = s.inFlight ++ [tx.reservation] := by
      rw [markInFlight, if_neg]
      · rfl
      · intro known
        obtain ⟨r, member, same⟩ := any_eq_true.mp known
        exact first r member (of_decide_eq_true same)
    rw [foldl_cons, ih distinct, marked, append_assoc]
    · rfl
    · intro tx' mem r member
      rw [marked, mem_append, mem_singleton] at member
      obtain member | rfl := member
      · exact later tx' mem r member
      · intro same
        exact absent (mem_map.mpr ⟨tx', mem, same.symm⟩)

/-- The hash set is the queue's, reservations have one hash each, and no hash is both queued and in flight. -/
structure Apart (s : PoolState) : Prop where
  indexed : s.Indexed
  reserved : (s.inFlight.map Prod.fst).Nodup
  apart : ∀ r ∈ s.inFlight, r.1 ∉ s.txs.map hash

section
variable (inv : s.Apart)
include inv

theorem Apart.popN_inFlight (n : Nat) : (s.popN n).2.inFlight = s.inFlight ++ (s.popN n).1.map reservation := by
  have split := popN_txs (s := s) n
  have sub : (s.popN n).1.Sublist s.txs := by
    rw [split]
    exact sublist_append_left _ _
  refine foldl_drain_inFlight (inv.indexed.distinct.sublist (sub.map _)) fun tx mem r member same => ?_
  exact inv.apart r member (same ▸ mem_map_of_mem (sub.subset mem))

theorem Apart.pushContiguous (pushed : s.pushContiguous tx onChain = .ok s') : s'.Apart := by
  have indexed := inv.indexed.pushContiguous pushed
  obtain rfl | ⟨⟨-, fresh⟩, inFlight, front, replaced, back, before, -, -, after, -⟩ | ⟨⟨-, fresh⟩, -, -, rfl⟩ :=
    pushContiguous_cases pushed
  · exact inv
  · refine ⟨indexed, inFlight ▸ inv.reserved, fun r member queued => ?_⟩
    rw [inFlight] at member
    have apart := inv.apart r member
    rw [before, map_append, map_cons, mem_append, mem_cons, not_or, not_or] at apart
    rw [after, map_append, map_cons, mem_append, mem_cons] at queued
    obtain queued | same | queued := queued
    · exact apart.1 queued
    · exact fresh r member same
    · exact apart.2.2 queued
  · refine ⟨indexed, inv.reserved, fun r member queued => ?_⟩
    rw [map_append, mem_append, map_singleton, mem_singleton] at queued
    obtain queued | same := queued
    · exact inv.apart r member queued
    · exact fresh r member same

theorem Apart.accept (onChain : UInt64) : (s.accept tx onChain).Apart := by
  unfold PoolState.accept
  cases pushed : s.pushContiguous tx onChain with
  | ok s' => exact inv.pushContiguous pushed
  | error e => exact inv

theorem Apart.popN (n : Nat) : (s.popN n).2.Apart := by
  have split := popN_txs (s := s) n
  have distinct := inv.indexed.distinct
  have apart := inv.apart
  rw [split, map_append] at apart
  rw [split, map_append, nodup_append] at distinct
  refine ⟨inv.indexed.popN n, ?_, ?_⟩
  · rw [inv.popN_inFlight, map_append, map_map, nodup_append]
    refine ⟨inv.reserved, distinct.1, fun a reserved b drained same => ?_⟩
    obtain ⟨r, member, rfl⟩ := mem_map.mp reserved
    exact apart r member (mem_append_left _ (same ▸ drained))
  · intro r member queued
    rw [inv.popN_inFlight, mem_append] at member
    obtain member | drained := member
    · exact apart r member (mem_append_right _ queued)
    · obtain ⟨tx, mem, rfl⟩ := mem_map.mp drained
      exact distinct.2.2 _ (mem_map_of_mem mem) _ queued rfl

theorem Apart.sublist {s' : PoolState} (indexed : s'.Indexed) (txs : s'.txs.Sublist s.txs)
    (inFlight : s'.inFlight.Sublist s.inFlight) : s'.Apart := by
  refine ⟨indexed, inv.reserved.sublist (inFlight.map _), fun r member queued => ?_⟩
  exact inv.apart r (inFlight.subset member) (map_subset _ txs.subset queued)

theorem Apart.release (txs : List HeldTx) : (s.releaseInFlightBatch txs).Apart := by
  refine inv.sublist (inv.indexed.release txs) ?_ ?_
  · rw [releaseInFlightBatch_txs]
  · rw [releaseInFlightBatch_inFlight]
    exact filter_sublist

end

theorem evict_inFlight (sender : Address) (direction : Direction) (nonce : UInt64) :
    (s.evictChainAtOrAbove sender direction nonce).2.inFlight =
      s.inFlight.filter fun r => !decide ((r.2.sender, r.2.direction) = (sender, direction) ∧ nonce ≤ r.2.nonce) := by
  have dropped : ∀ (l : List HeldTx) (p : PoolState),
      (l.foldl (fun s tx => s.dropHash tx.hash) p).inFlight = p.inFlight := by
    intro l
    induction l with
    | nil => exact fun _ => rfl
    | cons tx l ih => exact fun p => ih (p.dropHash tx.hash)
  rw [evictChainAtOrAbove]
  simp only [dropped]

theorem evict_inFlight_sublist (sender : Address) (direction : Direction) (nonce : UInt64) :
    (s.evictChainAtOrAbove sender direction nonce).2.inFlight.Sublist s.inFlight := by
  rw [evict_inFlight]
  exact filter_sublist

theorem Apart.evict (inv : s.Apart) (sender : Address) (direction : Direction) (nonce : UInt64) :
    (s.evictChainAtOrAbove sender direction nonce).2.Apart :=
  inv.sublist (inv.indexed.evict sender direction nonce) (evictChainAtOrAbove_sublist sender direction nonce)
    (evict_inFlight_sublist sender direction nonce)

theorem Apart.pushFrontBatch (inv : s.Apart) (distinct : (recovered.map hash).Nodup) :
    (s.pushFrontBatch recovered).Apart := by
  refine ⟨inv.indexed.pushFrontBatch distinct, ?_, ?_⟩
  · rw [pushFrontBatch_inFlight]
    exact inv.reserved.sublist (filter_sublist.map _)
  · intro r member queued
    rw [pushFrontBatch_inFlight, mem_filter, decide_eq_true_eq] at member
    rw [pushFrontBatch_txs distinct, map_append, mem_append] at queued
    obtain back | queued := queued
    · exact member.2 (map_subset _ filter_sublist.subset back)
    · exact inv.apart r member.1 queued

theorem slots_sublist {s' : PoolState} (txs : s'.txs.Sublist s.txs) (inFlight : s'.inFlight.Sublist s.inFlight) :
    s'.slots.Sublist s.slots := (txs.map _).append (inFlight.map _)

theorem Apart.popN_slots (inv : s.Apart) (n : Nat) : (s.popN n).2.slots.Perm s.slots := by
  have reserved : ((s.popN n).1.map reservation).map (fun r => r.2.slot) = (s.popN n).1.map slot := by
    rw [map_map]
    rfl
  rw [slots, slots, inv.popN_inFlight, map_append, reserved, popN_txs (s := s) n, map_append,
    ← append_assoc, append_assoc (List.map slot (s.popN n).1)]
  exact perm_append_comm

theorem slots_pushContiguous (owned : s.slots.Nodup) (pushed : s.pushContiguous tx onChain = .ok s') :
    s'.slots.Nodup := by
  obtain rfl | ⟨-, inFlight, front, replaced, back, before, chain, nonce, after, -⟩ | ⟨-, free, above, rfl⟩ :=
    pushContiguous_cases pushed
  · exact owned
  · -- the replacement has the slot of what it replaces
    have slot : tx.slot = replaced.slot := Prod.ext chain.symm nonce.symm
    rw [slots, inFlight, after, map_append, map_cons, slot, ← map_cons, ← map_append, ← before]
    exact owned
  · have moved : (PoolState.slots { s with byHash := tx.hash :: s.byHash, txs := s.txs ++ [tx] }).Perm
        (tx.slot :: s.slots) := by
      rw [slots, slots, map_append, map_singleton, append_assoc]
      exact perm_middle
    rw [moved.nodup_iff, nodup_cons]
    refine ⟨fun taken => ?_, owned⟩
    obtain queued | reserved := mem_append.mp taken
    · obtain ⟨q, member, same⟩ := mem_map.mp queued
      have lower := above q member (congrArg Prod.fst same)
      rw [show q.nonce = tx.nonce from congrArg Prod.snd same] at lower
      exact UInt64.lt_irrefl _ lower
    · obtain ⟨r, member, same⟩ := mem_map.mp reserved
      exact free r member (congrArg Prod.fst same) (congrArg Prod.snd same)

theorem slots_accept (owned : s.slots.Nodup) (onChain : UInt64) : (s.accept tx onChain).slots.Nodup := by
  unfold PoolState.accept
  cases pushed : s.pushContiguous tx onChain with
  | ok s' => exact slots_pushContiguous owned pushed
  | error e => exact owned

/-- No transaction that returns has another one, not given back with it, in flight at its slot. -/
def Free (s : PoolState) (recovered : List HeldTx) : Prop :=
  ∀ tx ∈ recovered, ¬s.Displaced recovered tx → tx.hash ∉ s.txs.map hash →
    ∀ r ∈ s.inFlight, r.1 ∉ recovered.map hash → r.2.slot ≠ tx.slot

instance (s : PoolState) (recovered : List HeldTx) : Decidable (s.Free recovered) :=
  inferInstanceAs (Decidable (∀ tx ∈ recovered, ¬s.Displaced recovered tx → tx.hash ∉ s.txs.map hash →
    ∀ r ∈ s.inFlight, r.1 ∉ recovered.map hash → r.2.slot ≠ tx.slot))

theorem slots_pushFrontBatch (inv : s.Apart) (owned : s.slots.Nodup) (distinct : (recovered.map hash).Nodup)
    (apart : (recovered.map slot).Nodup) : (s.pushFrontBatch recovered).slots.Nodup ↔ s.Free recovered := by
  have kept : (s.txs.map slot ++ (s.inFlight.filter fun r => r.1 ∉ recovered.map hash).map
      fun r => r.2.slot).Nodup := owned.sublist ((List.Sublist.refl _).append (filter_sublist.map _))
  have back : ((s.returned (s.replacementRoots recovered) recovered).map slot).Nodup :=
    apart.sublist (filter_sublist.map _)
  rw [slots, pushFrontBatch_txs distinct, pushFrontBatch_inFlight, map_append, append_assoc,
    nodup_append, and_iff_right back, and_iff_right kept]
  constructor
  · intro disjoint tx member stays fresh r reserved outside same
    have returns := (mem_returned inv.indexed).mpr ⟨member, stays, fresh⟩
    refine disjoint _ (mem_map_of_mem returns) _ (mem_append_right _ ?_) same.symm
    exact mem_map_of_mem (mem_filter.mpr ⟨reserved, decide_eq_true outside⟩)
  · intro free a returns b taken same
    obtain ⟨tx, isBack, rfl⟩ := mem_map.mp returns
    obtain ⟨member, stays, fresh⟩ := (mem_returned inv.indexed).mp isBack
    obtain queued | reserved := mem_append.mp taken
    · -- a queued transaction at the slot is a replacement, which displaces
      obtain ⟨q, inQueue, rfl⟩ := mem_map.mp queued
      refine stays ⟨tx, member, rfl, UInt64.le_refl _, q, inQueue, (congrArg Prod.fst same).symm,
        (congrArg Prod.snd same).symm, fun sameHash => ?_⟩
      exact fresh (sameHash ▸ mem_map_of_mem inQueue)
    · obtain ⟨r, kept, rfl⟩ := mem_map.mp reserved
      obtain ⟨inFlight, outside⟩ := mem_filter.mp kept
      exact free tx member stays fresh r inFlight (of_decide_eq_true outside) same.symm

end PoolState

namespace PoolRun

/-- The pool's hashes are apart, and no drained batch has a hash twice. -/
structure Tracked (r : PoolRun) : Prop where
  pool : r.pool.Apart
  drained : ∀ d ∈ r.drained, (d.map hash).Nodup

def OneOwner (r : PoolRun) : Prop := r.pool.slots.Nodup

/-- A batch given back is free of other transactions in flight. -/
def GivesBackFree (r : PoolRun) : PoolOp → Prop
  | .pushFrontBatch recovered => r.pool.Free recovered
  | _ => True

theorem Drained.nodup {r : PoolRun} {β} {f : B256 × (Address × Direction) × UInt64 → β}
    (given : r.Drained (.pushFrontBatch recovered)) (each : ∀ d ∈ r.drained, (d.map fun tx => f tx.identity).Nodup) :
    (recovered.map fun tx => f tx.identity).Nodup := by
  obtain ⟨d, member, sub⟩ := given
  have mapped := sub.map f
  rw [map_map, map_map] at mapped
  exact (each d member).sublist mapped

theorem Tracked.step {r : PoolRun} (inv : r.Tracked) (given : r.Drained op) : (r.step op).Tracked := by
  cases op with
  | pushContiguous tx onChain => exact ⟨inv.pool.accept onChain, inv.drained⟩
  | popN n =>
    refine ⟨inv.pool.popN n, forall_mem_cons.mpr ⟨?_, inv.drained⟩⟩
    have distinct := inv.pool.indexed.distinct
    rw [PoolState.popN_txs (s := r.pool) n, map_append, nodup_append] at distinct
    exact distinct.1
  | pushFrontBatch recovered =>
    exact ⟨inv.pool.pushFrontBatch (given.nodup (f := Prod.fst) inv.drained), inv.drained⟩
  | releaseInFlightBatch txs => exact ⟨inv.pool.release txs, inv.drained⟩
  | evictChainAtOrAbove sender direction nonce => exact ⟨inv.pool.evict sender direction nonce, inv.drained⟩

/-- Besides, no drained batch has a slot twice: it was drained under one owner each. -/
structure Parted (r : PoolRun) : Prop where
  tracked : r.Tracked
  slots : ∀ d ∈ r.drained, (d.map slot).Nodup

theorem Parted.step {r : PoolRun} (inv : r.Parted) (owned : r.OneOwner) (given : r.Drained op) :
    (r.step op).Parted := by
  refine ⟨inv.tracked.step given, ?_⟩
  cases op with
  | popN n =>
    refine forall_mem_cons.mpr ⟨?_, inv.slots⟩
    unfold OneOwner PoolState.slots at owned
    rw [PoolState.popN_txs (s := r.pool) n, map_append, append_assoc, nodup_append] at owned
    exact owned.1
  | pushContiguous tx onChain | pushFrontBatch recovered | releaseInFlightBatch txs
  | evictChainAtOrAbove sender direction nonce => exact inv.slots

theorem oneOwner_step {r : PoolRun} (inv : r.Parted) (owned : r.OneOwner) (given : r.Drained op) :
    (r.step op).OneOwner ↔ r.GivesBackFree op := by
  have apart := inv.tracked.pool
  cases op with
  | pushContiguous tx onChain =>
    refine iff_of_true ?_ trivial
    exact PoolState.slots_accept owned onChain
  | popN n =>
    refine iff_of_true ?_ trivial
    exact (apart.popN_slots n).nodup_iff.mpr owned
  | pushFrontBatch recovered =>
    exact PoolState.slots_pushFrontBatch apart owned (given.nodup (f := Prod.fst) inv.tracked.drained)
      (given.nodup (f := Prod.snd) inv.slots)
  | releaseInFlightBatch txs =>
    refine iff_of_true (owned.sublist (PoolState.slots_sublist ?_ ?_)) trivial
    · exact (PoolState.releaseInFlightBatch_txs txs).symm ▸ List.Sublist.refl _
    · exact (PoolState.releaseInFlightBatch_inFlight txs).symm ▸ filter_sublist
  | evictChainAtOrAbove sender direction nonce =>
    refine iff_of_true (owned.sublist (PoolState.slots_sublist ?_ ?_)) trivial
    · exact PoolState.evictChainAtOrAbove_sublist sender direction nonce
    · exact PoolState.evict_inFlight_sublist sender direction nonce

theorem new_parted : new.Parted := by
  refine ⟨⟨⟨new_consistent.indexed, nodup_nil, ?_⟩, ?_⟩, ?_⟩
  all_goals
    intro x member
    cases member

/-- In every run in which what is given back was drained, the hash set is the
queue's and no hash is queued twice or both queued and in flight. Each slot has
one owner throughout exactly when every batch given back is free of other
transactions in flight. -/
theorem oneOwner_throughout_iff (ops : List PoolOp) (given : Runs.Along step Drained new ops) :
    Runs.Throughout step (fun r => r.pool.Apart) new ops ∧
      (Runs.Throughout step OneOwner new ops ↔ Runs.Along step GivesBackFree new ops) := by
  refine ⟨?_, Runs.throughout_iff_along Parted.step oneOwner_step new_parted nodup_nil given⟩
  exact (Runs.throughout_of_invariant Tracked.step new_parted.tracked given).imp Tracked.pool

def releasedThenReused : List PoolOp :=
  [.pushContiguous (heldTx 1 0) 0, .popN 1, .releaseInFlightBatch [heldTx 1 0], .pushContiguous (heldTx 2 0) 0, .popN 1]

/-- Given back now, the first one is queued while the second is in flight at the same nonce. -/
theorem twoOwners_after_release : Runs.Along step Drained new (releasedThenReused ++ [.pushFrontBatch [heldTx 1 0]]) ∧
      ¬Runs.Throughout step OneOwner new (releasedThenReused ++ [.pushFrontBatch [heldTx 1 0]]) := by
  refine ⟨⟨trivial, trivial, trivial, trivial, trivial, ⟨[heldTx 1 0], ?_, List.Sublist.refl _⟩, trivial⟩, ?_⟩
  · decide
  · rintro ⟨_, _, _, _, _, _, last⟩
    revert last
    change ¬List.Nodup _
    decide

/-- Given back before the nonce is used again, it is displaced by no one. -/
theorem oneOwner_released :
    Runs.Throughout step (fun r => r.pool.Apart) new (releasedThenReused.take 3 ++ [.pushFrontBatch [heldTx 1 0]]) ∧
      Runs.Throughout step OneOwner new (releasedThenReused.take 3 ++ [.pushFrontBatch [heldTx 1 0]]) := by
  have given : Runs.Along step Drained new (releasedThenReused.take 3 ++ [.pushFrontBatch [heldTx 1 0]]) := by
    refine ⟨trivial, trivial, trivial, ⟨[heldTx 1 0], ?_, List.Sublist.refl _⟩, trivial⟩
    decide
  have runs := oneOwner_throughout_iff _ given
  refine ⟨runs.1, runs.2.mpr ⟨trivial, trivial, trivial, ?_, trivial⟩⟩
  change PoolState.Free _ _
  decide

open PoolState in
/-- Giving a drained batch straight back undoes the draining. -/
theorem popN_undone {s : PoolState} (inv : s.Apart) (owned : s.slots.Nodup) (n) :
    ((s.popN n).2.pushFrontBatch (s.popN n).1).txs = s.txs ∧
      ((s.popN n).2.pushFrontBatch (s.popN n).1).inFlight = s.inFlight := by
  have split := popN_txs (s := s) n
  have apart := inv.apart
  have distinct := inv.indexed.distinct
  rw [split, map_append] at distinct apart
  rw [slots, split, map_append, append_assoc, nodup_append] at owned
  obtain ⟨hashes, -, others⟩ := nodup_append.mp distinct
  constructor
  · rw [pushFrontBatch_txs hashes, split]
    refine congrArg (· ++ _) (filter_eq_self.mpr fun tx drained => ?_)
    refine (mem_filter.mp ((mem_returned (inv.indexed.popN n)).mpr ⟨drained, ?_, ?_⟩)).2
    · -- what displaces has a drained slot
      rintro ⟨a, given, -, -, q, queued, chain, nonce, -⟩
      exact owned.2.2 _ (mem_map_of_mem given) _ (mem_append_left _ (mem_map_of_mem queued))
        (Prod.ext chain.symm nonce.symm)
    · exact fun queued => others _ (mem_map_of_mem drained) _ queued rfl
  · rw [pushFrontBatch_inFlight, inv.popN_inFlight, filter_append, filter_eq_self.mpr,
      filter_eq_nil_iff.mpr, append_nil]
    · intro r reserved
      obtain ⟨tx, drained, rfl⟩ := mem_map.mp reserved
      exact fun other => of_decide_eq_true other (mem_map_of_mem drained)
    · intro r reserved
      exact decide_eq_true fun drained => apart r reserved (mem_append_left _ drained)

theorem popN_undone_one :
    (((new.pool.accept (heldTx 1 0) 0).popN 1).2.pushFrontBatch [heldTx 1 0]).txs = [heldTx 1 0] :=
  (popN_undone (new_parted.tracked.pool.accept 0) (PoolState.slots_accept (s := .new) nodup_nil 0) 1).1

end PoolRun

end Eez.Composer
