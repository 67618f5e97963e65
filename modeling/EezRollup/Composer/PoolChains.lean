import EezRollup.Composer.PoolOwners

/-! The nonces of a chain that are queued or in flight form an interval that starts at the on-chain
nonce, as long as what is given back is out. -/
open List
namespace Eez.Composer
open HeldTx
open PoolRun (heldTx)

namespace PoolState
variable {s s' : PoolState} {tx : HeldTx} {chain : Address × Direction} {c : UInt64} {m : Nat}

theorem mem_slots : x ∈ s.slots ↔ (∃ q ∈ s.txs, q.slot = x) ∨ ∃ r ∈ s.inFlight, r.2.slot = x := by
  simp [slots]

theorem mem_reserved : n ∈ s.reserved chain c ↔ c ≤ n ∧ (chain, n) ∈ s.slots := by
  simp [reserved, mem_slots, slot, Reservation.slot, and_comm]
  grind

/-- The nonces of a chain from `c` on that are queued or in flight are those below `m`. -/
structure Fills (s : PoolState) (chain : Address × Direction) (c : UInt64) (m : Nat) : Prop where
  low : c.toNat ≤ m
  high : m ≤ 2 ^ 64
  holds : ∀ n : UInt64, c ≤ n → ((chain, n) ∈ s.slots ↔ n.toNat < m)

theorem Fills.nextExpectedNonce (fills : s.Fills chain c m) :
    s.nextExpectedNonce chain c = if m < 2 ^ 64 then some (UInt64.ofNat m) else none := by
  obtain ⟨low, high, holds⟩ := fills
  have listed : ∀ n : UInt64, n ∈ s.reserved chain c ↔ c ≤ n ∧ n.toNat < m := by
    intro n
    rw [mem_reserved]
    exact and_congr_right (holds n)
  unfold PoolState.nextExpectedNonce
  cases hmax : ((s.reserved chain c).map UInt64.toNat).max? with
  | none =>
    rw [max?_eq_none_iff, map_eq_nil_iff] at hmax
    have top : m = c.toNat := by
      by_contra other
      have first := (listed c).mpr ⟨UInt64.le_refl c, by omega⟩
      rw [hmax] at first
      cases first
    rw [top, if_pos c.toNat_lt, UInt64.ofNat_toNat]
  | some highest =>
    obtain ⟨member, above⟩ := max?_eq_some_iff.mp hmax
    obtain ⟨last, reserved, rfl⟩ := mem_map.mp member
    obtain ⟨atLeast, below⟩ := (listed last).mp reserved
    have top : m = last.toNat + 1 := by
      by_contra other
      have fits : last.toNat + 1 < 2 ^ 64 := by omega
      have next : (UInt64.ofNat (last.toNat + 1)).toNat = last.toNat + 1 := UInt64.toNat_ofNat_of_lt' fits
      have atLeast := UInt64.le_iff_toNat_le.mp atLeast
      have held := (listed (.ofNat (last.toNat + 1))).mpr
        ⟨UInt64.le_iff_toNat_le.mpr (by omega), by omega⟩
      have bounded := above _ (mem_map_of_mem held)
      omega
    rw [top]

/-- `tx` takes the place of the transaction queued at its nonce, at a price. -/
def Replaces (s : PoolState) (tx : HeldTx) (s' : PoolState) : Prop :=
  ∃ front replaced back, s.txs = front ++ replaced :: back ∧ replaced.slot = tx.slot ∧
    minReplacementFee replaced.maxFeePerGas ≤ tx.maxFeePerGas ∧
    minReplacementFee replaced.priorityFeePerGas ≤ tx.priorityFeePerGas ∧
    s' = ⟨front ++ tx :: back, tx.hash :: s.byHash.filter (· ≠ replaced.hash), s.inFlight⟩

def Fresh (s : PoolState) (tx : HeldTx) : Prop := tx.hash ∉ s.byHash ∧ ∀ r ∈ s.inFlight, r.1 ≠ tx.hash

theorem Fresh.not_known (fresh : s.Fresh tx) :
    ¬(tx.hash ∈ s.byHash ∨ (s.inFlight.any fun r => r.1 = tx.hash) = true) := by
  rintro (queued | known)
  · exact fresh.1 queued
  · obtain ⟨r, member, same⟩ := any_eq_true.mp known
    exact fresh.2 r member (of_decide_eq_true same)

section
variable (fresh : s.Fresh tx) (low : c ≤ tx.nonce)
include fresh low

theorem pushContiguous_queued (owned : (s.txs.map slot).Nodup) (queued : ∃ q ∈ s.txs, q.slot = tx.slot) :
    s.pushContiguous tx c = .ok s' ↔ s.Replaces tx s' := by
  obtain ⟨replaced, member, same⟩ := queued
  obtain ⟨front, back, split⟩ := append_of_mem member
  have place : ∀ front' replaced' back', s.txs = front' ++ replaced' :: back' → replaced'.slot = tx.slot →
      s.txs.findIdx? (fun q => q.chain = tx.chain ∧ q.nonce = tx.nonce) = some front'.length := by
    intro front' replaced' back' split' same'
    rw [split', map_append, map_cons, nodup_append] at owned
    rw [split', findIdx?_append, findIdx?_eq_none_iff.mpr, findIdx?_cons, if_pos]
    · simp
    · exact decide_eq_true (Prod.ext_iff.mp same')
    · intro q before
      refine decide_eq_false fun equal => ?_
      exact owned.2.2 _ (mem_map_of_mem before) _ mem_cons_self ((Prod.ext_iff.mpr equal).trans same'.symm)
  rw [pushContiguous, if_neg fresh.not_known, if_neg (UInt64.not_lt.mpr low), place front replaced back split same]
  have at_place : s.txs[front.length]? = some replaced := by simp [split]
  simp only [at_place]
  constructor
  · intro pushed
    split at pushed
    · cases pushed
    · rename_i offered
      rw [not_or, BitVec.not_lt, BitVec.not_lt] at offered
      refine ⟨front, replaced, back, split, same, offered.1, offered.2, ?_⟩
      rw [← Except.ok.inj pushed]
      simp [dropHash, split]
  · rintro ⟨front', replaced', back', split', same', maxFee, priorityFee, rfl⟩
    have lengths := (place front replaced back split same).symm.trans (place front' replaced' back' split' same')
    obtain ⟨rfl, rest⟩ := append_inj (split.symm.trans split') (Option.some.inj lengths)
    obtain ⟨rfl, rfl⟩ := cons.inj rest
    rw [if_neg (not_or.mpr ⟨BitVec.not_lt.mpr maxFee, BitVec.not_lt.mpr priorityFee⟩)]
    simp [dropHash, split]

theorem pushContiguous_unqueued (fills : s.Fills tx.chain c m) (absent : ¬∃ q ∈ s.txs, q.slot = tx.slot) :
    s.pushContiguous tx c = .ok s' ↔
      tx.nonce.toNat = m ∧ s' = { s with byHash := tx.hash :: s.byHash, txs := s.txs ++ [tx] } := by
  have unqueued : s.txs.findIdx? (fun q => q.chain = tx.chain ∧ q.nonce = tx.nonce) = none := by
    refine findIdx?_eq_none_iff.mpr fun q member => decide_eq_false fun equal => ?_
    exact absent ⟨q, member, Prod.ext_iff.mpr equal⟩
  have held := fills.holds tx.nonce low
  rw [pushContiguous, if_neg fresh.not_known, if_neg (UInt64.not_lt.mpr low), unqueued]
  simp only [fills.nextExpectedNonce]
  split
  next reserved =>
    obtain ⟨r, member, equal⟩ := any_eq_true.mp reserved
    have below := held.mp (mem_slots.mpr (.inr ⟨r, member, Prod.ext_iff.mpr (of_decide_eq_true equal)⟩))
    exact iff_of_false (by simp) fun next => Nat.ne_of_lt below next.1
  next unreserved =>
    have above : m ≤ tx.nonce.toNat := by
      refine Nat.not_lt.mp fun below => ?_
      obtain queued | ⟨r, member, equal⟩ := mem_slots.mp (held.mpr below)
      · exact absent queued
      · exact unreserved (any_eq_true.mpr ⟨r, member, decide_eq_true (Prod.ext_iff.mp equal)⟩)
    have fits := Nat.lt_of_le_of_lt above tx.nonce.toNat_lt
    have expected : tx.nonce = .ofNat m ↔ tx.nonce.toNat = m := by
      rw [← UInt64.toNat_inj, UInt64.toNat_ofNat_of_lt' fits]
    simp only [if_pos fits, ne_eq, expected]
    by_cases next : tx.nonce.toNat = m
    · rw [if_neg (not_not_intro next), Except.ok.injEq, and_iff_right next, eq_comm]
    · simp [next]

end

theorem pushContiguous_iff (owned : (s.txs.map slot).Nodup) (fills : s.Fills tx.chain c m)
    (fresh : s.Fresh tx) : s.pushContiguous tx c = .ok s' ↔
      (tx.nonce.toNat = m ∧ s' = { s with byHash := tx.hash :: s.byHash, txs := s.txs ++ [tx] }) ∨
        c ≤ tx.nonce ∧ s.Replaces tx s' := by
  by_cases low : c ≤ tx.nonce
  · rw [and_iff_right low]
    by_cases queued : ∃ q ∈ s.txs, q.slot = tx.slot
    · rw [pushContiguous_queued fresh low owned queued]
      have below := (fills.holds tx.nonce low).mp (mem_slots.mpr (.inl queued))
      exact (or_iff_right fun next => Nat.ne_of_lt below next.1).symm
    · rw [pushContiguous_unqueued fresh low fills queued]
      refine (or_iff_left ?_).symm
      rintro ⟨front, replaced, back, split, same, -⟩
      exact queued ⟨replaced, split ▸ mem_append_right _ mem_cons_self, same⟩
  · have under := UInt64.lt_iff_toNat_lt.mp (UInt64.not_le.mp low)
    rw [pushContiguous, if_neg fresh.not_known, if_pos (UInt64.not_le.mp low)]
    refine iff_of_false (by simp) (not_or.mpr ⟨fun next => ?_, fun queued => low queued.1⟩)
    have := fills.low
    omega

theorem mem_slots_evict {sender direction nonce} :
    x ∈ (s.evictChainAtOrAbove sender direction nonce).2.slots ↔
      x ∈ s.slots ∧ ¬(x.1 = (sender, direction) ∧ nonce ≤ x.2) := by
  rw [mem_slots, mem_slots, evict_inFlight, evict_txs]
  simp only [mem_filter]
  grind [slot, Reservation.slot]

theorem Fills.congr (fills : s.Fills chain c m)
    (same : ∀ n, c ≤ n → ((chain, n) ∈ s'.slots ↔ (chain, n) ∈ s.slots)) :
    s'.Fills chain c m := ⟨fills.low, fills.high, fun n low => (same n low).trans (fills.holds n low)⟩

end PoolState

/-- `out` has what was drained and neither given back nor evicted since. -/
structure ChainRun where
  pool : PoolState
  out : List HeldTx
  onChain : Address × Direction → UInt64

inductive ChainOp where
  | pool (op : PoolOp)
  | land (chain : Address × Direction) (nonce : UInt64)

namespace ChainRun
variable {r : ChainRun} {op : ChainOp}

def new (onChain : Address × Direction → UInt64) : ChainRun := ⟨.new, [], onChain⟩

def step (r : ChainRun) : ChainOp → ChainRun
  | .land chain nonce => { r with onChain := Function.update r.onChain chain nonce }
  | .pool (.pushContiguous tx onChain) => { r with pool := r.pool.accept tx onChain }
  | .pool (.popN n) => { r with pool := (r.pool.popN n).2, out := (r.pool.popN n).1 ++ r.out }
  | .pool (.pushFrontBatch recovered) =>
    { r with pool := r.pool.pushFrontBatch recovered, out := r.out.filter fun t => recovered.all (·.hash ≠ t.hash) }
  | .pool (.releaseInFlightBatch txs) => { r with pool := r.pool.releaseInFlightBatch txs }
  | .pool (.evictChainAtOrAbove sender direction nonce) =>
    { r with
      pool := (r.pool.evictChainAtOrAbove sender direction nonce).2
      out := r.out.filter fun t => ¬(t.chain = (sender, direction) ∧ nonce ≤ t.nonce) }

/-- Nonces on chain do not decrease, a push is made with the current one and a hash
names one transaction, only landed nonces are released, and what is given back is out. -/
def Allowed (r : ChainRun) : ChainOp → Prop
  | .land chain nonce => r.onChain chain ≤ nonce
  | .pool (.pushContiguous tx onChain) =>
    onChain = r.onChain tx.chain ∧ ∀ t ∈ r.out, t.hash = tx.hash → t.slot = tx.slot
  | .pool (.pushFrontBatch recovered) => (recovered.map hash).Nodup ∧
      ∀ tx ∈ recovered, ∃ t ∈ r.out, t.identity = tx.identity
  | .pool (.releaseInFlightBatch txs) => ∀ e ∈ r.pool.inFlight, e.1 ∈ txs.map hash → e.2.nonce < r.onChain e.2.slot.1
  | .pool (.popN _) | .pool (.evictChainAtOrAbove ..) => True

def Full (r : ChainRun) : Prop := ∀ chain, ∃ m, r.pool.Fills chain (r.onChain chain) m

/-- What is out has landed or holds its reservation, and no two transactions share a slot. -/
structure Gapless (r : ChainRun) : Prop where
  apart : r.pool.Apart
  unique : ∀ a ∈ r.pool.txs ++ r.out, ∀ b ∈ r.pool.txs ++ r.out, a.slot = b.slot ↔ a.hash = b.hash
  gone : ∀ q ∈ r.pool.txs, ∀ t ∈ r.out, q.hash ≠ t.hash
  held : ∀ e ∈ r.pool.inFlight, ∃ t ∈ r.out, t.reservation = e
  landed : ∀ t ∈ r.out, t.reservation ∈ r.pool.inFlight ∨ t.nonce < r.onChain t.chain
  full : r.Full

theorem Gapless.owned (inv : r.Gapless) : (r.pool.txs.map slot).Nodup := by
  refine (nodup_map_iff_inj_on (inv.apart.indexed.distinct.of_map _)).mpr fun a ha b hb same => ?_
  exact inj_on_of_nodup_map inv.apart.indexed.distinct ha hb
    ((inv.unique a (mem_append_left _ ha) b (mem_append_left _ hb)).mp same)

section
variable (inv : r.Gapless) {tx : HeldTx} (named : ∀ t ∈ r.out, t.hash = tx.hash → t.slot = tx.slot)
  (fresh : r.pool.Fresh tx)
include inv named fresh

theorem Gapless.append (fills : r.pool.Fills tx.chain (r.onChain tx.chain) m) (next : tx.nonce.toNat = m) :
    Gapless { r with pool := { r.pool with byHash := tx.hash :: r.pool.byHash, txs := r.pool.txs ++ [tx] } } := by
  have low : r.onChain tx.chain ≤ tx.nonce := UInt64.le_iff_toNat_le.mpr (next ▸ fills.low)
  have free : tx.slot ∉ r.pool.slots := fun taken => Nat.ne_of_lt ((fills.holds _ low).mp taken) next
  have slots : ∀ t ∈ r.pool.txs ++ r.out, t.slot ≠ tx.slot := by
    intro t member same
    obtain queued | out := mem_append.mp member
    · exact free (PoolState.mem_slots.mpr (.inl ⟨t, queued, same⟩))
    obtain reserved | landed := inv.landed t out
    · exact free (PoolState.mem_slots.mpr (.inr ⟨_, reserved, same⟩))
    · rw [show t.chain = tx.chain from congrArg Prod.fst same, show t.nonce =
        tx.nonce from congrArg Prod.snd same] at landed
      exact UInt64.not_lt.mpr low landed
  have hashes : ∀ t ∈ r.pool.txs ++ r.out, t.hash ≠ tx.hash := by
    intro t member same
    obtain queued | out := mem_append.mp member
    · exact fresh.1 (same ▸ inv.apart.indexed.queued queued)
    · exact slots t member (named t out same)
  have pushed := (PoolState.pushContiguous_iff inv.owned fills fresh).mpr (.inl ⟨next, rfl⟩)
  refine ⟨inv.apart.pushContiguous pushed, ?_, ?_, inv.held, inv.landed, fun chain => ?_⟩
  · have unique := inv.unique
    grind
  · have gone := inv.gone
    grind
  · have grown : ∀ x, x ∈ PoolState.slots { r.pool with byHash := tx.hash :: r.pool.byHash, txs :=
      r.pool.txs ++ [tx] } ↔
        x ∈ r.pool.slots ∨ x = tx.slot := by
      simp only [PoolState.mem_slots]
      grind
    by_cases same : chain = tx.chain
    · subst same
      refine ⟨m + 1, Nat.le_succ_of_le fills.low, next ▸ tx.nonce.toNat_lt, fun n above => ?_⟩
      rw [grown, fills.holds n above, slot, Prod.mk.injEq, ← UInt64.toNat_inj, next, and_iff_right rfl]
      omega
    · obtain ⟨m, fills⟩ := inv.full chain
      refine ⟨m, fills.congr fun n _ => ?_⟩
      rw [grown]
      exact or_iff_left fun equal => same (congrArg Prod.fst equal)

theorem Gapless.replace (low : r.onChain tx.chain ≤ tx.nonce) (replaces : r.pool.Replaces tx s') :
    Gapless { r with pool := s' } := by
  obtain ⟨m, fills⟩ := inv.full tx.chain
  have pushed := (PoolState.pushContiguous_iff inv.owned fills fresh).mpr (.inr ⟨low, replaces⟩)
  obtain ⟨front, replaced, back, split, same, -, -, rfl⟩ := replaces
  have distinct := inv.apart.indexed.distinct
  have queued := fun t => inv.apart.indexed.queued (q := t)
  have unique := inv.unique
  have gone := inv.gone
  have fresh := fresh.1
  rw [split] at distinct queued unique gone
  simp only [map_append, map_cons, nodup_append, nodup_cons] at distinct
  have others : ∀ t ∈ front ++ back ++ r.out, t.hash ≠ replaced.hash := by
    intro t member same
    rw [mem_append, mem_append] at member
    obtain (before | after) | out := member
    · exact distinct.2.2 _ (mem_map_of_mem before) _ mem_cons_self same
    · exact distinct.2.1.1 (same ▸ mem_map_of_mem after)
    · exact gone replaced (by simp) t out same.symm
  have slots : ∀ t ∈ front ++ back ++ r.out, t.slot ≠ tx.slot := by grind
  have hashes : ∀ t ∈ front ++ back ++ r.out, t.hash ≠ tx.hash := by grind
  refine ⟨inv.apart.pushContiguous pushed, ?_, ?_, inv.held, inv.landed, fun chain => ?_⟩
  · grind
  · grind
  · obtain ⟨m, fills⟩ := inv.full chain
    refine ⟨m, fills.congr fun n _ => ?_⟩
    simp only [PoolState.mem_slots, split]
    grind

end

section
variable (inv : r.Gapless)
include inv

theorem Gapless.accept (allowed : r.Allowed (.pool (.pushContiguous tx c))) :
    Gapless { r with pool := r.pool.accept tx c } := by
  obtain ⟨rfl, named⟩ := allowed
  unfold PoolState.accept
  cases pushed : r.pool.pushContiguous tx (r.onChain tx.chain) with
  | error e => exact inv
  | ok s' =>
    by_cases fresh : r.pool.Fresh tx
    · obtain ⟨m, fills⟩ := inv.full tx.chain
      obtain ⟨next, rfl⟩ | ⟨low, replaces⟩ := (PoolState.pushContiguous_iff inv.owned fills fresh).mp pushed
      · exact inv.append named fresh fills next
      · exact inv.replace named fresh low replaces
    · rw [PoolState.pushContiguous, if_pos] at pushed
      · rw [← Except.ok.inj pushed]
        exact inv
      · by_contra known
        simp only [not_or, any_eq_true, not_exists, not_and, decide_eq_true_eq] at known
        exact fresh known

theorem Gapless.popN (n : Nat) : (r.step (.pool (.popN n))).Gapless := by
  obtain ⟨apart, unique, gone, held, landed, full⟩ := inv
  have split := PoolState.popN_txs (s := r.pool) n
  have inFlight := apart.popN_inFlight n
  have distinct := apart.indexed.distinct
  rw [split, map_append, nodup_append] at distinct
  have others : ∀ a ∈ (r.pool.popN n).1, ∀ b ∈ (r.pool.popN n).2.txs, a.hash ≠ b.hash :=
    fun a drained b queued => distinct.2.2 _ (mem_map_of_mem drained) _ (mem_map_of_mem queued)
  refine ⟨apart.popN n, ?_, ?_, ?_, ?_, fun chain => ?_⟩
  · grind [step]
  · grind [step]
  · grind [step]
  · grind [step]
  · obtain ⟨m, fills⟩ := full chain
    exact ⟨m, fills.congr fun n _ => (apart.popN_slots _).mem_iff⟩

theorem Gapless.pushFrontBatch (allowed : r.Allowed (.pool (.pushFrontBatch recovered))) :
    (r.step (.pool (.pushFrontBatch recovered))).Gapless := by
  obtain ⟨distinct, out⟩ := allowed
  have same : ∀ tx ∈ recovered, ∃ t ∈ r.out, t.hash = tx.hash ∧ t.slot = tx.slot := by
    intro tx member
    obtain ⟨t, isOut, same⟩ := out tx member
    exact ⟨t, isOut, congrArg Prod.fst same, congrArg Prod.snd same⟩
  obtain ⟨apart, unique, gone, held, landed, full⟩ := inv
  -- nothing is displaced: what is out shares no slot with the queue
  have back : (r.pool.pushFrontBatch recovered).txs = recovered ++ r.pool.txs := by
    rw [PoolState.pushFrontBatch_txs distinct]
    refine congrArg (· ++ _) (filter_eq_self.mpr fun tx member => ?_)
    refine (mem_filter.mp ((PoolState.mem_returned apart.indexed).mpr ⟨member, ?_, ?_⟩)).2
    · rintro ⟨a, given, -, -, q, queued, chain, nonce, other⟩
      obtain ⟨t, isOut, -, slot⟩ := same a given
      have equal : q.slot = t.slot := (Prod.ext chain nonce : q.slot = a.slot).trans slot.symm
      exact gone q queued t isOut ((unique q (mem_append_left _ queued) t (mem_append_right _ isOut)).mp equal)
    · grind
  have inFlight := PoolState.pushFrontBatch_inFlight (s := r.pool) recovered
  refine ⟨apart.pushFrontBatch distinct, ?_, ?_, ?_, ?_, fun chain => ?_⟩
  · grind [step]
  · grind [step]
  · grind [step, reservation]
  · grind [step, reservation]
  · obtain ⟨m, fills⟩ := full chain
    refine ⟨m, fills.congr fun n low => ?_⟩
    simp only [step, PoolState.mem_slots, back, inFlight]
    constructor
    · rintro (⟨q, member, slot⟩ | ⟨e, member, slot⟩)
      · obtain given | queued := mem_append.mp member
        · obtain ⟨t, isOut, -, same⟩ := same q given
          obtain reserved | landed := landed t isOut
          · exact .inr ⟨_, reserved, same.trans slot⟩
          · obtain ⟨rfl, rfl⟩ := Prod.mk.inj (same.trans slot)
            exact absurd landed (UInt64.not_lt.mpr low)
        · exact .inl ⟨q, queued, slot⟩
      · exact .inr ⟨e, (mem_filter.mp member).1, slot⟩
    · rintro (⟨q, queued, slot⟩ | ⟨e, member, slot⟩)
      · exact .inl ⟨q, mem_append_right _ queued, slot⟩
      · by_cases given : e.1 ∈ recovered.map hash
        · obtain ⟨q, back, hash⟩ := mem_map.mp given
          obtain ⟨t, isOut, rfl⟩ := held e member
          obtain ⟨t', isOut', hash', slot'⟩ := same q back
          have equal := (unique t' (mem_append_right _ isOut') t (mem_append_right _ isOut)).mpr (hash'.trans hash)
          exact .inl ⟨q, mem_append_left _ back, (slot'.symm.trans equal).trans slot⟩
        · exact .inr ⟨e, mem_filter.mpr ⟨member, decide_eq_true given⟩, slot⟩

theorem Gapless.release (allowed : r.Allowed (.pool (.releaseInFlightBatch txs))) :
    (r.step (.pool (.releaseInFlightBatch txs))).Gapless := by
  obtain ⟨apart, unique, gone, held, landed, full⟩ := inv
  have queue := PoolState.releaseInFlightBatch_txs (s := r.pool) txs
  have inFlight := PoolState.releaseInFlightBatch_inFlight (s := r.pool) txs
  simp only [Allowed] at allowed
  refine ⟨apart.release txs, ?_, ?_, ?_, ?_, fun chain => ?_⟩
  · grind [step]
  · grind [step]
  · grind [step]
  · grind [step, reservation, Reservation.slot, chain]
  · obtain ⟨m, fills⟩ := full chain
    refine ⟨m, fills.congr fun n low => ?_⟩
    simp only [step, PoolState.mem_slots, queue, inFlight, mem_filter]
    refine or_congr_right (exists_congr fun e => and_congr_left fun slot => and_iff_left_of_imp fun member => ?_)
    refine decide_eq_true fun released => UInt64.not_lt.mpr low ?_
    have landed := allowed e member released
    rwa [slot, show e.2.nonce = n from congrArg Prod.snd slot] at landed

theorem Gapless.evict {sender direction nonce} :
    (r.step (.pool (.evictChainAtOrAbove sender direction nonce))).Gapless := by
  obtain ⟨apart, unique, gone, held, landed, full⟩ := inv
  have queue := PoolState.evict_txs (s := r.pool) sender direction nonce
  have inFlight := PoolState.evict_inFlight (s := r.pool) sender direction nonce
  refine ⟨apart.evict sender direction nonce, ?_, ?_, ?_, ?_, fun chain => ?_⟩
  · grind [step]
  · grind [step]
  · grind [step, reservation, chain]
  · grind [step, reservation, chain]
  · obtain ⟨m, low, high, holds⟩ := full chain
    by_cases same : chain = (sender, direction)
    · have := (r.onChain chain).toNat_lt
      refine ⟨max (r.onChain chain).toNat (min m nonce.toNat), ?_, ?_, fun n above => ?_⟩
      · exact Nat.le_max_left ..
      · omega
      · refine PoolState.mem_slots_evict.trans ?_
        have := UInt64.le_iff_toNat_le.mp (show r.onChain chain ≤ n from above)
        rw [holds n above, and_iff_right same, UInt64.le_iff_toNat_le]
        change n.toNat < m ∧ ¬nonce.toNat ≤ n.toNat ↔ n.toNat < _
        omega
    · refine ⟨m, low, high, fun n above => ?_⟩
      exact PoolState.mem_slots_evict.trans ((and_iff_left fun evicted => same evicted.1).trans (holds n above))

theorem Gapless.land {chain nonce} (allowed : r.onChain chain ≤ nonce) :
    (r.step (.land chain nonce)).Gapless := by
  have rises : ∀ other, r.onChain other ≤ Function.update r.onChain chain nonce other := by
    intro other
    by_cases same : other = chain
    · subst same
      rwa [Function.update_self]
    · rw [Function.update_of_ne same]
      exact UInt64.le_refl _
  obtain ⟨apart, unique, gone, held, landed, full⟩ := inv
  refine ⟨apart, unique, gone, held, fun t out => ?_, fun other => ?_⟩
  · exact (landed t out).imp_right fun before => UInt64.lt_of_lt_of_le before (rises _)
  · obtain ⟨m, low, high, holds⟩ := full other
    have := (Function.update r.onChain chain nonce other).toNat_lt
    refine ⟨max m (Function.update r.onChain chain nonce other).toNat, ?_, ?_, fun n above => ?_⟩
    · exact Nat.le_max_right ..
    · omega
    · refine (holds n (UInt64.le_trans (rises other) above)).trans ?_
      have := UInt64.le_iff_toNat_le.mp above
      simp only [step] at this ⊢
      omega

theorem Gapless.step (allowed : r.Allowed op) : (r.step op).Gapless := by
  match op with
  | .land chain nonce => exact inv.land allowed
  | .pool (.pushContiguous tx c) => exact inv.accept allowed
  | .pool (.popN n) => exact inv.popN n
  | .pool (.pushFrontBatch recovered) => exact inv.pushFrontBatch allowed
  | .pool (.releaseInFlightBatch txs) => exact inv.release allowed
  | .pool (.evictChainAtOrAbove sender direction nonce) => exact inv.evict

end

theorem new_gapless (onChain : Address × Direction → UInt64) : (new onChain).Gapless := by
  refine ⟨PoolRun.new_parted.tracked.pool, ?_, ?_, ?_, ?_, fun chain =>
    ⟨(onChain chain).toNat, Nat.le_refl _, ?_, fun n low => ?_⟩⟩
  iterate 4
    intro x member
    cases member
  · exact Nat.le_of_lt (onChain chain).toNat_lt
  · exact iff_of_false not_mem_nil (Nat.not_lt.mpr (UInt64.le_iff_toNat_le.mp low))

/-- In every allowed run the nonces of a chain that are queued or in flight are those
from the on-chain nonce up to some `m`, and a new transaction is taken exactly at
`m`, or in the place of a queued one at a better price. The price is the larger of ten
percent and one more, up to the fees whose tenfold saturates. -/
theorem admits_throughout (onChain : Address × Direction → UInt64) (ops : List ChainOp)
    (allowed : Runs.Along step Allowed (new onChain) ops) :
    Runs.Throughout step (fun r => ∀ chain, ∃ m, r.pool.Fills chain (r.onChain chain) m ∧
        ∀ tx s', tx.chain = chain → r.pool.Fresh tx → (r.pool.pushContiguous tx (r.onChain chain) = .ok s' ↔
          (tx.nonce.toNat = m ∧ s' = { r.pool with byHash := tx.hash :: r.pool.byHash, txs := r.pool.txs ++ [tx] }) ∨
            r.onChain chain ≤ tx.nonce ∧ r.pool.Replaces tx s')) (new onChain) ops ∧
      ∀ fee : U128, (minReplacementFee fee).toNat = fee.toNat + max (fee.toNat / 10) 1 ↔
        fee.toNat / 10 ≤ u128Max / 100 := by
  refine ⟨(Runs.throughout_of_invariant Gapless.step (new_gapless onChain) allowed).imp fun inv chain => ?_,
    fun fee => ?_⟩
  · obtain ⟨m, fills⟩ := inv.full chain
    refine ⟨m, fills, fun tx s' same fresh => ?_⟩
    subst same
    exact PoolState.pushContiguous_iff inv.owned fills fresh
  · have := fee.isLt
    unfold minReplacementFee u128Max replacementTxCostPercent
    rw [BitVec.toNat_ofNat]
    omega

/-- Two transactions drained, the first landed and released, the second given back. -/
theorem admits_recovered :
    let ops : List ChainOp := [.pool (.pushContiguous (heldTx 1 0) 0), .pool (.pushContiguous (heldTx 2 1) 0),
      .pool (.popN 2),
      .land (heldTx 1 0).chain 1, .pool (.releaseInFlightBatch [heldTx 1 0]), .pool (.pushFrontBatch [heldTx 2 1])]
    Runs.Throughout step Full (new fun _ => 0) ops := by
  intro ops
  refine (admits_throughout (fun _ => 0) ops ⟨⟨rfl, ?_⟩, ⟨rfl, ?_⟩, trivial, ?_, ?_, ⟨?_, ?_⟩, trivial⟩).1.imp
    fun full chain => ?_
  · intro t out
    cases out
  · intro t out
    cases out
  · exact UInt64.le_of_lt (by decide)
  · simp only [Allowed]
    decide
  · decide
  · decide
  · obtain ⟨m, fills, -⟩ := full chain
    exact ⟨m, fills⟩

/-- A fee so high that its tenfold saturates is replaced for less than ten percent more. -/
theorem admits_saturated : let first := { heldTx 1 0 with maxFeePerGas := .ofNat 128 (2 ^ 127) }
    let second := { heldTx 2 0 with maxFeePerGas := .ofNat 128 (2 ^ 127 + 2 ^ 122), priorityFeePerGas := 2 }
    let ops : List ChainOp := [.pool (.pushContiguous first 0), .pool (.pushContiguous second 0)]
    Runs.Along step Allowed (new fun _ => 0) ops ∧ (ops.foldl step (new fun _ => 0)).pool.txs = [second] ∧
      second.maxFeePerGas.toNat < first.maxFeePerGas.toNat + max (first.maxFeePerGas.toNat / 10) 1 := by
  refine ⟨⟨⟨rfl, ?_⟩, ⟨rfl, ?_⟩, trivial⟩, by decide, by decide⟩
  · intro t out
    cases out
  · intro t out
    cases out

end ChainRun
end Eez.Composer
