import Mathlib.Data.List.Nodup
import EezRollup.Composer.HeldPool

/-! Admission, draining and eviction keep every chain of the queue in nonce order; giving a batch
back keeps it exactly when the batch fits below what is queued. -/
open List
namespace Eez.Composer
open HeldTx

/-- What orders a transaction; a retry changes only its attempts. -/
def HeldTx.identity (tx : HeldTx) : B256 × (Address × Direction) × UInt64 := (tx.hash, tx.chain, tx.nonce)

/-- Two positions of a queue: the later nonce of a chain is the higher. -/
def Precedes (a b : B256 × (Address × Direction) × UInt64) : Prop := a.2.1 = b.2.1 → a.2.2 < b.2.2

instance (a b : B256 × (Address × Direction) × UInt64) : Decidable (Precedes a b) :=
  inferInstanceAs (Decidable (a.2.1 = b.2.1 → a.2.2 < b.2.2))

def Ascending (txs : List HeldTx) : Prop := (txs.map identity).Pairwise Precedes

instance (txs : List HeldTx) : Decidable (Ascending txs) :=
  inferInstanceAs (Decidable ((txs.map identity).Pairwise Precedes))

theorem ascending_append : Ascending (a ++ b) ↔ Ascending a ∧ Ascending b ∧
      ∀ x ∈ a, ∀ y ∈ b, x.chain = y.chain → x.nonce < y.nonce := by
  unfold Ascending
  rw [map_append, pairwise_append]
  simp only [forall_mem_map]
  rfl

theorem Ascending.sublist (h : Ascending b) (sub : a.Sublist b) : Ascending a :=
  List.Pairwise.sublist (sub.map identity) h

theorem Ascending.of_identity (h : Ascending b)
    (sub : (a.map identity).Sublist (b.map identity)) : Ascending a :=
  List.Pairwise.sublist sub h

/-- The hash set is the set of queued hashes, and no hash is queued twice. -/
structure PoolState.Indexed (s : PoolState) : Prop where
  distinct : (s.txs.map hash).Nodup
  hashes : ∀ h, h ∈ s.byHash ↔ h ∈ s.txs.map hash

namespace PoolState
variable {s : PoolState} {tx : HeldTx} {recovered : List HeldTx}

@[simp] theorem releaseInFlight_txs : (s.releaseInFlight tx).txs = s.txs := rfl

@[simp] theorem releaseInFlight_byHash : (s.releaseInFlight tx).byHash = s.byHash := rfl

@[simp] theorem markInFlight_txs : (s.markInFlight tx).txs = s.txs := by
  unfold markInFlight
  split <;> rfl

@[simp] theorem markInFlight_byHash : (s.markInFlight tx).byHash = s.byHash := by
  unfold markInFlight
  split <;> rfl

@[simp] theorem dropHash_txs {hash} : (s.dropHash hash).txs = s.txs := rfl

@[simp] theorem mem_dropHash {hash h} : h ∈ (s.dropHash hash).byHash ↔ h ∈ s.byHash ∧ h ≠ hash := by
  simp [dropHash]

theorem Indexed.queued (inv : s.Indexed) (h : q ∈ s.txs) : q.hash ∈ s.byHash :=
  (inv.hashes _).mpr (mem_map_of_mem h)

variable {chain : Address × Direction} {onChain : UInt64} {s' : PoolState} {l : List HeldTx} {roots : Roots}

theorem lt_nextExpectedNonce (h : s.nextExpectedNonce chain onChain = some expected) (hq : q ∈ s.txs)
    (same : q.chain = chain) :
    q.nonce < expected := by
  unfold nextExpectedNonce at h
  have listed : onChain ≤ q.nonce → q.nonce ∈ s.reserved chain onChain := by
    intro landed
    refine mem_filter.mpr ⟨mem_append_left _ ?_, by simpa using landed⟩
    exact mem_map_of_mem (mem_filter.mpr ⟨hq, by simpa using same⟩)
  cases hmax : ((s.reserved chain onChain).map UInt64.toNat).max? with
  | none =>
    rw [hmax] at h
    obtain rfl := Option.some.inj h
    rw [max?_eq_none_iff, map_eq_nil_iff] at hmax
    rw [hmax] at listed
    by_cases landed : onChain ≤ q.nonce
    · cases listed landed
    · exact UInt64.not_le.mp landed
  | some highest =>
    rw [hmax] at h
    obtain ⟨member, above⟩ := max?_eq_some_iff.mp hmax
    obtain ⟨last, hlast, rfl⟩ := mem_map.mp member
    have atLeast : onChain ≤ last := by simpa using (mem_filter.mp hlast).2
    by_cases fits : last.toNat + 1 < 2 ^ 64
    · simp only [if_pos fits, Option.some.injEq] at h
      subst h
      rw [UInt64.lt_iff_toNat_lt, UInt64.toNat_ofNat_of_lt' fits]
      by_cases landed : onChain ≤ q.nonce
      · exact Nat.lt_succ_of_le (above _ (mem_map_of_mem (listed landed)))
      · have low := UInt64.lt_iff_toNat_lt.mp (UInt64.not_le.mp landed)
        have high := UInt64.le_iff_toNat_le.mp atLeast
        omega
    · simp only [if_neg fits] at h
      cases h

/-- What an accepted transaction does: nothing, take a queued place, or join
the back above its chain. -/
theorem pushContiguous_cases (h : s.pushContiguous tx onChain = .ok s') : s' = s ∨
      ((tx.hash ∉ s.byHash ∧ ∀ r ∈ s.inFlight, r.1 ≠ tx.hash) ∧ s'.inFlight = s.inFlight ∧
        ∃ front replaced back, s.txs = front ++ replaced :: back ∧ replaced.chain = tx.chain ∧
        replaced.nonce = tx.nonce ∧ s'.txs = front ++ tx :: back ∧
        ∀ h, h ∈ s'.byHash ↔ h = tx.hash ∨ h ∈ s.byHash ∧ h ≠ replaced.hash) ∨
      ((tx.hash ∉ s.byHash ∧ ∀ r ∈ s.inFlight, r.1 ≠ tx.hash) ∧
        (∀ r ∈ s.inFlight, (r.2.sender, r.2.direction) = tx.chain → r.2.nonce ≠ tx.nonce) ∧
        (∀ q ∈ s.txs, q.chain = tx.chain → q.nonce < tx.nonce) ∧
        s' = { s with byHash := tx.hash :: s.byHash, txs := s.txs ++ [tx] }) := by
  unfold pushContiguous at h
  by_cases known : tx.hash ∈ s.byHash ∨ (s.inFlight.any fun r => r.1 = tx.hash) = true
  · rw [if_pos known] at h
    exact .inl (Except.ok.inj h).symm
  rw [if_neg known] at h
  have fresh : tx.hash ∉ s.byHash ∧ ∀ r ∈ s.inFlight, r.1 ≠ tx.hash := by
    refine ⟨fun member => known (.inl member), fun r member same => known (.inr ?_)⟩
    exact any_eq_true.mpr ⟨r, member, decide_eq_true same⟩
  by_cases landed : tx.nonce < onChain
  · rw [if_pos landed] at h
    cases h
  rw [if_neg landed] at h
  cases hfind : s.txs.findIdx? fun queued => queued.chain = tx.chain ∧ queued.nonce = tx.nonce with
  | some i =>
    obtain ⟨inside, same, _⟩ := findIdx?_eq_some_iff_getElem.mp hfind
    obtain ⟨sameChain, sameNonce⟩ := of_decide_eq_true same
    simp only [hfind, getElem?_eq_getElem inside] at h
    split at h
    · cases h
    · obtain rfl := Except.ok.inj h
      obtain ⟨front, back, split, _, set⟩ : ∃ front back, s.txs = front ++ s.txs[i] :: back ∧ front.length = i ∧
          s.txs.set i tx = front ++ tx :: back := exists_of_set inside
      refine .inr (.inl ⟨fresh, rfl, front, _, back, split, sameChain, sameNonce, set, ?_⟩)
      intro h
      simp
  | none =>
    simp only [hfind] at h
    split at h
    · cases h
    rename_i unreserved
    have free : ∀ r ∈ s.inFlight, (r.2.sender, r.2.direction) = tx.chain → r.2.nonce ≠ tx.nonce := by
      intro r member chain nonce
      exact unreserved (any_eq_true.mpr ⟨r, member, decide_eq_true ⟨chain, nonce⟩⟩)
    cases hnext : s.nextExpectedNonce tx.chain onChain with
    | none =>
      rw [hnext] at h
      cases h
    | some expected =>
      simp only [hnext] at h
      by_cases next : tx.nonce = expected
      · rw [if_neg (not_not_intro next)] at h
        refine .inr (.inr ⟨fresh, free, ?_, (Except.ok.inj h).symm⟩)
        intro q hq same
        rw [next]
        exact lt_nextExpectedNonce hnext hq same
      · rw [if_pos next] at h
        cases h

/-- A refused transaction leaves the pool as it was. -/
def accept (s : PoolState) (tx : HeldTx) (onChain : UInt64) : PoolState :=
  match s.pushContiguous tx onChain with
  | .ok s' => s'
  | .error _ => s

theorem Indexed.pushContiguous (inv : s.Indexed) (h : s.pushContiguous tx onChain = .ok s') : s'.Indexed := by
  rcases pushContiguous_cases h with rfl | ⟨⟨fresh, _⟩, _, front, replaced, back, before, _, _, after, hashes⟩ |
    ⟨⟨fresh, _⟩, _, _, rfl⟩
  · exact inv
  · have distinct := inv.distinct
    have absent := (inv.hashes tx.hash).not.mp fresh
    rw [before] at distinct absent
    simp only [map_append, map_cons, nodup_append, nodup_cons, mem_append, mem_cons, not_or] at distinct absent
    refine ⟨?_, ?_⟩
    · rw [after]
      simp only [map_append, map_cons, nodup_append, nodup_cons]
      refine ⟨distinct.1, ⟨absent.2.2, distinct.2.1.2⟩, ?_⟩
      intro a ha b hb
      rcases mem_cons.mp hb with rfl | hb
      · rintro rfl
        exact absent.1 ha
      · exact distinct.2.2 a ha b (.inr hb)
    · intro h
      rw [hashes h, inv.hashes, before, after]
      simp only [map_append, map_cons, mem_append, mem_cons]
      constructor
      · rintro (rfl | ⟨hmem | rfl | hmem, other⟩)
        · exact .inr (.inl rfl)
        · exact .inl hmem
        · exact absurd rfl other
        · exact .inr (.inr hmem)
      · rintro (hmem | rfl | hmem)
        · exact .inr ⟨.inl hmem, fun same => distinct.2.2 h hmem _ (.inl rfl) same⟩
        · exact .inl rfl
        · refine .inr ⟨.inr (.inr hmem), ?_⟩
          rintro rfl
          exact distinct.2.1.1 hmem
  · refine ⟨?_, ?_⟩
    · simp only [map_append, map_cons, map_nil, nodup_append, inv.distinct, nodup_singleton, true_and, mem_singleton]
      intro a ha b hb same
      subst hb same
      exact fresh ((inv.hashes _).mpr ha)
    · intro h
      simp only [mem_cons, inv.hashes, map_append, map_nil, map_cons, mem_append, not_mem_nil, or_false]
      exact or_comm

theorem ascending_pushContiguous (order : Ascending s.txs)
    (h : s.pushContiguous tx onChain = .ok s') : Ascending s'.txs := by
  rcases pushContiguous_cases h with rfl | ⟨_, _, front, replaced, back, before, chain, nonce, after, _⟩ |
    ⟨_, _, above, rfl⟩
  · exact order
  · -- only the chain and the nonce of a place matter, and those stay
    rw [before] at order
    rw [after]
    have place : ∀ x, x ∈ tx :: back → ∃ y ∈ replaced :: back, y.chain = x.chain ∧ y.nonce = x.nonce := by
      intro x hx
      rcases mem_cons.mp hx with rfl | hx
      · exact ⟨replaced, mem_cons_self, chain, nonce⟩
      · exact ⟨x, mem_cons_of_mem _ hx, rfl, rfl⟩
    obtain ⟨first, rest, across⟩ := ascending_append.mp order
    refine ascending_append.mpr ⟨first, ?_, ?_⟩
    · obtain ⟨_, tail, beyond⟩ := (ascending_append (a := [replaced])).mp rest
      refine (ascending_append (a := [tx])).mpr ⟨pairwise_singleton _ _, tail, ?_⟩
      intro x hx y hy same
      obtain rfl := mem_singleton.mp hx
      rw [← nonce]
      exact beyond replaced (mem_singleton_self _) y hy (chain.trans same)
    · intro x hx y hy same
      obtain ⟨y', hy', sameChain, sameNonce⟩ := place y hy
      rw [← sameNonce]
      exact across x hx y' hy' (same.trans sameChain.symm)
  · refine ascending_append.mpr ⟨order, pairwise_singleton _ _, ?_⟩
    intro x hx y hy same
    obtain rfl := mem_singleton.mp hy
    exact above x hx same

theorem Indexed.accept (inv : s.Indexed) (onChain : UInt64) : (s.accept tx onChain).Indexed := by
  unfold PoolState.accept
  cases h : s.pushContiguous tx onChain with
  | ok s' => exact inv.pushContiguous h
  | error e => exact inv

theorem ascending_accept (order : Ascending s.txs) (onChain : UInt64) : Ascending (s.accept tx onChain).txs := by
  unfold PoolState.accept
  cases h : s.pushContiguous tx onChain with
  | ok s' => exact ascending_pushContiguous order h
  | error e => exact order

theorem mem_foldl_dropHash :
    h ∈ (l.foldl (fun s tx => s.dropHash tx.hash) s).byHash ↔ h ∈ s.byHash ∧ h ∉ l.map hash := by
  induction l generalizing s with
  | nil => simp
  | cons tx l ih =>
    rw [foldl_cons, ih, mem_dropHash, map_cons, mem_cons, not_or, and_assoc]

@[simp] theorem foldl_dropHash_txs : (l.foldl (fun s tx => s.dropHash tx.hash) s).txs = s.txs := by
  induction l generalizing s with
  | nil => rfl
  | cons tx l ih => rw [foldl_cons, ih, dropHash_txs]

theorem foldl_drain : (l.foldl (fun s tx => (s.dropHash tx.hash).markInFlight tx) s).txs = s.txs ∧
      ∀ h, h ∈ (l.foldl (fun s tx => (s.dropHash tx.hash).markInFlight tx) s).byHash ↔
        h ∈ s.byHash ∧ h ∉ l.map hash := by
  induction l generalizing s with
  | nil => simp
  | cons tx l ih =>
    obtain ⟨txs, hashes⟩ := ih (s := (s.dropHash tx.hash).markInFlight tx)
    refine ⟨?_, ?_⟩
    · rw [foldl_cons, txs, markInFlight_txs, dropHash_txs]
    · intro h
      rw [foldl_cons, hashes, markInFlight_byHash, mem_dropHash, map_cons, mem_cons, not_or, and_assoc]

theorem popN_txs (n : Nat) : s.txs = (s.popN n).1 ++ (s.popN n).2.txs := by
  unfold popN
  simp only [foldl_drain.1, take_append_drop]

theorem Indexed.popN (inv : s.Indexed) (n : Nat) : (s.popN n).2.Indexed := by
  have split := popN_txs (s := s) n
  have distinct := inv.distinct
  rw [split, map_append, nodup_append] at distinct
  refine ⟨distinct.2.1, ?_⟩
  intro h
  have hashes := (foldl_drain (l := (s.popN n).1)
    (s := { s with txs := s.txs.drop (min n s.txs.length) })).2 h
  refine hashes.trans ?_
  rw [inv.hashes, split, map_append, mem_append]
  constructor
  · rintro ⟨drained | queued, absent⟩
    · exact absurd drained absent
    · exact queued
  · intro queued
    exact ⟨.inr queued, fun drained => distinct.2.2 h drained h queued rfl⟩

theorem evict_txs (sender : Address) (direction : Direction) (nonce : UInt64) :
    (s.evictChainAtOrAbove sender direction nonce).2.txs =
      s.txs.filter fun tx => !decide (tx.chain = (sender, direction) ∧ nonce ≤ tx.nonce) := by
  simp only [evictChainAtOrAbove, foldl_dropHash_txs]

theorem evictChainAtOrAbove_sublist (sender : Address) (direction : Direction) (nonce : UInt64) :
    (s.evictChainAtOrAbove sender direction nonce).2.txs.Sublist s.txs := by
  rw [evict_txs]
  exact filter_sublist

theorem Indexed.evict (inv : s.Indexed) (sender : Address) (direction : Direction) (nonce : UInt64) :
    (s.evictChainAtOrAbove sender direction nonce).2.Indexed := by
  refine ⟨inv.distinct.sublist ((evictChainAtOrAbove_sublist sender direction nonce).map _), ?_⟩
  intro h
  simp only [evictChainAtOrAbove, mem_foldl_dropHash, foldl_dropHash_txs, inv.hashes]
  constructor
  · rintro ⟨queued, kept⟩
    obtain ⟨tx, htx, rfl⟩ := mem_map.mp queued
    refine mem_map_of_mem (mem_filter.mpr ⟨htx, ?_⟩)
    rw [Bool.not_eq_true', Bool.eq_false_iff]
    intro evicted
    exact kept (mem_map_of_mem (mem_filter.mpr ⟨htx, evicted⟩))
  · intro kept
    obtain ⟨tx, htx, rfl⟩ := mem_map.mp kept
    obtain ⟨queued, stays⟩ := mem_filter.mp htx
    refine ⟨mem_map_of_mem queued, ?_⟩
    intro evicted
    obtain ⟨tx', htx', same⟩ := mem_map.mp evicted
    obtain ⟨queued', leaves⟩ := mem_filter.mp htx'
    obtain rfl := inj_on_of_nodup_map inv.distinct queued' queued same
    rw [leaves] at stays
    cases stays

/-- Another transaction holds the queued place of the recovered one, or of a
lower nonce of its chain in the same batch. -/
def Displaced (s : PoolState) (recovered : List HeldTx) (tx : HeldTx) : Prop :=
  ∃ r ∈ recovered, r.chain = tx.chain ∧ r.nonce ≤ tx.nonce ∧
    ∃ q ∈ s.txs, q.chain = r.chain ∧ q.nonce = r.nonce ∧ q.hash ≠ r.hash

instance (s : PoolState) (recovered : List HeldTx) (tx : HeldTx) : Decidable (s.Displaced recovered tx) :=
  inferInstanceAs (Decidable (∃ r ∈ recovered, r.chain = tx.chain ∧ r.nonce ≤ tx.nonce ∧
    ∃ q ∈ s.txs, q.chain = r.chain ∧ q.nonce = r.nonce ∧ q.hash ≠ r.hash))

/-- Every transaction that returns to the queue has a nonce below all nonces
queued for its chain. -/
def Fits (s : PoolState) (recovered : List HeldTx) : Prop :=
  ∀ tx ∈ recovered, ¬s.Displaced recovered tx → tx.hash ∉ s.txs.map hash →
    ∀ q ∈ s.txs, tx.chain = q.chain → tx.nonce < q.nonce

instance (s : PoolState) (recovered : List HeldTx) : Decidable (s.Fits recovered) :=
  inferInstanceAs (Decidable (∀ tx ∈ recovered, ¬s.Displaced recovered tx → tx.hash ∉ s.txs.map hash →
    ∀ q ∈ s.txs, tx.chain = q.chain → tx.nonce < q.nonce))

/-- The roots discard this nonce of the chain. -/
def Covers (roots : Roots) (chain : Address × Direction) (nonce : UInt64) : Prop :=
  ∃ root hash, roots chain = some (root, hash) ∧ root ≤ nonce

theorem discards_iff : discards roots tx = true ↔ Covers roots tx.chain tx.nonce := by
  unfold discards Covers
  cases roots tx.chain with
  | none => simp
  | some root =>
    constructor
    · intro below
      exact ⟨root.1, root.2, rfl, of_decide_eq_true below⟩
    · rintro ⟨_, _, same, below⟩
      obtain rfl := Option.some.inj same
      exact decide_eq_true below

theorem replacement_isSome :
    (s.replacement tx).isSome = true ↔ ∃ q ∈ s.txs, q.chain = tx.chain ∧ q.nonce = tx.nonce ∧ q.hash ≠ tx.hash := by
  simp [replacement]

theorem covers_noteReplacement {nonce} : Covers (s.noteReplacement roots tx) chain nonce ↔
      Covers roots chain nonce ∨ tx.chain = chain ∧ tx.nonce ≤ nonce ∧ (s.replacement tx).isSome = true := by
  unfold noteReplacement
  cases s.replacement tx with
  | none => simp
  | some replacement =>
    by_cases same : chain = tx.chain
    · subst same
      simp only [Covers, if_true]
      cases roots tx.chain with
      | none => simp
      | some root =>
        obtain ⟨root, hash⟩ := root
        by_cases lower : tx.nonce < root
        · simp only [if_pos lower, Option.some.injEq, Prod.mk.injEq, Option.isSome_some, and_true, true_and]
          constructor
          · rintro ⟨_, _, ⟨rfl, rfl⟩, below⟩
            exact .inr below
          · rintro (⟨_, _, ⟨rfl, rfl⟩, below⟩ | below)
            · exact ⟨_, _, ⟨rfl, rfl⟩, UInt64.le_of_lt (UInt64.lt_of_lt_of_le lower below)⟩
            · exact ⟨_, _, ⟨rfl, rfl⟩, below⟩
        · simp only [if_neg lower, Option.some.injEq, Prod.mk.injEq, Option.isSome_some, and_true, true_and]
          constructor
          · exact .inl
          · rintro (covered | below)
            · exact covered
            · exact ⟨_, _, ⟨rfl, rfl⟩, UInt64.le_trans (UInt64.not_lt.mp lower) below⟩
    · simp [Covers, same, Ne.symm same]

theorem covers_foldl {nonce} : Covers (recovered.foldl s.noteReplacement roots) chain nonce ↔ Covers roots chain nonce ∨
        ∃ r ∈ recovered, r.chain = chain ∧ r.nonce ≤ nonce ∧ (s.replacement r).isSome = true := by
  induction recovered generalizing roots with
  | nil => simp
  | cons r recovered ih =>
    rw [foldl_cons, ih, covers_noteReplacement, or_assoc]
    simp only [mem_cons, exists_eq_or_imp]

theorem discards_replacementRoots : discards (s.replacementRoots recovered) tx = true ↔ s.Displaced recovered tx := by
  rw [discards_iff, replacementRoots, covers_foldl]
  have start : ¬Covers (fun _ => none) tx.chain tx.nonce := by
    rintro ⟨_, _, some, _⟩
    cases some
  simp only [start, false_or, replacement_isSome]
  rfl

theorem foldr_recover (roots : Roots) (distinct : (recovered.map hash).Nodup) :
    (recovered.foldr (recover roots) s).txs = s.returned roots recovered ++ s.txs ∧
      ∀ h, h ∈ (recovered.foldr (recover roots) s).byHash ↔
        h ∈ (s.returned roots recovered).map hash ∨ h ∈ s.byHash := by
  induction recovered with
  | nil => simp [returned]
  | cons tx recovered ih =>
    obtain ⟨absent, distinct⟩ := nodup_cons.mp distinct
    obtain ⟨txs, hashes⟩ := ih distinct
    rw [foldr_cons, recover]
    by_cases gone : discards roots tx = true
    · rw [if_pos gone, releaseInFlight_txs, releaseInFlight_byHash, returned, filter_cons_of_neg (by simp [gone])]
      exact ⟨txs, hashes⟩
    · rw [if_neg gone, pushFrontRecovered]
      have queued : tx.hash ∈ (recovered.foldr (recover roots) s).byHash ↔ tx.hash ∈ s.byHash := by
        rw [hashes]
        refine or_iff_right ?_
        intro back
        exact absent (map_subset _ filter_sublist.subset back)
      by_cases known : tx.hash ∈ s.byHash
      · rw [releaseInFlight_byHash, if_pos (queued.mpr known), releaseInFlight_txs, returned,
          filter_cons_of_neg (by simp [known])]
        exact ⟨txs, hashes⟩
      · rw [releaseInFlight_byHash, if_neg (queued.not.mpr known), returned, filter_cons_of_pos (by simp [known, gone])]
        refine ⟨?_, ?_⟩
        · rw [releaseInFlight_txs, txs]
          rfl
        · intro h
          simp only [mem_cons, hashes, map_cons, or_assoc]
          rfl

theorem pushFrontBatch_txs (distinct : (recovered.map hash).Nodup) :
    (s.pushFrontBatch recovered).txs = s.returned (s.replacementRoots recovered) recovered ++ s.txs :=
  (foldr_recover _ distinct).1

theorem mem_returned (inv : s.Indexed) : tx ∈ s.returned (s.replacementRoots recovered) recovered ↔
      tx ∈ recovered ∧ ¬s.Displaced recovered tx ∧ tx.hash ∉ s.txs.map hash := by
  rw [returned, mem_filter, Bool.and_eq_true, Bool.not_eq_true', Bool.not_eq_true', decide_eq_false_iff_not,
    ← Bool.not_eq_true, discards_replacementRoots, inv.hashes]

theorem Indexed.pushFrontBatch (inv : s.Indexed) (distinct : (recovered.map hash).Nodup) :
    (s.pushFrontBatch recovered).Indexed := by
  refine ⟨?_, ?_⟩
  · rw [pushFrontBatch_txs distinct, map_append, nodup_append]
    refine ⟨distinct.sublist (filter_sublist.map _), inv.distinct, ?_⟩
    intro a ha b hb same
    subst same
    obtain ⟨tx, htx, rfl⟩ := mem_map.mp ha
    exact ((mem_returned inv).mp htx).2.2 hb
  · intro h
    rw [pushFrontBatch_txs distinct, map_append, mem_append, ← inv.hashes]
    exact (foldr_recover _ distinct).2 h

/-- Giving an ordered batch back to an ordered queue keeps the order exactly
when the batch fits. -/
theorem ascending_pushFrontBatch (inv : s.Indexed) (order : Ascending s.txs) (batch : Ascending recovered)
    (distinct : (recovered.map hash).Nodup) :
    Ascending (s.pushFrontBatch recovered).txs ↔ s.Fits recovered := by
  rw [pushFrontBatch_txs distinct, ascending_append]
  constructor
  · rintro ⟨_, _, across⟩ tx htx stays fresh q hq same
    exact across tx ((mem_returned inv).mpr ⟨htx, stays, fresh⟩) q hq same
  · intro fits
    refine ⟨batch.sublist filter_sublist, order, ?_⟩
    intro tx htx q hq same
    obtain ⟨member, stays, fresh⟩ := (mem_returned inv).mp htx
    exact fits tx member stays fresh q hq same

@[simp] theorem releaseInFlightBatch_txs (txs : List HeldTx) : (s.releaseInFlightBatch txs).txs = s.txs := by
  unfold releaseInFlightBatch
  induction txs generalizing s with
  | nil => rfl
  | cons tx txs ih => rw [foldl_cons, ih, releaseInFlight_txs]

@[simp] theorem releaseInFlightBatch_byHash (txs : List HeldTx) : (s.releaseInFlightBatch txs).byHash = s.byHash := by
  unfold releaseInFlightBatch
  induction txs generalizing s with
  | nil => rfl
  | cons tx txs ih => rw [foldl_cons, ih, releaseInFlight_byHash]

theorem Indexed.release (inv : s.Indexed) (txs : List HeldTx) : (s.releaseInFlightBatch txs).Indexed :=
  ⟨by rw [releaseInFlightBatch_txs]; exact inv.distinct,
    by rw [releaseInFlightBatch_byHash, releaseInFlightBatch_txs]; exact inv.hashes⟩

end PoolState

inductive PoolOp where
  | pushContiguous (tx : HeldTx) (onChain : UInt64)
  | popN (n : Nat)
  | pushFrontBatch (recovered : List HeldTx)
  | releaseInFlightBatch (txs : List HeldTx)
  | evictChainAtOrAbove (sender : Address) (direction : Direction) (nonce : UInt64)

structure PoolRun where
  pool : PoolState
  drained : List (List HeldTx)

namespace PoolRun

def new : PoolRun := ⟨.new, []⟩

def step (r : PoolRun) : PoolOp → PoolRun
  | .pushContiguous tx onChain => { r with pool := r.pool.accept tx onChain }
  | .popN n => ⟨(r.pool.popN n).2, (r.pool.popN n).1 :: r.drained⟩
  | .pushFrontBatch recovered => { r with pool := r.pool.pushFrontBatch recovered }
  | .releaseInFlightBatch txs => { r with pool := r.pool.releaseInFlightBatch txs }
  | .evictChainAtOrAbove sender direction nonce =>
    { r with pool := (r.pool.evictChainAtOrAbove sender direction nonce).2 }

/-- A batch given back was drained earlier: all of it or some of it, in its
order, with any number of attempts counted. -/
def Drained (r : PoolRun) : PoolOp → Prop
  | .pushFrontBatch recovered => ∃ d ∈ r.drained, (recovered.map identity).Sublist (d.map identity)
  | _ => True

/-- A batch given back fits below the queue it returns to. -/
def GivesBackBelow (r : PoolRun) : PoolOp → Prop
  | .pushFrontBatch recovered => r.pool.Fits recovered
  | _ => True

def InOrder (r : PoolRun) : Prop := Ascending r.pool.txs

structure Consistent (r : PoolRun) : Prop where
  indexed : r.pool.Indexed
  drained : ∀ d ∈ r.drained, Ascending d ∧ (d.map hash).Nodup

theorem Consistent.batch {r : PoolRun} (inv : r.Consistent) {recovered}
    (given : r.Drained (.pushFrontBatch recovered)) :
    Ascending recovered ∧ (recovered.map hash).Nodup := by
  obtain ⟨d, hd, sub⟩ := given
  obtain ⟨order, distinct⟩ := inv.drained d hd
  refine ⟨order.of_identity sub, ?_⟩
  have hashes := sub.map Prod.fst
  rw [map_map, map_map] at hashes
  exact distinct.sublist hashes

theorem Consistent.step {r : PoolRun} (inv : r.Consistent) (order : r.InOrder) (given : r.Drained op) :
    (r.step op).Consistent := by
  cases op with
  | pushContiguous tx onChain => exact ⟨inv.indexed.accept onChain, inv.drained⟩
  | popN n =>
    refine ⟨inv.indexed.popN n, ?_⟩
    intro d hd
    rcases mem_cons.mp hd with rfl | hd
    · have split := PoolState.popN_txs (s := r.pool) n
      have sub : (r.pool.popN n).1.Sublist r.pool.txs := by
        rw [split]
        exact sublist_append_left _ _
      exact ⟨order.sublist sub, inv.indexed.distinct.sublist (sub.map _)⟩
    · exact inv.drained d hd
  | pushFrontBatch recovered => exact ⟨inv.indexed.pushFrontBatch (inv.batch given).2, inv.drained⟩
  | releaseInFlightBatch txs => exact ⟨inv.indexed.release txs, inv.drained⟩
  | evictChainAtOrAbove sender direction nonce => exact ⟨inv.indexed.evict sender direction nonce, inv.drained⟩

theorem inOrder_step {r : PoolRun} (inv : r.Consistent) (order : r.InOrder) (given : r.Drained op) :
    (r.step op).InOrder ↔ r.GivesBackBelow op := by
  cases op with
  | pushContiguous tx onChain =>
    refine iff_of_true ?_ trivial
    exact PoolState.ascending_accept order onChain
  | popN n =>
    refine iff_of_true ?_ trivial
    have split := PoolState.popN_txs (s := r.pool) n
    unfold InOrder at order
    rw [split] at order
    exact (ascending_append.mp order).2.1
  | pushFrontBatch recovered =>
    obtain ⟨batch, distinct⟩ := inv.batch given
    exact PoolState.ascending_pushFrontBatch inv.indexed order batch distinct
  | releaseInFlightBatch txs =>
    refine iff_of_true ?_ trivial
    unfold InOrder PoolRun.step
    rw [PoolState.releaseInFlightBatch_txs]
    exact order
  | evictChainAtOrAbove sender direction nonce =>
    refine iff_of_true ?_ trivial
    exact order.sublist (PoolState.evictChainAtOrAbove_sublist sender direction nonce)

theorem new_consistent : new.Consistent := by
  refine ⟨⟨nodup_nil, ?_⟩, ?_⟩
  · intro h
    exact Iff.rfl
  · intro d hd
    cases hd

/-- Over every run the queue stays in nonce order exactly when every batch given
back fits below the queue it returns to. -/
theorem inOrder_throughout_iff (ops : List PoolOp) (given : Runs.Along step Drained new ops) :
    Runs.Throughout step InOrder new ops ↔ Runs.Along step GivesBackBelow new ops :=
  Runs.throughout_iff_along Consistent.step inOrder_step new_consistent List.Pairwise.nil given

def heldTx (hash : B256) (nonce : UInt64) : HeldTx := ⟨[], hash, 0, 7, nonce, .inbound, 1, 1⟩

def drainedTwice : List PoolOp :=
  [.pushContiguous (heldTx 1 0) 0, .popN 1, .pushContiguous (heldTx 2 1) 0, .popN 1]

/-- The later batch first. -/
theorem inOrder_later_first :
    Runs.Along step Drained new (drainedTwice ++ [.pushFrontBatch [heldTx 2 1], .pushFrontBatch [heldTx 1 0]]) ∧
      Runs.Throughout step InOrder new
        (drainedTwice ++ [.pushFrontBatch [heldTx 2 1], .pushFrontBatch [heldTx 1 0]]) := by
  have given : Runs.Along step Drained new
      (drainedTwice ++ [.pushFrontBatch [heldTx 2 1], .pushFrontBatch [heldTx 1 0]]) := by
    refine ⟨trivial, trivial, trivial, trivial, ⟨[heldTx 2 1], ?_, List.Sublist.refl _⟩,
      ⟨[heldTx 1 0], ?_, List.Sublist.refl _⟩, trivial⟩ <;> decide
  refine ⟨given, (inOrder_throughout_iff _ given).mpr ?_⟩
  refine ⟨trivial, trivial, trivial, trivial, ?_, ?_, trivial⟩
  · change PoolState.Fits _ _
    decide
  · change PoolState.Fits _ _
    decide

/-- The earlier batch first, as the finality audit gives batches back. -/
theorem disorder_earlier_first :
    Runs.Along step Drained new (drainedTwice ++ [.pushFrontBatch [heldTx 1 0], .pushFrontBatch [heldTx 2 1]]) ∧
      ¬Runs.Throughout step InOrder new
        (drainedTwice ++ [.pushFrontBatch [heldTx 1 0], .pushFrontBatch [heldTx 2 1]]) := by
  refine ⟨?_, ?_⟩
  · refine ⟨trivial, trivial, trivial, trivial, ⟨[heldTx 1 0], ?_, List.Sublist.refl _⟩,
      ⟨[heldTx 2 1], ?_, List.Sublist.refl _⟩, trivial⟩ <;> decide
  · rintro ⟨_, _, _, _, _, _, last⟩
    revert last
    change ¬Ascending _
    decide

end PoolRun

end Eez.Composer
