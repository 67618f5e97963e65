import EezRollup.Composer.Optimistic

/-! The transactions of a batch are at all times split between what was handed back, what was
finalized and what the ledger or a running recovery holds. -/
open List
namespace Eez.Composer
open OptimisticallyIncluded

def txsOf (hash : B256) (p : Nat × InFlight) : List HeldTx := if p.2.postBatchHash = hash then p.2.txs else []

def heldIn (ledger : OptimisticallyIncluded) (hash : B256) : List HeldTx := ledger.flatMap (txsOf hash)

def heights (ledger : OptimisticallyIncluded) : List Nat := ledger.map Prod.fst

def batchHashes (ledger : OptimisticallyIncluded) : List B256 := ledger.map fun p => p.2.postBatchHash

section
variable {ledger : OptimisticallyIncluded} {hash : B256} {height : Nat} {entry : InFlight}

/-- A relabelling changes neither heights, hashes nor transactions. -/
structure Relabels (g : Nat × InFlight → Nat × InFlight) : Prop where
  height : ∀ p, (g p).1 = p.1
  hash : ∀ p, (g p).2.postBatchHash = p.2.postBatchHash
  txs : ∀ p, (g p).2.txs = p.2.txs

variable {g : Nat × InFlight → Nat × InFlight}

theorem Relabels.heldIn (h : Relabels g) : heldIn (ledger.map g) hash = heldIn ledger hash := by
  unfold Composer.heldIn
  rw [flatMap_map]
  congr 1
  funext p
  simp only [txsOf, h.hash, h.txs]

theorem Relabels.heights (h : Relabels g) : heights (ledger.map g) = heights ledger := by
  unfold Composer.heights
  rw [map_map]
  congr 1
  funext p
  exact h.height p

theorem Relabels.batchHashes (h : Relabels g) : batchHashes (ledger.map g) = batchHashes ledger := by
  unfold Composer.batchHashes
  rw [map_map]
  congr 1
  funext p
  exact h.hash p

theorem heldIn_eq_nil (absent : hash ∉ batchHashes ledger) : heldIn ledger hash = [] := by
  unfold heldIn
  rw [flatMap_eq_nil_iff]
  intro p hp
  refine if_neg ?_
  rintro rfl
  exact absent (mem_map_of_mem hp)

theorem heldIn_of_mem (distinct : (batchHashes ledger).Nodup) (member : p ∈ ledger) :
    heldIn ledger p.2.postBatchHash = p.2.txs := by
  induction ledger with
  | nil => cases member
  | cons q ledger ih =>
    obtain ⟨absent, distinct⟩ := nodup_cons.mp distinct
    rw [heldIn, flatMap_cons]
    rcases mem_cons.mp member with rfl | member
    · rw [txsOf, if_pos rfl, ← heldIn, heldIn_eq_nil absent, append_nil]
    · have other : ¬q.2.postBatchHash = p.2.postBatchHash := by
        intro same
        exact absent (mem_map.mpr ⟨p, member, same.symm⟩)
      rw [txsOf, if_neg other, nil_append]
      exact ih distinct member

theorem eq_of_batchHash (distinct : (batchHashes ledger).Nodup) (hp : p ∈ ledger) (hq : q ∈ ledger)
    (same : p.2.postBatchHash = q.2.postBatchHash) : p = q :=
  inj_on_of_nodup_map distinct hp hq same

theorem insert_perm (vacant : height ∉ heights ledger) :
    (OptimisticallyIncluded.insert height entry ledger).Perm ((height, entry) :: ledger) := by
  induction ledger with
  | nil => exact List.Perm.refl _
  | cons p ledger ih =>
    obtain ⟨k, x⟩ := p
    unfold OptimisticallyIncluded.insert
    simp only [heights, map_cons, mem_cons, not_or] at vacant
    by_cases below : height < k
    · rw [if_pos below]
    · rw [if_neg below, if_neg vacant.1]
      exact ((ih vacant.2).cons (k, x)).trans (List.Perm.swap _ _ _)

theorem insert_sorted (sorted : (heights ledger).Pairwise (· < ·)) (vacant : height ∉ heights ledger) :
    (heights (OptimisticallyIncluded.insert height entry ledger)).Pairwise (· < ·) := by
  induction ledger with
  | nil => exact pairwise_singleton _ _
  | cons p ledger ih =>
    obtain ⟨k, x⟩ := p
    unfold OptimisticallyIncluded.insert
    simp only [heights, map_cons, mem_cons, not_or] at vacant
    obtain ⟨first, rest⟩ := pairwise_cons.mp sorted
    by_cases below : height < k
    · rw [if_pos below]
      refine pairwise_cons.mpr ⟨?_, sorted⟩
      intro n hn
      rcases mem_cons.mp hn with rfl | hn
      · exact below
      · exact Nat.lt_trans below (first n hn)
    · rw [if_neg below, if_neg vacant.1]
      refine pairwise_cons.mpr ⟨?_, ih rest vacant.2⟩
      intro n hn
      have member : n ∈ heights ((height, entry) :: ledger) :=
        ((insert_perm vacant.2).map Prod.fst).subset hn
      rcases mem_cons.mp member with rfl | hn
      · exact Nat.lt_of_le_of_ne (Nat.not_lt.mp below) (Ne.symm vacant.1)
      · exact first n hn

theorem modifyAt_split (sorted : (heights ledger).Pairwise (· < ·)) (member : (height, entry) ∈ ledger)
    (f : InFlight → InFlight) :
    ∃ front back, ledger = front ++ (height, entry) :: back ∧
      ledger.modifyAt height f = front ++ (height, f entry) :: back := by
  obtain ⟨front, back, rfl⟩ := append_of_mem member
  refine ⟨front, back, rfl, ?_⟩
  simp only [heights, map_append, map_cons, pairwise_append, pairwise_cons] at sorted
  obtain ⟨_, ⟨after, _⟩, before⟩ := sorted
  have outside : ∀ p ∈ front ++ back, (if p.1 = height then (p.1, f p.2) else p) = p := by
    intro p hp
    refine if_neg ?_
    rcases mem_append.mp hp with hp | hp
    · exact Nat.ne_of_lt (before p.1 (mem_map_of_mem hp) height mem_cons_self)
    · exact Nat.ne_of_gt (after p.1 (mem_map_of_mem hp))
  have left := map_congr_left fun p hp => outside p (mem_append_left back hp)
  have right := map_congr_left fun p hp => outside p (mem_append_right front hp)
  rw [map_id'] at left right
  simp only [modifyAt, map_append, map_cons, if_true, left, right]

end

theorem resolveEntry_snd (entry : InFlight) :
    (resolveEntry entry).2.postBatchHash = entry.postBatchHash ∧ (resolveEntry entry).2.txs = entry.txs ∧
      ((resolveEntry entry).2.cursorConfirmed = false → entry.cursorConfirmed = false ∧ entry.resolution ≠ .settled) ∧
      ((entry.cursorConfirmed = true → entry.resolution = .settled) →
        (resolveEntry entry).2.cursorConfirmed = true → (resolveEntry entry).2.resolution = .settled) := by
  unfold resolveEntry
  cases hres : entry.resolution <;> cases hconf : entry.cursorConfirmed <;> simp [hres, hconf]

namespace Disposal

def hash : Disposal → B256
  | .resolved hash _ | .handedBack hash _ | .finalized hash _ => hash

def isResolved : Disposal → Bool
  | .resolved _ _ => true
  | _ => false

/-- The transactions a disposal resolves, hands back or finalizes of a batch. -/
def resolves (hash : B256) : Disposal → List HeldTx
  | .resolved h txs => if h = hash then txs else []
  | _ => []

def returns (hash : B256) : Disposal → List HeldTx
  | .handedBack h txs => if h = hash then txs else []
  | _ => []

def ends (hash : B256) : Disposal → List HeldTx
  | .finalized h txs => if h = hash then txs else []
  | _ => []

end Disposal

def resolved (log : List Disposal) (hash : B256) : List HeldTx := log.flatMap (Disposal.resolves hash)

def handedBack (log : List Disposal) (hash : B256) : List HeldTx := log.flatMap (Disposal.returns hash)

def finalized (log : List Disposal) (hash : B256) : List HeldTx := log.flatMap (Disposal.ends hash)

theorem nothing_logged {log hash} (silent : ∀ d ∈ log, d.hash ≠ hash) :
    handedBack log hash = [] ∧ finalized log hash = [] := by
  constructor
  · refine flatMap_eq_nil_iff.mpr fun d hd => ?_
    cases d with
    | handedBack h txs => exact if_neg (silent _ hd)
    | _ => rfl
  · refine flatMap_eq_nil_iff.mpr fun d hd => ?_
    cases d with
    | finalized h txs => exact if_neg (silent _ hd)
    | _ => rfl

theorem resolved_silent (l : OptimisticallyIncluded) (hash : B256) :
    handedBack (l.map fun p => .resolved p.2.postBatchHash p.2.txs) hash = [] ∧
      finalized (l.map fun p => .resolved p.2.postBatchHash p.2.txs) hash = [] := by
  constructor
  all_goals
    refine flatMap_eq_nil_iff.mpr fun d hd => ?_
    obtain ⟨p, _, rfl⟩ := mem_map.mp hd
    rfl

/-- The batch a running recovery took out of the ledger. -/
def Slot.inHand : Slot → List (Nat × InFlight)
  | .recovering batch =>
    [(batch.syncHeight, ⟨batch.txs, batch.postBatchHash, batch.parent, .failed, false, batch.slotSkipped⟩)]
  | _ => []

/-- The slot agrees with the ledger. -/
structure Slot.Fits (slot : Slot) (ledger : OptimisticallyIncluded) : Prop where
  vacant : ∀ p ∈ slot.inHand, p.1 ∉ heights ledger
  copied : ∀ batch, slot = .disposing batch → ∀ p ∈ ledger, p.1 = batch.syncHeight →
    p.2.postBatchHash = batch.postBatchHash → p.2.txs = batch.txs
  gate : ∀ cursor, slot = .gateOpen cursor → ∀ p ∈ ledger, p.1 ≤ cursor

theorem Slot.fits_idle : Slot.idle.Fits ledger := by
  constructor <;> intro _ h <;> cases h

/-- An event that hands back or finalizes what it names. -/
structure Disposes (event : B256 → List HeldTx → Disposal) : Prop where
  hash : ∀ h txs, (event h txs).hash = h
  unresolved : ∀ h txs, (event h txs).isResolved = false
  split : ∀ h txs hash tx, ((event h txs).returns hash).count tx + ((event h txs).ends hash).count tx =
    (if h = hash then txs else []).count tx

theorem disposes_handedBack : Disposes .handedBack :=
  ⟨fun _ _ => rfl, fun _ _ => rfl, fun _ _ _ _ => Nat.add_zero _⟩

theorem disposes_finalized : Disposes .finalized :=
  ⟨fun _ _ => rfl, fun _ _ => rfl, fun _ _ _ _ => Nat.zero_add _⟩

namespace LedgerRun

def entries (r : LedgerRun) : OptimisticallyIncluded := r.slot.inHand ++ r.ledger

def held (r : LedgerRun) (hash : B256) : List HeldTx := heldIn r.entries hash

structure Accounted (r : LedgerRun) : Prop where
  sorted : (heights r.ledger).Pairwise (· < ·)
  hashes : (batchHashes r.entries).Nodup
  known : ∀ hash ∈ batchHashes r.entries, hash ∈ r.begun.map Prod.fst
  unique : (r.begun.map Prod.fst).Nodup
  logged : ∀ d ∈ r.log, d.hash ∈ r.begun.map Prod.fst
  conserved : ∀ b ∈ r.begun, ∀ tx, b.2.count tx =
    (handedBack r.log b.1).count tx + (finalized r.log b.1).count tx + (r.held b.1).count tx
  confirmed : ∀ p ∈ r.entries, p.2.cursorConfirmed = true → p.2.resolution = .settled
  untouched : ∀ p ∈ r.entries, p.2.cursorConfirmed = false → ∀ d ∈ r.log, d.hash ≠ p.2.postBatchHash
  vacant : ∀ p ∈ r.slot.inHand, p.1 ∉ heights r.ledger
  copied : ∀ batch, r.slot = .disposing batch → ∀ p ∈ r.ledger, p.1 = batch.syncHeight →
    p.2.postBatchHash = batch.postBatchHash → p.2.txs = batch.txs
  gate : ∀ cursor, r.slot = .gateOpen cursor → ∀ p ∈ r.ledger, p.1 ≤ cursor
  order : r.log.Pairwise fun a b => b.isResolved = true → a.hash ≠ b.hash
  whole : ∀ d ∈ r.log, d.isResolved = true → ∀ b ∈ r.begun, ∀ tx, b.1 = d.hash →
    (d.resolves b.1).count tx = b.2.count tx

theorem new_accounted : new.Accounted := by
  constructor <;> simp [new, entries, Slot.inHand, heights, batchHashes]

variable {r : LedgerRun}

@[simp] theorem entries_idle (h : r.slot = .idle) : r.entries = r.ledger := by
  rw [entries, h]
  rfl

theorem count_disposals (disposes : Disposes event) (l : List (Nat × InFlight)) (hash : B256) (tx : HeldTx) :
    (handedBack (l.map fun q => event q.2.postBatchHash q.2.txs) hash).count tx +
      (finalized (l.map fun q => event q.2.postBatchHash q.2.txs) hash).count tx = (heldIn l hash).count tx := by
  induction l with
  | nil => rfl
  | cons q l ih =>
    have first := disposes.split q.2.postBatchHash q.2.txs hash tx
    simp only [handedBack, finalized, heldIn, map_cons, flatMap_cons, count_append, txsOf] at ih ⊢
    omega

section
variable (inv : r.Accounted)
include inv

theorem Accounted.log_append {new} (known : ∀ d ∈ new, d.hash ∈ r.begun.map Prod.fst)
    (unresolved : ∀ d ∈ new, d.isResolved = false) :
    (∀ d ∈ r.log ++ new, d.hash ∈ r.begun.map Prod.fst) ∧
      ((r.log ++ new).Pairwise fun a b => b.isResolved = true → a.hash ≠ b.hash) ∧
      ∀ d ∈ r.log ++ new, d.isResolved = true → ∀ b ∈ r.begun, ∀ tx, b.1 = d.hash →
        (d.resolves b.1).count tx = b.2.count tx := by
  have silent : ∀ d ∈ new, ¬ d.isResolved = true := fun d hd yes => by
    rw [unresolved d hd] at yes
    cases yes
  refine ⟨?_, ?_, ?_⟩
  · intro d hd
    rcases mem_append.mp hd with hd | hd
    · exact inv.logged d hd
    · exact known d hd
  · refine pairwise_append.mpr ⟨inv.order, pairwise_of_forall_mem_list ?_, ?_⟩
    · intro a _ b hb yes
      exact absurd yes (silent b hb)
    · intro a _ b hb yes
      exact absurd yes (silent b hb)
  · intro d hd yes
    rcases mem_append.mp hd with hd | hd
    · exact inv.whole d hd yes
    · exact absurd yes (silent d hd)

theorem Accounted.leave {ledger : OptimisticallyIncluded} {slot} (disposes : Disposes event)
    (parts : (gone ++ (slot.inHand ++ ledger)).Perm r.entries) (sorted : (heights ledger).Pairwise (· < ·))
    (fits : slot.Fits ledger) :
    ({ r with ledger, slot, log := r.log ++ gone.map fun q => event q.2.postBatchHash q.2.txs } :
      LedgerRun).Accounted := by
  have stays {p} (hp : p ∈ slot.inHand ++ ledger) : p ∈ r.entries := parts.subset (mem_append_right _ hp)
  have distinct : (batchHashes gone ++ batchHashes (slot.inHand ++ ledger)).Nodup := by
    rw [batchHashes, batchHashes, ← map_append]
    exact (parts.map _).nodup_iff.mpr inv.hashes
  obtain ⟨_, hashes, apart⟩ := nodup_append.mp distinct
  have left : ∀ d ∈ gone.map fun q => event q.2.postBatchHash q.2.txs,
      d.isResolved = false ∧ d.hash ∈ batchHashes gone := by
    intro d hd
    obtain ⟨q, hq, rfl⟩ := mem_map.mp hd
    exact ⟨disposes.unresolved _ _, disposes.hash _ _ ▸ mem_map_of_mem hq⟩
  obtain ⟨logged, order, whole⟩ := inv.log_append
    (fun d hd => inv.known _ ((parts.map _).subset (map_append ▸ mem_append_left _ (left d hd).2)))
    fun d hd => (left d hd).1
  refine ⟨sorted, hashes, ?_, inv.unique, logged, ?_, fun p hp => inv.confirmed p (stays hp), ?_,
    fits.vacant, fits.copied,
    fits.gate, order, whole⟩
  · intro h hh
    exact inv.known h ((parts.map _).subset (map_append ▸ mem_append_right _ hh))
  · intro b hb tx
    have before := inv.conserved b hb tx
    have leave := count_disposals disposes gone b.1 tx
    have all : (heldIn (gone ++ (slot.inHand ++ ledger)) b.1).count tx = (r.held b.1).count tx :=
      (parts.flatMap_right _).count_eq tx
    simp only [held, entries, heldIn, handedBack, finalized, flatMap_append, count_append] at *
    omega
  · intro p hp no d hd
    rcases mem_append.mp hd with hd | hd
    · exact inv.untouched p (stays hp) no d hd
    · exact apart _ (left d hd).2 _ (mem_map_of_mem hp)

theorem Accounted.reshape {ledger : OptimisticallyIncluded} {slot} (parts : (slot.inHand ++ ledger).Perm r.entries)
    (sorted : (heights ledger).Pairwise (· < ·)) (fits : slot.Fits ledger) :
    ({ r with ledger, slot } : LedgerRun).Accounted := by
  have parts : ([] ++ (slot.inHand ++ ledger)).Perm r.entries := parts
  have next := inv.leave disposes_handedBack parts sorted fits
  rwa [map_nil, append_nil] at next

theorem Accounted.setSlot {slot} (same : slot.inHand = r.slot.inHand) (fits : slot.Fits r.ledger) :
    ({ r with slot } : LedgerRun).Accounted :=
  inv.reshape (same ▸ .refl _) inv.sorted fits

theorem Accounted.remove (p : Nat × InFlight → Bool) (disposes : Disposes event) :
    ({ r with
      ledger := r.ledger.filter fun q => !p q
      log := r.log ++ (r.ledger.filter p).map fun q => event q.2.postBatchHash q.2.txs } : LedgerRun).Accounted := by
  refine inv.leave disposes ?_ (inv.sorted.sublist (filter_sublist.map _)) ⟨?_, ?_, ?_⟩
  · rw [← append_assoc]
    refine (perm_append_comm.append_right _).trans ?_
    rw [append_assoc]
    exact (filter_append_perm p r.ledger).append_left _
  · intro q hq taken
    exact inv.vacant q hq ((filter_sublist.map _).subset taken)
  · intro batch disposing q hq
    exact inv.copied batch disposing q (mem_of_mem_filter hq)
  · intro cursor isOpen q hq
    exact inv.gate cursor isOpen q (mem_of_mem_filter hq)

end

def claimed (entry : InFlight) (spent : List HeldTx) : InFlight :=
  { entry with txs := spent, resolution := .settled, cursorConfirmed := true }

theorem Accounted.keepSpent (inv : r.Accounted) (inHand : r.slot.inHand = []) {front back : OptimisticallyIncluded}
    {height : Nat} {entry : InFlight} (before : r.ledger = front ++ (height, entry) :: back)
    {spent unspent : List HeldTx} (parts : (spent ++ unspent).Perm entry.txs) :
    ({ r with
      ledger := front ++ (height, claimed entry spent) :: back
      slot := .idle
      log := r.log ++ [.handedBack entry.postBatchHash unspent] } : LedgerRun).Accounted := by
  have entries : r.entries = front ++ (height, entry) :: back := by
    rw [LedgerRun.entries, inHand, nil_append, before]
  have hashes := inv.hashes
  rw [entries] at hashes
  have other : ∀ q ∈ front ++ back, q ∈ r.entries ∧ q.2.postBatchHash ≠ entry.postBatchHash := by
    intro q hq
    rw [batchHashes, map_append, map_cons, nodup_middle, nodup_cons, ← map_append] at hashes
    refine ⟨?_, fun same => hashes.1 (mem_map.mpr ⟨q, hq, same⟩)⟩
    rw [entries]
    rcases mem_append.mp hq with hq | hq
    · exact mem_append_left _ hq
    · exact mem_append_right _ (mem_cons_of_mem _ hq)
  have source : ∀ q ∈ front ++ (height, claimed entry spent) :: back,
      q ∈ front ++ back ∨ q = (height, claimed entry spent) := by
    intro q hq
    simp only [mem_append, mem_cons] at hq ⊢
    tauto
  have sameHashes : batchHashes (front ++ (height, claimed entry spent) :: back) = batchHashes r.entries := by
    rw [entries]
    simp only [batchHashes, map_append, map_cons, claimed]
  have known : entry.postBatchHash ∈ r.begun.map Prod.fst := by
    refine inv.known _ (mem_map.mpr ⟨(height, entry), ?_, rfl⟩)
    rw [entries]
    exact mem_append_right _ mem_cons_self
  obtain ⟨logged, order, whole⟩ := @Accounted.log_append r inv [.handedBack entry.postBatchHash unspent]
    (forall_mem_singleton.mpr known) (forall_mem_singleton.mpr rfl)
  have idle : Slot.idle.Fits (front ++ (height, claimed entry spent) :: back) := Slot.fits_idle
  refine ⟨?_, ?_, ?_, inv.unique, logged, ?_, ?_, ?_, idle.vacant, idle.copied, idle.gate, order, whole⟩
  · have sorted := inv.sorted
    rw [before, heights, map_append] at sorted
    rw [heights, map_append]
    exact sorted
  · exact sameHashes ▸ inv.hashes
  · exact sameHashes ▸ inv.known
  · intro b hb tx
    have count := inv.conserved b hb tx
    have part := parts.count_eq tx
    rw [held, entries] at count
    simp only [held, LedgerRun.entries, Slot.inHand, heldIn, handedBack, finalized, flatMap_append,
      flatMap_cons, flatMap_nil, append_nil, nil_append, txsOf, claimed, Disposal.returns,
      Disposal.ends, count_append] at count part ⊢
    by_cases ours : entry.postBatchHash = b.1
    · simp only [if_pos ours] at count ⊢
      omega
    · simp only [if_neg ours, count_nil] at count ⊢
      omega
  · intro q hq yes
    rcases source q hq with hq | rfl
    · exact inv.confirmed q (other q hq).1 yes
    · rfl
  · intro q hq no d hd
    rcases source q hq with hq | rfl
    · obtain ⟨member, differs⟩ := other q hq
      rcases mem_append.mp hd with hd | hd
      · exact inv.untouched q member no d hd
      · obtain rfl := mem_singleton.mp hd
        exact differs.symm
    · cases no

variable {batch : FailedBatch} {cursor : Nat}

section
variable (inv : r.Accounted)
include inv

theorem Accounted.claim (disposing : r.slot = .disposing batch) {spent : List HeldTx} {unspent}
    (parts : (spent ++ unspent).Perm batch.txs) :
    (r.step (.claim spent unspent)).Accounted := by
  have inHand : r.slot.inHand = [] := by
    rw [disposing]
    rfl
  simp only [step, disposing, claimPartial]
  by_cases present : (r.ledger.any fun p => p.1 = batch.syncHeight ∧ p.2.postBatchHash = batch.postBatchHash) = true
  · obtain ⟨⟨height, entry⟩, member, same⟩ := any_eq_true.mp present
    obtain ⟨rfl, hash⟩ := of_decide_eq_true same
    have copy : entry.txs = batch.txs := inv.copied batch disposing _ member rfl hash
    obtain ⟨front, back, before, after⟩ := modifyAt_split inv.sorted member (LedgerRun.claimed · spent)
    have next := inv.keepSpent inHand before (copy ▸ parts)
    rw [← after] at next
    simp only [if_pos present, if_true]
    rw [← hash]
    exact next
  · simp only [if_neg present, Bool.false_eq_true, if_false]
    exact inv.setSlot inHand.symm Slot.fits_idle

theorem Accounted.requeue (recovering : r.slot = .recovering batch) : (r.step .requeue).Accounted := by
  have parts : (r.slot.inHand ++ (Slot.idle.inHand ++ r.ledger)).Perm r.entries := .refl _
  have next := inv.leave disposes_handedBack parts inv.sorted Slot.fits_idle
  simp only [step, recovering] at next ⊢
  exact next

theorem Accounted.recover (idle : r.slot = .idle) (cursor : Nat) : (r.step (.recover cursor)).Accounted := by
  simp only [step, takeFailedForRecovery]
  cases hfind : r.ledger.find? fun p => cursor < p.1 ∧ p.2.resolution = .failed with
  | none => exact inv
  | some p =>
    obtain ⟨height, entry⟩ := p
    have member := mem_of_find?_eq_some hfind
    have found : cursor < height ∧ entry.resolution = .failed := by simpa using find?_some hfind
    have failed := found.2
    have unconfirmed : entry.cursorConfirmed = false := by
      cases confirmed : entry.cursorConfirmed with
      | false => rfl
      | true =>
        have settled := inv.confirmed _ (mem_append_right _ member) confirmed
        simp only [failed] at settled
        cases settled
    have copy : entry = ⟨entry.txs, entry.postBatchHash, entry.parent, .failed, false, entry.slotSkipped⟩ := by
      rw [← failed, ← unconfirmed]
    obtain ⟨front, back, before, _⟩ := modifyAt_split inv.sorted member id
    have sorted := inv.sorted
    rw [before, heights, map_append, map_cons, pairwise_append, pairwise_cons] at sorted
    obtain ⟨_, ⟨above, _⟩, below⟩ := sorted
    have rest : (r.ledger.filter fun q => q.1 ≠ height) = front ++ back := by
      rw [before, filter_append, filter_cons_of_neg (by simp), filter_eq_self.mpr, filter_eq_self.mpr]
      · intro q hq
        exact decide_eq_true (Nat.ne_of_gt (above q.1 (mem_map_of_mem hq)))
      · intro q hq
        exact decide_eq_true (Nat.ne_of_lt (below q.1 (mem_map_of_mem hq) height mem_cons_self))
    refine inv.reshape ?_ ?_ ⟨?_, (fun _ h => by cases h), fun _ h => by cases h⟩
    · rw [entries_idle idle, Slot.inHand, ← copy, rest, before]
      change ((height, entry) :: (front ++ back)).Perm (front ++ (height, entry) :: back)
      exact perm_middle.symm
    · exact inv.sorted.sublist (filter_sublist.map _)
    · intro q hq taken
      obtain rfl := mem_singleton.mp hq
      obtain ⟨q, hq, same⟩ := mem_map.mp taken
      exact of_decide_eq_true (mem_filter.mp hq).2 same

theorem Accounted.reinsert (recovering : r.slot = .recovering batch) : (r.step .reinsert).Accounted := by
  simp only [step, recovering]
  have vacant : batch.syncHeight ∉ heights r.ledger := by
    have vacant := inv.vacant
    rw [recovering] at vacant
    exact vacant _ (mem_singleton_self _)
  refine inv.reshape ?_ (insert_sorted inv.sorted vacant) Slot.fits_idle
  rw [entries, recovering]
  exact insert_perm vacant

theorem Accounted.begins (isOpen : r.slot = .gateOpen cursor) {syncHeight} (above : cursor < syncHeight) {postBatchHash}
    (fresh : postBatchHash ∉ r.begun.map Prod.fst) (parent : SealedHeader) (txs : List HeldTx) :
    (r.step (.begin syncHeight postBatchHash parent txs)).Accounted := by
  have entries : r.entries = r.ledger := by
    rw [LedgerRun.entries, isOpen]
    rfl
  have vacant : syncHeight ∉ heights r.ledger := by
    intro taken
    obtain ⟨p, hp, rfl⟩ := mem_map.mp taken
    exact Nat.not_lt.mpr (inv.gate cursor isOpen p hp) above
  have shape : (r.ledger.begin syncHeight postBatchHash parent txs).Perm
      ((syncHeight, ⟨txs, postBatchHash, parent, .pending, false, false⟩) :: r.entries) := by
    rw [entries]
    exact insert_perm vacant
  have source : ∀ p ∈ r.ledger.begin syncHeight postBatchHash parent txs,
      p = (syncHeight, ⟨txs, postBatchHash, parent, .pending, false, false⟩) ∨ p ∈ r.entries := fun p hp =>
    mem_cons.mp (shape.subset hp)
  have unknown : postBatchHash ∉ batchHashes r.entries := fun known => fresh (inv.known _ known)
  have unlogged : ∀ d ∈ r.log, d.hash ≠ postBatchHash := by
    rintro d hd rfl
    exact fresh (inv.logged d hd)
  have idle : Slot.idle.Fits (r.ledger.begin syncHeight postBatchHash parent txs) := Slot.fits_idle
  refine ⟨insert_sorted inv.sorted vacant, ?_, ?_, ?_, ?_, ?_, ?_, ?_, idle.vacant, idle.copied, idle.gate,
    inv.order, ?_⟩
  · refine (shape.map _).nodup_iff.mpr ?_
    exact nodup_cons.mpr ⟨unknown, inv.hashes⟩
  · intro hash hhash
    simp only [step, map_append, mem_append]
    rcases mem_cons.mp ((shape.map _).subset hhash) with rfl | hhash
    · exact .inr (mem_singleton_self _)
    · exact .inl (inv.known hash hhash)
  · simp only [step, map_append, map_cons, map_nil]
    refine nodup_append.mpr ⟨inv.unique, nodup_singleton _, ?_⟩
    rintro a ha b hb rfl
    obtain rfl := mem_singleton.mp hb
    exact fresh ha
  · intro d hd
    simp only [step, map_append, mem_append]
    exact .inl (inv.logged d hd)
  · intro b hb tx
    have now : (heldIn (r.ledger.begin syncHeight postBatchHash parent txs) b.1).count tx =
        ((if postBatchHash = b.1 then txs else []) ++ r.held b.1).count tx :=
      (shape.flatMap_right _).count_eq tx
    change _ = (handedBack r.log b.1).count tx + (finalized r.log b.1).count tx +
      (heldIn (r.ledger.begin syncHeight postBatchHash parent txs) b.1).count tx
    rw [now, count_append]
    rcases mem_append.mp hb with hb | hb
    · have other : ¬postBatchHash = b.1 := by
        intro same
        exact fresh (mem_map.mpr ⟨b, hb, same.symm⟩)
      rw [if_neg other, count_nil, Nat.zero_add]
      exact inv.conserved b hb tx
    · obtain rfl := mem_singleton.mp hb
      obtain ⟨back, final⟩ := nothing_logged unlogged
      rw [if_pos rfl, back, final, held, heldIn_eq_nil unknown]
      simp
  · intro p hp yes
    rcases source p hp with rfl | hp
    · cases yes
    · exact inv.confirmed p hp yes
  · intro p hp no d hd
    rcases source p hp with rfl | hp
    · exact unlogged d hd
    · exact inv.untouched p hp no d hd
  · intro d hd yes b hb tx same
    rcases mem_append.mp hb with hb | hb
    · exact inv.whole d hd yes b hb tx same
    · obtain rfl := mem_singleton.mp hb
      exact absurd same.symm (unlogged d hd)

end

def passed (cursor : Nat) (p : Nat × InFlight) : Nat × InFlight :=
  if p.1 ≤ cursor then (p.1, (resolveEntry p.2).2) else p

theorem passed_relabels (cursor : Nat) : Relabels (passed cursor) := by
  constructor
  all_goals
    intro p
    unfold passed
    split
  · rfl
  · rfl
  · exact (resolveEntry_snd p.2).1
  · rfl
  · exact (resolveEntry_snd p.2).2.1
  · rfl

theorem unconfirmed_of_passed (h : (passed cursor p).2.cursorConfirmed = false) :
    p.2.cursorConfirmed = false ∧ confirms cursor p = false := by
  unfold passed at h
  unfold confirms
  by_cases below : p.1 ≤ cursor
  · rw [if_pos below] at h
    obtain ⟨before, unsettled⟩ := (resolveEntry_snd p.2).2.2.1 h
    exact ⟨before, by simp [unsettled]⟩
  · rw [if_neg below] at h
    exact ⟨h, by simp [below]⟩

theorem settled_of_passed (before : p.2.cursorConfirmed = true → p.2.resolution = .settled)
    (h : (passed cursor p).2.cursorConfirmed = true) : (passed cursor p).2.resolution = .settled := by
  unfold passed at h ⊢
  by_cases below : p.1 ≤ cursor
  · rw [if_pos below] at h ⊢
    exact (resolveEntry_snd p.2).2.2.2 before h
  · rw [if_neg below] at h ⊢
    exact before h

theorem Accounted.relabel (inv : r.Accounted) {g} (relabels : Relabels g) {now : Nat × InFlight → Bool}
    (before : ∀ p, now p = true → p.2.cursorConfirmed = false)
    (after : ∀ p, (g p).2.cursorConfirmed = false → p.2.cursorConfirmed = false ∧ now p = false)
    (settled : ∀ p, (p.2.cursorConfirmed = true → p.2.resolution = .settled) →
      (g p).2.cursorConfirmed = true → (g p).2.resolution = .settled) :
    ({ r with
      ledger := r.ledger.map g
      log := r.log ++ (r.ledger.filter now).map fun p => .resolved p.2.postBatchHash p.2.txs } :
        LedgerRun).Accounted := by
  have hashes : batchHashes (r.slot.inHand ++ r.ledger.map g) = batchHashes r.entries := by
    unfold batchHashes entries
    rw [map_append, map_append]
    exact congrArg _ relabels.batchHashes
  have held : ∀ hash, heldIn (r.slot.inHand ++ r.ledger.map g) hash = heldIn r.entries hash := by
    intro hash
    unfold heldIn entries
    rw [flatMap_append, flatMap_append]
    exact congrArg _ relabels.heldIn
  have entry : ∀ p ∈ r.ledger, p ∈ r.entries := fun p hp => mem_append_right _ hp
  have released : ∀ d ∈ (r.ledger.filter now).map fun p => Disposal.resolved p.2.postBatchHash p.2.txs,
      ∃ p ∈ r.ledger, now p = true ∧ d = .resolved p.2.postBatchHash p.2.txs := by
    intro d hd
    obtain ⟨p, hp, rfl⟩ := mem_map.mp hd
    obtain ⟨member, yes⟩ := mem_filter.mp hp
    exact ⟨p, member, yes, rfl⟩
  -- An entry comes from one with its hash; unconfirmed, that was so before, and was not released now.
  have source : ∀ p ∈ r.slot.inHand ++ r.ledger.map g, ∃ q ∈ r.entries, p.2.postBatchHash = q.2.postBatchHash ∧
      (p.2.cursorConfirmed = true → p.2.resolution = .settled) ∧
      (p.2.cursorConfirmed = false → q.2.cursorConfirmed = false ∧ (q ∈ r.ledger → now q = false)) := by
    intro p hp
    rcases mem_append.mp hp with hp | hp
    · refine ⟨p, mem_append_left _ hp, rfl, inv.confirmed p (mem_append_left _ hp), fun no => ⟨no, ?_⟩⟩
      exact fun member => absurd (mem_map_of_mem member) (inv.vacant p hp)
    · obtain ⟨q, hq, rfl⟩ := mem_map.mp hp
      exact ⟨q, entry q hq, relabels.hash q, settled q (inv.confirmed q (entry q hq)), fun no =>
        ⟨(after q no).1, fun _ => (after q no).2⟩⟩
  refine ⟨?_, hashes ▸ inv.hashes, hashes ▸ inv.known, inv.unique, ?_, ?_, ?_, ?_, ?_, ?_, ?_, ?_, ?_⟩
  · rw [relabels.heights]
    exact inv.sorted
  · intro d hd
    rcases mem_append.mp hd with hd | hd
    · exact inv.logged d hd
    · obtain ⟨p, hp, _, rfl⟩ := released d hd
      exact inv.known _ (mem_map_of_mem (entry p hp))
  · intro b hb tx
    obtain ⟨back, final⟩ := resolved_silent (r.ledger.filter now) b.1
    rw [handedBack] at back
    rw [finalized] at final
    rw [LedgerRun.held, LedgerRun.entries, held, inv.conserved b hb tx]
    simp only [handedBack, finalized, flatMap_append, back, final, append_nil]
    rfl
  · intro p hp
    obtain ⟨_, _, _, stays, _⟩ := source p hp
    exact stays
  · intro p hp no d hd
    obtain ⟨q, hq, hash, _, old⟩ := source p hp
    rw [hash]
    rcases mem_append.mp hd with hd | hd
    · exact inv.untouched q hq (old no).1 d hd
    · obtain ⟨q', hq', yes, rfl⟩ := released d hd
      intro same
      obtain rfl := eq_of_batchHash inv.hashes (entry q' hq') hq same
      cases yes.symm.trans ((old no).2 hq')
  · rw [relabels.heights]
    exact inv.vacant
  · intro batch disposing p hp height hash
    obtain ⟨q, hq, rfl⟩ := mem_map.mp hp
    rw [relabels.txs]
    exact inv.copied batch disposing q hq (relabels.height q ▸ height) (relabels.hash q ▸ hash)
  · intro cursor isOpen p hp
    obtain ⟨q, hq, rfl⟩ := mem_map.mp hp
    rw [relabels.height]
    exact inv.gate cursor isOpen q hq
  · refine pairwise_append.mpr ⟨inv.order, pairwise_map.mpr ?_, ?_⟩
    · have distinct : ((r.ledger.filter now).map fun p => p.2.postBatchHash).Nodup :=
        inv.hashes.sublist ((filter_sublist.trans (sublist_append_right _ _)).map _)
      refine (pairwise_map.mp distinct).imp ?_
      intro p q differs _
      exact differs
    · intro a ha b hb _
      obtain ⟨p, hp, yes, rfl⟩ := released b hb
      exact inv.untouched p (entry p hp) (before p yes) a ha
  · intro d hd yes b hb tx same
    rcases mem_append.mp hd with hd | hd
    · exact inv.whole d hd yes b hb tx same
    · obtain ⟨p, hp, now, rfl⟩ := released d hd
      -- nothing was logged of the batch, so the entry holds all of it
      obtain ⟨back, final⟩ := nothing_logged (inv.untouched p (entry p hp) (before p now))
      have count := inv.conserved b hb tx
      rw [Disposal.hash] at same
      rw [same, LedgerRun.held, heldIn_of_mem inv.hashes (entry p hp), back, final] at count
      rw [same, Disposal.resolves, if_pos rfl, count]
      simp

theorem Accounted.resolve (inv : r.Accounted) (cursor : Nat) : (r.step (.resolve cursor)).Accounted := by
  refine inv.relabel (passed_relabels cursor) (fun p yes => (of_decide_eq_true yes).2.2) ?_ ?_
  · exact fun p no => unconfirmed_of_passed no
  · exact fun p before yes => settled_of_passed before yes

theorem Accounted.mark (inv : r.Accounted) (height : Nat) {f : InFlight → InFlight}
    (hash : ∀ e, (f e).postBatchHash = e.postBatchHash) (txs : ∀ e, (f e).txs = e.txs)
    (keeps : ∀ e, (f e).cursorConfirmed = e.cursorConfirmed)
    (settled : ∀ e, e.resolution = .settled → (f e).resolution = .settled) :
    ({ r with ledger := r.ledger.modifyAt height f } : LedgerRun).Accounted := by
  have relabels : Relabels fun p => if p.1 = height then (p.1, f p.2) else p := by
    refine ⟨?_, ?_, ?_⟩
    all_goals
      intro p
      split
    · rfl
    · rfl
    · exact hash p.2
    · rfl
    · exact txs p.2
    · rfl
  have next := @Accounted.relabel r inv _ relabels (fun _ => false) (fun p no => by cases no) ?_ ?_
  · rwa [filter_false, map_nil, append_nil] at next
  all_goals
    intro p
    split
  · exact fun no => ⟨(keeps p.2).symm.trans no, rfl⟩
  · exact fun no => ⟨no, rfl⟩
  · exact fun before yes => settled p.2 (before ((keeps p.2).symm.trans yes))
  · exact id

theorem Accounted.step {a} (inv : r.Accounted) (takes : r.Takes a) : (r.step a).Accounted := by
  cases a with
  | resolve cursor => exact inv.resolve cursor
  | dispose cursor =>
    simp only [LedgerRun.step, partialToDispose]
    cases hfind : r.ledger.find? fun p => p.1 ≤ cursor ∧ p.2.resolution = .settledPartial with
    | none => exact inv
    | some p =>
      refine inv.setSlot (by rw [show r.slot = .idle from takes]; rfl)
        ⟨(fun _ h => by cases h), ?_, fun _ h => by cases h⟩
      rintro batch ⟨⟩ q hq _ hash
      have distinct := inv.hashes
      rw [entries_idle takes] at distinct
      rw [eq_of_batchHash distinct hq (mem_of_find?_eq_some hfind) hash]
  | claim spent unspent =>
    obtain ⟨batch, disposing, parts⟩ := takes
    exact inv.claim disposing parts
  | keepPartial =>
    obtain ⟨batch, disposing⟩ := takes
    exact inv.setSlot (by rw [disposing]; rfl) Slot.fits_idle
  | recover cursor => exact inv.recover takes cursor
  | reinsert =>
    obtain ⟨batch, recovering⟩ := takes
    exact inv.reinsert recovering
  | requeue =>
    obtain ⟨batch, recovering⟩ := takes
    exact inv.requeue recovering
  | gate cursor =>
    simp only [LedgerRun.step, blockingHeight]
    cases hfind : r.ledger.find? fun p => decide (cursor < p.1) with
    | some p => exact inv
    | none =>
      refine inv.setSlot (by rw [show r.slot = .idle from takes]; rfl)
        ⟨(fun _ h => by cases h), (fun _ h => by cases h), ?_⟩
      rintro c ⟨⟩ p hp
      exact Nat.not_lt.mp fun above => find?_eq_none.mp hfind p hp (decide_eq_true above)
  | «begin» syncHeight postBatchHash parent txs =>
    obtain ⟨cursor, isOpen, above, fresh⟩ := takes
    exact inv.begins isOpen above fresh parent txs
  | leaveGate =>
    obtain ⟨cursor, isOpen⟩ := takes
    exact inv.setSlot (by rw [isOpen]; rfl) Slot.fits_idle
  | markSettled syncHeight postBatchHash | markSettledPartial syncHeight postBatchHash
  | markFailed syncHeight postBatchHash slotSkipped =>
    refine inv.mark syncHeight ?_ ?_ ?_ ?_
    all_goals
      intro e
      split
    all_goals simp_all
  | rollOut newCursor => exact inv.remove (rollsOut newCursor) disposes_handedBack
  | finalize finalizedL2 =>
    have next := inv.remove (finalizes finalizedL2) disposes_finalized
    simp only [LedgerRun.step, takeFinalized, map_map]
    exact next

structure DisposedOnce (r : LedgerRun) (b : B256 × List HeldTx) : Prop where
  /-- Each transaction is in one place: handed back, finalized, or still held. -/
  conserved : b.2.Perm (handedBack r.log b.1 ++ finalized r.log b.1 ++ r.held b.1)
  /-- The cursor releases the batch at most once. -/
  resolvedOnce : resolved r.log b.1 = [] ∨ (resolved r.log b.1).Perm b.2
  /-- And never after a transaction of it was handed back or finalized. -/
  resolvedFirst : ∀ before d after, r.log = before ++ d :: after → d.isResolved = true → d.hash = b.1 →
    ∀ a ∈ before, a.hash ≠ b.1

theorem resolved_at_most_once {log : List Disposal} {hash} {txs : List HeldTx}
    (order : log.Pairwise fun a b => b.isResolved = true → a.hash ≠ b.hash)
    (whole : ∀ d ∈ log, d.isResolved = true → ∀ tx, hash = d.hash → (d.resolves hash).count tx = txs.count tx) :
    resolved log hash = [] ∨ (resolved log hash).Perm txs := by
  induction log with
  | nil => exact .inl rfl
  | cons d log ih =>
    obtain ⟨first, order⟩ := pairwise_cons.mp order
    rw [resolved, flatMap_cons, ← resolved]
    by_cases ours : d.isResolved = true ∧ d.hash = hash
    · obtain ⟨yes, rfl⟩ := ours
      have rest : resolved log d.hash = [] := by
        refine flatMap_eq_nil_iff.mpr fun e he => ?_
        cases e with
        | resolved h txs => exact if_neg fun same => first _ he rfl same.symm
        | _ => rfl
      rw [rest, append_nil]
      exact .inr (perm_iff_count.mpr fun tx => whole d mem_cons_self yes tx rfl)
    · have here : d.resolves hash = [] := by
        cases d with
        | resolved h txs => exact if_neg fun same => ours ⟨rfl, same⟩
        | _ => rfl
      rw [here, nil_append]
      exact ih order fun e he => whole e (mem_cons_of_mem _ he)

theorem Accounted.disposedOnce (inv : r.Accounted) (hb : b ∈ r.begun) : r.DisposedOnce b := by
  refine ⟨?_, ?_, ?_⟩
  · refine perm_iff_count.mpr fun tx => ?_
    rw [inv.conserved b hb tx, count_append, count_append]
  · exact resolved_at_most_once inv.order fun d hd yes tx same => inv.whole d hd yes b hb tx same
  · intro before d after split yes same a ha
    have order := inv.order
    rw [split, pairwise_append] at order
    rw [← same]
    exact order.2.2 a ha d mem_cons_self yes

/-- What a resolution and a roll-out return is what they log, batch by batch. -/
def Logs (r : LedgerRun) : LedgerAction → Prop
  | .resolve cursor => ∃ parts : List (B256 × List HeldTx),
      (r.ledger.resolveBelowCursor cursor).1 = parts.flatMap Prod.snd ∧
      (r.step (.resolve cursor)).log = r.log ++ parts.map fun p => .resolved p.1 p.2
  | .rollOut newCursor => ∃ parts : List (B256 × List HeldTx),
      (r.ledger.takeRolledOut newCursor).1 = parts.flatMap Prod.snd ∧
      (r.step (.rollOut newCursor)).log = r.log ++ parts.map fun p => .handedBack p.1 p.2
  | _ => True

theorem resolveEntry_fst (entry : InFlight) : (resolveEntry entry).1 =
    if entry.resolution = .settled ∧ entry.cursorConfirmed = false then entry.txs else [] := by
  unfold resolveEntry
  cases resolution : entry.resolution <;> simp [resolution]
  split <;> rfl

theorem resolveBelowCursor_fst (ledger : OptimisticallyIncluded) (cursor : Nat) :
    (ledger.resolveBelowCursor cursor).1 = (ledger.filter (confirms cursor)).flatMap fun p => p.2.txs := by
  change ledger.flatMap _ = _
  induction ledger with
  | nil => rfl
  | cons p ledger ih =>
    rw [flatMap_cons, filter_cons, confirms, resolveEntry_fst]
    by_cases below : p.1 ≤ cursor
    · by_cases due : p.2.resolution = .settled ∧ p.2.cursorConfirmed = false <;> simp [below, due, ih]
    · simp [below, ih]

theorem logs (r : LedgerRun) (a : LedgerAction) : r.Logs a := by
  cases a with
  | resolve cursor =>
    refine ⟨(r.ledger.filter (confirms cursor)).map fun p => (p.2.postBatchHash, p.2.txs), ?_, ?_⟩
    · rw [flatMap_map]
      exact resolveBelowCursor_fst _ _
    · rw [map_map]
      rfl
  | rollOut newCursor =>
    refine ⟨(r.ledger.filter (rollsOut newCursor)).map fun p => (p.2.postBatchHash, p.2.txs), ?_, ?_⟩
    · rw [flatMap_map]
      rfl
    · rw [map_map]
      rfl
  | _ => trivial

/-- In every state of every interleaving, every batch given to the ledger is
disposed of once, and the log is what the calls return. -/
theorem disposedOnce_throughout (actions : List LedgerAction) (takes : Runs.Along LedgerRun.step Takes new actions) :
    Runs.Throughout LedgerRun.step (fun r => ∀ b ∈ r.begun, r.DisposedOnce b) new actions ∧
      Runs.Along LedgerRun.step Logs new actions :=
  ⟨(Runs.throughout_of_invariant Accounted.step new_accounted takes).imp fun inv _ hb => inv.disposedOnce hb,
    Runs.along_of_each fun a _ r => r.logs a⟩

def settledThenRolledOut : List LedgerAction :=
  [.gate 0, .begin 1 5 ⟨0, 0, 0, 0, 0, []⟩ [⟨[], 1, 0, 7, 0, .inbound, 1, 1⟩], .markSettled 1 5, .resolve 1, .rollOut 0]

theorem disposedOnce_rolledOut :
    Runs.Throughout LedgerRun.step (fun r => ∀ b ∈ r.begun, r.DisposedOnce b) new settledThenRolledOut ∧
      Runs.Along LedgerRun.step Logs new settledThenRolledOut := by
  refine disposedOnce_throughout settledThenRolledOut ?_
  exact ⟨rfl, ⟨0, rfl, by decide, by decide⟩, trivial, rfl, trivial, trivial⟩

end LedgerRun

end Eez.Composer
