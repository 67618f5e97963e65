import EezRollup.Scan.ReadBlock

/-! Which entries a post is credited with. Three cursors hand out indices, each only moves forward
and they share no index. -/
open List
namespace Eez.Scan
open Octets Outcome

namespace Reading
variable {r r' : Reading} {post : Post} {us : UInt64} {place : String} {record : Record} {consumed : Consumed}
  {i : Nat}

theorem new_eq_ok : Reading.new post us place = .ok r ↔
      toUsize post.batch.immediateEntryCount ≤ post.batch.entries.length ∧
      r = ⟨post, entryRoles post.batch.entries us, toUsize post.batch.immediateEntryCount,
        leadingRun post.batch.entries (toUsize post.batch.immediateEntryCount), 0, none, fun _ => none, []⟩ := by
  simp only [Reading.new, bind_eq_ok, ensure_eq_ok, exists_const, pure_eq_ok]
  exact and_congr_right fun _ => eq_comm

theorem leading_eq_ok : r.leading place = .ok (i, r') ↔
      (r.lastTransient = none ∧ r.nextLeading < r.run) ∧ i = r.nextLeading ∧
        r' = { r with nextLeading := r.nextLeading + 1 } := by
  simp only [leading, bind_eq_ok, ensure_eq_ok, exists_const, pure_eq_ok, Prod.mk.injEq]
  refine and_congr_right fun _ => ?_
  exact and_congr eq_comm eq_comm

def credited (r : Reading) (i : Nat) (role : Option EntryRole) : Reading :=
  { r with applied := r.applied ++ (role.map (AppliedEntry.mk i)).toList }

theorem apply_eq_ok : r.apply i record place = .ok r' ↔
      ∃ entry role, r.post.batch.entries[i]? = some entry ∧ Restates record entry ∧ r.roles[i]? = some role ∧
        r' = r.credited i role := by
  simp only [apply, bind_eq_ok, index_eq_ok, ensure_eq_ok, exists_const, pure_eq_ok]
  constructor
  · rintro ⟨entry, hentry, restates, role, hrole, rfl⟩
    refine ⟨entry, role, hentry, restates, hrole, ?_⟩
    cases role with
    | none => rw [credited, Option.map_none, Option.toList_none, append_nil]
    | some role => rfl
  · rintro ⟨entry, role, hentry, restates, hrole, rfl⟩
    refine ⟨entry, hentry, restates, role, hrole, ?_⟩
    cases role with
    | none => rw [credited, Option.map_none, Option.toList_none, append_nil]
    | some role => rfl

theorem deferred_eq_ok : r.deferred record consumed place = .ok r' ↔
      ∃ i, (r.routed consumed.queue)[consumed.index.toNat]? = some i ∧
        (∀ last, r.lastQueued consumed.queue = some last → last < i) ∧
        ({ r with lastQueued := fun q => if q = consumed.queue then some i else r.lastQueued q } : Reading).apply i
          record place = .ok r' := by
  have next : ∀ i, (r.lastQueued consumed.queue).all (fun last => decide (last < i)) = true ↔
      ∀ last, r.lastQueued consumed.queue = some last → last < i := by
    intro i
    cases r.lastQueued consumed.queue <;> simp
  simp only [deferred, bind_eq_ok, require_eq_ok, Option.filter_eq_some_iff, next]
  constructor
  · rintro ⟨i, ⟨slot, forward⟩, h⟩
    exact ⟨i, slot, forward, h⟩
  · rintro ⟨i, slot, forward, h⟩
    exact ⟨i, ⟨slot, forward⟩, h⟩

theorem mem_routed : i ∈ r.routed queue ↔ r.immediate ≤ i ∧ ∃ entry, r.post.batch.entries[i]? = some entry ∧
      entry.destinationRollupId = queue := by
  simp only [routed, mem_filter, mem_range'_1, decide_eq_true_eq, Option.map_eq_some_iff]
  constructor
  · rintro ⟨⟨low, _⟩, entry⟩
    exact ⟨low, entry⟩
  · rintro ⟨low, entry, hentry, same⟩
    have inside := (List.getElem?_eq_some_iff.mp hentry).1
    exact ⟨⟨low, by omega⟩, entry, hentry, same⟩

theorem finish_eq_ok (h : r.finish us = .ok post) : ∃ finalState entryState resumed,
      post = { r.post with settlement := Settlement.new r.applied finalState entryState resumed } := by
  simp only [finish, bind_eq_ok, pure_eq_ok] at h
  obtain ⟨_, _, _, _, rfl⟩ := h
  exact ⟨_, _, _, rfl⟩

end Reading

theorem leadingRun_le (entries : List ExecutionEntrySol) (immediate : Nat) : leadingRun entries immediate ≤ immediate :=
  ( takeWhile_prefix _).length_le.trans (length_take_le _ _)

inductive Origin where
  | leading
  | hook
  | queued (queue : UInt64)

structure Credit where
  origin : Origin
  entryIndex : Nat

/-- The credit of a record inside the post's call. -/
def Reading.creditInCall (r : Reading) (record : Record) : Credit :=
  match record.consumed with
  | none => ⟨.leading, r.nextLeading⟩
  | some consumed => ⟨.hook, min (r.run + consumed.index.toNat) usizeMax⟩

/-- Everything that can happen to a post while its block is read, with the
entries it is credited with, whether or not they update `us`. -/
inductive Reads (us : UInt64) : Reading → List Credit → Prop where
  | started {post : Post} {place : String} {r : Reading} (h : Reading.new post us place = .ok r) : Reads us r []
  | skipped {r r' : Reading} {credits : List Credit} {place : String} {i : Nat} (before : Reads us r credits)
      (h : r.leading place = .ok (i, r')) : Reads us r' credits
  | inCall {r r' : Reading} {credits : List Credit} {record : Record} {place : String} (before : Reads us r credits)
      (h : r.inCall record place = .ok r') : Reads us r' (credits ++ [r.creditInCall record])
  | deferred {r r' : Reading} {credits : List Credit} {record : Record} {consumed : Consumed} {place : String} {i : Nat}
      (before : Reads us r credits) (slot : (r.routed consumed.queue)[consumed.index.toNat]? = some i)
      (h : r.deferred record consumed place = .ok r') : Reads us r' (credits ++ [⟨.queued consumed.queue, i⟩])

/-- Indices of one origin rise, and the leading run comes before the meta hook. -/
def Credit.Before (a b : Credit) : Prop :=
  (a.origin = b.origin → a.entryIndex < b.entryIndex) ∧ (a.origin = .hook → b.origin ≠ .leading)

/-- Where the cursors of a reading stand relative to a credit it has given. -/
def Reading.Passed (r : Reading) (credit : Credit) : Prop :=
  match credit.origin with
  | .leading => credit.entryIndex < r.nextLeading
  | .hook => r.run ≤ credit.entryIndex ∧ credit.entryIndex < r.immediate ∧
      ∃ last, r.lastTransient = some last ∧ credit.entryIndex ≤ last
  | .queued queue => credit.entryIndex ∈ r.routed queue ∧
      ∃ last, r.lastQueued queue = some last ∧ credit.entryIndex ≤ last

def creditedEntry (roles : List (Option EntryRole)) (credit : Credit) : Option AppliedEntry :=
  (roles[credit.entryIndex]?.join).map (AppliedEntry.mk credit.entryIndex)

structure Credited (us : UInt64) (r : Reading) (credits : List Credit) : Prop where
  roles : r.roles = entryRoles r.post.batch.entries us
  immediate : r.immediate = toUsize r.post.batch.immediateEntryCount ∧ r.immediate ≤ r.post.batch.entries.length
  run : r.run = leadingRun r.post.batch.entries r.immediate
  next : r.nextLeading ≤ r.run
  applied : r.applied = credits.filterMap (creditedEntry r.roles)
  ordered : credits.Pairwise Credit.Before
  passed : ∀ credit ∈ credits, r.Passed credit

theorem toUsize_le (v : U256) : toUsize v ≤ usizeMax := by
  unfold toUsize usizeMax
  split <;> omega

theorem Credited.run_le (h : Credited us r credits) : r.run ≤ r.immediate := by
  rw [h.run]
  exact leadingRun_le _ _

/-- Moving the cursors past a new credit and applying it. -/
theorem Credited.credit {us : UInt64} {r r' : Reading} {credits : List Credit} (h : Credited us r credits)
    {n : Nat} {t : Option Nat} {q : UInt64 → Option Nat} {credit : Credit} {record : Record} {place : String}
    (next : n ≤ r.run) (before : ∀ a ∈ credits, a.Before credit)
    (passed : ∀ a ∈ credits ++ [credit],
      ({ r with nextLeading := n, lastTransient := t, lastQueued := q } : Reading).Passed a)
    (applied : ({ r with nextLeading := n, lastTransient := t, lastQueued := q } : Reading).apply credit.entryIndex
      record place = .ok r') : Credited us r' (credits ++ [credit]) := by
  obtain ⟨_, role, _, _, hrole, rfl⟩ := Reading.apply_eq_ok.mp applied
  refine ⟨h.roles, h.immediate, h.run, next, ?_, ?_, passed⟩
  · have last : creditedEntry r.roles credit = role.map (AppliedEntry.mk credit.entryIndex) := by
      rw [creditedEntry, hrole]
      rfl
    have single : [credit].filterMap (creditedEntry r.roles) =
        (role.map (AppliedEntry.mk credit.entryIndex)).toList := by
      rw [filterMap_cons, filterMap_nil, last]
      cases role <;> rfl
    simp only [Reading.credited, h.applied, filterMap_append, single]
  · exact pairwise_append.mpr ⟨h.ordered, pairwise_singleton _ _, by simpa using before⟩

section
variable {us : UInt64} {r r' : Reading} {credits : List Credit} {record : Record} {place : String}

theorem Credited.leading (h : Credited us r credits) (ok : r.leading place = .ok (i, r')) : Credited us r' credits := by
  obtain ⟨⟨_, inside⟩, _, rfl⟩ := Reading.leading_eq_ok.mp ok
  refine ⟨h.roles, h.immediate, h.run, inside, h.applied, h.ordered, ?_⟩
  intro a ha
  have passed := h.passed a ha
  unfold Reading.Passed at passed ⊢
  cases horigin : a.origin with
  | leading =>
    simp only [horigin] at passed ⊢
    exact Nat.lt_succ_of_lt passed
  | hook => simpa only [horigin] using passed
  | queued q =>
    simp only [horigin] at passed ⊢
    exact passed

theorem Credited.inCall (h : Credited us r credits) (ok : r.inCall record place = .ok r') :
    Credited us r' (credits ++ [r.creditInCall record]) := by
  unfold Reading.inCall at ok
  unfold Reading.creditInCall
  cases hconsumed : record.consumed with
  | none =>
    simp only [hconsumed, bind_eq_ok, Prod.exists] at ok
    obtain ⟨i, r₁, hleading, applied⟩ := ok
    obtain ⟨⟨before, inside⟩, rfl, rfl⟩ := Reading.leading_eq_ok.mp hleading
    refine h.credit inside ?_ ?_ applied
    · intro a ha
      have passed := h.passed a ha
      refine ⟨fun same => ?_, fun hook => ?_⟩
      · rw [Reading.Passed, same] at passed
        exact passed
      · -- a hook credit would have left a transient cursor behind
        rw [Reading.Passed, hook] at passed
        obtain ⟨_, _, last, some, _⟩ := passed
        rw [before] at some
        cases some
    · intro a ha
      rcases mem_append.mp ha with ha | ha
      · have passed := (h.leading hleading).passed a ha
        exact passed
      · obtain rfl := mem_singleton.mp ha
        exact Nat.lt_succ_self _
  | some consumed =>
    simp only [hconsumed, bind_eq_ok, ensure_eq_ok, exists_const] at ok
    obtain ⟨⟨inside, forward⟩, applied⟩ := ok
    have above : r.run ≤ min (r.run + consumed.index.toNat) usizeMax :=
      Nat.le_min.mpr ⟨Nat.le_add_right _ _, h.run_le.trans (h.immediate.1 ▸ toUsize_le _)⟩
    refine h.credit h.next ?_ ?_ applied
    · intro a ha
      have passed := h.passed a ha
      refine ⟨fun same => ?_, fun _ => by simp⟩
      rw [Reading.Passed, same] at passed
      obtain ⟨_, _, last, some, low⟩ := passed
      exact Nat.lt_of_le_of_lt low (forward last some)
    · intro a ha
      rcases mem_append.mp ha with ha | ha
      · have passed := h.passed a ha
        unfold Reading.Passed at passed ⊢
        cases horigin : a.origin with
        | leading => simpa only [horigin] using passed
        | hook =>
          simp only [horigin] at passed ⊢
          obtain ⟨low, high, last, some, below⟩ := passed
          exact ⟨low, high, _, rfl, Nat.le_of_lt (Nat.lt_of_le_of_lt below (forward last some))⟩
        | queued q =>
          simp only [horigin] at passed ⊢
          exact passed
      · obtain rfl := mem_singleton.mp ha
        exact ⟨above, inside, _, rfl, Nat.le_refl _⟩

theorem Credited.deferred {consumed : Consumed} {i : Nat} (h : Credited us r credits)
    (slot : (r.routed consumed.queue)[consumed.index.toNat]? = some i)
    (ok : r.deferred record consumed place = .ok r') :
    Credited us r' (credits ++ [⟨.queued consumed.queue, i⟩]) := by
  obtain ⟨i', slot', forward, applied⟩ := Reading.deferred_eq_ok.mp ok
  obtain rfl := Option.some.inj (slot.symm.trans slot')
  refine h.credit h.next ?_ ?_ applied
  · intro a ha
    have passed := h.passed a ha
    refine ⟨fun same => ?_, fun _ => by simp⟩
    rw [Reading.Passed, same] at passed
    obtain ⟨_, last, some, low⟩ := passed
    exact Nat.lt_of_le_of_lt low (forward last some)
  · intro a ha
    rcases mem_append.mp ha with ha | ha
    · have passed := h.passed a ha
      unfold Reading.Passed at passed ⊢
      cases horigin : a.origin with
      | leading | hook => simpa only [horigin] using passed
      | queued q =>
        simp only [horigin] at passed ⊢
        obtain ⟨routed, last, some, below⟩ := passed
        by_cases same : q = consumed.queue
        · subst same
          exact ⟨routed, i, if_pos rfl, Nat.le_of_lt (Nat.lt_of_le_of_lt below (forward last some))⟩
        · exact ⟨routed, last, (if_neg same).trans some, below⟩
    · obtain rfl := mem_singleton.mp ha
      exact ⟨mem_of_getElem? slot, i, if_pos rfl, Nat.le_refl _⟩

theorem Reads.credited (h : Reads us r credits) : Credited us r credits := by
  induction h with
  | started h =>
    obtain ⟨inside, rfl⟩ := Reading.new_eq_ok.mp h
    exact ⟨rfl, ⟨rfl, inside⟩, rfl, Nat.zero_le _, rfl, .nil, by simp⟩
  | skipped _ h ih => exact ih.leading h
  | inCall _ h ih => exact ih.inCall h
  | deferred _ slot h ih => exact ih.deferred slot h

structure CreditedOnce (us : UInt64) (batch : EvmBatch) (applied : List AppliedEntry) (credits : List Credit) :
    Prop where
  applied : applied = credits.filterMap (creditedEntry (entryRoles batch.entries us))
  ordered : credits.Pairwise Credit.Before
  leading : ∀ i, ⟨.leading, i⟩ ∈ credits → i < leadingRun batch.entries (toUsize batch.immediateEntryCount)
  hook : ∀ i, ⟨.hook, i⟩ ∈ credits →
    leadingRun batch.entries (toUsize batch.immediateEntryCount) ≤ i ∧ i < toUsize batch.immediateEntryCount
  queued : ∀ queue i, ⟨.queued queue, i⟩ ∈ credits → toUsize batch.immediateEntryCount ≤ i ∧
    ∃ entry, batch.entries[i]? = some entry ∧ entry.destinationRollupId = queue
  bounded : ∀ credit ∈ credits, credit.entryIndex < batch.entries.length
  distinct : (credits.map Credit.entryIndex).Nodup

theorem Credited.once (h : Credited us r credits) : CreditedOnce us r.post.batch r.applied credits := by
  have run := h.run_le
  have hrun := h.run
  rw [h.immediate.1] at hrun
  have leading : ∀ i, ⟨.leading, i⟩ ∈ credits → i < r.run := fun i hi =>
    Nat.lt_of_lt_of_le (h.passed _ hi) h.next
  have hook : ∀ i, ⟨.hook, i⟩ ∈ credits → r.run ≤ i ∧ i < r.immediate := fun i hi =>
    ⟨(h.passed _ hi).1, (h.passed _ hi).2.1⟩
  have queued : ∀ queue i, ⟨.queued queue, i⟩ ∈ credits → r.immediate ≤ i ∧
      ∃ entry, r.post.batch.entries[i]? = some entry ∧ entry.destinationRollupId = queue := fun queue i hi =>
    Reading.mem_routed.mp (h.passed _ hi).1
  refine ⟨h.roles ▸ h.applied, h.ordered, ?_, ?_, ?_, ?_, ?_⟩
  · rw [← hrun]
    exact leading
  · rw [← hrun, ← h.immediate.1]
    exact hook
  · rw [← h.immediate.1]
    exact queued
  · rintro ⟨origin, i⟩ hcredit
    have bound := h.immediate.2
    cases origin with
    | leading =>
      have low := leading i hcredit
      simp only
      omega
    | hook =>
      have low := hook i hcredit
      simp only
      omega
    | queued queue =>
      obtain ⟨_, entry, hentry, _⟩ := queued queue i hcredit
      exact (List.getElem?_eq_some_iff.mp hentry).1
  · refine pairwise_map.mpr (h.ordered.imp_of_mem ?_)
    rintro ⟨origin, i⟩ ⟨origin', i'⟩ ha hb ⟨rising, -⟩ same
    simp only at same
    subst same
    -- one origin rises; two origins have disjoint ranges, two queues disjoint entries
    cases origin <;> cases origin'
    case leading.leading | hook.hook => exact Nat.lt_irrefl _ (rising rfl)
    case leading.hook => exact Nat.not_lt.mpr (hook i hb).1 (leading i ha)
    case hook.leading => exact Nat.not_lt.mpr (hook i ha).1 (leading i hb)
    case leading.queued queue =>
        have low := leading i ha
        have high := (queued queue i hb).1
        omega
    case queued.leading queue =>
        have low := leading i hb
        have high := (queued queue i ha).1
        omega
    case hook.queued queue => exact Nat.not_lt.mpr (queued queue i hb).1 (hook i ha).2
    case queued.hook queue => exact Nat.not_lt.mpr (queued queue i ha).1 (hook i hb).2
    case queued.queued queue queue' =>
        obtain ⟨_, entry, hentry, rfl⟩ := queued queue i ha
        obtain ⟨_, entry', hentry', rfl⟩ := queued queue' i hb
        obtain rfl := Option.some.inj (hentry.symm.trans hentry')
        exact Nat.lt_irrefl _ (rising rfl)

end

end Eez.Scan
