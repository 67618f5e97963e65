import EezRollup.Lib.Ancestry
import EezRollup.Lib.Outcome
import EezRollup.Driver.BlockCommitter

/-! The follower compares a signed head with the safe block before it moves the unsafe head. -/
namespace Eez.Follower
open Ancestry Outcome

def maxAncestryWalk : Nat := 1024

/-- The header each block hash commits to, held locally or not. -/
structure Tree where
  header : B256 → Option SealedHeader
  seals : ∀ {h x}, header h = some x → x.hash = h

namespace Tree
variable (t : Tree)

def Descends (a b : B256) : Prop := Ancestry.Descends t.header SealedHeader.parentHash a b

def Numbered (b : B256) : Prop := Ranked t.header SealedHeader.parentHash (fun x => x.number.toNat) b

end Tree

structure BlockNumHash where
  number : UInt64
  hash : B256
  deriving DecidableEq

def numHash (header : SealedHeader) : BlockNumHash := ⟨header.number, header.hash⟩

/-- The local chain provider at one moment. Its canonical chain holds the safe block. -/
structure LocalChain (t : Tree) where
  header : B256 → Option SealedHeader
  canonical : Nat → Option SealedHeader
  bestNumber : UInt64
  safe : Option BlockNumHash
  known : ∀ {h x}, header h = some x → t.header h = some x
  canonical_known : ∀ {n x}, canonical n = some x → header x.hash = some x ∧ x.number.toNat = n
  canonical_linked : ∀ {n x}, canonical (n + 1) = some x → ∃ y, canonical n = some y ∧ x.parentHash = y.hash
  safe_canonical : ∀ {s}, safe = some s → ∃ x, canonical s.number.toNat = some x ∧ x.hash = s.hash

inductive Read where
  | safeBlockNumHash
  | bestBlockNumber
  | sealedHeader (number : UInt64)
  | header (hash : B256)
  deriving DecidableEq

inductive FollowerError where
  | peer (reason : String)
  | notServed (hash : B256)
  | provider (read : Read) (reason : String)
  | driver (error : Driver.DriverError)
  | unverifiable (depth : Nat)
  | ahead (target localHead : UInt64)
  | badAncestor (requested got : B256)
  deriving DecidableEq

/-- What reads meet: the chain of that moment, and the reads that fail. -/
structure View (t : Tree) where
  chain : LocalChain t
  fault : Read → Option String

namespace View
variable {t : Tree} (v : View t)

def read {α : Type} (r : Read) (value : α) : Except FollowerError α :=
  match v.fault r with
  | some reason => .error (.provider r reason)
  | none => .ok value

def safeBlockNumHash : Except FollowerError (Option BlockNumHash) := v.read .safeBlockNumHash v.chain.safe

def bestBlockNumber : Except FollowerError UInt64 := v.read .bestBlockNumber v.chain.bestNumber

def sealedHeader (number : UInt64) : Except FollowerError (Option SealedHeader) :=
  v.read (.sealedHeader number) (v.chain.canonical number.toNat)

def header (hash : B256) : Except FollowerError (Option SealedHeader) := v.read (.header hash) (v.chain.header hash)

variable {v}

theorem read_eq_ok {r} {value : α} {x} (h : v.read r value = .ok x) : value = x := by
  unfold read at h
  split at h
  · cases h
  · exact Except.ok.inj h

end View

inductive SafeCompat where
  /-- The candidate provably descends from the safe block. -/
  | extending
  /-- The candidate provably does not descend from the safe block. -/
  | conflicts
  /-- Ancestry down to the safe height is not locally known. -/
  | unverifiable
  deriving DecidableEq

section
variable {t : Tree}

/-- The loop of `check_extends_safe`. The first argument is how far the cursor
stands above the safe height. -/
def walkToSafe (views : Nat → View t) (safeHash : B256) : Nat → Nat → B256 → Except FollowerError SafeCompat
  | 0, _, cursor => .ok (if cursor = safeHash then .extending else .conflicts)
  | gap + 1, reads, cursor =>
    if reads ≥ maxAncestryWalk then .ok .unverifiable
    else do
      match ← (views reads).header cursor with
      | none => .ok .unverifiable
      | some parent => walkToSafe views safeHash gap (reads + 1) parent.parentHash

/-- Each read meets the view of its own moment. -/
def checkExtendsSafe (views : Nat → View t) (candidate : BlockNumHash) (parentHash : B256) :
    Except FollowerError SafeCompat := do
  match ← (views 0).safeBlockNumHash with
  -- no safe anchor recorded yet: nothing to conflict with
  | none => .ok .extending
  | some safe =>
    if candidate.number = safe.number then
      .ok (if candidate.hash = safe.hash then .extending else .conflicts)
    else if candidate.number < safe.number then .ok .conflicts
    else do
      let onChain ← (views 1).sealedHeader candidate.number
      if onChain.any (fun x => x.hash = candidate.hash) then .ok .extending
      else walkToSafe (fun n => views (n + 2)) safe.hash (candidate.number.toNat - 1 - safe.number.toNat) 0 parentHash

end

namespace LocalChain
variable {t : Tree} (l : LocalChain t) {s : BlockNumHash} {x : SealedHeader} {n : Nat}

theorem canonical_header (h : l.canonical n = some x) : t.header x.hash = some x :=
  l.known (l.canonical_known h).1

theorem safe_known (h : l.safe = some s) : ∃ x, t.header s.hash = some x ∧ x.number = s.number := by
  obtain ⟨x, at_safe, hashed⟩ := l.safe_canonical h
  refine ⟨x, hashed ▸ l.canonical_header at_safe, ?_⟩
  exact UInt64.toNat_inj.mp (l.canonical_known at_safe).2

theorem canonical_descends (h : l.safe = some s) (at_x : l.canonical (s.number.toNat + n) = some x) :
    t.Descends s.hash x.hash := by
  induction n generalizing x with
  | zero =>
    obtain ⟨y, at_safe, hashed⟩ := l.safe_canonical h
    obtain rfl : y = x := Option.some.inj (at_safe.symm.trans at_x)
    rw [hashed]
    exact .refl
  | succ n ih =>
    obtain ⟨y, at_y, linked⟩ := l.canonical_linked at_x
    have lower := ih at_y
    rw [← linked] at lower
    exact lower.child (l.canonical_header at_x)

end LocalChain

section
variable {t : Tree} {views : Nat → View t} {safeHash cursor : B256} {gap reads : Nat}

theorem walkToSafe_succ {verdict} (h : walkToSafe views safeHash (gap + 1) reads cursor = .ok verdict)
    (decided : verdict ≠ .unverifiable) :
    ∃ x, t.header cursor = some x ∧ walkToSafe views safeHash gap (reads + 1) x.parentHash = .ok verdict := by
  rw [walkToSafe] at h
  split at h
  · exact absurd (Except.ok.inj h).symm decided
  · obtain ⟨parent, found, h⟩ := bind_eq_ok.mp h
    have same := View.read_eq_ok found
    cases parent with
    | none => exact absurd (Except.ok.inj h).symm decided
    | some x => exact ⟨x, (views reads).chain.known same, h⟩

theorem walkToSafe_extending (h : walkToSafe views safeHash gap reads cursor = .ok .extending) :
    t.Descends safeHash cursor := by
  induction gap generalizing reads cursor with
  | zero =>
    rw [walkToSafe] at h
    split at h
    · next same => exact same ▸ .refl
    · cases h
  | succ gap ih =>
    obtain ⟨x, at_cursor, h⟩ := walkToSafe_succ h (by decide)
    exact (ih h).child at_cursor

/-- The ancestor at the safe height is unique, and the walk saw another one. -/
theorem walkToSafe_conflicts (h : walkToSafe views safeHash gap reads cursor = .ok .conflicts)
    (at_safe : t.header safeHash = some s) (at_cursor : t.header cursor = some x) (numbered : t.Numbered cursor)
    (above : x.number.toNat = s.number.toNat + gap) : ¬ t.Descends safeHash cursor := by
  intro d
  induction gap generalizing reads cursor x with
  | zero =>
    rw [walkToSafe] at h
    split at h
    · cases h
    · next other =>
        rcases numbered.lt_or_eq d at_safe at_cursor with lower | same
        · omega
        · exact other same.symm
  | succ gap ih =>
    obtain ⟨x', at_cursor', h⟩ := walkToSafe_succ h (by decide)
    obtain rfl : x' = x := Option.some.inj (at_cursor'.symm.trans at_cursor)
    have other : cursor ≠ safeHash := by
      rintro rfl
      obtain rfl : s = x' := Option.some.inj (at_safe.symm.trans at_cursor)
      omega
    have higher := d.of_child at_cursor other
    obtain ⟨y, at_parent⟩ := higher.known at_safe
    have next : x'.number.toNat = y.number.toNat + 1 := numbered cursor x' y .refl at_cursor at_parent
    exact ih h at_parent (numbered.parent at_cursor) (by omega) higher

variable {candidate : BlockNumHash} {parentHash : B256} {x : SealedHeader}

/-- How `check_extends_safe` comes to a verdict. -/
inductive Judged (views : Nat → View t) (candidate : BlockNumHash) (parentHash : B256) : SafeCompat → Prop
  | unanchored : (views 0).chain.safe = none → Judged views candidate parentHash .extending
  | level {safe : BlockNumHash} : (views 0).chain.safe = some safe → candidate.number = safe.number →
      Judged views candidate parentHash (if candidate.hash = safe.hash then .extending else .conflicts)
  | below {safe : BlockNumHash} : (views 0).chain.safe = some safe → candidate.number < safe.number →
      Judged views candidate parentHash .conflicts
  | canonical {safe : BlockNumHash} {y : SealedHeader} : (views 0).chain.safe = some safe →
      safe.number < candidate.number → (views 1).chain.canonical candidate.number.toNat = some y →
      y.hash = candidate.hash → Judged views candidate parentHash .extending
  | walked {safe : BlockNumHash} {verdict : SafeCompat} : (views 0).chain.safe = some safe →
      safe.number < candidate.number →
      walkToSafe (fun n => views (n + 2)) safe.hash (candidate.number.toNat - 1 - safe.number.toNat) 0 parentHash =
        .ok verdict → Judged views candidate parentHash verdict

theorem checkExtendsSafe_judged {verdict} (h : checkExtendsSafe views candidate parentHash = .ok verdict) :
    Judged views candidate parentHash verdict := by
  obtain ⟨safe?, found, h⟩ := bind_eq_ok.mp h
  have is_safe : (views 0).chain.safe = safe? := View.read_eq_ok found
  cases safe? with
  | none =>
    obtain rfl : SafeCompat.extending = verdict := Except.ok.inj h
    exact .unanchored is_safe
  | some safe =>
    dsimp only at h
    split at h
    · next level =>
        obtain rfl := Except.ok.inj h
        exact .level is_safe level
    · next off =>
        split at h
        · next below =>
            obtain rfl : SafeCompat.conflicts = verdict := Except.ok.inj h
            exact .below is_safe below
        · next notBelow =>
            have above : safe.number < candidate.number := by
              rw [UInt64.lt_iff_toNat_lt] at notBelow ⊢
              have := mt UInt64.toNat_inj.mp off
              omega
            obtain ⟨onChain, read, h⟩ := bind_eq_ok.mp h
            have canonical : (views 1).chain.canonical candidate.number.toNat = onChain := View.read_eq_ok read
            split at h
            · next listed =>
                obtain rfl : SafeCompat.extending = verdict := Except.ok.inj h
                cases onChain with
                | none => cases listed
                | some y => exact .canonical is_safe above canonical (of_decide_eq_true listed)
            · exact .walked is_safe above h

theorem checkExtendsSafe_conflicts (h : checkExtendsSafe views candidate parentHash = .ok .conflicts)
    (at_candidate : t.header candidate.hash = some x) (number : x.number = candidate.number)
    (parent : x.parentHash = parentHash) (numbered : t.Numbered candidate.hash) :
    ∃ safe, (views 0).chain.safe = some safe ∧ ¬ t.Descends safe.hash candidate.hash := by
  generalize verdict_eq : SafeCompat.conflicts = verdict at h
  cases checkExtendsSafe_judged h with
  | unanchored | canonical => cases verdict_eq
  | @level safe is_safe level =>
    obtain ⟨s, at_safe, safe_number⟩ := (views 0).chain.safe_known is_safe
    refine ⟨safe, is_safe, fun d => ?_⟩
    rcases numbered.lt_or_eq d at_safe at_candidate with lower | same
    · rw [number, safe_number, level] at lower
      exact Nat.lt_irrefl _ lower
    · rw [if_pos same.symm] at verdict_eq
      cases verdict_eq
  | @below safe is_safe below =>
    obtain ⟨s, at_safe, safe_number⟩ := (views 0).chain.safe_known is_safe
    rw [UInt64.lt_iff_toNat_lt, ← number, ← safe_number] at below
    refine ⟨safe, is_safe, fun d => ?_⟩
    rcases numbered.lt_or_eq d at_safe at_candidate with lower | same
    · omega
    · obtain rfl : s = x := Option.some.inj (at_safe.symm.trans (same ▸ at_candidate))
      exact Nat.lt_irrefl _ below
  | @walked safe _ is_safe above walk =>
    obtain ⟨s, at_safe, safe_number⟩ := (views 0).chain.safe_known is_safe
    rw [UInt64.lt_iff_toNat_lt, ← number, ← safe_number] at above
    refine ⟨safe, is_safe, fun d => ?_⟩
    have other : candidate.hash ≠ safe.hash := fun same => by
      obtain rfl : s = x := Option.some.inj (at_safe.symm.trans (same ▸ at_candidate))
      exact Nat.lt_irrefl _ above
    -- the walk starts at the parent, which descends from safe as well
    have higher := d.of_child at_candidate other
    obtain ⟨y, at_parent⟩ := higher.known at_safe
    have next : x.number.toNat = y.number.toNat + 1 := numbered _ x y .refl at_candidate at_parent
    rw [← number, ← safe_number, ← parent, ← verdict_eq] at walk
    exact walkToSafe_conflicts walk at_safe at_parent (numbered.parent at_candidate) (by omega) higher

/-- With one chain under every read, a block that extends safe descends from it. -/
theorem checkExtendsSafe_extending (still : ∀ n, (views n).chain = l)
    (h : checkExtendsSafe views (numHash x) x.parentHash = .ok .extending) (at_x : t.header x.hash = some x)
    (is_safe : l.safe = some safe) : t.Descends safe.hash x.hash := by
  have only {s} (found : (views 0).chain.safe = some s) : s = safe := by
    rw [still 0, is_safe] at found
    exact (Option.some.inj found).symm
  generalize verdict_eq : SafeCompat.extending = verdict at h
  cases checkExtendsSafe_judged h with
  | unanchored none =>
    rw [still 0, is_safe] at none
    cases none
  | level found level =>
    obtain rfl := only found
    split at verdict_eq
    · next same => exact (show x.hash = _ from same) ▸ .refl
    · cases verdict_eq
  | below => cases verdict_eq
  | @canonical s y found above at_y same =>
    obtain rfl := only found
    have shifted : l.canonical (s.number.toNat + (x.number.toNat - s.number.toNat)) = some y := by
      have : s.number.toNat ≤ x.number.toNat := Nat.le_of_lt (UInt64.lt_iff_toNat_lt.mp above)
      rw [Nat.add_sub_cancel' this, ← still 1]
      exact at_y
    rw [show x.hash = y.hash from same.symm]
    exact l.canonical_descends is_safe shifted
  | walked found above walk =>
    obtain rfl := only found
    exact (walkToSafe_extending (verdict_eq ▸ walk)).child at_x

end

end Eez.Follower
