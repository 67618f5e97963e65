import EezRollup.Follower.SafeCheck

/-! The tracker keeps the latest head of every source, and hands the follower its candidates with
the newest version first. -/
namespace Eez.Follower

structure Version where
  epochMs : UInt64
  counter : UInt64
  deriving DecidableEq

namespace Version

instance : LT Version := ⟨fun v w => v.epochMs < w.epochMs ∨ v.epochMs = w.epochMs ∧ v.counter < w.counter⟩

theorem lt_def {v : Version} : v < w ↔ v.epochMs < w.epochMs ∨ v.epochMs = w.epochMs ∧ v.counter < w.counter := Iff.rfl

instance (v w : Version) : Decidable (v < w) := decidable_of_iff _ lt_def.symm

theorem lt_iff_toNat {v : Version} : v < w ↔ v.epochMs.toNat < w.epochMs.toNat ∨
      v.epochMs.toNat = w.epochMs.toNat ∧ v.counter.toNat < w.counter.toNat := by
  rw [lt_def, UInt64.lt_iff_toNat_lt, UInt64.lt_iff_toNat_lt, UInt64.toNat_inj]

theorem lt_irrefl (v : Version) : ¬ v < v := by
  rw [lt_iff_toNat]
  omega

theorem eq_iff_toNat {v : Version} : v = w ↔ v.epochMs.toNat = w.epochMs.toNat ∧ v.counter.toNat = w.counter.toNat := by
  cases v
  cases w
  simp [UInt64.toNat_inj]

end Version

structure HeadClaim where
  rollupId : UInt64
  number : UInt64
  blockHash : B256
  parentHash : B256
  epochMs : UInt64
  counter : UInt64
  deriving DecidableEq

def HeadClaim.version (c : HeadClaim) : Version := ⟨c.epochMs, c.counter⟩

/-- A block under the hash its header has. The follower reads only the header. -/
structure SealedBlock (t : Tree) where
  header : SealedHeader
  seals : t.header header.hash = some header

structure VerifiedHead (t : Tree) where
  claim : HeadClaim
  signer : Address
  block : Option (SealedBlock t)

def VerifiedHead.Claims {t : Tree} (head : VerifiedHead t) : Prop :=
  (∃ x, t.header head.claim.blockHash = some x ∧ x.number = head.claim.number ∧ x.parentHash = head.claim.parentHash) ∧
    t.Numbered head.claim.blockHash

structure HeadTracker (t : Tree) where
  latest : List (VerifiedHead t)

namespace HeadTracker
variable {t : Tree}

/-- The sort key is the version, then the signer, both downwards. -/
def sortsBefore (a b : VerifiedHead t) : Bool :=
  b.claim.version < a.claim.version ∨ a.claim.version = b.claim.version ∧ b.signer ≤ a.signer

def candidates (tracker : HeadTracker t) : List (VerifiedHead t) := tracker.latest.mergeSort sortsBefore

theorem sortsBefore_iff {b : VerifiedHead t} : sortsBefore a b = true ↔
      b.claim.version < a.claim.version ∨ a.claim.version = b.claim.version ∧ b.signer ≤ a.signer := decide_eq_true_iff

theorem sortsBefore_trans (a b c : VerifiedHead t) (first : sortsBefore a b = true) (second : sortsBefore b c = true) :
    sortsBefore a c = true := by
  simp only [sortsBefore_iff, Version.lt_iff_toNat, Version.eq_iff_toNat, BitVec.le_def] at *
  omega

theorem sortsBefore_total (a b : VerifiedHead t) : (sortsBefore a b || sortsBefore b a) = true := by
  simp only [Bool.or_eq_true, sortsBefore_iff, Version.lt_iff_toNat, Version.eq_iff_toNat, BitVec.le_def]
  omega

theorem candidates_ordered (tracker : HeadTracker t) :
    tracker.candidates.Pairwise fun a b => ¬ a.claim.version < b.claim.version := by
  have sorted := List.pairwise_mergeSort sortsBefore_trans sortsBefore_total tracker.latest
  refine sorted.imp fun before higher => ?_
  simp only [sortsBefore_iff, Version.lt_iff_toNat, Version.eq_iff_toNat] at before higher
  omega

end HeadTracker

end Eez.Follower
