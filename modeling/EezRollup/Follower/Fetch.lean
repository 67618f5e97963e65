import EezRollup.Follower.Tracker

/-! From the claimed block the follower walks back to the first block it holds. The source is not
trusted. -/
namespace Eez.Follower
open SealedBlock
open Ancestry Outcome

def fetchBatch : Nat := 64

structure Missing (t : Tree) where
  /-- First locally known block on the target's ancestry. -/
  forkPoint : SealedHeader
  /-- Unknown blocks, oldest first; empty if the target is local. -/
  blocks : List (SealedBlock t)

/-- What one fetch meets: the local chain at each reading, and the answer of the
source to the request made at each depth. -/
structure Fetching (t : Tree) where
  views : Nat → View t
  blocksBack : Nat → B256 → Nat → Except FollowerError (List (SealedBlock t))

namespace Fetching
variable {t : Tree} (f : Fetching t)

/-- The next block in hand, or the first of a new batch, sized to the gap down
to the local head. -/
def nextBlock (best number : UInt64) (hash : B256) (depth : Nat) :
    List (SealedBlock t) → Except FollowerError (SealedBlock t × List (SealedBlock t))
  | block :: batch => .ok (block, batch)
  | [] => do
    match ← f.blocksBack depth hash (min (max (number.toNat - best.toNat) 1) fetchBatch) with
    | [] => .error (.notServed hash)
    | block :: batch => .ok (block, batch)

/-- The loop of `fetch_missing`, with the rounds that are left. The blocks are
kept oldest first. -/
def walkBack (best : UInt64) : Nat → List (SealedBlock t) → List (SealedBlock t) → UInt64 → B256 →
    Except FollowerError (Missing t)
  | left, blocks, batch, number, hash => do
    match ← (f.views (blocks.length + 1)).header hash with
    | some header => .ok ⟨header, blocks⟩
    | none =>
      match left with
      | 0 => .error (.unverifiable blocks.length)
      | left + 1 => do
        let (block, batch) ← f.nextBlock best number hash blocks.length batch
        ensure (block.header.hash = hash) (.badAncestor hash block.header.hash)
        walkBack best left (block :: blocks) batch (UInt64.ofNat (block.header.number.toNat - 1))
          block.header.parentHash

def fetchMissing (target : BlockNumHash) (targetBlock : Option (SealedBlock t)) : Except FollowerError (Missing t) := do
  let best ← (f.views 0).bestBlockNumber
  -- the fork point is at or below the local head: no walk could fit the cap
  ensure (target.number ≤ Driver.saturatingAdd best (UInt64.ofNat maxAncestryWalk)) (.ahead target.number best)
  f.walkBack best maxAncestryWalk [] targetBlock.toList target.number target.hash

end Fetching

/-- Each header names the one before it as its parent, the first one the anchor. -/
def ParentLinked (anchor : B256) (chain : List SealedHeader) : Prop :=
  Linked (fun p x => x.parentHash = p) SealedHeader.hash anchor chain

def tipHash (anchor : B256) (chain : List SealedHeader) : B256 := tipOf SealedHeader.hash anchor chain

namespace Missing
variable {t : Tree} (m : Missing t)

def headers : List SealedHeader := m.blocks.map header

structure Leads (views : Nat → View t) (target : B256) : Prop where
  held : ∃ n, (views n).chain.header m.forkPoint.hash = some m.forkPoint
  linked : ParentLinked m.forkPoint.hash m.headers
  ends : tipHash m.forkPoint.hash m.headers = target

variable {m}

theorem Leads.known (h : m.Leads views target) : t.header m.forkPoint.hash = some m.forkPoint := by
  obtain ⟨n, held⟩ := h.held
  exact (views n).chain.known held

theorem stacked_of_parentLinked {blocks : List (SealedBlock t)} (h : ParentLinked anchor (blocks.map header)) :
    Stacked t.header SealedHeader.parentHash SealedHeader.hash anchor (blocks.map header) := by
  induction blocks generalizing anchor with
  | nil => trivial
  | cons block blocks ih => exact ⟨⟨h.1, block.seals⟩, ih h.2⟩

theorem Leads.stacked (h : m.Leads views target) :
    Stacked t.header SealedHeader.parentHash SealedHeader.hash m.forkPoint.hash m.headers :=
  stacked_of_parentLinked h.linked

end Missing

namespace Fetching
variable {t : Tree} {f : Fetching t} {best : UInt64} {target : B256} {blocks batch : List (SealedBlock t)}
  {number : UInt64} {hash : B256} {m : Missing t} {left : Nat}

/-- A round ends the walk at a local block, or puts the block it asked for under
the ones fetched. -/
theorem walkBack_round (h : f.walkBack best left blocks batch number hash = .ok m) :
    ((f.views (blocks.length + 1)).chain.header hash = some m.forkPoint ∧ m.blocks = blocks) ∨
      ∃ left' block batch' number', left = left' + 1 ∧ block.header.hash = hash ∧
        f.walkBack best left' (block :: blocks) batch' number' block.header.parentHash = .ok m := by
  rw [walkBack.eq_def] at h
  obtain ⟨header?, read, h⟩ := bind_eq_ok.mp h
  have found : (f.views (blocks.length + 1)).chain.header hash = header? := View.read_eq_ok read
  cases header? with
  | some header =>
    obtain rfl := Except.ok.inj h
    exact .inl ⟨found, rfl⟩
  | none =>
    cases left with
    | zero => cases h
    | succ left =>
      obtain ⟨⟨block, batch'⟩, _, h⟩ := bind_eq_ok.mp h
      obtain ⟨_, asked, h⟩ := bind_eq_ok.mp h
      exact .inr ⟨left, block, batch', _, rfl, ensure_eq_ok.mp asked, h⟩

theorem leads_of_held (held : (f.views n).chain.header hash = some m.forkPoint)
    (linked : ParentLinked hash m.headers) (ends : tipHash hash m.headers = target) : m.Leads f.views target := by
  obtain rfl : m.forkPoint.hash = hash := t.seals ((f.views n).chain.known held)
  exact ⟨⟨n, held⟩, linked, ends⟩

theorem walkBack_leads (linked : ParentLinked hash (blocks.map header))
    (ends : tipHash hash (blocks.map header) = target)
    (h : f.walkBack best left blocks batch number hash = .ok m) : m.Leads f.views target := by
  induction left generalizing blocks batch number hash with
  | zero =>
    rcases walkBack_round h with ⟨held, rfl⟩ | ⟨_, _, _, _, more, _⟩
    · exact leads_of_held held linked ends
    · cases more
  | succ left ih =>
    rcases walkBack_round h with ⟨held, rfl⟩ | ⟨left', block, batch', number', more, rfl, h⟩
    · exact leads_of_held held linked ends
    · obtain rfl : left = left' := Nat.succ.inj more
      apply ih _ _ h
      · exact ⟨rfl, linked⟩
      · exact ends

theorem fetchMissing_leads {target targetBlock} (h : f.fetchMissing target targetBlock = .ok m) :
    m.Leads f.views target.hash := by
  obtain ⟨best, _, h⟩ := bind_eq_ok.mp h
  obtain ⟨_, _, h⟩ := bind_eq_ok.mp h
  have start : ParentLinked target.hash (([] : List (SealedBlock t)).map header) := trivial
  exact walkBack_leads start rfl h

end Fetching

end Eez.Follower
