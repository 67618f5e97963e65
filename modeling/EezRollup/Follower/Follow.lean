import EezRollup.Follower.Fetch
import EezRollup.Deriver.CanonicalHead

/-! Candidates are tried with the highest version first. From the guard of `begin_reconcile` on
nothing else moves. -/
namespace Eez.Follower
open List Ancestry Outcome Deriver

/-- What a candidate meets once the guard is held: one chain and one index, until
it is given back. -/
structure Guarded (t : Tree) where
  chain : LocalChain t
  faults : Nat → Read → Option String
  l1Head : L1CanonicalHead
  actor : Driver.Actor
  answers : Nat → Driver.Answers

/-- What one candidate meets: at the check of its claim, before the fetch, in
the fetch, and under the guard. -/
structure Visit (t : Tree) where
  claimed : Nat → View t
  before : View t
  l1Head : L1CanonicalHead
  fetching : Fetching t
  guarded : Guarded t

section
variable {t : Tree}

def Guarded.view (g : Guarded t) (n : Nat) : View t := ⟨g.chain, g.faults n⟩

/-- The Deriver indexes a batch before moving safe to it, so the heights in
between are L1-settled. -/
def held (l1Head : L1CanonicalHead) (v : View t) : Except FollowerError Bool := do
  let safe ← v.safeBlockNumHash
  .ok (decide ((safe.map fun s => s.number.toNat).getD 0 < l1Head.lastIndexedL2))

inductive Decision (t : Tree) where
  /-- Passed over: the next candidate is tried. -/
  | next
  /-- The call ends. -/
  | stop
  | adopt (missing : Missing t)

def VerifiedHead.target (head : VerifiedHead t) : BlockNumHash := ⟨head.claim.number, head.claim.blockHash⟩

/-- The body of the loop up to the import. -/
def consider (head : VerifiedHead t) (visit : Visit t) : Except FollowerError (Decision t) := do
  let claimed ← checkExtendsSafe visit.claimed head.target head.claim.parentHash
  if claimed = .conflicts then return .next
  if ← held visit.l1Head visit.before then return .stop
  match visit.fetching.fetchMissing head.target head.block with
  | .error _ => return .stop
  | .ok missing => do
    if ← held visit.guarded.l1Head (visit.guarded.view 0) then return .stop
    let forked ← checkExtendsSafe (fun n => visit.guarded.view (n + 1)) (numHash missing.forkPoint)
      missing.forkPoint.parentHash
    match forked with
    | .extending => return .adopt missing
    | .conflicts => return .next
    | .unverifiable => return .stop

/-- The loop of `import`: the heads it moves to, and the actor it leaves. -/
def commitAll (answers : Nat → Driver.Answers) : Nat → Driver.Actor → List SealedHeader →
    Except FollowerError Unit × List SealedHeader × Driver.Actor
  | _, a, [] => (.ok (), [], a)
  | n, a, header :: rest =>
    match a.processDerive header (answers n).imported (answers n).first with
    | (.error e, a) => (.error (.driver e), [], a)
    | (.ok _, a) =>
      let (result, heads, a) := commitAll answers (n + 1) a rest
      (result, header :: heads, a)

def importMissing (g : Guarded t) (missing : Missing t) :
    Except FollowerError Unit × List SealedHeader × Driver.Actor :=
  if missing.blocks = [] then
    if missing.forkPoint.hash = g.actor.head.hash then (.ok (), [], g.actor)
    else
      match g.actor.processReorgTo missing.forkPoint (g.answers 0).first with
      | (.error e, a) => (.error (.driver e), [], a)
      | (.ok (), a) => (.ok (), [missing.forkPoint], a)
  else commitAll g.answers 0 g.actor missing.headers

structure Import (t : Tree) where
  head : VerifiedHead t
  visit : Visit t
  missing : Missing t
  result : Except FollowerError Unit
  heads : List SealedHeader
  actor : Driver.Actor

/-- A call that imports nothing sends the committer no command. -/
structure Report (t : Tree) where
  result : Except FollowerError Unit
  imported : Option (Import t)

def followBest : List (VerifiedHead t × Visit t) → Report t
  | [] => ⟨.ok (), none⟩
  | (head, visit) :: rest =>
    match consider head visit with
    | .error e => ⟨.error e, none⟩
    | .ok .stop => ⟨.ok (), none⟩
    | .ok .next => followBest rest
    | .ok (.adopt missing) =>
      let (result, heads, actor) := importMissing visit.guarded missing
      ⟨result, some ⟨head, visit, missing, result, heads, actor⟩⟩

variable {head : VerifiedHead t} {visit : Visit t} {missing : Missing t}

/-- The check of the fork point under the guard. -/
def Visit.recheck (visit : Visit t) (missing : Missing t) : Except FollowerError SafeCompat :=
  checkExtendsSafe (fun n => visit.guarded.view (n + 1)) (numHash missing.forkPoint) missing.forkPoint.parentHash

inductive Considered (head : VerifiedHead t) (visit : Visit t) : Decision t → Prop
  | stopped : Considered head visit .stop
  | refused : checkExtendsSafe visit.claimed head.target head.claim.parentHash = .ok .conflicts →
      Considered head visit .next
  | forked {missing : Missing t} : visit.fetching.fetchMissing head.target head.block = .ok missing →
      visit.recheck missing = .ok .conflicts → Considered head visit .next
  | adopted {missing : Missing t} : visit.fetching.fetchMissing head.target head.block = .ok missing →
      held visit.guarded.l1Head (visit.guarded.view 0) = .ok false → visit.recheck missing = .ok .extending →
      Considered head visit (.adopt missing)

theorem consider_considered (h : consider head visit = .ok d) : Considered head visit d := by
  obtain ⟨claimed, checked, h⟩ := bind_eq_ok.mp h
  split at h
  · next conflicts =>
      obtain rfl := Except.ok.inj h
      exact .refused (conflicts ▸ checked)
  · obtain ⟨holds, _, h⟩ := bind_eq_ok.mp h
    split at h
    · obtain rfl := Except.ok.inj h
      exact .stopped
    · split at h
      · obtain rfl := Except.ok.inj h
        exact .stopped
      · next missing fetched =>
          obtain ⟨holds, free, h⟩ := bind_eq_ok.mp h
          split at h
          · obtain rfl := Except.ok.inj h
            exact .stopped
          · next open_ =>
              obtain ⟨forked, recheck, h⟩ := bind_eq_ok.mp h
              cases forked with
              | extending =>
                obtain rfl := Except.ok.inj h
                exact .adopted fetched (eq_false_of_ne_true open_ ▸ free) recheck
              | conflicts =>
                obtain rfl := Except.ok.inj h
                exact .forked fetched recheck
              | unverifiable =>
                obtain rfl := Except.ok.inj h
                exact .stopped

theorem held_eq_false (h : held l1Head v = .ok false) :
    l1Head.lastIndexedL2 ≤ (v.chain.safe.map fun s => s.number.toNat).getD 0 := by
  obtain ⟨safe, read, h⟩ := bind_eq_ok.mp h
  rw [View.read_eq_ok read]
  exact Nat.le_of_not_lt (of_decide_eq_false (Except.ok.inj h))

theorem commitAll_spec : (commitAll answers n a chain).2.1 <+: chain ∧
      ((commitAll answers n a chain).1 = .ok () → (commitAll answers n a chain).2.1 = chain) ∧
      (commitAll answers n a chain).2.2.head = (commitAll answers n a chain).2.1.getLast?.getD a.head := by
  induction chain generalizing n a with
  | nil => exact ⟨prefix_refl _, fun _ => rfl, rfl⟩
  | cons header rest ih =>
    rw [commitAll]
    rcases a.processDerive_cases header (answers n).imported (answers n).first with valid | ⟨e, failed⟩
    · rw [valid]
      obtain ⟨part, whole, last⟩ := @ih (n + 1) (a.setHead header)
      refine ⟨(prefix_cons_inj header).mpr part, fun ok => congrArg _ (whole ok), ?_⟩
      rw [getLast?_cons]
      exact last
    · rw [failed]
      exact ⟨ nil_prefix, nofun, rfl⟩

structure Import.Sound (i : Import t) : Prop where
  /-- The head is what it was, or the last block moved to. -/
  head_eq : i.actor.head = i.heads.getLast?.getD i.visit.guarded.actor.head
  onSafe : ∀ safe, i.visit.guarded.chain.safe = some safe → ∀ x ∈ i.heads, t.Descends safe.hash x.hash
  notHeld : i.visit.guarded.l1Head.lastIndexedL2 ≤ (i.visit.guarded.chain.safe.map fun s => s.number.toNat).getD 0
  /-- The blocks are parent-linked from a locally known block to the claimed hash. -/
  leads : i.missing.Leads i.visit.fetching.views i.head.claim.blockHash
  /-- The heads are those blocks, as far as the import got; a local block is moved to directly. -/
  commits : i.missing.blocks ≠ [] → i.heads <+: i.missing.headers ∧ (i.result = .ok () → i.heads = i.missing.headers)
  moves : i.missing.blocks = [] → i.heads <+: [i.missing.forkPoint]

theorem importMissing_local (none : missing.blocks = []) : (∃ result, importMissing g missing = (result, [], g.actor)) ∨
      importMissing g missing = (.ok (), [missing.forkPoint], g.actor.setHead missing.forkPoint) := by
  rw [importMissing, if_pos none]
  split
  · exact .inl ⟨_, rfl⟩
  · rcases g.actor.processReorgTo_cases missing.forkPoint (g.answers 0).first with valid | ⟨e, failed⟩
    · rw [valid]
      exact .inr rfl
    · rw [failed]
      exact .inl ⟨_, rfl⟩

theorem importMissing_spec :
    (importMissing g missing).2.2.head = (importMissing g missing).2.1.getLast?.getD g.actor.head ∧
      (missing.blocks ≠ [] → (importMissing g missing).2.1 <+: missing.headers ∧
        ((importMissing g missing).1 = .ok () → (importMissing g missing).2.1 = missing.headers)) ∧
      (missing.blocks = [] → (importMissing g missing).2.1 <+: [missing.forkPoint]) := by
  by_cases none : missing.blocks = []
  · rcases @importMissing_local t missing g none with ⟨result, stays⟩ | moved
    · rw [stays]
      exact ⟨rfl, fun some => absurd none some, fun _ => nil_prefix⟩
    · rw [moved]
      exact ⟨rfl, fun some => absurd none some, fun _ => prefix_refl _⟩
  · rw [importMissing, if_neg none]
    obtain ⟨part, whole, last⟩ := @commitAll_spec g.answers 0 g.actor missing.headers
    exact ⟨last, fun _ => ⟨part, whole⟩, fun empty => absurd empty none⟩

/-- Nothing else moves while the guard is held, so the fork point descends from
safe until the import is done, and with it every block imported. -/
theorem import_sound (considered : consider head visit = .ok (.adopt missing))
    (ran : importMissing visit.guarded missing = (result, heads, actor)) :
    (⟨head, visit, missing, result, heads, actor⟩ : Import t).Sound := by
  cases consider_considered considered with
  | adopted fetched free recheck =>
    have leads := Fetching.fetchMissing_leads fetched
    obtain ⟨last, commits, moves⟩ := @importMissing_spec t missing visit.guarded
    rw [ran] at last commits moves
    refine ⟨last, fun safe is_safe x mem => ?_, held_eq_false free, leads, commits, moves⟩
    have still : ∀ n, (visit.guarded.view (n + 1)).chain = visit.guarded.chain := fun _ => rfl
    have anchored : t.Descends safe.hash missing.forkPoint.hash :=
      checkExtendsSafe_extending still recheck leads.known is_safe
    by_cases none : missing.blocks = []
    · rw [mem_singleton.mp ((moves none).subset mem)]
      exact anchored
    · exact anchored.trans (leads.stacked.mem_descends ((commits none).1.subset mem)).1

theorem followBest_imported
    (h : (followBest schedule).imported = some i) :
    ∃ earlier rest, schedule = earlier ++ (i.head, i.visit) :: rest ∧
      (∀ p ∈ earlier, consider p.1 p.2 = .ok .next) ∧ i.Sound := by
  induction schedule with
  | nil => cases h
  | cons p schedule ih =>
    obtain ⟨head, visit⟩ := p
    rw [followBest] at h
    split at h
    · cases h
    · cases h
    · next passed =>
        obtain ⟨earlier, rest, rfl, before, sound⟩ := ih h
        exact ⟨(head, visit) :: earlier, rest, rfl, forall_mem_cons.mpr ⟨passed, before⟩, sound⟩
    · next missing considered =>
        generalize run : importMissing visit.guarded missing = r at h
        obtain ⟨result, heads, actor⟩ := r
        obtain rfl := Option.some.inj h
        exact ⟨[], schedule, rfl, forall_mem_nil _, import_sound considered run⟩

/-- Between the checks of the newer candidates and the import, safe only moved on. -/
def SafeAdvanced (schedule : List (VerifiedHead t × Visit t)) (version : Version) (safe : BlockNumHash) : Prop :=
  ∀ p ∈ schedule, version < p.1.claim.version → ∀ s,
    (p.2.claimed 0).chain.safe = some s ∨ p.2.guarded.chain.safe = some s → t.Descends s.hash safe.hash

/-- The walk back from a newer candidate did not fetch the safe block itself. -/
def SafeUnfetched (schedule : List (VerifiedHead t × Visit t)) (version : Version) (safe : BlockNumHash) : Prop :=
  ∀ p ∈ schedule, version < p.1.claim.version → ∀ missing,
    p.2.fetching.fetchMissing p.1.target p.1.block = .ok missing → ∀ x ∈ missing.headers, x.hash ≠ safe.hash

/-- A candidate that is passed over does not descend from safe, unless its walk
ran past the block that became safe meanwhile. -/
theorem passed_conflicts {safe : BlockNumHash} (passed : consider head visit = .ok .next) (claims : head.Claims)
    (advanced : ∀ s, (visit.claimed 0).chain.safe = some s ∨ visit.guarded.chain.safe = some s →
      t.Descends s.hash safe.hash)
    (unfetched : ∀ missing, visit.fetching.fetchMissing head.target head.block = .ok missing →
      ∀ x ∈ missing.headers, x.hash ≠ safe.hash) : ¬ t.Descends safe.hash head.claim.blockHash := by
  intro d
  obtain ⟨⟨x, at_claimed, number, parent⟩, numbered⟩ := claims
  cases consider_considered passed with
  | refused conflicts =>
    obtain ⟨s, is_safe, off⟩ := checkExtendsSafe_conflicts conflicts at_claimed number parent numbered
    exact off ((advanced s (.inl is_safe)).trans d)
  | @forked missing fetched conflicts =>
    have leads := Fetching.fetchMissing_leads fetched
    have ends : tipOf SealedHeader.hash missing.forkPoint.hash missing.headers = head.claim.blockHash := leads.ends
    -- the fork point is an ancestor of the claimed block, so it is numbered as well
    have above : t.Descends missing.forkPoint.hash head.claim.blockHash := ends ▸ leads.stacked.tip_descends
    rcases leads.stacked.descends_tip (ends.symm ▸ d) with ⟨y, mem, same⟩ | deeper
    · exact unfetched missing fetched y mem same
    · obtain ⟨s, is_safe, off⟩ :=
        checkExtendsSafe_conflicts conflicts leads.known rfl rfl (numbered.ancestor above)
      exact off ((advanced s (.inr is_safe)).trans deeper)

end

def sampleBlocks : List SealedHeader :=
  [⟨1, 0, 0, 0, 0, []⟩, ⟨2, 1, 1, 0, 0, []⟩, ⟨3, 2, 2, 0, 0, []⟩, ⟨4, 2, 2, 0, 0, []⟩, ⟨5, 1, 1, 0, 0, []⟩]

def sampleTree : Tree where
  header h := sampleBlocks.find? fun x => x.hash = h
  seals found := by simpa using find?_some found

theorem sampleTree_numbered (b : B256) : sampleTree.Numbered b := by
  have consistent : ∀ x ∈ sampleBlocks, ∀ y ∈ sampleBlocks, y.hash = x.parentHash →
      x.number.toNat = y.number.toNat + 1 := by decide
  intro c x y _ at_c at_parent
  have listed {h z} (found : sampleTree.header h = some z) : z ∈ sampleBlocks := by
    simp only [sampleTree] at found
    exact mem_of_find?_eq_some found
  exact consistent x (listed at_c) y (listed at_parent) (sampleTree.seals at_parent)

def sampleChain (n : Fin 2) : LocalChain sampleTree where
  header h := (sampleBlocks.take (n + 1)).find? fun x => x.hash = h
  canonical k := (sampleBlocks.take (n + 1))[k]?
  bestNumber := UInt64.ofNat n
  safe := some ⟨UInt64.ofNat n, BitVec.ofNat 256 (n + 1)⟩
  known found := ( take_prefix _ _).find?_eq_some found
  canonical_known {k x} found := by
    match n, k with
    | 0, 0 => exact Option.some.inj found ▸ ⟨rfl, rfl⟩
    | 0, k + 1 => cases found
    | 1, 0 => exact Option.some.inj found ▸ ⟨rfl, rfl⟩
    | 1, 1 => exact Option.some.inj found ▸ ⟨rfl, rfl⟩
    | 1, k + 2 => cases found
  canonical_linked {k x} found := by
    match n, k with
    | 0, k => cases found
    | 1, 0 => exact Option.some.inj found ▸ ⟨_, rfl, rfl⟩
    | 1, k + 1 => cases found
  safe_canonical {s} is_safe := by
    obtain rfl := Option.some.inj is_safe
    match n with
    | 0 => exact ⟨_, rfl, rfl⟩
    | 1 => exact ⟨_, rfl, rfl⟩

def sampleView (n : Fin 2) : View sampleTree := ⟨sampleChain n, fun _ => none⟩

def sampleBlock (h : B256) (x : SealedHeader) (found : sampleTree.header h = some x) : SealedBlock sampleTree :=
  ⟨x, sampleTree.seals found ▸ found⟩

def sampleHead (counter : UInt64) (h : B256) (x : SealedHeader) (found : sampleTree.header h = some x) :
    VerifiedHead sampleTree :=
  ⟨⟨1, x.number, h, x.parentHash, 7, counter⟩, 9, some (sampleBlock h x found)⟩

theorem sampleHead_claims (found : sampleTree.header h = some x) :
    (sampleHead counter h x found).Claims := ⟨⟨x, found, rfl, rfl⟩, sampleTree_numbered h⟩

/-- The engine accepts everything; under the guard the second block is safe. -/
def sampleGuarded : Guarded sampleTree where
  chain := sampleChain 1
  faults _ _ := none
  l1Head := L1CanonicalHead.seed ⟨⟨5, 0, 0⟩, 0, 1⟩
  actor := ⟨⟨2, 1, 1, 0, 0, []⟩, ⟨2, 1, 1, 0, 0, []⟩, 1⟩
  answers _ := ⟨.valid none, .valid none, .valid, ⟨.valid none, none, .valid, .valid none⟩⟩

/-- Up to the guard the candidate meets the chain of the argument. -/
def sampleVisit (n : Fin 2) (served : List (SealedBlock sampleTree)) : Visit sampleTree where
  claimed _ := sampleView n
  before := sampleView n
  l1Head := L1CanonicalHead.empty
  fetching := ⟨fun _ => sampleView n, fun _ _ _ => .ok served⟩
  guarded := sampleGuarded

def olderHead : VerifiedHead sampleTree := sampleHead 1 4 _ rfl

def besideHead : VerifiedHead sampleTree := sampleHead 2 5 _ rfl

def newerHead : VerifiedHead sampleTree := sampleHead 2 3 _ rfl

def besideRun : List (VerifiedHead sampleTree × Visit sampleTree) :=
  [(besideHead, sampleVisit 1 []), (olderHead, sampleVisit 1 [])]

/-- While the newer head is fetched, the Deriver commits its parent and moves
safe onto it. -/
def racedRun : List (VerifiedHead sampleTree × Visit sampleTree) :=
  [(newerHead, sampleVisit 0 [sampleBlock 2 _ rfl]), (olderHead, sampleVisit 1 [])]

def Import.shown {t : Tree} (i : Import t) : HeadClaim × List SealedHeader × Option BlockNumHash :=
  (i.head.claim, i.heads, i.visit.guarded.chain.safe)

theorem sampleRuns_imported : ∀ run ∈ [besideRun, racedRun], ∃ i, (followBest run).imported = some i ∧
      i.shown = (olderHead.claim, [⟨4, 2, 2, 0, 0, []⟩], some ⟨1, 2⟩) := by
  intro run mem
  have shown : ∀ run ∈ [besideRun, racedRun], (followBest run).imported.map Import.shown =
      some (olderHead.claim, [⟨4, 2, 2, 0, 0, []⟩], some ⟨1, 2⟩) := by
    simp only [forall_mem_cons]
    exact ⟨by decide +kernel, by decide +kernel, forall_mem_nil _⟩
  exact Option.map_eq_some_iff.mp (shown run mem)

theorem besideRun_candidates : besideRun.map Prod.fst =
    (⟨[besideHead, olderHead]⟩ : HeadTracker sampleTree).candidates :=
  (mergeSort_of_pairwise (by decide)).symm

theorem olderHead_lower : olderHead.claim.version < besideHead.claim.version ∧
    olderHead.claim.version < newerHead.claim.version := by decide

end Eez.Follower
