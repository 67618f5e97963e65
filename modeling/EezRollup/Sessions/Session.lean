import EezRollup.Lib.Linked
import EezRollup.Protocol.SystemTx
import EezRollup.Signer.Window
import Mathlib.Algebra.Order.BigOperators.Group.List
import Mathlib.Algebra.Order.Group.Nat

/-! A session retains an anchor and the validated blocks on top of it. Each function below is what
one critical section does to a locked session. -/
open List
namespace Eez.Sessions
open Octets Outcome Signer

inductive Code where
  | cancelled
  | invalidArgument
  | deadlineExceeded
  | notFound
  | permissionDenied
  | resourceExhausted
  | failedPrecondition
  | aborted
  | outOfRange
  | unimplemented
  | internal
  | unavailable
  deriving DecidableEq

structure Status where
  code : Code
  message : String

inductive ValidationError where
  | deadlineExceeded
  | unavailable (reason : String)
  | aborted (reason : String)
  | rejected (reason : String)
  | invalidBackendOutput (reason : String)
  | internalInvariant (reason : String)
  | cancelled

def validationStatus : ValidationError → Status
  | .deadlineExceeded => ⟨.deadlineExceeded, "block validation deadline exceeded"⟩
  | .unavailable _ => ⟨.unavailable, "validation backend is temporarily unavailable"⟩
  | .aborted _ => ⟨.aborted, "validation backend snapshot changed during validation"⟩
  | .rejected _ => ⟨.failedPrecondition, "window validation rejected"⟩
  | .invalidBackendOutput _ => ⟨.internal, "validation backend returned invalid output"⟩
  | .internalInvariant _ => ⟨.internal, "request pipeline invariant failed"⟩
  | .cancelled => ⟨.cancelled, "Prove request cancelled"⟩

def parseB256 (name : String) (bytes : Bytes) : Except Status B256 :=
  if bytes.length = 32 then .ok (BitVec.ofNat 256 (ofLe bytes.reverse))
  else .error ⟨.invalidArgument, s!"{name} must contain exactly 32 bytes"⟩

theorem parseB256_eq_ok : parseB256 name bytes = .ok h ↔ bytes = b256Bytes h := by
  unfold parseB256
  split
  · next length =>
    rw [Except.ok.injEq]
    exact ofNat_ofLe_eq_iff (by decide) length
  · next other =>
    constructor
    · intro failed
      cases failed
    · rintro rfl
      exact absurd (b256Bytes_length h) other

structure BlockAnchor where
  number : UInt64
  hash : B256
  stateRoot : B256
  deriving DecidableEq

/-- A validated block with its state roots and the bytes submitted for it, as the
sessions share it. -/
structure Artifact where
  block : ValidatedBlock
  preStateRoot : B256
  postStateRoot : B256
  rlp : Bytes

def Artifact.number (a : Artifact) : UInt64 := a.block.number

def Artifact.hash (a : Artifact) : B256 := a.block.hash

def Artifact.parentHash (a : Artifact) : B256 := a.block.parentHash

def Artifact.asAnchor (a : Artifact) : BlockAnchor := ⟨a.number, a.hash, a.postStateRoot⟩

/-- Each session is charged for its own submission. -/
structure SessionBlock where
  validated : Artifact
  payloadBytes : Nat
  witnessItems : Nat

open SessionBlock

def SessionBlock.number (b : SessionBlock) : UInt64 := b.validated.number

def SessionBlock.ends (b : SessionBlock) : BlockAnchor := b.validated.asAnchor

def SessionBlock.charge (b : SessionBlock) : Nat × Nat := (b.payloadBytes, b.witnessItems)

structure ServiceLimits where
  maxBlocks : Nat
  maxPayloadBytes : Nat
  maxWitnessItems : Nat

/-- The loop with its index and sums; a sum has to fit a machine word. -/
def checkCharges (limits : ServiceLimits) : Nat → Nat → Nat → List (Nat × Nat) → Except Status Unit
  | _, _, _, [] => .ok ()
  | index, bytes, items, (payloadBytes, witnessItems) :: charges => do
    ensure (index < limits.maxBlocks) ⟨.resourceExhausted, "window block quota exceeded"⟩
    ensure (bytes + payloadBytes < 2 ^ 64) ⟨.resourceExhausted, "window payload quota overflow"⟩
    ensure (items + witnessItems < 2 ^ 64) ⟨.resourceExhausted, "window witness quota overflow"⟩
    ensure (bytes + payloadBytes ≤ limits.maxPayloadBytes)
      ⟨.resourceExhausted, "window payload quota exceeded"⟩
    ensure (items + witnessItems ≤ limits.maxWitnessItems)
      ⟨.resourceExhausted, "window witness quota exceeded"⟩
    checkCharges limits (index + 1) (bytes + payloadBytes) (items + witnessItems) charges

def checkWindowQuota (limits : ServiceLimits) (charges : List (Nat × Nat)) : Except Status Unit :=
  checkCharges limits 0 0 0 charges

abbrev Token := Nat

structure Session where
  anchor : BlockAnchor
  blocks : List SessionBlock
  /-- A proof watermark, not a settlement cursor. -/
  provedThrough : UInt64
  epoch : UInt64
  connected : Bool
  cancellation : Token

def nextEpoch (epoch : UInt64) : UInt64 := max (epoch + 1) 1

def staleEpoch : Status := ⟨.aborted, "prover session epoch is stale"⟩

structure Validated where
  number : UInt64
  hash : B256
  postStateRoot : B256
  reused : Bool

def validatedResponse (artifact : Artifact) (reused : Bool) : Validated :=
  ⟨artifact.number, artifact.hash, artifact.postStateRoot, reused⟩

/-- A block as it comes from the wire; of its witness only the size matters here. -/
structure SubmittedBlock where
  number : UInt64
  hash : Bytes
  parentHash : Bytes
  rlp : Bytes
  witnessItems : Option Nat
  encodedLen : Nat

structure AdmittedBlock where
  declaredNumber : UInt64
  claimedHash : B256
  claimedParentHash : B256
  rlp : Bytes

/-- What `validate_block` keeps while the backend works. -/
structure Admission where
  parent : BlockAnchor
  block : AdmittedBlock
  payloadBytes : Nat
  witnessItems : Nat

namespace Session

def tip (s : Session) : BlockAnchor := (s.blocks.getLast?.map ends).getD s.anchor

def requireEpoch (s : Session) (epoch : UInt64) : Except Status Unit := ensure (s.epoch = epoch) staleEpoch

def unproved (s : Session) : List SessionBlock := s.blocks.dropWhile fun b => b.number ≤ s.provedThrough

def resume (s : Session) (token : Token) : Session :=
  { s with epoch := nextEpoch s.epoch, connected := true, cancellation := token }

/-- How many blocks stay when the session goes back to `ancestor`. -/
def retainedThrough (s : Session) (ancestor : B256) : Except Status Nat :=
  if ancestor = s.anchor.hash then .ok 0
  else
    match s.blocks.findIdx? fun b => b.validated.hash = ancestor with
    | some index => .ok (index + 1)
    | none => .error ⟨.failedPrecondition, "Rewind ancestor is not in the session's validated active prefix"⟩

def truncate (s : Session) (retained : Nat) : Session := { s with blocks := s.blocks.take retained }

def rewind (s : Session) (epoch : UInt64) (ancestor : B256) (token : Token) : Except Status Session := do
  s.requireEpoch epoch
  let retained ← s.retainedThrough ancestor
  let cut := s.truncate retained
  return { cut with
    provedThrough := min s.provedThrough cut.tip.number
    epoch := nextEpoch s.epoch
    cancellation := token }

def duplicate (b : SubmittedBlock) (existing : SessionBlock) : Except Status Validated := do
  ensure (b256Bytes existing.validated.parentHash = b.parentHash ∧ existing.validated.rlp = b.rlp)
    ⟨.invalidArgument, "duplicate block number does not match its validated artifact"⟩
  return validatedResponse existing.validated false

def charged (s : Session) (limits : ServiceLimits) (b : SubmittedBlock) (witnessItems : Nat) :
    Except Status Admission := do
  let claimedHash ← parseB256 "block hash" b.hash
  let claimedParentHash ← parseB256 "block parent hash" b.parentHash
  checkWindowQuota limits (s.unproved.map charge ++ [(b.encodedLen, witnessItems)])
  return ⟨s.tip, ⟨b.number, claimedHash, claimedParentHash, b.rlp⟩, b.encodedLen, witnessItems⟩

/-- The first section of `validate_block`. -/
def snapshot (s : Session) (limits : ServiceLimits) (epoch : UInt64) (b : SubmittedBlock) (witnessItems : Nat) :
    Except Status (Validated ⊕ Admission) := do
  s.requireEpoch epoch
  match s.blocks.find? fun x => x.number = b.number ∧ b256Bytes x.validated.hash = b.hash with
  | some existing => (duplicate b existing).map .inl
  | none => (s.charged limits b witnessItems).map .inr

/-- Its second section, over what the backend returned. -/
def append (s : Session) (epoch : UInt64) (parent : BlockAnchor) (block : SessionBlock) : Except Status Session := do
  s.requireEpoch epoch
  ensure (s.tip = parent) ⟨.aborted, "session cursor changed while block validation was in flight"⟩
  return { s with blocks := s.blocks ++ [block] }

/-- The boundary below the block at `index`. -/
def anchorAt (s : Session) : Nat → BlockAnchor
  | 0 => s.anchor
  | index + 1 => ((s.blocks[index]?).map ends).getD s.anchor

/-- Select a nonempty window from the retained prefix. -/
def selectWindow (s : Session) (limits : ServiceLimits) (fromBlock toBlock : UInt64) (terminalHash : B256) :
    Except Status (BlockAnchor × ValidatedWindow × Nat) := do
  let firstValidated ← require (checkedAdd s.anchor.number 1)
    ⟨.invalidArgument, "session anchor block number cannot be incremented"⟩
  ensure (fromBlock ≠ 0 ∧ fromBlock ≤ toBlock)
    ⟨.invalidArgument, "Finalize range must be nonempty and start after genesis"⟩
  ensure (firstValidated ≤ fromBlock)
    ⟨.outOfRange, "Finalize range starts before the retained session prefix"⟩
  let startIndex := (fromBlock - firstValidated).toNat
  let endIndex := (toBlock - firstValidated).toNat
  ensure (startIndex ≤ endIndex ∧ endIndex < s.blocks.length)
    ⟨.failedPrecondition, "Finalize terminal block has not been fully validated"⟩
  let range := (s.blocks.take (endIndex + 1)).drop startIndex
  checkWindowQuota limits (range.map charge)
  let terminal ← require range.getLast? ⟨.internal, "non-empty checked range"⟩
  ensure (terminal.number = toBlock ∧ terminal.validated.hash = terminalHash)
    ⟨.failedPrecondition, "Finalize terminal identity does not match the validated prefix"⟩
  let anchor := s.anchorAt startIndex
  return (anchor, ⟨anchor.hash, range.dropLast.map (·.validated.block), terminal.validated.block⟩, startIndex)

/-- The last section of `finalize`: no signature without the epoch and the token. -/
def sign (s : Session) (epoch : UInt64) (cancelled : Bool) (signature : Option Bytes) (anchor : BlockAnchor)
    (startIndex : Nat) (toBlock : UInt64) : Except Status (Session × Bytes) := do
  s.requireEpoch epoch
  ensure (cancelled = false) ⟨.cancelled, "ProveStream Finalize was cancelled"⟩
  let signature ← require signature ⟨.internal, "attestation signing failed"⟩
  return ({ s with
    anchor
    blocks := s.blocks.drop startIndex
    provedThrough := max s.provedThrough toBlock }, signature)

end Session

theorem toNat_max (a b : UInt64) : (max a b).toNat = max a.toNat b.toNat := by
  change (if a ≤ b then b else a).toNat = _
  split
  case isTrue le => exact (Nat.max_eq_right (UInt64.le_iff_toNat_le.mp le)).symm
  case isFalse gt => exact (Nat.max_eq_left (Nat.le_of_not_le fun le => gt (UInt64.le_iff_toNat_le.mpr le))).symm

theorem toNat_min (a b : UInt64) : (min a b).toNat = min a.toNat b.toNat := by
  change (if a ≤ b then a else b).toNat = _
  split
  case isTrue le => exact (Nat.min_eq_left (UInt64.le_iff_toNat_le.mp le)).symm
  case isFalse gt => exact (Nat.min_eq_right (Nat.le_of_not_le fun le => gt (UInt64.le_iff_toNat_le.mpr le))).symm

structure Within (limits : ServiceLimits) (charges : List (Nat × Nat)) : Prop where
  blocks : charges.length ≤ limits.maxBlocks
  payloadBytes : (charges.map Prod.fst).sum ≤ limits.maxPayloadBytes
  witnessItems : (charges.map Prod.snd).sum ≤ limits.maxWitnessItems

variable {charges : List (Nat × Nat)} {limits : ServiceLimits}

theorem checkCharges_ok (h : checkCharges limits index bytes items charges = .ok u) : charges = [] ∨
      (index + charges.length ≤ limits.maxBlocks ∧ bytes + (charges.map Prod.fst).sum ≤ limits.maxPayloadBytes ∧
        items + (charges.map Prod.snd).sum ≤ limits.maxWitnessItems) := by
  induction charges generalizing index bytes items with
  | nil => exact .inl rfl
  | cons charge charges ih =>
    simp only [checkCharges, bind_eq_ok, ensure_eq_ok, exists_const] at h
    obtain ⟨room, _, _, payload, witness, rest⟩ := h
    right
    simp only [length_cons, map_cons, sum_cons]
    cases ih rest with
    | inl empty =>
      subst empty
      simpa using ⟨room, payload, witness⟩
    | inr sums => exact ⟨by omega, by omega, by omega⟩

theorem checkWindowQuota_ok (h : checkWindowQuota limits charges = .ok u) : Within limits charges := by
  cases checkCharges_ok h with
  | inl empty =>
    subst empty
    exact ⟨Nat.zero_le _, Nat.zero_le _, Nat.zero_le _⟩
  | inr sums => exact ⟨by simpa using sums.1, by simpa using sums.2.1, by simpa using sums.2.2⟩

theorem Within.sublist {fewer : List (Nat × Nat)} (h : Within limits charges)
    (sub : fewer.Sublist charges) : Within limits fewer :=
  ⟨sub.length_le.trans h.blocks, ((sub.map _).sum_le_sum (by simp)).trans h.payloadBytes,
    ((sub.map _).sum_le_sum (by simp)).trans h.witnessItems⟩

/-- The block the backend was asked for: the next one on its parent. -/
structure Artifact.Follows (parent : BlockAnchor) (a : Artifact) : Prop where
  number : a.number.toNat = parent.number.toNat + 1
  parentHash : a.parentHash = parent.hash
  preStateRoot : a.preStateRoot = parent.stateRoot

def SessionBlock.Follows (parent : BlockAnchor) (b : SessionBlock) : Prop := b.validated.Follows parent

def BlockAnchor.rank (a : BlockAnchor) : Nat := a.number.toNat

theorem SessionBlock.Follows.rank (a : BlockAnchor) (b : SessionBlock) (h : b.Follows a) : b.ends.rank = a.rank + 1 :=
  h.number

namespace Session

def Contiguous (s : Session) : Prop := Linked Follows ends s.anchor s.blocks

variable {s s' : Session} {limits : ServiceLimits} {epoch : UInt64}

theorem tip_eq (s : Session) : s.tip = tipOf ends s.anchor s.blocks := tipOf_eq_getLast?.symm

theorem Contiguous.tip_number (h : s.Contiguous) : s.tip.number.toNat = s.anchor.number.toNat + s.blocks.length := by
  rw [tip_eq]
  exact h.rank_tipOf Follows.rank

theorem anchorAt_eq {i : Nat} (bound : i ≤ s.blocks.length) : s.anchorAt i = tipOf ends s.anchor (s.blocks.take i) := by
  cases i with
  | zero => rfl
  | succ i =>
    have at_i : s.blocks[i]? = some s.blocks[i] := getElem?_eq_getElem bound
    rw [anchorAt, at_i, take_add_one, at_i, Option.toList_some, tipOf_concat]
    rfl

theorem rewind_eq_ok : s.rewind epoch ancestor token = .ok s' ↔
    s.epoch = epoch ∧ ∃ n, s.retainedThrough ancestor = .ok n ∧ { s.truncate n with
      provedThrough := min s.provedThrough (s.truncate n).tip.number
      epoch := nextEpoch s.epoch
      cancellation := token } = s' := by
  simp only [rewind, requireEpoch, bind_eq_ok, ensure_eq_ok, exists_const, pure_eq_ok]

theorem append_eq_ok : s.append epoch parent block = .ok s' ↔
    s.epoch = epoch ∧ s.tip = parent ∧ { s with blocks := s.blocks ++ [block] } = s' := by
  simp only [append, requireEpoch, bind_eq_ok, ensure_eq_ok, exists_const, pure_eq_ok]

theorem snapshot_admission {b witnessItems admission}
    (h : s.snapshot limits epoch b witnessItems = .ok (.inr admission)) : s.epoch = epoch ∧ admission.parent = s.tip ∧
      Within limits (s.unproved.map charge ++ [(admission.payloadBytes, admission.witnessItems)]) := by
  simp only [snapshot, requireEpoch, bind_eq_ok, ensure_eq_ok, exists_const] at h
  obtain ⟨same, h⟩ := h
  cases found : s.blocks.find? fun x => x.number = b.number ∧ b256Bytes x.validated.hash = b.hash with
  | some existing =>
    simp only [found] at h
    cases reply : duplicate b existing with
    | error e | ok v => rw [reply] at h; cases h
  | none =>
    simp only [found] at h
    cases admitted : s.charged limits b witnessItems with
    | error e => rw [admitted] at h; cases h
    | ok a =>
      rw [admitted] at h
      obtain rfl : a = admission := Sum.inr.inj (Except.ok.inj h)
      simp only [charged, bind_eq_ok, pure_eq_ok] at admitted
      obtain ⟨_, _, _, _, _, quota, rfl⟩ := admitted
      exact ⟨same, rfl, checkWindowQuota_ok quota⟩

theorem sign_eq_ok {cancelled signature anchor startIndex toBlock made} :
    s.sign epoch cancelled signature anchor startIndex toBlock = .ok (s', made) ↔
      s.epoch = epoch ∧ cancelled = false ∧ signature = some made ∧ s' = { s with
        anchor
        blocks := s.blocks.drop startIndex
        provedThrough := max s.provedThrough toBlock } := by
  simp only [sign, requireEpoch, bind_eq_ok, ensure_eq_ok, exists_const, require_eq_ok, pure_eq_ok, Prod.mk.injEq]
  constructor
  · rintro ⟨same, live, _, found, rfl, rfl⟩
    exact ⟨same, live, found, rfl⟩
  · rintro ⟨same, live, found, rfl⟩
    exact ⟨same, live, made, found, rfl, rfl⟩

def range (s : Session) (start count : Nat) : List SessionBlock := (s.blocks.drop start).take count

structure Selects (s : Session) (limits : ServiceLimits) (fromBlock toBlock : UInt64) (anchor : BlockAnchor)
    (window : ValidatedWindow) (start : Nat) : Prop where
  starts : fromBlock.toNat = s.anchor.number.toNat + 1 + start
  nonempty : fromBlock.toNat ≤ toBlock.toNat
  held : toBlock.toNat ≤ s.anchor.number.toNat + s.blocks.length
  boundary : anchor = tipOf ends s.anchor (s.blocks.take start)
  preBlock : window.windowPreBlockHash = anchor.hash
  blocks : window.blocks = (s.range start (toBlock.toNat + 1 - fromBlock.toNat)).map (·.validated.block)
  quota : Within limits ((s.range start (toBlock.toNat + 1 - fromBlock.toNat)).map charge)

theorem selectWindow_ok {fromBlock toBlock terminalHash anchor window start}
    (h : s.selectWindow limits fromBlock toBlock terminalHash = .ok (anchor, window, start)) :
    s.Selects limits fromBlock toBlock anchor window start := by
  simp only [selectWindow, bind_eq_ok, ensure_eq_ok, require_eq_ok, exists_const, pure_eq_ok, Prod.mk.injEq] at h
  obtain ⟨first, added, ⟨_, ordered⟩, above, ⟨_, inside⟩, _, quota, terminal, last, _, rfl, rfl, rfl⟩ := h
  have first_eq : first.toNat = s.anchor.number.toNat + 1 := checkedAdd_eq_some added
  have ordered' := UInt64.le_iff_toNat_le.mp ordered
  have above' := UInt64.le_iff_toNat_le.mp above
  have start_eq := UInt64.toNat_sub_of_le _ _ above
  have end_eq := UInt64.toNat_sub_of_le _ _ (UInt64.le_trans above ordered)
  have range_eq : (s.blocks.take ((toBlock - first).toNat + 1)).drop (fromBlock - first).toNat =
      s.range (fromBlock - first).toNat (toBlock.toNat + 1 - fromBlock.toNat) := by
    rw [range, drop_take]
    congr 1
    omega
  rw [range_eq] at quota last
  constructor
  case starts => omega
  case nonempty => exact ordered'
  case held => omega
  case boundary => exact anchorAt_eq (by omega)
  case preBlock => rfl
  case blocks =>
    rw [range_eq]
    conv_rhs => rw [← dropLast_append_getLast? terminal last]
    simp [ValidatedWindow.blocks]
  case quota => exact checkWindowQuota_ok quota

theorem Selects.extend {fromBlock toBlock anchor window start}
    (h : s.Selects limits fromBlock toBlock anchor window start) (same : s'.anchor = s.anchor)
    (longer : s.blocks <+: s'.blocks) : s'.Selects limits fromBlock toBlock anchor window start := by
  obtain ⟨more, extended⟩ := longer
  have inside : start + (toBlock.toNat + 1 - fromBlock.toNat) ≤ s.blocks.length := by
    have := h.starts
    have := h.held
    have := h.nonempty
    omega
  have range_eq : s'.range start (toBlock.toNat + 1 - fromBlock.toNat) =
      s.range start (toBlock.toNat + 1 - fromBlock.toNat) := by
    rw [range, range, ← extended, drop_append_of_le_length (by omega),
      take_append_of_le_length (by rw [length_drop]; omega)]
  have below : s'.blocks.take start = s.blocks.take start := by
    rw [← extended, take_append_of_le_length (by omega)]
  constructor
  case starts => rw [same]; exact h.starts
  case nonempty => exact h.nonempty
  case held =>
    have := h.held
    rw [same, ← extended, length_append]
    omega
  case boundary => rw [same, below]; exact h.boundary
  case preBlock => exact h.preBlock
  case blocks => rw [range_eq]; exact h.blocks
  case quota => rw [range_eq]; exact h.quota

end Session

end Eez.Sessions
