import EezRollup.Codec.Canonical
import EezRollup.Lib.Faulty

/-! The span decoder as the machine runs it: an index into a fixed body, integers that wrap, and a
record of every capacity it reserves and every operation it does not check. -/
open List
namespace Eez.Codec
open CodecError
open Octets Outcome Faulty

/-- What the machine does without asking: reserve room, extend a column of `blockCount` values,
compute `exact` in `width` bits. -/
inductive Event where
  | reserve (capacity : Nat)
  | column (length blockCount : Nat)
  | arithmetic (exact : Int) (width : Nat)

def Event.Safe (limit : Nat) : Event → Prop
  | reserve capacity => capacity ≤ limit
  | column length blockCount => length ≤ blockCount
  | arithmetic exact width => 0 ≤ exact ∧ exact < 2 ^ width

theorem Event.Safe.mono (le : limit ≤ limit') {e : Event} (h : e.Safe limit) : e.Safe limit' := by
  cases e with
  | reserve capacity => exact Nat.le_trans h le
  | column length blockCount | arithmetic exact width => exact h

def CodecError.Late : CodecError → Prop
  | truncated what => what = "pure_transaction_bytes"
  | trailingBytes _ => True
  | _ => False

theorem CodecError.not_late_truncated (h : what ≠ "pure_transaction_bytes") : ¬(truncated what).Late := h

/-- A byte slice the machine can hold, at most `isize::MAX` bytes long. -/
structure Slice where
  bytes : Bytes
  fits : bytes.length < 2 ^ 63

structure Cursor where
  position : Nat
  events : List Event

namespace Cursor

abbrev Decoder (α : Type) := Prog CodecError Cursor α

def usizeBits : Nat := 64

def record (e : Event) (cur : Cursor) : Cursor := { cur with events := cur.events ++ [e] }

def note (e : Event) : Decoder Unit := modify (record e)

/-- An operation the source does not check: its result is cut to the width. -/
def unchecked (width : Nat) (exact : Int) : Decoder Nat := do
  note (.arithmetic exact width)
  return (exact % 2 ^ width).toNat

section
variable (body : Bytes)

def remaining : Decoder Nat := do
  let cur ← get
  unchecked usizeBits (body.length - cur.position)

def remaining64 : Decoder Nat := do
  let left ← remaining body
  unchecked 64 left

def take (what : String) (len : Nat) : Decoder Bytes := do
  let cur ← get
  lift (ensure (cur.position + len < 2 ^ usizeBits) (.truncated what))
  lift (ensure (cur.position + len ≤ body.length) (.truncated what))
  modify fun cur => { cur with position := cur.position + len }
  return (body.drop cur.position).take len

def toVec (bytes : Bytes) : Decoder Bytes := do
  note (.reserve bytes.length)
  return bytes

def byte (what : String) : Decoder UInt8 := do
  let out ← take body what 1
  return out.headD 0

def uvarint32Loop (what : String) : Nat → Nat → Nat → Decoder UInt32
  | 0, _, _ => throw (.nonCanonicalVarint what)
  | left+1, i, value => do
    let b ← byte body what
    let group := (b &&& 0x7f).toNat
    lift (ensure (¬(i = maxUvarint32Bytes - 1 ∧ group > 0x0f)) (.nonCanonicalVarint what))
    let amount ← unchecked usizeBits (7 * i : Nat)
    -- A shift takes the low six bits of its amount.
    let amount ← unchecked 6 amount
    let shifted ← unchecked 64 (group <<< amount : Nat)
    let value := value ||| shifted
    if b &&& 0x80 = 0 then do
      lift (ensure (¬(i > 0 ∧ group = 0)) (.nonCanonicalVarint what))
      lift (ensure (value < 2 ^ 32) (.nonCanonicalVarint what))
      return UInt32.ofNat value
    else uvarint32Loop what left (i + 1) value

def uvarint32 (what : String) : Decoder UInt32 := uvarint32Loop body what maxUvarint32Bytes 0 0

def checkPlausible (what : String) (value perElement : Nat) : Decoder Unit := do
  let left ← remaining64 body
  lift (ensure (value ≤ left / perElement) (.implausibleCount what value left))

/-- The error of a failed addition is built before the addition is looked at. -/
def readCounts : Nat → Nat → Decoder (List UInt32 × Nat)
  | 0, total => return ([], total)
  | blocks+1, total => do
    let count ← uvarint32 body "pure_transaction_counts"
    let left ← remaining64 body
    lift (ensure (total + count.toNat < 2 ^ 64) (.implausibleCount "pure_transaction_counts" count.toNat left))
    let (counts, total) ← readCounts blocks (total + count.toNat)
    return (count :: counts, total)

def decodeRunsLoop {α : Type} [DecidableEq α] (blockCount : UInt32) (what : String) (value : Decoder α) :
    Nat → List α → Option α → Decoder (List α)
  | 0, out, _ => return out
  | fuel+1, out, previous => do
    let covered ← unchecked 32 out.length
    if covered < blockCount.toNat then do
      let runLength ← uvarint32 body what
      lift (ensure (runLength.toNat ≠ 0) (.runCoverage what))
      let v ← value
      lift (ensure (previous ≠ some v) (.nonMaximalRun what))
      let length ← unchecked 64 out.length
      let reach ← unchecked 64 (length + runLength.toNat : Nat)
      lift (ensure (reach ≤ blockCount.toNat) (.runCoverage what))
      let run ← unchecked usizeBits runLength.toNat
      note (.column (out ++ replicate run v).length blockCount.toNat)
      decodeRunsLoop blockCount what value fuel (out ++ replicate run v) (some v)
    else return out

/-- Every run covers a block, so the loop ends within `blockCount` runs and one last look at its
condition. -/
def decodeRuns {α : Type} [DecidableEq α] (blockCount : UInt32) (what : String) (value : Decoder α) :
    Decoder (List α) := do
  let capacity ← unchecked usizeBits blockCount.toNat
  note (.reserve capacity)
  decodeRunsLoop body blockCount what value (blockCount.toNat + 1) [] none

def readBeneficiary : Decoder (BitVec 160) := do
  let bytes ← take body "beneficiary" 20
  return BitVec.ofNat 160 (ofLe bytes.reverse)

def readExtraData : Decoder Bytes := do
  let len ← byte body "extra_data_length"
  lift (ensure (len.toNat ≤ maxExtraData) (.extraDataTooLong len))
  let bytes ← take body "extra_data" len.toNat
  toVec bytes

def readLengths : Nat → Nat → Nat → Decoder (List Nat × Nat)
  | 0, _, total => return ([], total)
  | left+1, i, total => do
    let len ← uvarint32 body "pure_transaction_lengths"
    let index ← unchecked usizeBits i
    lift (ensure (len.toNat ≠ 0) (.emptyTransaction index))
    let left' ← remaining64 body
    lift (ensure (total + len.toNat < 2 ^ 64) (.txByteMismatch (2 ^ 64 - 1) left'))
    let length ← unchecked usizeBits len.toNat
    let (lengths, total) ← readLengths left (i + 1) (total + len.toNat)
    return (length :: lengths, total)

def readTransactions : List Nat → Decoder (List RawTx)
  | [] => return []
  | len :: lengths => do
    let bytes ← take body "pure_transaction_bytes" len
    let tx ← toVec bytes
    let txs ← readTransactions lengths
    return tx :: txs

def decodeBody : Decoder DecodedSpan := do
  let blockCount ← uvarint32 body "block_count"
  lift (ensure (blockCount.toNat ≠ 0) .emptySpan)
  checkPlausible body "block_count" blockCount.toNat 1
  let capacity ← unchecked usizeBits blockCount.toNat
  note (.reserve capacity)
  let (counts, totalTxs) ← readCounts body blockCount.toNat 0
  let beneficiaries ← decodeRuns body blockCount "beneficiary" (readBeneficiary body)
  let extraData ← decodeRuns body blockCount "extra_data" (readExtraData body)
  checkPlausible body "pure_transaction_counts" totalTxs 2
  let capacity ← unchecked usizeBits totalTxs
  note (.reserve capacity)
  let (lengths, totalBytes) ← readLengths body totalTxs 0 0
  let left ← remaining64 body
  lift (ensure (totalBytes = left) (.txByteMismatch totalBytes left))
  note (.reserve lengths.length)
  let transactions ← readTransactions body lengths
  let left ← remaining body
  lift (ensure (left = 0) (.trailingBytes left))
  return ⟨counts, beneficiaries, extraData, transactions⟩

end

def decode : Bytes → Decoder DecodedSpan
  | [] => throw .empty
  | version :: body => do
    lift (ensure (version = payloadVersionV0) (.unsupportedVersion version))
    decodeBody body

def run (payload : Slice) : Except CodecError DecodedSpan × Cursor := exec (decode payload.bytes) ⟨0, []⟩

section
variable {body : Bytes} {s : Cursor} {α β ρ τ : Type}

def unread (body : Bytes) (s : Cursor) : Bytes := body.drop s.position

structure Sound (body : Bytes) (s : Cursor) : Prop where
  within : s.position ≤ body.length
  safe : ∀ e ∈ s.events, e.Safe body.length

/-- From `s` the machine does what the plain computation does, safely, and no late error is met. -/
abbrev Mirrors (body : Bytes) (shown : α → Cursor → ρ) (x : Decoder α) (s : Cursor) (r : Except CodecError ρ) : Prop :=
  Follows (Sound body) (fun e => ¬e.Late) shown x s r

/-- The machine reads what the reader over the unread bytes reads. -/
abbrev Reads (body : Bytes) (x : Decoder α) (s : Cursor) (r : Except CodecError (α × Bytes)) : Prop :=
  Mirrors body (fun a t => (a, unread body t)) x s r

theorem Sound.record (h : Sound body s) (safe : e.Safe body.length) : Sound body (s.record e) := by
  refine ⟨h.within, ?_⟩
  intro e' mem
  rcases mem_append.mp mem with old | new
  · exact h.safe e' old
  · rw [mem_singleton.mp new]
    exact safe

theorem Sound.length_unread (h : Sound body s) : ((unread body s).length : Int) = body.length - s.position := by
  rw [unread, length_drop]
  have := h.within
  omega

variable {f : Unit → Decoder β} {r : Except CodecError τ} {shown : β → Cursor → τ} {what : String} {rest : Bytes}

theorem Mirrors.note (safe : e.Safe body.length) (good : Sound body s)
    (rest : Sound body (s.record e) → Mirrors body shown (f ()) (s.record e) r) :
    Mirrors body shown (note e >>= f) s r :=
  Follows.silent rfl (rest (good.record safe))

theorem Mirrors.unchecked {f} {n : Nat} (fits : n < 2 ^ width) (good : Sound body s)
    (rest : Sound body (s.record (.arithmetic n width)) → Mirrors body shown (f n) (s.record (.arithmetic n width)) r) :
    Mirrors body shown (unchecked width n >>= f) s r := by
  have exact_lt : (n : Int) < 2 ^ width := by exact_mod_cast fits
  have result : (((n : Int) % 2 ^ width).toNat) = n := by
    rw [Int.emod_eq_of_lt (Int.natCast_nonneg n) exact_lt, Int.toNat_natCast]
  have ran : exec (Cursor.unchecked width n) s = (.ok n, s.record (.arithmetic n width)) := by
    change (Except.ok _, _) = _
    rw [result]
  exact Follows.silent ran (rest (good.record ⟨Int.natCast_nonneg n, exact_lt⟩))

theorem Mirrors.ensure [Decidable p] (good : Sound body s)
    (expected : ¬p → ¬e.Late) (rest : p → Mirrors body shown (f ()) s (g ())) :
    Mirrors body shown (lift (Outcome.ensure p e) >>= f) s (Outcome.ensure p e >>= g) := by
  by_cases holds : p
  · rw [ensure_pos holds]
    exact Follows.silent rfl (rest holds)
  · rw [ensure_neg holds]
    exact ⟨rfl, good, expected holds⟩

section
variable (small : body.length < 2 ^ 63) (good : Sound body s)
include small good

theorem Mirrors.remaining {f}
    (rest : ∀ t, Sound body t → unread body t = unread body s → Mirrors body shown (f (unread body t).length) t r) :
    Mirrors body shown (remaining body >>= f) s r := by
  unfold Cursor.remaining
  rw [bind_assoc]
  refine Follows.silent exec_get ?_
  rw [← good.length_unread]
  refine Mirrors.unchecked ?_ good fun good' => rest _ good' rfl
  rw [unread, length_drop, usizeBits]
  omega

theorem Mirrors.remaining64 {f}
    (rest : ∀ t, Sound body t → unread body t = unread body s → Mirrors body shown (f (unread body t).length) t r) :
    Mirrors body shown (remaining64 body >>= f) s r := by
  unfold Cursor.remaining64
  rw [bind_assoc]
  refine Mirrors.remaining small good ?_
  intro t good' same
  refine Mirrors.unchecked ?_ good' fun good'' => rest _ good'' same
  rw [unread, length_drop]
  omega

theorem reads_take (expected : (truncated what).Late → len ≤ (unread body s).length) :
    Reads body (take body what len) s (Codec.take what len (unread body s)) := by
  have room : len ≤ (unread body s).length ↔ s.position + len ≤ body.length := by
    rw [unread, length_drop]
    have := good.within
    omega
  unfold Reads Mirrors Follows
  by_cases within : len ≤ (unread body s).length
  · have fits := room.mp within
    have ran : exec (take body what len) s =
        (.ok ((unread body s).take len), { s with position := s.position + len }) := by
      unfold Cursor.take
      simp only [exec_bind, exec_get, exec_lift, exec_modify, exec_pure, ensure_pos fits,
        ensure_pos (show s.position + len < 2 ^ usizeBits by rw [usizeBits]; omega)]
      rfl
    rw [ran]
    refine ⟨?_, fits, good.safe⟩
    rw [Codec.take, if_pos within]
    simp only [unread, drop_drop]
  · have ran : exec (take body what len) s = (.error (.truncated what), s) := by
      unfold Cursor.take
      have beyond : ¬s.position + len ≤ body.length := fun fits => within (room.mpr fits)
      by_cases wraps : s.position + len < 2 ^ usizeBits
      · simp only [exec_bind, exec_get, exec_lift, ensure_pos wraps, ensure_neg beyond]
      · simp only [exec_bind, exec_get, exec_lift, ensure_neg wraps]
    rw [ran]
    refine ⟨?_, good, fun late => within (expected late)⟩
    rw [Codec.take, if_neg within]

end

theorem byte_eq_take (what : String) (cur : Bytes) :
    Codec.byte what cur = Codec.take what 1 cur >>= fun out => .ok (out.1.headD 0, out.2) := by
  cases cur with
  | nil => rfl
  | cons b cur => simp [Codec.byte, Codec.take]

theorem reads_byte (small : body.length < 2 ^ 63) (good : Sound body s) (expected : ¬(truncated what).Late) :
    Reads body (byte body what) s (Codec.byte what (unread body s)) := by
  rw [byte_eq_take]
  refine Follows.bind (reads_take small good fun late => absurd late expected) ?_
  intro out t good _
  exact Follows.pure good

theorem group_fits (b : UInt8) (early : i < 5) : (b &&& 0x7f).toNat <<< (7 * i) < 2 ^ 64 := by
  have group_lt : (b &&& 0x7f).toNat < 2 ^ 7 := by
    rw [low_group]
    exact Nat.mod_lt _ (by decide)
  rw [Nat.shiftLeft_eq]
  calc (b &&& 0x7f).toNat * 2 ^ (7 * i)
    _ < 2 ^ 7 * 2 ^ (7 * i) := Nat.mul_lt_mul_of_pos_right group_lt (Nat.two_pow_pos _)
    _ = 2 ^ (7 + 7 * i) := (Nat.pow_add 2 7 (7 * i)).symm
    _ ≤ 2 ^ 64 := Nat.pow_le_pow_right (by decide) (by omega)

section
variable (small : body.length < 2 ^ 63)
include small

theorem reads_uvarint32Loop (expected : ¬(truncated what).Late)
    (left i value : Nat) (bound : left + i = maxUvarint32Bytes) (good : Sound body s) :
    Reads body (uvarint32Loop body what left i value) s (Codec.uvarint32Loop what left i value (unread body s)) := by
  induction left generalizing i value s with
  | zero => exact ⟨rfl, good, id⟩
  | succ left ih =>
    have early : i < 5 := by
      unfold maxUvarint32Bytes at bound
      omega
    refine Follows.bind (reads_byte small good expected) ?_
    intro b t good _
    refine Mirrors.ensure good (fun _ => id) ?_
    intro _
    refine Mirrors.unchecked (by rw [usizeBits]; omega) good ?_
    intro good
    refine Mirrors.unchecked (by omega) good ?_
    intro good
    refine Mirrors.unchecked (group_fits b early) good ?_
    intro good
    by_cases last : b &&& 0x80 = 0
    · rw [if_pos last, if_pos last]
      refine Mirrors.ensure good (fun _ => id) ?_
      intro _
      refine Mirrors.ensure good (fun _ => id) ?_
      intro _
      exact Follows.pure good
    · rw [if_neg last, if_neg last]
      exact ih (i + 1) _ (by omega) good

theorem reads_uvarint32 (good : Sound body s) (expected : ¬(truncated what).Late) :
    Reads body (uvarint32 body what) s (Codec.uvarint32 what (unread body s)) :=
  reads_uvarint32Loop small expected _ 0 0 rfl good

theorem mirrors_checkPlausible
    (good : Sound body s)
    (rest : ∀ t, Sound body t → unread body t = unread body s → value ≤ (unread body t).length / perElement →
      Mirrors body shown (f ()) t (g ())) :
    Mirrors body shown (checkPlausible body what value perElement >>= f) s
      (Codec.checkPlausible what value perElement (unread body s) >>= g) := by
  unfold Cursor.checkPlausible
  rw [bind_assoc]
  refine Mirrors.remaining64 small good ?_
  intro t good same
  rw [← same]
  exact Mirrors.ensure good (fun _ => id) fun backed => rest t good same backed

theorem mirrors_readCounts (blocks total : Nat) (good : Sound body s) :
    Mirrors body (fun out t => (out.1, out.2, unread body t)) (readCounts body blocks total) s
      (Codec.readCounts blocks total (unread body s)) := by
  induction blocks generalizing total s with
  | zero => exact Follows.pure good
  | succ blocks ih =>
    refine Follows.bind (reads_uvarint32 small good (not_late_truncated (by decide))) ?_
    intro count t good _
    refine Mirrors.remaining64 small good ?_
    intro t good same
    rw [← same]
    refine Mirrors.ensure good (fun _ => id) ?_
    intro _
    refine Follows.bind (ih _ good) ?_
    intro out t good _
    exact Follows.pure good

end

theorem decodeRunsLoop_eq [DecidableEq α] (blockCount : Nat) (what : String) (value : Reader α)
    (out : List α) (previous : Option α) (cur : Bytes) :
    Codec.decodeRunsLoop blockCount what value out previous cur = if out.length < blockCount then do
        let (runLength, cur) ← Codec.uvarint32 what cur
        ensure (runLength.toNat ≠ 0) (.runCoverage what)
        let (v, cur) ← value cur
        ensure (previous ≠ some v) (.nonMaximalRun what)
        ensure (out.length + runLength.toNat ≤ blockCount) (.runCoverage what)
        Codec.decodeRunsLoop blockCount what value (out ++ replicate runLength.toNat v) (some v) cur
      else .ok (out, cur) := by
  rw [Codec.decodeRunsLoop]
  split
  · cases Codec.uvarint32 what cur with
    | error e => rfl
    | ok read =>
      obtain ⟨run, cur⟩ := read
      by_cases zero : run.toNat = 0
      · simp only [ok_bind, ensure_neg (not_not.mpr zero), if_pos zero]
        rfl
      · simp only [ok_bind, ensure_pos zero, if_neg zero]
        cases value cur with
        | error e => rfl
        | ok read =>
          obtain ⟨v, cur⟩ := read
          by_cases repeats : previous = some v
          · simp only [ok_bind, ensure_neg (not_not.mpr repeats), if_pos repeats]
            rfl
          · simp only [ok_bind, ensure_pos repeats, if_neg repeats]
            by_cases fits : out.length + run.toNat ≤ blockCount
            · simp only [ok_bind, ensure_pos fits, if_neg (Nat.not_lt.mpr fits)]
            · simp only [ensure_neg fits, if_pos (Nat.lt_of_not_le fits)]
              rfl
  · rfl

theorem reads_decodeRunsLoop [DecidableEq α] (small : body.length < 2 ^ 63)
    (expected : ¬(truncated what).Late) (reads : ∀ t, Sound body t → Reads body value t (reader (unread body t)))
    (fuel : Nat) (out : List α) (previous : Option α) (enough : blockCount.toNat < fuel + out.length)
    (covered : out.length ≤ blockCount.toNat) (good : Sound body s) :
    Reads body (decodeRunsLoop body blockCount what value fuel out previous) s
      (Codec.decodeRunsLoop blockCount.toNat what reader out previous (unread body s)) := by
  have width := blockCount.toNat_lt
  induction fuel generalizing out previous s with
  | zero => omega
  | succ fuel ih =>
    rw [decodeRunsLoop_eq]
    refine Mirrors.unchecked (by omega) good ?_
    intro good
    by_cases more : out.length < blockCount.toNat
    · rw [if_pos more, if_pos more]
      refine Follows.bind (reads_uvarint32 small good expected) ?_
      intro run t good _
      refine Mirrors.ensure good (fun _ => id) ?_
      intro positive
      refine Follows.bind (reads t good) ?_
      intro v t good _
      refine Mirrors.ensure good (fun _ => id) ?_
      intro _
      have run_lt := run.toNat_lt
      refine Mirrors.unchecked (by omega) good ?_
      intro good
      refine Mirrors.unchecked (by omega) good ?_
      intro good
      refine Mirrors.ensure good (fun _ => id) ?_
      intro fits
      have grown : (out ++ replicate run.toNat v).length = out.length + run.toNat := by
        rw [length_append, length_replicate]
      refine Mirrors.unchecked (by rw [usizeBits]; omega) good ?_
      intro good
      refine Mirrors.note (grown ▸ fits) good ?_
      intro good
      exact ih _ _ (by omega) (by omega) good
    · rw [if_neg more, if_neg more]
      exact Follows.pure good

theorem reads_decodeRuns [DecidableEq α] {blockCount}
    {reader : Reader α} (small : body.length < 2 ^ 63) (expected : ¬(truncated what).Late)
    (reads : ∀ t, Sound body t → Reads body value t (reader (unread body t)))
    (backed : blockCount.toNat ≤ body.length) (good : Sound body s) :
    Reads body (decodeRuns body blockCount what value) s
    (Codec.decodeRuns blockCount.toNat what reader (unread body s)) := by
  have width := blockCount.toNat_lt
  refine Mirrors.unchecked (by rw [usizeBits]; omega) good ?_
  intro good
  refine Mirrors.note backed good ?_
  intro good
  exact reads_decodeRunsLoop small expected reads _ [] none (Nat.lt_succ_self _) (Nat.zero_le _) good

theorem reads_readBeneficiary (small : body.length < 2 ^ 63) (good : Sound body s) :
    Reads body (readBeneficiary body) s (Codec.readBeneficiary (unread body s)) := by
  refine Follows.bind (reads_take small good fun late => absurd late (not_late_truncated (by decide))) ?_
  intro bytes t good _
  exact Follows.pure good

theorem reads_toVec (fits : bytes.length ≤ body.length) (good : Sound body s) :
    Reads body (toVec bytes) s (.ok (bytes, unread body s)) := by
  refine Mirrors.note fits good ?_
  intro good
  exact Follows.pure good

theorem length_taken (h : Codec.take what len (unread body s) = .ok (bytes, rest)) : bytes.length ≤ body.length := by
  obtain ⟨split, _⟩ := take_eq_ok h
  have length := congrArg List.length split
  rw [unread, length_drop, length_append] at length
  omega

theorem reads_readExtraData (small : body.length < 2 ^ 63) (good : Sound body s) :
    Reads body (readExtraData body) s (Codec.readExtraData (unread body s)) := by
  refine Follows.bind (reads_byte small good (not_late_truncated (by decide))) ?_
  intro len t good _
  refine Mirrors.ensure good (fun _ => id) ?_
  intro _
  have copied : Codec.take "extra_data" len.toNat (unread body t) =
      Codec.take "extra_data" len.toNat (unread body t) >>= fun out => .ok out := by
    cases Codec.take "extra_data" len.toNat (unread body t) <;> rfl
  rw [copied]
  refine Follows.bind (reads_take small good fun late => absurd late (not_late_truncated (by decide))) ?_
  intro bytes t good taken
  exact reads_toVec (length_taken taken) good

theorem mirrors_readLengths (small : body.length < 2 ^ 63) (left i total : Nat) (indexed : i + left < 2 ^ 64)
    (good : Sound body s) :
    Mirrors body (fun out t => (out.1, out.2, unread body t)) (readLengths body left i total) s
      (Codec.readLengths left i total (unread body s)) := by
  induction left generalizing i total s with
  | zero => exact Follows.pure good
  | succ left ih =>
    refine Follows.bind (reads_uvarint32 small good (not_late_truncated (by decide))) ?_
    intro len u good _
    have width := len.toNat_lt
    refine Mirrors.unchecked (by rw [usizeBits]; omega) good ?_
    intro good
    refine Mirrors.ensure good (fun _ => id) ?_
    intro _
    refine Mirrors.remaining64 small good ?_
    intro t good same
    rw [show unread body u = unread body t from same.symm]
    refine Mirrors.ensure good (fun _ => id) ?_
    intro _
    refine Mirrors.unchecked (by rw [usizeBits]; omega) good ?_
    intro good
    refine Follows.bind (ih (i + 1) _ (by omega) good) ?_
    intro out t good _
    exact Follows.pure good

theorem readLengths_total
    (h : Codec.readLengths n i total cur = .ok (lengths, total', rest)) : total' = total + lengths.sum := by
  induction n generalizing i total cur lengths rest with
  | zero =>
    simp only [Codec.readLengths, Except.ok.injEq, Prod.mk.injEq] at h
    obtain ⟨rfl, rfl, _⟩ := h
    rfl
  | succ n ih =>
    simp only [Codec.readLengths, bind_eq_ok, Prod.exists, pure_eq_ok, Prod.mk.injEq] at h
    obtain ⟨len, _, _, _, _, _, _, lengths', _, _, others, rfl, rfl, _⟩ := h
    rw [ih others, sum_cons, Nat.add_assoc]

theorem readTransactions_total (h : Codec.readTransactions lengths cur = .ok (txs, rest)) :
    cur.length = lengths.sum + rest.length := by
  obtain ⟨written, sizes⟩ := readTransactions_written h
  rw [written, length_append, length_flatten, sizes]

theorem reads_readTransactions (small : body.length < 2 ^ 63) (lengths : List Nat)
    (total : lengths.sum = (unread body s).length) (good : Sound body s) :
    Reads body (readTransactions body lengths) s (Codec.readTransactions lengths (unread body s)) := by
  induction lengths generalizing s with
  | nil => exact Follows.pure good
  | cons len lengths ih =>
    rw [sum_cons] at total
    refine Follows.bind (reads_take small good fun _ => by omega) ?_
    intro bytes t good taken
    obtain ⟨split, length⟩ := take_eq_ok taken
    have left : lengths.sum = (unread body t).length := by
      have whole := congrArg List.length split
      rw [length_append] at whole
      omega
    have good := good.record (show (Event.reserve bytes.length).Safe body.length from length_taken taken)
    refine Follows.silent rfl ?_
    refine Follows.bind (ih left good) ?_
    intro txs t good _
    exact Follows.pure good

theorem mirrors_decodeBody (small : body.length < 2 ^ 63) (good : Sound body s) :
    Mirrors body (fun span _ => span) (decodeBody body) s (Codec.decodeBody (unread body s)) := by
  refine Follows.bind (reads_uvarint32 small good (not_late_truncated (by decide))) ?_
  intro blockCount t good _
  have width := blockCount.toNat_lt
  refine Mirrors.ensure good (fun _ => id) ?_
  intro _
  refine mirrors_checkPlausible small good ?_
  intro u good same backed
  have backed : blockCount.toNat ≤ body.length := by
    rw [unread, length_drop] at backed
    omega
  rw [← same]
  refine Mirrors.unchecked (by rw [usizeBits]; omega) good ?_
  intro good
  refine Mirrors.note backed good ?_
  intro good
  refine Follows.bind (mirrors_readCounts small _ 0 good) ?_
  intro counts t good _
  refine Follows.bind (reads_decodeRuns small (not_late_truncated (by decide))
    (fun _ good => reads_readBeneficiary small good) backed good) ?_
  intro beneficiaries t good _
  refine Follows.bind (reads_decodeRuns small (not_late_truncated (by decide))
    (fun _ good => reads_readExtraData small good) backed good) ?_
  intro extraData t good _
  refine mirrors_checkPlausible small good ?_
  intro u good same backed
  have backed : counts.2 ≤ body.length := by
    rw [unread, length_drop] at backed
    omega
  rw [← same]
  refine Mirrors.unchecked (by rw [usizeBits]; omega) good ?_
  intro good
  refine Mirrors.note backed good ?_
  intro good
  refine Follows.bind (mirrors_readLengths small _ 0 0 (by omega) good) ?_
  intro lengths t good read
  refine Mirrors.remaining64 small good ?_
  intro u good same
  rw [← same]
  refine Mirrors.ensure good (fun _ => id) ?_
  intro total
  have sum : lengths.1.sum = (unread body u).length := by
    rw [← total, readLengths_total read, Nat.zero_add]
  refine Mirrors.note ((readLengths_length read).trans_le backed) good ?_
  intro good
  refine Follows.bind (reads_readTransactions small _ sum good) ?_
  intro txs t good read
  refine Mirrors.remaining small good ?_
  intro u' good same
  rw [← same]
  refine Mirrors.ensure good ?_ ?_
  · -- Nothing is left once the declared bytes are taken.
    intro trailing
    have left : (unread body u).length = _ := readTransactions_total read
    rw [← sum, same.symm] at left
    exact absurd (by omega) trailing
  intro _
  exact Follows.pure good

theorem mirrors_decode (version : UInt8) (small : body.length < 2 ^ 63) (good : Sound body ⟨0, []⟩) :
    Mirrors body (fun span _ => span) (decode (version :: body)) ⟨0, []⟩ (Codec.decode (version :: body)) := by
  refine Mirrors.ensure good (fun _ => id) ?_
  intro _
  exact mirrors_decodeBody small good

theorem run_mirrors (payload : Slice) : (run payload).1 = Codec.decode payload.bytes ∧
      (∀ e ∈ (run payload).2.events, e.Safe payload.bytes.length) ∧
      ∀ e, (run payload).1 = .error e → ¬e.Late := by
  obtain ⟨bytes, fits⟩ := payload
  cases bytes with
  | nil =>
    refine ⟨rfl, forall_mem_nil _, ?_⟩
    intro e failed
    cases failed
    exact id
  | cons version body =>
    have small : body.length < 2 ^ 63 := Nat.lt_of_succ_lt fits
    have start : Sound body ⟨0, []⟩ := ⟨Nat.zero_le _, forall_mem_nil _⟩
    obtain ⟨t, ran, good, expected⟩ := (mirrors_decode version small start).exec_eq
    unfold run
    rw [ran]
    exact ⟨rfl, fun e mem => (good.safe e mem).mono (Nat.le_succ _), expected⟩

end

end Cursor

theorem decode_extraData {payload span} (h : decode payload = .ok span) :
    ∀ data ∈ span.extraData, data.length ≤ maxExtraData := by
  cases payload with
  | nil => cases h
  | cons version body =>
    simp only [decode, decodeBody, bind_eq_ok, checkPlausible, Prod.exists, pure_eq_ok] at h
    obtain ⟨_, _, _, _, _, _, _, _, _, _, _, _, _, _, _, _, extraData, _, read, _, _, _, _, _, _, _, _, _, _, _,
      _, _, rfl⟩ := h
    obtain ⟨runs, _, expanded, _, _, short⟩ := decodeRuns_written readExtraData_written read
    intro data mem
    rw [← expanded] at mem
    obtain ⟨run, listed, here⟩ := mem_flatMap.mp mem
    rw [eq_of_mem_replicate here]
    exact short run listed

/-- Arbitrary bytes are decoded safely: the machine answers as the reader does, what it accepts is a
span of at least one block whose columns fit together, every capacity it reserves is within the
payload, no column outgrows its blocks, no operation overflows, and once the byte sum is checked
nothing fails any more. -/
theorem run_safe (payload : Slice) : (Cursor.run payload).1 = decode payload.bytes ∧
      (∀ e ∈ (Cursor.run payload).2.events, e.Safe payload.bytes.length) ∧
      (∀ span, (Cursor.run payload).1 = .ok span → span.Consistent ∧ (∀ tx ∈ span.transactions, tx ≠ []) ∧
        ∀ data ∈ span.extraData, data.length ≤ maxExtraData) ∧
      ∀ e, (Cursor.run payload).1 = .error e → ¬e.Late := by
  obtain ⟨answer, safe, late⟩ := Cursor.run_mirrors payload
  refine ⟨answer, safe, ?_, late⟩
  intro span accepted
  rw [answer] at accepted
  exact ⟨decode_consistent accepted, decode_filled accepted, decode_extraData accepted⟩

end Eez.Codec
