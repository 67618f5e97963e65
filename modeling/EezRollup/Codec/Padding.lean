import EezRollup.Codec.Canonical

/-! The lengths of byte fields are the only place where a stream leaves a choice: a varint may be
padded. -/
open List
namespace Eez.Codec
open Octets Outcome

/-- `lead` is read as the length `n`, whatever follows it. -/
structure LengthField (lead : Bytes) (n : Nat) : Prop where
  small : n < 2 ^ 32
  reads : ∀ what rest, varint what (lead ++ rest) = .ok (UInt32.ofNat n, rest)

variable {n : Nat} {rest cur : Bytes} {what : String} {rollupId : UInt64}

theorem lengthField_putVarint (small : n < 2 ^ 32) : LengthField (putVarint n) n :=
  ⟨small, fun _ rest => varint_putVarint small rest⟩

theorem putVarint_cons_le (group : low < 128) :
    (putVarint (low + 128 * n)).length ≤ (putVarint n).length + 1 := by
  rw [putVarint]
  split
  · exact Nat.le_add_left 1 _
  · rw [show (low + 128 * n) / 128 = n by omega]
    exact Nat.le_refl _

theorem varintLoop_eq_ok (left i value : Nat) (cur : Bytes) (h : varintLoop what left i value cur = .ok (v, rest))
    (low : value < 2 ^ (7 * i)) :
    ∃ lead n, cur = lead ++ rest ∧ v.toNat = n * 2 ^ (7 * i) + value ∧ (putVarint n).length ≤ lead.length ∧
      ∀ what' rest', varintLoop what' left i value (lead ++ rest') = .ok (v, rest') := by
  induction left generalizing i value cur with
  | zero => cases h
  | succ left ih =>
    cases cur with
    | nil => cases h
    | cons b cur =>
      simp only [varintLoop, byte, ok_bind, bind_eq_ok, ensure_eq_ok] at h
      obtain ⟨_, last, h⟩ := h
      by_cases clear : b &&& 0x80 = 0
      · rw [if_pos clear] at h
        simp only [bind_eq_ok, ensure_eq_ok, pure_eq_ok, Prod.mk.injEq] at h
        obtain ⟨_, bound, value_eq, rest_eq⟩ := h
        have small := (high_bit_clear b).mp clear
        refine ⟨[b], b.toNat, by rw [rest_eq]; rfl, ?_, ?_, ?_⟩
        · rw [← value_eq, toNat_ofNat_of_lt bound, low_group, or_group low, Nat.mod_eq_of_lt small]
        · rw [putVarint, if_pos small]
          exact Nat.le_refl _
        · intro what' rest'
          simp only [varintLoop, cons_append, nil_append, byte, ok_bind, ensure_pos last, if_pos clear,
            ensure_pos bound, value_eq]
          rfl
      · rw [if_neg clear] at h
        have group : b.toNat % 128 < 128 := Nat.mod_lt _ (by decide)
        have value_eq : value ||| (b &&& 0x7f).toNat <<< (7 * i) = b.toNat % 128 * 2 ^ (7 * i) + value := by
          rw [low_group, or_group low]
        have width : 2 ^ (7 * (i + 1)) = 128 * 2 ^ (7 * i) := by
          rw [Nat.mul_succ, Nat.pow_add, Nat.mul_comm]
        have next : value ||| (b &&& 0x7f).toNat <<< (7 * i) < 2 ^ (7 * (i + 1)) := by
          have room : (b.toNat % 128 + 1) * 2 ^ (7 * i) ≤ 128 * 2 ^ (7 * i) := Nat.mul_le_mul_right _ group
          rw [Nat.add_mul, Nat.one_mul] at room
          omega
        obtain ⟨lead, n, cur_eq, v_eq, shorter, again⟩ := ih (i + 1) _ cur h next
        refine ⟨b :: lead, b.toNat % 128 + 128 * n, by rw [cur_eq]; rfl, ?_, ?_, ?_⟩
        · rw [v_eq, value_eq, width]
          ring
        · exact Nat.le_trans (putVarint_cons_le group) (Nat.succ_le_succ shorter)
        · intro what' rest'
          simp only [varintLoop, cons_append, byte, ok_bind, ensure_pos last, if_neg clear]
          exact again what' rest'

theorem varint_written (h : varint what cur = .ok (v, rest)) :
    ∃ lead, cur = lead ++ rest ∧ LengthField lead v.toNat := by
  obtain ⟨lead, _, cur_eq, _, _, again⟩ := varintLoop_eq_ok _ _ _ _ h (by decide)
  refine ⟨lead, cur_eq, v.toNat_lt, ?_⟩
  intro what' rest'
  rw [UInt32.ofNat_toNat]
  exact again what' rest'

theorem LengthField.shortest (h : LengthField lead n) : (putVarint n).length ≤ lead.length := by
  have read := h.reads "" []
  obtain ⟨lead', m, cur_eq, value_eq, shorter, _⟩ := varintLoop_eq_ok _ _ _ _ read (by decide)
  rw [toNat_ofNat_of_lt h.small, Nat.mul_zero, Nat.pow_zero, Nat.mul_one, Nat.add_zero] at value_eq
  rw [append_nil, append_nil] at cur_eq
  rw [cur_eq, value_eq]
  exact shorter

theorem takeBytes_written (h : takeBytes what cur = .ok (value, rest)) :
    ∃ lead, cur = lead ++ (value ++ rest) ∧ LengthField lead value.length := by
  simp only [takeBytes, bind_eq_ok, Prod.exists] at h
  obtain ⟨len, cur', read, taken⟩ := h
  obtain ⟨lead, cur_eq, field⟩ := varint_written read
  obtain ⟨split, length⟩ := take_eq_ok taken
  refine ⟨lead, by rw [cur_eq, split], ?_⟩
  rw [length]
  exact field

theorem LengthField.takeBytes (h : LengthField lead value.length) (what : String) (rest : Bytes) :
    takeBytes what (lead ++ (value ++ rest)) = .ok (value, rest) := by
  simp only [Codec.takeBytes, h.reads, ok_bind, toNat_ofNat_of_lt h.small, take_append rfl]

theorem take_leBytes (h : take what width cur = .ok (bytes, rest)) :
    cur = leBytes width (ofLe bytes) ++ rest ∧ ofLe bytes < 256 ^ width := by
  obtain ⟨split, length⟩ := take_eq_ok h
  subst length
  rw [leBytes_ofLe]
  exact ⟨split, ofLe_lt bytes⟩

theorem takeU64_written {n} (h : takeU64 what cur = .ok (n, rest)) : cur = leBytes 8 n.toNat ++ rest := by
  simp only [takeU64, bind_eq_ok, Prod.exists, pure_eq_ok, Prod.mk.injEq] at h
  obtain ⟨bytes, _, taken, rfl, rfl⟩ := h
  obtain ⟨written, bound⟩ := take_leBytes taken
  rw [UInt64.toNat_ofNat', Nat.mod_eq_of_lt (show ofLe bytes < 2 ^ 64 from bound)]
  exact written

theorem take_value_written (h : take what 32 cur = .ok (bytes, rest)) :
    cur = leBytes 32 (BitVec.ofNat 256 (ofLe bytes)).toNat ++ rest := by
  obtain ⟨written, bound⟩ := take_leBytes h
  rw [BitVec.toNat_ofNat, Nat.mod_eq_of_lt (show ofLe bytes < 2 ^ 256 from bound)]
  exact written

theorem expectMessage_written (h : expectMessage expected cur = .ok rest) : cur = expected :: rest := by
  cases cur with
  | nil => cases h
  | cons b cur =>
    simp only [expectMessage, byte, ok_bind, bind_eq_ok, ensure_eq_ok, pure_eq_ok] at h
    obtain ⟨_, rfl, rfl⟩ := h
    rfl

def returnMessage (success : Bool) : UInt8 := if success then msgReturnSuccess else msgReturnFail

theorem readReturnMessage_written (h : readReturnMessage cur = .ok (success, rest)) :
    cur = returnMessage success :: rest := by
  cases cur with
  | nil => cases h
  | cons b cur =>
    simp only [readReturnMessage, byte, ok_bind] at h
    split at h
    · next ok =>
      cases h
      rw [ok]
      rfl
    · split at h
      · next fail =>
        cases h
        rw [fail]
        rfl
      · cases h

/-- An action as a stream of `rollupId` holds it: `txLead`, `dataLead` and `returnLead` are its lengths. -/
structure Bracket (rollupId : UInt64) where
  action : Action
  allowed : action.targetRollupId = 0 ∨ action.targetRollupId = rollupId
  txLead : Bytes
  txReads : LengthField txLead 0
  dataLead : Bytes
  dataReads : LengthField dataLead action.data.length
  returnLead : Bytes
  returnReads : LengthField returnLead action.returnData.length

namespace Bracket

variable {rollupId : UInt64}

def bytes (b : Bracket rollupId) : Bytes :=
  msgInitiate :: (leBytes 8 b.action.sourceRollupId.toNat ++ (b.txLead ++
    msgCall :: (leBytes 8 b.action.targetRollupId.toNat ++ (beBytes 20 b.action.sourceAddress.toNat ++
      (beBytes 20 b.action.targetAddress.toNat ++ (leBytes 32 b.action.value.toNat ++ (leBytes 8 b.action.gas.toNat ++
        (b.dataLead ++ (b.action.data ++
    returnMessage b.action.success :: (b.returnLead ++ (b.action.returnData ++ [msgFinish])))))))))))

def shortest (b : Bracket rollupId) : Bracket rollupId :=
  { b with
    txLead := putVarint 0
    txReads := lengthField_putVarint b.txReads.small
    dataLead := putVarint b.action.data.length
    dataReads := lengthField_putVarint b.dataReads.small
    returnLead := putVarint b.action.returnData.length
    returnReads := lengthField_putVarint b.returnReads.small }

variable (b : Bracket rollupId)
include b

theorem decodeAction_bytes (rest : Bytes) : decodeAction rollupId (b.bytes ++ rest) = .ok (b.action, rest) := by
  have empty : LengthField b.txLead ([] : Bytes).length := b.txReads
  have txData := fun tail => empty.takeBytes "tx_data" tail
  have data := fun tail => b.dataReads.takeBytes "data" tail
  have returnData := fun tail => b.returnReads.takeBytes "return_data" tail
  simp only [nil_append] at txData
  simp only [bytes, cons_append, append_assoc, nil_append, decodeAction, expectMessage_cons, ok_bind,
    takeU64_append, txData, ensure_pos, validateTargetRollup, ensure_pos b.allowed, takeAddress_append,
    take_append (leBytes_length 32 _), data, returnMessage, readReturnMessage_cons, returnData, value_leBytes]
  rfl

theorem encodeAction_shortest : encodeAction b.action = .ok b.shortest.bytes := by
  simp only [encodeAction, bind_eq_ok, putBytes_eq_ok, pure_eq_ok]
  refine ⟨_, ⟨b.txReads.small, rfl⟩, _, ⟨b.dataReads.small, rfl⟩, _, ⟨b.returnReads.small, rfl⟩, ?_⟩
  simp only [bytes, shortest, returnMessage, append_assoc, append_nil, length_nil]
  rfl

theorem length_shortest : b.shortest.bytes.length ≤ b.bytes.length := by
  have := b.txReads.shortest
  have := b.dataReads.shortest
  have := b.returnReads.shortest
  simp only [bytes, shortest, length_cons, length_append]
  omega

theorem bytes_ne_nil : b.bytes ≠ [] := cons_ne_nil _ _

end Bracket

theorem decodeAction_written (h : decodeAction rollupId cur = .ok (a, rest)) :
    ∃ b : Bracket rollupId, b.action = a ∧ cur = b.bytes ++ rest := by
  simp only [decodeAction, bind_eq_ok, Prod.exists, pure_eq_ok, Prod.mk.injEq, validateTargetRollup, ensure_eq_ok] at h
  obtain ⟨c1, h1, _, c2, h2, _, c3, h3, _, rfl, c4, h4, _, c5, h5, _, allowed, _, c6, h6, _, c7, h7, _, c8, h8,
    _, c9, h9, _, c10, h10, _, c11, h11, _, c12, h12, c13, h13, rfl, rfl⟩ := h
  obtain ⟨txLead, tx_eq, txReads⟩ := takeBytes_written h3
  obtain ⟨dataLead, data_eq, dataReads⟩ := takeBytes_written h10
  obtain ⟨returnLead, return_eq, returnReads⟩ := takeBytes_written h12
  refine ⟨⟨_, allowed, txLead, txReads, dataLead, dataReads, returnLead, returnReads⟩, rfl, ?_⟩
  rw [expectMessage_written h1, takeU64_written h2, tx_eq, expectMessage_written h4, takeU64_written h5,
    takeAddress_written h6, takeAddress_written h7, take_value_written h8, takeU64_written h9, data_eq,
    readReturnMessage_written h11, return_eq, expectMessage_written h13]
  simp only [Bracket.bytes, cons_append, append_assoc, nil_append]

theorem decodeActions_written (h : decodeActions rollupId fuel cur = .ok actions) :
    ∃ bs : List (Bracket rollupId), bs.map Bracket.action = actions ∧ cur = bs.flatMap Bracket.bytes := by
  induction fuel generalizing cur actions with
  | zero =>
    cases cur with
    | nil =>
      cases h
      exact ⟨[], rfl, rfl⟩
    | cons b cur => cases h
  | succ fuel ih =>
    cases cur with
    | nil =>
      cases h
      exact ⟨[], rfl, rfl⟩
    | cons byte cur =>
      simp only [decodeActions, bind_eq_ok, Prod.exists, pure_eq_ok] at h
      obtain ⟨a, rest, first, actions, others, rfl⟩ := h
      obtain ⟨b, rfl, cur_eq⟩ := decodeAction_written first
      obtain ⟨bs, rfl, rfl⟩ := ih others
      exact ⟨b :: bs, rfl, cur_eq⟩

/-- A stream that is accepted, with the length of its chain operation as it stands. -/
structure Stream where
  rollupId : UInt64
  operations : Bytes
  span : DecodedSpan
  decoded : decode operations = .ok span
  lead : Bytes
  reads : LengthField lead operations.length
  brackets : List (Bracket rollupId)

namespace Stream

def head (s : Stream) : Bytes :=
  streamVersion :: msgChainOperation :: (leBytes 8 s.rollupId.toNat ++ (s.lead ++ s.operations))

def bytes (s : Stream) : Bytes := s.head ++ s.brackets.flatMap Bracket.bytes

def container (s : Stream) : DecodedContainer := ⟨s.rollupId, s.span, s.brackets.map Bracket.action⟩

def shortest (s : Stream) : Stream :=
  { s with
    lead := putVarint s.operations.length
    reads := lengthField_putVarint s.reads.small
    brackets := s.brackets.map Bracket.shortest }

def upTo (s : Stream) (k : Nat) : Stream := { s with brackets := s.brackets.take k }

theorem decodeContainer_bytes (s : Stream) : decodeContainer s.bytes = .ok s.container := by
  have operations := s.reads.takeBytes "operations" (s.brackets.flatMap Bracket.bytes)
  have actions : decodeActions s.rollupId (s.brackets.flatMap Bracket.bytes).length (s.brackets.flatMap Bracket.bytes) =
      .ok (s.brackets.map Bracket.action) := by
    rw [flatMap_def]
    refine decodeActions_flatten ?_ _ (Nat.le_refl _)
    rw [forall₂_map_left_iff, forall₂_map_right_iff, forall₂_same]
    intro b _
    exact ⟨b.bytes_ne_nil, b.decodeAction_bytes⟩
  simp only [bytes, head, cons_append, append_assoc, decodeContainer, ensure_pos, ok_bind, expectMessage_cons,
    takeU64_append, operations, s.decoded, actions]
  rfl

end Stream

theorem decodeContainer_written (h : decodeContainer payload = .ok c) :
    ∃ s : Stream, s.container = c ∧ payload = s.bytes := by
  cases payload with
  | nil => cases h
  | cons version body =>
    simp only [decodeContainer, bind_eq_ok, ensure_eq_ok, Prod.exists, pure_eq_ok] at h
    obtain ⟨_, rfl, c1, h1, rollupId, c2, h2, operations, c3, h3, span, decoded, actions, h4, rfl⟩ := h
    obtain ⟨lead, operations_eq, reads⟩ := takeBytes_written h3
    obtain ⟨brackets, rfl, brackets_eq⟩ := decodeActions_written h4
    refine ⟨⟨rollupId, operations, span, decoded, lead, reads, brackets⟩, rfl, ?_⟩
    rw [expectMessage_written h1, takeU64_written h2, operations_eq, brackets_eq]
    simp only [Stream.bytes, Stream.head, cons_append, append_assoc]

namespace Stream

theorem shortest_container (s : Stream) : s.shortest.container = s.container := by
  simp only [container, shortest, map_map]
  rfl

theorem length_shortest (s : Stream) : s.shortest.bytes.length ≤ s.bytes.length := by
  have lead := s.reads.shortest
  have brackets : ((s.brackets.map Bracket.shortest).flatMap Bracket.bytes).length ≤
      (s.brackets.flatMap Bracket.bytes).length := by
    induction s.brackets with
    | nil => exact Nat.le_refl _
    | cons b bs ih =>
      rw [map_cons, flatMap_cons, flatMap_cons, length_append, length_append]
      exact Nat.add_le_add b.length_shortest ih
  simp only [bytes, head, shortest, length_cons, length_append]
  omega

theorem encodeContainer_shortest (s : Stream) (split : s.span.regroup = some blocks) :
    encodeContainer s.rollupId blocks (s.brackets.map Bracket.action) = .ok s.shortest.bytes := by
  have targets : Forall₂ (fun a u => validateTargetRollup s.rollupId a.targetRollupId = .ok u)
      (s.brackets.map Bracket.action) (s.brackets.map fun _ => ()) := by
    rw [forall₂_map_left_iff, forall₂_map_right_iff, forall₂_same]
    intro b _
    exact ensure_pos b.allowed
  have written : Forall₂ (fun a out => encodeAction a = .ok out) (s.brackets.map Bracket.action)
      (s.brackets.map fun b => b.shortest.bytes) := by
    rw [forall₂_map_left_iff, forall₂_map_right_iff, forall₂_same]
    intro b _
    exact b.encodeAction_shortest
  simp only [encodeContainer, bind_eq_ok, putBytes_eq_ok, pure_eq_ok, mapM_eq_ok]
  refine ⟨_, encode_of_decode s.decoded split, _, targets, _, ⟨s.reads.small, rfl⟩, _, written, ?_⟩
  simp only [bytes, head, shortest, cons_append, append_assoc, flatMap_def, map_map]
  rfl

theorem head_of_append {s t : Stream} (h : s.head ++ rest = t.head ++ rest') :
    s.rollupId = t.rollupId ∧ s.span = t.span ∧ s.head = t.head ∧ rest = rest' := by
  simp only [head, cons_append, append_assoc, List.cons.injEq, true_and] at h
  obtain ⟨id_eq, body_eq⟩ := append_inj h (by rw [leBytes_length, leBytes_length])
  have same_id : s.rollupId = t.rollupId :=
    UInt64.toNat_inj.mp (leBytes_injective s.rollupId.toNat_lt t.rollupId.toNat_lt id_eq)
  have read := s.reads.takeBytes "operations" rest
  rw [body_eq, t.reads.takeBytes "operations" rest'] at read
  obtain ⟨operations_eq, rest_eq⟩ := Prod.mk.inj (Except.ok.inj read)
  rw [rest_eq, operations_eq] at body_eq
  have lead_eq := append_cancel_right body_eq
  have span := t.decoded
  rw [operations_eq, s.decoded] at span
  refine ⟨same_id, Except.ok.inj span, ?_, rest_eq.symm⟩
  rw [head, head, same_id, lead_eq, operations_eq]

end Stream

theorem brackets_of_append {bs cs : List (Bracket rollupId)} {tail}
    (h : bs.flatMap Bracket.bytes ++ tail = cs.flatMap Bracket.bytes) :
    bs.length ≤ cs.length ∧ bs.map Bracket.action = (cs.map Bracket.action).take bs.length ∧
      bs.flatMap Bracket.bytes = (cs.take bs.length).flatMap Bracket.bytes := by
  induction bs generalizing cs with
  | nil => exact ⟨Nat.zero_le _, rfl, rfl⟩
  | cons b bs ih =>
    cases cs with
    | nil =>
      rw [flatMap_cons, append_assoc] at h
      exact absurd (append_eq_nil_iff.mp h).1 b.bytes_ne_nil
    | cons c cs =>
      rw [flatMap_cons, flatMap_cons, append_assoc] at h
      have read := b.decodeAction_bytes (bs.flatMap Bracket.bytes ++ tail)
      rw [h, c.decodeAction_bytes] at read
      obtain ⟨action_eq, rest_eq⟩ := Prod.mk.inj (Except.ok.inj read)
      obtain ⟨le, actions_eq, bytes_eq⟩ := ih rest_eq.symm
      rw [rest_eq] at h
      refine ⟨Nat.succ_le_succ le, ?_, ?_⟩
      · rw [map_cons, map_cons, length_cons, take_succ_cons, ← actions_eq, action_eq]
      · rw [length_cons, take_succ_cons, flatMap_cons, flatMap_cons, ← bytes_eq, append_cancel_right h]

namespace Stream

theorem decodeContainer_cut (s : Stream) {q : Bytes} (cut : q <+: s.bytes) (c : DecodedContainer) :
    decodeContainer q = .ok c ↔ ∃ k ≤ s.container.actions.length,
      q = (s.upTo k).bytes ∧ c = { s.container with actions := s.container.actions.take k } := by
  constructor
  · intro read
    obtain ⟨t, rfl, rfl⟩ := decodeContainer_written read
    obtain ⟨tail, whole⟩ := cut
    rw [bytes, bytes, append_assoc] at whole
    obtain ⟨same_id, same_span, same_head, rest⟩ := head_of_append whole
    cases s with
    | mk rollupId operations span decoded lead reads brackets =>
      cases t with
      | mk rollupId' operations' span' decoded' lead' reads' brackets' =>
        simp only at same_id same_span rest
        subst same_id same_span
        obtain ⟨le, actions_eq, bytes_eq⟩ := brackets_of_append rest
        refine ⟨brackets'.length, ?_, ?_, ?_⟩
        · simp only [container, length_map]
          exact le
        · rw [bytes, bytes, same_head]
          exact congrArg _ bytes_eq
        · simp only [container, actions_eq]
  · rintro ⟨k, _, rfl, rfl⟩
    rw [(s.upTo k).decodeContainer_bytes]
    simp only [container, upTo, map_take]

end Stream

/-- Padding of lengths is all that an accepted stream leaves open: shortening the lengths where they
stand gives what the writer puts for the container read, and that is accepted again. Cut short it is
accepted after the chain operation and after an action only. -/
theorem stream_malleability {payload : Bytes} {c : DecodedContainer} (h : decodeContainer payload = .ok c) :
    ∃ (s : Stream) (blocks : List SpanBlock), payload = s.bytes ∧ c = s.container ∧ c.span.regroup = some blocks ∧
      encodeContainer c.rollupId blocks c.actions = .ok s.shortest.bytes ∧
      decodeContainer s.shortest.bytes = .ok c ∧ s.shortest.bytes.length ≤ payload.length ∧
      (∀ lead n, LengthField lead n → LengthField (putVarint n) n ∧ (putVarint n).length ≤ lead.length) ∧
      ∀ q, q <+: s.shortest.bytes → ∀ c', decodeContainer q = .ok c' ↔
        ∃ k ≤ c.actions.length, q = (s.shortest.upTo k).bytes ∧ c' = { c with actions := c.actions.take k } := by
  obtain ⟨s, rfl, rfl⟩ := decodeContainer_written h
  have consistent := decode_consistent s.decoded
  obtain ⟨blocks, split⟩ := regroup_of_consistent consistent.beneficiaries consistent.extraData consistent.transactions
  refine ⟨s, blocks, rfl, rfl, split, s.encodeContainer_shortest split, ?_, s.length_shortest, ?_, ?_⟩
  · rw [s.shortest.decodeContainer_bytes, s.shortest_container]
  · intro lead n field
    exact ⟨lengthField_putVarint field.small, field.shortest⟩
  · intro q cut c'
    rw [s.shortest.decodeContainer_cut cut, s.shortest_container]

theorem paddedLead_reads : LengthField [0xa1, 0x00] twoBlocksPayload.length := by
  refine ⟨by decide, ?_⟩
  intro what rest
  rfl

def paddedStream : Stream where
  rollupId := 1
  operations := twoBlocksPayload
  span := spanOf twoBlocks
  decoded := decode_encode encode_twoBlocks (by decide) (by decide)
  lead := [0xa1, 0x00]
  reads := paddedLead_reads
  brackets := []

theorem stream_malleability_padded :
    ∃ s : Stream, paddedStream.bytes = s.bytes ∧ decodeContainer s.shortest.bytes = .ok paddedStream.container ∧
      s.shortest.bytes.length ≤ paddedStream.bytes.length := by
  obtain ⟨s, _, payload_eq, _, _, _, again, shorter, _⟩ := stream_malleability paddedStream.decodeContainer_bytes
  exact ⟨s, payload_eq, again, shorter⟩

end Eez.Codec
