import EezRollup.Codec.RoundTrip
import EezRollup.Codec.WellFormed

/-! What a reader accepted is what the writer puts for the value it returned. -/
namespace Eez.Codec
open List Octets Outcome

/-- The blocks the columns stand for; `none` when they do not cover each other exactly. -/
def regroup : List UInt32 → List (BitVec 160) → List Bytes → List RawTx → Option (List SpanBlock)
  | [], [], [], [] => some []
  | count :: counts, beneficiary :: beneficiaries, extraData :: extraDatas, txs =>
    if count.toNat ≤ txs.length then
      (regroup counts beneficiaries extraDatas (txs.drop count.toNat)).map
        (⟨beneficiary, extraData, txs.take count.toNat⟩ :: ·)
    else none
  | _, _, _, _ => none

def DecodedSpan.regroup (span : DecodedSpan) : Option (List SpanBlock) :=
  Codec.regroup span.blockTxCounts span.beneficiaries span.extraData span.transactions

variable {blocks : List SpanBlock} {counts : List UInt32} {txs : List RawTx} {rest cur payload : Bytes}
  {what : String} {n : Nat}

theorem regroup_spanOf (small : ∀ b ∈ blocks, b.transactions.length < 2 ^ 32) :
    (spanOf blocks).regroup = some blocks := by
  unfold DecodedSpan.regroup spanOf
  induction blocks with
  | nil => rfl
  | cons b blocks ih =>
    have rest := ih fun c mem => small c (mem_cons_of_mem _ mem)
    have count := toNat_ofNat_of_lt (small b mem_cons_self)
    simp only [map_cons, flatMap_cons, Codec.regroup, count]
    rw [if_pos (by simp), drop_left, take_left, rest]
    rfl

theorem spanOf_regroup (h : regroup counts beneficiaries extraData txs = some blocks) :
    spanOf blocks = ⟨counts, beneficiaries, extraData, txs⟩ ∧
      (blocks.map fun b => b.transactions.length) = counts.map UInt32.toNat := by
  induction counts, beneficiaries, extraData, txs using regroup.induct generalizing blocks with
  | case1 =>
    cases h
    exact ⟨rfl, rfl⟩
  | case2 count counts beneficiary beneficiaries data datas txs fits ih =>
    rw [regroup, if_pos fits] at h
    obtain ⟨rest, split, eq⟩ := Option.map_eq_some_iff.mp h
    obtain ⟨columns, sizes⟩ := ih split
    subst eq
    simp only [spanOf, DecodedSpan.mk.injEq] at columns
    constructor
    · simp only [spanOf, map_cons, flatMap_cons, columns.1, columns.2.1, columns.2.2.1, columns.2.2.2,
        take_append_drop, length_take, Nat.min_eq_left fits, UInt32.ofNat_toNat]
    · rw [map_cons, map_cons, sizes, length_take, Nat.min_eq_left fits]
  | case3 count counts beneficiary beneficiaries data datas txs short =>
    rw [regroup, if_neg short] at h
    cases h
  | case4 counts beneficiaries datas txs _ _ =>
    rw [regroup] at h
    · cases h
    all_goals assumption

theorem regroup_of_consistent
    (same : beneficiaries.length = counts.length) (same' : extraData.length = counts.length)
    (total : txs.length = (counts.map UInt32.toNat).sum) :
    ∃ blocks, regroup counts beneficiaries extraData txs = some blocks := by
  induction counts generalizing beneficiaries extraData txs with
  | nil =>
    rw [length_eq_zero_iff.mp same, length_eq_zero_iff.mp same', length_eq_zero_iff.mp total]
    exact ⟨[], rfl⟩
  | cons count counts ih =>
    obtain ⟨beneficiary, beneficiaries, rfl⟩ := exists_cons_of_length_eq_add_one same
    obtain ⟨data, extraData, rfl⟩ := exists_cons_of_length_eq_add_one same'
    rw [map_cons, sum_cons] at total
    have left : (txs.drop count.toNat).length = (counts.map UInt32.toNat).sum := by
      rw [length_drop, total]
      omega
    obtain ⟨blocks, split⟩ := ih (Nat.succ.inj same) (Nat.succ.inj same') left
    refine ⟨⟨beneficiary, data, txs.take count.toNat⟩ :: blocks, ?_⟩
    rw [regroup, if_pos (by omega), split]
    rfl

theorem uvarint32Loop_eq_ok (left i value : Nat) (cur : Bytes)
    (h : uvarint32Loop what left i value cur = .ok (v, rest)) (low : value < 2 ^ (7 * i)) :
    ∃ n, cur = putVarint n ++ rest ∧ v.toNat = n * 2 ^ (7 * i) + value ∧ (0 < i → 0 < n) := by
  induction left generalizing i value cur with
  | zero => cases h
  | succ left ih =>
    cases cur with
    | nil => cases h
    | cons b cur =>
      simp only [uvarint32Loop, byte, ok_bind, bind_eq_ok, ensure_eq_ok] at h
      obtain ⟨_, _, h⟩ := h
      rw [low_group, or_group low] at h
      split at h
      · next clear =>
        have small := (high_bit_clear b).mp clear
        simp only [bind_eq_ok, ensure_eq_ok, pure_eq_ok, Prod.mk.injEq] at h
        obtain ⟨_, minimal, _, bound, value_eq, rest_eq⟩ := h
        rw [Nat.mod_eq_of_lt small] at bound value_eq minimal
        refine ⟨b.toNat, ?_, ?_, ?_⟩
        · rw [putVarint, if_pos small, UInt8.ofNat_toNat, rest_eq]
          rfl
        · rw [← value_eq, toNat_ofNat_of_lt bound]
        · intro later
          exact Nat.pos_of_ne_zero fun zero => minimal ⟨later, zero⟩
      · next continued =>
        have high : 128 ≤ b.toNat := Nat.le_of_not_lt fun small => continued ((high_bit_clear b).mpr small)
        have group : b.toNat % 128 < 128 := Nat.mod_lt _ (by decide)
        have next : b.toNat % 128 * 2 ^ (7 * i) + value < 2 ^ (7 * (i + 1)) := by
          have room : (b.toNat % 128 + 1) * 2 ^ (7 * i) ≤ 128 * 2 ^ (7 * i) := Nat.mul_le_mul_right _ group
          rw [Nat.add_mul, Nat.one_mul] at room
          rw [show 7 * (i + 1) = 7 * i + 7 by omega, Nat.pow_add]
          omega
        obtain ⟨n, cur_eq, v_eq, positive⟩ := ih (i + 1) _ cur h next
        have positive := positive (Nat.succ_pos i)
        refine ⟨b.toNat % 128 + 128 * n, ?_, ?_, fun _ => by omega⟩
        · have byte_eq : UInt8.ofNat (b.toNat % 128 + 128 * n) ||| 0x80 = b := by
            apply UInt8.toNat_inj.mp
            rw [continued_toNat]
            have := b.toNat_lt
            omega
          rw [putVarint, if_neg (by omega), byte_eq, cur_eq, show (b.toNat % 128 + 128 * n) / 128 = n by omega]
          rfl
        · rw [v_eq, show 7 * (i + 1) = 7 * i + 7 by omega, Nat.pow_add]
          ring

theorem uvarint32_eq_ok (h : uvarint32 what cur = .ok (v, rest)) : cur = putVarint v.toNat ++ rest := by
  obtain ⟨n, cur_eq, v_eq, _⟩ := uvarint32Loop_eq_ok _ _ _ _ h (by decide)
  rw [cur_eq, v_eq, Nat.mul_zero, Nat.pow_zero, Nat.mul_one, Nat.add_zero]

theorem take_eq_ok (h : take what n cur = .ok (bytes, rest)) : cur = bytes ++ rest ∧ bytes.length = n := by
  unfold take at h
  split at h
  · next fits =>
    cases h
    exact ⟨(take_append_drop n cur).symm, by rw [length_take]; omega⟩
  · cases h

theorem readCounts_written (h : readCounts n total cur = .ok (counts, total', rest)) :
    cur = (counts.map UInt32.toNat).flatMap putVarint ++ rest := by
  induction n generalizing total total' cur counts with
  | zero =>
    simp only [readCounts, Except.ok.injEq, Prod.mk.injEq] at h
    rw [← h.1, h.2.2]
    rfl
  | succ n ih =>
    simp only [readCounts, bind_eq_ok, Prod.exists, pure_eq_ok, Prod.mk.injEq] at h
    obtain ⟨count, cur', first, _, _, counts', _, _, others, rfl, _, rfl⟩ := h
    rw [uvarint32_eq_ok first, ih others, map_cons, flatMap_cons, append_assoc]

theorem readLengths_written (h : readLengths n i total cur = .ok (lengths, total', rest)) :
    cur = lengths.flatMap putVarint ++ rest ∧ ∀ len ∈ lengths, 0 < len ∧ len < 2 ^ 32 := by
  induction n generalizing i total total' cur lengths with
  | zero =>
    simp only [readLengths, Except.ok.injEq, Prod.mk.injEq] at h
    rw [← h.1, h.2.2]
    exact ⟨rfl, forall_mem_nil _⟩
  | succ n ih =>
    simp only [readLengths, bind_eq_ok, Prod.exists, ensure_eq_ok, pure_eq_ok, Prod.mk.injEq] at h
    obtain ⟨len, cur', first, _, filled, _, _, lengths', _, _, others, rfl, _, rfl⟩ := h
    obtain ⟨written, positive⟩ := ih others
    refine ⟨by rw [uvarint32_eq_ok first, written, flatMap_cons, append_assoc], ?_⟩
    intro m mem
    cases mem_cons.mp mem with
    | inl eq => exact eq ▸ ⟨Nat.pos_of_ne_zero filled, len.toNat_lt⟩
    | inr mem => exact positive m mem

theorem readTransactions_written (h : readTransactions lengths cur = .ok (txs, rest)) :
    cur = txs.flatten ++ rest ∧ txs.map List.length = lengths := by
  induction lengths generalizing cur txs with
  | nil =>
    cases h
    exact ⟨rfl, rfl⟩
  | cons len lengths ih =>
    simp only [readTransactions, bind_eq_ok, Prod.exists, pure_eq_ok, Prod.mk.injEq] at h
    obtain ⟨tx, cur', first, txs', _, others, rfl, rfl⟩ := h
    obtain ⟨written, length⟩ := take_eq_ok first
    obtain ⟨written', lengths_eq⟩ := ih others
    refine ⟨by rw [written, written', flatten_cons, append_assoc], ?_⟩
    rw [map_cons, length, lengths_eq]

theorem decodeRuns_written [DecidableEq α] {blockCount value} {body : α → Bytes} {P : α → Prop}
    (reads : ∀ {cur rest v}, value cur = .ok (v, rest) → cur = body v ++ rest ∧ P v) {column}
    (h : decodeRuns blockCount what value cur = .ok (column, rest)) :
    ∃ rs : List (Nat × α), cur = rs.flatMap (fun r => putVarint r.1 ++ body r.2) ++ rest ∧
      RunLength.expand id rs = column ∧ RunLength.Positive rs ∧ RunLength.Maximal id rs ∧ ∀ r ∈ rs, P r.2 := by
  have loop : ∃ rs : List (Nat × α), cur = rs.flatMap (fun r => putVarint r.1 ++ body r.2) ++ rest ∧
      [] ++ RunLength.expand id rs = column ∧ RunLength.Positive rs ∧ RunLength.Maximal id rs ∧ (∀ r ∈ rs, P r.2) ∧
      ∀ r ∈ rs.head?, none ≠ some r.2 := by
    refine decodeRunsLoop_rule (motive := fun out previous cur => ∃ rs : List (Nat × α),
      cur = rs.flatMap (fun r => putVarint r.1 ++ body r.2) ++ rest ∧ out ++ RunLength.expand id rs = column ∧
        RunLength.Positive rs ∧ RunLength.Maximal id rs ∧ (∀ r ∈ rs, P r.2) ∧
        ∀ r ∈ rs.head?, previous ≠ some r.2) ?_ ?_ [] none cur h
    · intro previous _
      exact ⟨[], rfl, append_nil _, nofun, .nil, nofun, nofun⟩
    · intro out previous cur run cur' v cur'' _ varint nonzero read differs _
        ⟨rs, written, column_eq, positive, maximal,
        all, first⟩
      obtain ⟨read_eq, here⟩ := reads read
      refine ⟨(run.toNat, v) :: rs, ?_, ?_, ?_, ?_, ?_, ?_⟩
      · rw [uvarint32_eq_ok varint, read_eq, written]
        simp only [flatMap_cons, append_assoc]
      · rw [← column_eq, append_assoc]
        rfl
      · intro r mem
        cases mem_cons.mp mem with
        | inl eq => exact eq ▸ Nat.pos_of_ne_zero nonzero
        | inr mem => exact positive r mem
      · apply isChain_cons.mpr
        refine ⟨?_, maximal⟩
        intro r mem same
        exact first r mem (congrArg some same)
      · intro r mem
        cases mem_cons.mp mem with
        | inl eq => exact eq ▸ here
        | inr mem => exact all r mem
      · intro r mem
        cases mem
        exact differs
  obtain ⟨rs, written, column_eq, positive, maximal, all, _⟩ := loop
  exact ⟨rs, written, column_eq, positive, maximal, all⟩

def beneficiaryBytes (v : BitVec 160) : Bytes := beBytes 20 v.toNat

def extraDataBytes (data : Bytes) : Bytes := UInt8.ofNat data.length :: data

theorem takeAddress_written (h : takeAddress what cur = .ok (v, rest)) : cur = beBytes 20 v.toNat ++ rest := by
  simp only [takeAddress, bind_eq_ok, Prod.exists, pure_eq_ok, Prod.mk.injEq] at h
  obtain ⟨bytes, _, taken, rfl, rfl⟩ := h
  obtain ⟨written, length⟩ := take_eq_ok taken
  rw [← (ofNat_ofLe_eq_iff (by decide) length).mp rfl]
  exact written

theorem readBeneficiary_written (h : readBeneficiary cur = .ok (v, rest)) :
    cur = beneficiaryBytes v ++ rest := takeAddress_written h

theorem readExtraData_written (h : readExtraData cur = .ok (data, rest)) :
    cur = extraDataBytes data ++ rest ∧ data.length ≤ maxExtraData := by
  cases cur with
  | nil => cases h
  | cons len cur =>
    simp only [readExtraData, byte, ok_bind, bind_eq_ok, ensure_eq_ok] at h
    obtain ⟨_, short, taken⟩ := h
    obtain ⟨written, length⟩ := take_eq_ok taken
    rw [extraDataBytes, length, UInt8.ofNat_toNat, written]
    exact ⟨rfl, short⟩

theorem flatMap_runs [DecidableEq κ] {key rs} (body : κ → Bytes) (positive : RunLength.Positive rs)
    (maximal : RunLength.Maximal id rs) (column : RunLength.expand id rs = blocks.map key) :
    (RunLength.runs key blocks).flatMap (fun r => putVarint r.1 ++ body (key r.2)) =
      rs.flatMap fun r => putVarint r.1 ++ body r.2 := by
  rw [← RunLength.keyed_runs positive maximal column, RunLength.keyed, flatMap_map]

theorem mem_runs [DecidableEq κ] {rs : List (Nat × κ)}
    (positive : RunLength.Positive rs) (maximal : RunLength.Maximal id rs)
    (column : RunLength.expand id rs = blocks.map key) {r : Nat × SpanBlock} (mem : r ∈ RunLength.runs key blocks) :
    (r.1, key r.2) ∈ rs := by
  rw [← RunLength.keyed_runs positive maximal column]
  exact mem_map_of_mem mem

theorem mapM_extraData {rs : List (Nat × SpanBlock)} (short : ∀ r ∈ rs, r.2.extraData.length ≤ maxExtraData) :
    rs.mapM putExtraDataRun = .ok (rs.map extraDataRunBytes) := by
  rw [mapM_eq_ok]
  apply forall₂_map_right_iff.mpr
  apply forall₂_same.mpr
  intro r mem
  exact putExtraDataRun_eq_ok.mpr ⟨short r mem, rfl⟩

theorem decode_filled {span} (h : decode payload = .ok span) : ∀ tx ∈ span.transactions, tx ≠ [] := by
  cases payload with
  | nil => cases h
  | cons version body =>
    simp only [decode, decodeBody, bind_eq_ok, checkPlausible, Prod.exists, pure_eq_ok] at h
    obtain ⟨_, _, _, _, _, _, _, _, _, _, _, _, _, _, _, _, _, _, _, _, _, lengths, _, _, lengths_read, _, _, txs, _,
      txs_read, _, _, rfl⟩ := h
    intro tx mem empty
    have listed : tx.length ∈ lengths := by
      rw [← (readTransactions_written txs_read).2]
      exact mem_map_of_mem mem
    have positive := ((readLengths_written lengths_read).2 _ listed).1
    rw [empty] at positive
    cases positive

theorem encode_counts (h : encode blocks = .ok payload) : ∀ b ∈ blocks, b.transactions.length < 2 ^ 32 := by
  simp only [encode, bind_eq_ok, ensure_eq_ok, exists_const, mapM_countU32_eq_ok] at h
  obtain ⟨_, _, _, _, ⟨counts, _⟩, _⟩ := h
  exact counts

theorem encode_of_decode {span}
    (h : decode payload = .ok span) (split : span.regroup = some blocks) : encode blocks = .ok payload := by
  obtain ⟨columns, counts_eq⟩ := spanOf_regroup split
  have consistent := decode_consistent h
  cases payload with
  | nil => cases h
  | cons version body =>
    simp only [decode, decodeBody, bind_eq_ok, ensure_eq_ok, checkPlausible, Prod.exists, pure_eq_ok] at h
    obtain ⟨_, version_eq, blockCount, cur₁, count_read, _, positive, _, _, counts, total, cur₂, counts_read,
      beneficiaries, cur₃, beneficiaries_read, extraData, cur₄, extra_read, _, _, lengths, bytes, cur₅,
      lengths_read, _, _, txs, cur₆, txs_read, _, empty, rfl⟩ := h
    simp only [spanOf, DecodedSpan.mk.injEq] at columns
    obtain ⟨_, beneficiaries_eq, extraData_eq, txs_eq⟩ := columns
    -- What was read is what is written, column by column.
    obtain ⟨runs, runs_written, expanded, runs_positive, runs_maximal, _⟩ :=
      decodeRuns_written (P := fun _ => True) (fun read => ⟨readBeneficiary_written read, trivial⟩) beneficiaries_read
    obtain ⟨runs', runs'_written, expanded', runs'_positive, runs'_maximal, short⟩ :=
      decodeRuns_written readExtraData_written extra_read
    obtain ⟨lengths_written, lengths_fit⟩ := readLengths_written lengths_read
    obtain ⟨txs_written, txs_lengths⟩ := readTransactions_written txs_read
    rw [← beneficiaries_eq] at expanded
    rw [← extraData_eq] at expanded'
    have counted : blocks.length = blockCount.toNat := by
      have length := congrArg List.length counts_eq
      rw [length_map, length_map] at length
      rw [length, (readCounts_eq_ok counts_read).1]
    have filled : blocks ≠ [] := by
      intro none
      rw [none] at counted
      exact positive counted.symm
    have short' : ∀ r ∈ RunLength.runs SpanBlock.extraData blocks, r.2.extraData.length ≤ maxExtraData := by
      intro r mem
      exact short _ (mem_runs runs'_positive runs'_maximal expanded' mem)
    have small_counts : ∀ b ∈ blocks, b.transactions.length < 2 ^ 32 := by
      intro b mem
      have listed : b.transactions.length ∈ counts.map UInt32.toNat := by
        rw [← counts_eq]
        exact mem_map_of_mem mem
      obtain ⟨count, _, eq⟩ := mem_map.mp listed
      rw [← eq]
      exact count.toNat_lt
    have small_txs : ∀ tx ∈ blocks.flatMap SpanBlock.transactions, tx.length < 2 ^ 32 := by
      intro tx mem
      rw [txs_eq] at mem
      apply (lengths_fit tx.length _).2
      rw [← txs_lengths]
      exact mem_map_of_mem mem
    simp only [encode, bind_eq_ok, ensure_eq_ok, pure_eq_ok, exists_const, countU32_eq_ok, mapM_countU32_eq_ok]
    refine ⟨filled, _, ⟨counted ▸ blockCount.toNat_lt, rfl⟩, _, ⟨small_counts, rfl⟩, _, mapM_extraData short', _,
      ⟨small_txs, rfl⟩, ?_⟩
    have first := flatMap_runs beneficiaryBytes runs_positive runs_maximal expanded
    have second := flatMap_runs extraDataBytes runs'_positive runs'_maximal expanded'
    have rest_empty : cur₆ = [] := length_eq_zero_iff.mp empty
    rw [← flatMap_def, uvarint32_eq_ok count_read, readCounts_written counts_read, runs_written, runs'_written,
      lengths_written, txs_written, counted, txs_eq, txs_lengths, rest_empty, append_nil, version_eq]
    change _ :: (_ ++ _ ++ (RunLength.runs SpanBlock.beneficiary blocks).flatMap
      (fun r => putVarint r.1 ++ beneficiaryBytes r.2.beneficiary) ++
      (RunLength.runs SpanBlock.extraData blocks).flatMap
      (fun r => putVarint r.1 ++ extraDataBytes r.2.extraData) ++ _ ++ _) = _
    rw [first, second, counts_eq]
    simp only [append_assoc]

/-- A written span comes back as its blocks exactly when none of its transactions is empty. -/
theorem decode_encode_iff {blocks : List SpanBlock} {payload : Bytes} (h : encode blocks = .ok payload)
    (fits : payload.length < 2 ^ 64) :
    (∃ span, decode payload = .ok span ∧ span.regroup = some blocks) ↔ ∀ b ∈ blocks, ∀ tx ∈ b.transactions,
    tx ≠ [] := by
  constructor
  · intro ⟨span, read, split⟩ b mem tx mem_tx empty
    have listed : tx ∈ span.transactions := by
      have columns := congrArg DecodedSpan.transactions (spanOf_regroup split).1
      rw [← columns]
      exact mem_flatMap_of_mem mem mem_tx
    exact decode_filled read tx listed empty
  · intro filled
    refine ⟨spanOf blocks, decode_encode h filled fits, regroup_spanOf ?_⟩
    exact encode_counts h

def twoBlocks : List SpanBlock := [⟨7, [], [[1, 2]]⟩, ⟨7, [9], []⟩]

def twoBlocksPayload : Bytes := 0 :: 2 :: 1 :: 0 :: 2 :: (replicate 19 0 ++ [7, 1, 0, 1, 1, 9, 2, 1, 2])

theorem encode_twoBlocks : encode twoBlocks = .ok twoBlocksPayload := by decide +kernel

theorem decode_twoBlocks_iff : (∃ span, decode twoBlocksPayload = .ok span ∧ span.regroup = some twoBlocks) ↔
      ∀ b ∈ twoBlocks, ∀ tx ∈ b.transactions, tx ≠ [] :=
  decode_encode_iff encode_twoBlocks (by decide)

def emptyTransactionBlock : SpanBlock := ⟨0, [], [[]]⟩

/-- The writer takes an empty transaction, which the reader refuses. -/
theorem decode_emptyTransactionBlock : ∃ payload, encode [emptyTransactionBlock] = .ok payload ∧
      decode payload = .error (.implausibleCount "pure_transaction_counts" 1 1) := by
  refine ⟨0 :: 1 :: 1 :: (1 :: replicate 20 0 ++ [1, 0, 0]), by decide +kernel, ?_⟩
  have count : uvarint32 "block_count" (1 :: 1 :: (1 :: replicate 20 0 ++ [1, 0, 0])) =
      .ok (1, 1 :: (1 :: replicate 20 0 ++ [1, 0, 0])) := by decide +kernel
  have counts : readCounts 1 0 (1 :: (1 :: replicate 20 0 ++ [1, 0, 0])) =
      .ok ([1], 1, 1 :: replicate 20 0 ++ [1, 0, 0]) := by decide +kernel
  have beneficiaries : decodeRuns 1 "beneficiary" readBeneficiary (1 :: replicate 20 0 ++ [1, 0, 0]) =
      .ok ([0], [1, 0, 0]) := by
    have read := decodeRuns_beneficiaries [emptyTransactionBlock] [1, 0, 0] (by decide)
    rwa [show (RunLength.runs SpanBlock.beneficiary [emptyTransactionBlock]).flatMap putBeneficiaryRun =
      1 :: replicate 20 0 by decide +kernel] at read
  have extraData : decodeRuns 1 "extra_data" readExtraData [1, 0, 0] = .ok ([[]], [0]) := by
    have read := decodeRuns_extraData [emptyTransactionBlock] [0] (by decide) (by decide +kernel)
    rwa [show ((RunLength.runs SpanBlock.extraData [emptyTransactionBlock]).map extraDataRunBytes).flatten = [1, 0] by
      decide +kernel] at read
  have one : UInt32.toNat 1 = 1 := rfl
  simp only [decode, decodeBody, payloadVersionV0, checkPlausible, ensure_pos, ok_bind, count, one, counts,
    beneficiaries,
    extraData]
  rw [ensure_pos (by decide), ok_bind, ensure_pos (by decide), ok_bind]
  rfl

/-- Every accepted payload is the encoding of its blocks, and the only one accepted for its span. -/
theorem decode_canonical {payload : Bytes} {span : DecodedSpan} (h : decode payload = .ok span) :
    (∃ blocks, span.regroup = some blocks ∧ encode blocks = .ok payload) ∧
      ∀ other, decode other = .ok span → other = payload := by
  have consistent := decode_consistent h
  obtain ⟨blocks, split⟩ := regroup_of_consistent consistent.beneficiaries consistent.extraData consistent.transactions
  have written := encode_of_decode h split
  refine ⟨⟨blocks, split, written⟩, ?_⟩
  intro other read
  have written' := encode_of_decode read split
  rw [written] at written'
  exact (Except.ok.inj written').symm

theorem decode_twoBlocks_canonical :
    (∃ blocks, (spanOf twoBlocks).regroup = some blocks ∧ encode blocks = .ok twoBlocksPayload) ∧
      ∀ other, decode other = .ok (spanOf twoBlocks) → other = twoBlocksPayload :=
  decode_canonical (decode_encode encode_twoBlocks (by decide) (by decide))

/-- A stream comes back with its rollup, its blocks and its actions in order. -/
theorem decodeContainer_regroups {rollupId : UInt64} {blocks : List SpanBlock} {actions : List Action} {payload : Bytes}
    (h : encodeContainer rollupId blocks actions = .ok payload)
    (filled : ∀ b ∈ blocks, ∀ tx ∈ b.transactions, tx ≠ []) :
    ∃ container, decodeContainer payload = .ok container ∧ container.rollupId = rollupId ∧
      container.span.regroup = some blocks ∧ container.actions = actions :=
  ⟨⟨rollupId, spanOf blocks, actions⟩, decodeContainer_encodeContainer h filled, rfl,
    regroup_spanOf (encodeContainer_counts h), rfl⟩

def failedAction : Action := ⟨0, 1, 5, 6, 7, 21000, [1], false, [2]⟩

theorem decodeContainer_twoBlocks : ∃ payload, encodeContainer 1 twoBlocks [failedAction, failedAction] = .ok payload ∧
      ∃ container, decodeContainer payload = .ok container ∧ container.rollupId = 1 ∧
        container.span.regroup = some twoBlocks ∧ container.actions = [failedAction, failedAction] := by
  cases written : encodeContainer 1 twoBlocks [failedAction, failedAction] with
  | error e =>
    have accepted : (encodeContainer 1 twoBlocks [failedAction, failedAction]).isOk = true := by decide +kernel
    rw [written] at accepted
    cases accepted
  | ok payload => exact ⟨payload, rfl, decodeContainer_regroups written (by decide)⟩

end Eez.Codec
