import EezRollup.Codec.Container
import Mathlib.Tactic.Ring

/-! Every writer of the span and of the message stream is inverted by its reader, whatever bytes
follow. -/
namespace Eez.Codec
open List Octets Outcome SpanBlock RunLength

variable {what : String} {v : Nat} {blocks : List SpanBlock} {payload out : Bytes} {rollupId : UInt64}
  {actions : List Action}

theorem take_append (h : bs.length = n) : take what n (bs ++ rest) = .ok (bs, rest) := by
  subst h
  simp [take]

theorem low_group (b : UInt8) : (b &&& 0x7f).toNat = b.toNat % 128 := by
  rw [UInt8.toNat_and]
  exact Nat.and_two_pow_sub_one_eq_mod b.toNat 7

theorem high_bit_clear (b : UInt8) : b &&& 0x80 = 0 ↔ b.toNat < 128 := by
  have all : ∀ n : Fin 256, (UInt8.ofNat n.val &&& 0x80 = 0) ↔ n.val < 128 := by decide +kernel
  have := all ⟨b.toNat, b.toNat_lt⟩
  simpa only [UInt8.ofNat_toNat] using this

theorem continued_toNat (n : Nat) : (UInt8.ofNat n ||| 0x80).toNat = n % 128 + 128 := by
  have all : ∀ m : Fin 256, (UInt8.ofNat m.val ||| 0x80).toNat = m.val % 128 + 128 := by decide +kernel
  have digit := all ⟨n % 256, Nat.mod_lt _ (by decide)⟩
  have wrap : UInt8.ofNat (n % 256) = UInt8.ofNat n := by
    apply UInt8.toNat_inj.mp
    simp only [UInt8.toNat_ofNat', Nat.reducePow, Nat.mod_mod]
  simp only [wrap] at digit
  omega

/-- Groups already read occupy the low bits, so or-ing the next one in adds it. -/
theorem or_group (h : value < 2 ^ (7 * i)) :
    value ||| group <<< (7 * i) = group * 2 ^ (7 * i) + value := by
  rw [Nat.or_comm, ← Nat.shiftLeft_add_eq_or_of_lt h, Nat.shiftLeft_eq]

theorem uvarint32Loop_putVarint (what : String) (v : Nat) (rest : Bytes) :
    ∀ left i acc, left + i = maxUvarint32Bytes → acc < 2 ^ (7 * i) →
      v * 2 ^ (7 * i) + acc < 2 ^ 32 → (0 < i → 0 < v) → i ≤ 4 →
      uvarint32Loop what left i acc (putVarint v ++ rest) = .ok (UInt32.ofNat (v * 2 ^ (7 * i) + acc), rest) := by
  induction v using putVarint.induct with
  | case1 v small =>
    intro left i acc hleft hacc bound positive hi
    obtain ⟨left, rfl⟩ : ∃ k, left = k + 1 := ⟨left - 1, by unfold maxUvarint32Bytes at hleft; omega⟩
    have hv : (UInt8.ofNat v).toNat = v := by rw [UInt8.toNat_ofNat']; omega
    have group : (UInt8.ofNat v &&& 0x7f).toNat = v := by rw [low_group, hv]; omega
    have clear : UInt8.ofNat v &&& 0x80 = 0 := (high_bit_clear _).mpr (by rw [hv]; exact small)
    rw [putVarint, if_pos small]
    simp only [cons_append, nil_append, uvarint32Loop, byte, ok_bind, group, clear, if_true, or_group hacc]
    rw [ensure_pos, ok_bind, ensure_pos, ok_bind, ensure_pos bound]
    · rfl
    · rintro ⟨hpos, hzero⟩
      exact absurd (positive hpos) (by omega)
    · rintro ⟨last, big⟩
      unfold maxUvarint32Bytes at last
      have : i = 4 := by omega
      subst this
      omega
  | case2 v big ih =>
    intro left i acc hleft hacc bound positive hi
    have hi' : i < 4 := by
      by_contra h
      have : i = 4 := by omega
      subst this
      omega
    obtain ⟨left, rfl⟩ : ∃ k, left = k + 1 := ⟨left - 1, by unfold maxUvarint32Bytes at hleft; omega⟩
    have hb : (UInt8.ofNat v ||| 0x80).toNat = v % 128 + 128 := continued_toNat v
    have group : ((UInt8.ofNat v ||| 0x80) &&& 0x7f).toNat = v % 128 := by rw [low_group, hb]; omega
    have set : ¬((UInt8.ofNat v ||| 0x80) &&& 0x80 = 0) := by rw [high_bit_clear, hb]; omega
    have width : 2 ^ (7 * (i + 1)) = 128 * 2 ^ (7 * i) := by rw [Nat.mul_succ, Nat.pow_add]; omega
    have split : v / 128 * 2 ^ (7 * (i + 1)) + (v % 128 * 2 ^ (7 * i) + acc) = v * 2 ^ (7 * i) + acc := by
      have := Nat.div_add_mod v 128
      calc v / 128 * 2 ^ (7 * (i + 1)) + (v % 128 * 2 ^ (7 * i) + acc)
          = (128 * (v / 128) + v % 128) * 2 ^ (7 * i) + acc := by rw [width]; ring
        _ = v * 2 ^ (7 * i) + acc := by rw [this]
    have room : v % 128 * 2 ^ (7 * i) + acc < 2 ^ (7 * (i + 1)) := by
      have low : v % 128 ≤ 127 := by omega
      calc v % 128 * 2 ^ (7 * i) + acc < 127 * 2 ^ (7 * i) + 2 ^ (7 * i) :=
            Nat.add_lt_add_of_le_of_lt (Nat.mul_le_mul_right _ low) hacc
        _ = 2 ^ (7 * (i + 1)) := by rw [width]; ring
    rw [putVarint, if_neg big]
    simp only [cons_append, uvarint32Loop, byte, ok_bind, group, set, if_false, or_group hacc]
    rw [ensure_pos, ok_bind, ih left (i + 1) _ (by omega) room (by rw [split]; exact bound)
      (fun _ => by omega) (by omega), split]
    rintro ⟨last, _⟩
    unfold maxUvarint32Bytes at last
    omega

theorem uvarint32_putVarint (h : v < 2 ^ 32) (rest : Bytes) :
    uvarint32 what (putVarint v ++ rest) = .ok (UInt32.ofNat v, rest) := by
  have := uvarint32Loop_putVarint what v rest maxUvarint32Bytes 0 0 rfl (by omega) (by omega)
    (fun h => absurd h (by omega)) (by omega)
  unfold uvarint32
  simpa only [Nat.mul_zero, Nat.pow_zero, Nat.mul_one, Nat.add_zero] using this

/-- The lenient reader agrees with the strict one wherever the strict one accepts. -/
theorem varintLoop_of_uvarint32Loop : ∀ left i value cur, uvarint32Loop what left i value cur = .ok x →
      varintLoop what left i value cur = .ok x := by
  intro left
  induction left with
  | zero => intro i value cur h; cases h
  | succ left ih =>
    intro i value cur h
    simp only [uvarint32Loop, bind_eq_ok, Prod.exists, ensure_eq_ok] at h
    obtain ⟨b, rest, hb, _, group, h⟩ := h
    simp only [varintLoop, hb, ok_bind, ensure_pos group]
    split at h
    · rename_i last
      simp only [bind_eq_ok, ensure_eq_ok, pure_eq_ok] at h
      obtain ⟨_, _, _, small, rfl⟩ := h
      rw [if_pos last, ensure_pos small]
      rfl
    · rename_i more
      rw [if_neg more]
      exact ih _ _ _ h

theorem varint_putVarint (h : v < 2 ^ 32) (rest : Bytes) :
    varint what (putVarint v ++ rest) = .ok (UInt32.ofNat v, rest) :=
  varintLoop_of_uvarint32Loop _ _ _ _ (uvarint32_putVarint h rest)

/-- Padding separates the two readers. -/
example : varint "" [0x80, 0x00] = .ok (0, []) ∧ uvarint32 "" [0x80, 0x00] = .error (.nonCanonicalVarint "") := by
  decide +kernel

theorem toNat_ofNat_of_lt (h : v < 2 ^ 32) : (UInt32.ofNat v).toNat = v := by
  rw [UInt32.toNat_ofNat']
  exact Nat.mod_eq_of_lt h

theorem putVarint_length_pos (v : Nat) : 0 < (putVarint v).length := by
  rw [putVarint]
  split <;> simp

theorem length_le_flatMap_putVarint (l : List Nat) : l.length ≤ (l.flatMap putVarint).length := by
  induction l with
  | nil => simp
  | cons v l ih =>
    have := putVarint_length_pos v
    simp only [flatMap_cons, length_cons, length_append]
    omega

theorem readCounts_flatMap (counts : List Nat) (rest : Bytes) (total : Nat)
    (small : ∀ c ∈ counts, c < 2 ^ 32) (bound : total + counts.sum < 2 ^ 64) :
    readCounts counts.length total (counts.flatMap putVarint ++ rest) =
      .ok (counts.map UInt32.ofNat, total + counts.sum, rest) := by
  induction counts generalizing total with
  | nil => rfl
  | cons c counts ih =>
    have hc := small c mem_cons_self
    simp only [sum_cons] at bound
    simp only [length_cons, readCounts, flatMap_cons, append_assoc, uvarint32_putVarint hc, ok_bind,
      toNat_ofNat_of_lt hc]
    rw [ensure_pos (by omega), ok_bind, ih _ (fun d hd => small d (mem_cons_of_mem _ hd)) (by omega)]
    simp only [ok_bind, map_cons, sum_cons, Nat.add_assoc]
    rfl

theorem readLengths_flatMap (lengths : List Nat) (rest : Bytes) (i total : Nat)
    (small : ∀ n ∈ lengths, 0 < n ∧ n < 2 ^ 32) (bound : total + lengths.sum < 2 ^ 64) :
    readLengths lengths.length i total (lengths.flatMap putVarint ++ rest) =
      .ok (lengths, total + lengths.sum, rest) := by
  induction lengths generalizing i total with
  | nil => rfl
  | cons n lengths ih =>
    obtain ⟨positive, hn⟩ := small n mem_cons_self
    simp only [sum_cons] at bound
    simp only [length_cons, readLengths, flatMap_cons, append_assoc, uvarint32_putVarint hn, ok_bind,
      toNat_ofNat_of_lt hn]
    rw [ensure_pos (by omega), ok_bind, ensure_pos (by omega), ok_bind,
      ih _ _ (fun m hm => small m (mem_cons_of_mem _ hm)) (by omega)]
    simp only [ok_bind, sum_cons, Nat.add_assoc]
    rfl

theorem readTransactions_flatten (txs : List RawTx) (rest : Bytes) :
    readTransactions (txs.map List.length) (txs.flatten ++ rest) = .ok (txs, rest) := by
  induction txs with
  | nil => rfl
  | cons tx txs ih =>
    simp only [map_cons, readTransactions, flatten_cons, append_assoc, take_append rfl, ok_bind, ih]
    rfl

theorem decodeRunsLoop_flatMap {α β} [DecidableEq α] {blockCount value} {key : β → α}
    {put : Nat × β → Bytes} (rs : List (Nat × β)) (rest : Bytes)
    (reads : ∀ r ∈ rs, ∃ body, put r = putVarint r.1 ++ body ∧ ∀ tail, value (body ++ tail) = .ok (key r.2, tail))
    (positive : Positive rs) (maximal : Maximal key rs) (small : blockCount < 2 ^ 32) :
    ∀ out previous, (∀ r ∈ rs.head?, previous ≠ some (key r.2)) → out.length + (expand key rs).length = blockCount →
      decodeRunsLoop blockCount what value out previous (rs.flatMap put ++ rest) =
        .ok (out ++ expand key rs, rest) := by
  induction rs with
  | nil =>
    intro out previous _ covered
    simp only [expand, flatMap_nil, length_nil, Nat.add_zero] at covered
    rw [decodeRunsLoop, if_neg (by omega)]
    simp [expand]
  | cons r rs ih =>
    intro out previous differs covered
    obtain ⟨body, hput, hvalue⟩ := reads r mem_cons_self
    have hpos := positive r mem_cons_self
    have expanded : expand key (r :: rs) = replicate r.1 (key r.2) ++ expand key rs := flatMap_cons
    rw [expanded, length_append, length_replicate] at covered
    have hr : r.1 < 2 ^ 32 := by omega
    rw [decodeRunsLoop, if_pos (by omega)]
    simp only [flatMap_cons, hput, append_assoc, uvarint32_putVarint hr, toNat_ofNat_of_lt hr,
      if_neg (Nat.pos_iff_ne_zero.mp hpos), hvalue, if_neg (differs r rfl)]
    rw [if_neg (by omega), ih (fun s hs => reads s (mem_cons_of_mem _ hs))
      (fun s hs => positive s (mem_cons_of_mem _ hs)) (isChain_cons.mp maximal).2]
    · rw [expanded, append_assoc]
    · intro s hs same
      exact (isChain_cons.mp maximal).1 s hs (Option.some.inj same)
    · rw [length_append, length_replicate]
      omega

/-- The columns a span encoding carries. -/
def spanOf (blocks : List SpanBlock) : DecodedSpan where
  blockTxCounts := blocks.map fun b => UInt32.ofNat b.transactions.length
  beneficiaries := blocks.map beneficiary
  extraData := blocks.map extraData
  transactions := blocks.flatMap transactions

def extraDataRunBytes (run : Nat × SpanBlock) : Bytes :=
  putVarint run.1 ++ UInt8.ofNat run.2.extraData.length :: run.2.extraData

theorem putExtraDataRun_eq_ok : putExtraDataRun run = .ok bytes ↔
      run.2.extraData.length ≤ maxExtraData ∧ extraDataRunBytes run = bytes := by
  simp only [putExtraDataRun, bind_eq_ok, ensure_eq_ok, pure_eq_ok, extraDataRunBytes]
  constructor
  · rintro ⟨_, _, _, h, rfl⟩
    exact ⟨h, rfl⟩
  · rintro ⟨h, rfl⟩
    exact ⟨(), Nat.le_trans h (by decide), (), h, rfl⟩

theorem countU32_eq_ok : countU32 what value = .ok n ↔ value < 2 ^ 32 ∧ value = n := by
  simp only [countU32, bind_eq_ok, ensure_eq_ok, pure_eq_ok, exists_const]

theorem mapM_countU32_eq_ok {α : Type} {f} {l : List α} :
    l.mapM (fun a => countU32 what (f a)) = .ok counts ↔ (∀ a ∈ l, f a < 2 ^ 32) ∧ counts = l.map f := by
  rw [mapM_eq_ok]
  simp only [countU32_eq_ok]
  induction l generalizing counts with
  | nil => simp
  | cons a l ih =>
    rw [forall₂_cons_left_iff]
    constructor
    · rintro ⟨n, ns, ⟨ha, rfl⟩, rest, rfl⟩
      obtain ⟨small, rfl⟩ := ih.mp rest
      exact ⟨by simpa using ⟨ha, small⟩, rfl⟩
    · rintro ⟨small, rfl⟩
      exact ⟨f a, l.map f, ⟨small a mem_cons_self, rfl⟩, ih.mpr ⟨fun b hb => small b (mem_cons_of_mem _ hb), rfl⟩, rfl⟩

theorem mapM_putExtraDataRun {rs : List (Nat × SpanBlock)} (h : rs.mapM putExtraDataRun = .ok chunks) :
    (∀ r ∈ rs, r.2.extraData.length ≤ maxExtraData) ∧ chunks = rs.map extraDataRunBytes := by
  rw [mapM_eq_ok] at h
  simp only [putExtraDataRun_eq_ok] at h
  induction h with
  | nil => simp
  | cons hr _ ih =>
    refine ⟨?_, by rw [map_cons, ← ih.2, hr.2]⟩
    intro r hmem
    rcases mem_cons.mp hmem with rfl | hmem
    · exact hr.1
    · exact ih.1 r hmem

theorem takeAddress_append (what : String) (a : BitVec 160) (rest : Bytes) :
    takeAddress what (beBytes 20 a.toNat ++ rest) = .ok (a, rest) := by
  have value : BitVec.ofNat 160 (ofLe (beBytes 20 a.toNat).reverse) = a :=
    (ofNat_ofLe_eq_iff (by decide) (beBytes_length 20 _)).mpr rfl
  simp only [takeAddress, take_append (beBytes_length 20 _), ok_bind, value]
  rfl

theorem readBeneficiary_append (b : BitVec 160) (rest : Bytes) :
    readBeneficiary (beBytes 20 b.toNat ++ rest) = .ok (b, rest) := takeAddress_append "beneficiary" b rest

theorem readExtraData_append (h : data.length ≤ maxExtraData) (rest : Bytes) :
    readExtraData (UInt8.ofNat data.length :: data ++ rest) = .ok (data, rest) := by
  have value : (UInt8.ofNat data.length).toNat = data.length := by
    unfold maxExtraData at h
    rw [UInt8.toNat_ofNat']
    omega
  simp only [readExtraData, cons_append, byte, ok_bind, value, ensure_pos h, take_append rfl]

theorem decodeRuns_column {κ} [DecidableEq κ] {value}
    (key : SpanBlock → κ) (put : Nat × SpanBlock → Bytes) (blocks : List SpanBlock) (rest : Bytes)
    (small : blocks.length < 2 ^ 32)
    (reads : ∀ r ∈ runs key blocks, ∃ body, put r = putVarint r.1 ++ body ∧
      ∀ tail, value (body ++ tail) = .ok (key r.2, tail)) :
    decodeRuns blocks.length what value ((runs key blocks).flatMap put ++ rest) = .ok (blocks.map key, rest) := by
  have column : decodeRuns blocks.length what value _ = .ok ([] ++ expand key _, rest) :=
    decodeRunsLoop_flatMap (runs key blocks) rest reads (positive_runs key blocks)
      (maximal_runs key blocks) small [] none (fun _ _ h => nomatch h)
      (by rw [expand_runs, length_map, length_nil, Nat.zero_add])
  rwa [expand_runs] at column

theorem decodeRuns_beneficiaries (blocks : List SpanBlock) (rest : Bytes) (small : blocks.length < 2 ^ 32) :
    decodeRuns blocks.length "beneficiary" readBeneficiary
      ((runs beneficiary blocks).flatMap putBeneficiaryRun ++ rest) =
      .ok (blocks.map beneficiary, rest) :=
  decodeRuns_column beneficiary putBeneficiaryRun blocks rest small
    fun r _ => ⟨_, rfl, readBeneficiary_append r.2.beneficiary⟩

theorem decodeRuns_extraData (blocks : List SpanBlock) (rest : Bytes) (small : blocks.length < 2 ^ 32)
    (short : ∀ r ∈ runs extraData blocks, r.2.extraData.length ≤ maxExtraData) :
    decodeRuns blocks.length "extra_data" readExtraData
      (((runs extraData blocks).map extraDataRunBytes).flatten ++ rest) =
      .ok (blocks.map extraData, rest) := by
  rw [← flatMap_def]
  exact decodeRuns_column extraData extraDataRunBytes blocks rest small
    fun r hr => ⟨_, rfl, readExtraData_append (short r hr)⟩

theorem length_le_flatten {txs : List RawTx} (h : ∀ tx ∈ txs, tx ≠ []) : txs.length ≤ txs.flatten.length := by
  induction txs with
  | nil => simp
  | cons tx txs ih =>
    have := length_pos_iff.mpr (h tx mem_cons_self)
    have := ih fun t ht => h t (mem_cons_of_mem _ ht)
    simp only [length_cons, flatten_cons, length_append]
    omega

/-- A span encoding that fits in memory decodes to the columns it was built from. -/
theorem decode_encode (h : encode blocks = .ok payload)
    (nonempty : ∀ b ∈ blocks, ∀ tx ∈ b.transactions, tx ≠ []) (fits : payload.length < 2 ^ 64) :
    decode payload = .ok (spanOf blocks) := by
  simp only [encode, bind_eq_ok, ensure_eq_ok, pure_eq_ok, exists_const, countU32_eq_ok, mapM_countU32_eq_ok] at h
  obtain ⟨hne, _, ⟨hcount, rfl⟩, _, ⟨hcounts, rfl⟩, chunks, hextra, _, ⟨hlengths, rfl⟩, rfl⟩ := h
  obtain ⟨hshort, rfl⟩ := mapM_putExtraDataRun hextra
  have filled : ∀ tx ∈ blocks.flatMap transactions, tx ≠ [] := by
    intro tx htx
    obtain ⟨b, hb, htx⟩ := mem_flatMap.mp htx
    exact nonempty b hb tx htx
  have hblocks : blocks.length ≠ 0 := fun h => hne (length_eq_zero_iff.mp h)
  have total : (blocks.map fun b => b.transactions.length).sum =
      (blocks.flatMap transactions).length := by rw [length_flatMap]
  have bytes : ((blocks.flatMap transactions).map List.length).sum =
      (blocks.flatMap transactions).flatten.length := by rw [length_flatten]
  have hcolumn := length_le_flatMap_putVarint (blocks.map fun b => b.transactions.length)
  have hvarints := length_le_flatMap_putVarint ((blocks.flatMap transactions).map List.length)
  have hbytes := length_le_flatten filled
  rw [length_map] at hcolumn hvarints
  simp only [length_cons, length_append] at fits
  have counts : ∀ rest, readCounts blocks.length 0
      ((blocks.map fun b => b.transactions.length).flatMap putVarint ++ rest) =
        .ok ((spanOf blocks).blockTxCounts, (blocks.flatMap transactions).length, rest) := by
    intro rest
    have column := readCounts_flatMap (blocks.map fun b => b.transactions.length) rest 0
      (by simpa using hcounts) (by omega)
    rwa [length_map, map_map, total, Nat.zero_add] at column
  have lengths : ∀ rest, readLengths (blocks.flatMap transactions).length 0 0
      (((blocks.flatMap transactions).map List.length).flatMap putVarint ++ rest) =
        .ok ((blocks.flatMap transactions).map List.length, (blocks.flatMap transactions).flatten.length, rest) := by
    intro rest
    have column := readLengths_flatMap ((blocks.flatMap transactions).map List.length) rest 0 0
      (fun n hn => by
        obtain ⟨tx, htx, rfl⟩ := mem_map.mp hn
        exact ⟨length_pos_iff.mpr (filled tx htx), hlengths tx htx⟩) (by omega)
    rwa [length_map, bytes, Nat.zero_add] at column
  have transactions := readTransactions_flatten (blocks.flatMap transactions) []
  rw [append_nil] at transactions
  simp only [decode, ensure_pos, ok_bind, decodeBody, append_assoc, uvarint32_putVarint hcount,
    toNat_ofNat_of_lt hcount]
  rw [ensure_pos hblocks, ok_bind, checkPlausible,
    ensure_pos (by simp only [length_append]; omega), ok_bind, counts, ok_bind,
    decodeRuns_beneficiaries _ _ hcount, ok_bind, decodeRuns_extraData _ _ hcount hshort, ok_bind,
    checkPlausible, ensure_pos (by simp only [length_append]; omega), ok_bind, lengths, ok_bind,
    ensure_pos rfl, ok_bind, transactions]
  rfl

theorem putBytes_eq_ok : putBytes value = .ok out ↔ value.length < 2 ^ 32 ∧ putVarint value.length ++ value = out := by
  simp only [putBytes, bind_eq_ok, ensure_eq_ok, pure_eq_ok, exists_const]

theorem takeBytes_append (what : String) (h : value.length < 2 ^ 32) (rest : Bytes) :
    takeBytes what (putVarint value.length ++ value ++ rest) = .ok (value, rest) := by
  simp only [takeBytes, append_assoc, varint_putVarint h, ok_bind, toNat_ofNat_of_lt h, take_append rfl]

theorem takeU64_append (what : String) (n : UInt64) (rest : Bytes) :
    takeU64 what (leBytes 8 n.toNat ++ rest) = .ok (n, rest) := by
  have value : ofLe (leBytes 8 n.toNat) = n.toNat := by
    rw [ofLe_leBytes]
    exact Nat.mod_eq_of_lt (by simpa using n.toNat_lt)
  simp only [takeU64, take_append (leBytes_length 8 _), ok_bind, value, UInt64.ofNat_toNat]
  rfl

theorem expectMessage_cons (expected : UInt8) (rest : Bytes) :
    expectMessage expected (expected :: rest) = .ok rest := by
  simp only [expectMessage, byte, ok_bind, ensure_pos]
  rfl

theorem readReturnMessage_cons (success : Bool) (rest : Bytes) :
    readReturnMessage ((if success then msgReturnSuccess else msgReturnFail) :: rest) = .ok (success, rest) := by
  cases success <;> rfl

theorem value_leBytes (v : BitVec 256) : BitVec.ofNat 256 (ofLe (leBytes 32 v.toNat)) = v := by
  rw [ofLe_leBytes, Nat.mod_eq_of_lt (by simpa using v.isLt), BitVec.ofNat_toNat, BitVec.setWidth_eq]

theorem decodeAction_encodeAction (target : a.targetRollupId = 0 ∨ a.targetRollupId = rollupId)
    (h : encodeAction a = .ok out) (rest : Bytes) : decodeAction rollupId (out ++ rest) = .ok (a, rest) := by
  simp only [encodeAction, bind_eq_ok, putBytes_eq_ok, pure_eq_ok] at h
  obtain ⟨_, ⟨hempty, rfl⟩, _, ⟨hdata, rfl⟩, _, ⟨hreturn, rfl⟩, rfl⟩ := h
  have txData := fun tail => takeBytes_append "tx_data" hempty tail
  have data := fun tail => takeBytes_append "data" hdata tail
  have returnData := fun tail => takeBytes_append "return_data" hreturn tail
  simp only [append_assoc, cons_append] at txData data returnData ⊢
  simp only [decodeAction, expectMessage_cons, ok_bind, takeU64_append, txData, ensure_pos,
    validateTargetRollup, ensure_pos target, takeAddress_append, take_append (leBytes_length 32 _), data,
    readReturnMessage_cons, returnData, value_leBytes]
  rfl

theorem encodeAction_ne_nil (h : encodeAction a = .ok out) : out ≠ [] := by
  simp only [encodeAction, bind_eq_ok, pure_eq_ok] at h
  obtain ⟨_, _, _, _, _, _, rfl⟩ := h
  exact cons_ne_nil _ _

theorem decodeActions_flatten
    (h : Forall₂ (fun a out => out ≠ [] ∧ ∀ rest, decodeAction rollupId (out ++ rest) = .ok (a, rest))
      actions brackets) :
    ∀ fuel, brackets.flatten.length ≤ fuel → decodeActions rollupId fuel brackets.flatten = .ok actions := by
  induction h with
  | nil =>
    intro fuel _
    cases fuel <;> rfl
  | @cons a out actions brackets ha _ ih =>
    intro fuel enough
    obtain ⟨b, out, rfl⟩ := exists_cons_of_ne_nil ha.1
    rw [flatten_cons, length_append, length_cons] at enough
    obtain ⟨fuel, rfl⟩ : ∃ k, fuel = k + 1 := ⟨fuel - 1, by omega⟩
    have first := ha.2 brackets.flatten
    have rest := ih fuel (by omega)
    rw [flatten_cons, cons_append] at *
    simp only [decodeActions, first, ok_bind, rest]
    rfl

theorem decodeContainer_encodeContainer (h : encodeContainer rollupId blocks actions = .ok payload)
    (nonempty : ∀ b ∈ blocks, ∀ tx ∈ b.transactions, tx ≠ []) :
    decodeContainer payload = .ok ⟨rollupId, spanOf blocks, actions⟩ := by
  simp only [encodeContainer, bind_eq_ok, putBytes_eq_ok, pure_eq_ok, mapM_eq_ok] at h
  obtain ⟨operations, hspan, units, htarget, _, ⟨hlen, rfl⟩, brackets, hbrackets, rfl⟩ := h
  have target : ∀ a ∈ actions, a.targetRollupId = 0 ∨ a.targetRollupId = rollupId := by
    intro a ha
    obtain ⟨_, _, hok⟩ := forall₂_exists_right htarget a ha
    exact ensure_eq_ok.mp hok
  have span := decode_encode hspan nonempty (by omega)
  have operations := takeBytes_append "operations" hlen brackets.flatten
  have read : Forall₂ (fun a out => out ≠ [] ∧ ∀ rest, decodeAction rollupId (out ++ rest) = .ok (a, rest))
      actions brackets := by
    refine ((forall₂_and_left actions brackets).mpr ⟨target, hbrackets⟩).imp ?_
    rintro a out ⟨allowed, written⟩
    exact ⟨encodeAction_ne_nil written, decodeAction_encodeAction allowed written⟩
  have actions := decodeActions_flatten read _ (Nat.le_refl _)
  simp only [append_assoc] at operations ⊢
  simp only [decodeContainer, ensure_pos, ok_bind, expectMessage_cons, takeU64_append, operations, span, actions]
  rfl

theorem encodeContainer_counts (h : encodeContainer rollupId blocks actions = .ok payload) :
    ∀ b ∈ blocks, b.transactions.length < 2 ^ 32 := by
  simp only [encodeContainer, encode, bind_eq_ok, ensure_eq_ok, exists_const, mapM_countU32_eq_ok] at h
  obtain ⟨_, ⟨_, _, _, _, ⟨counts, _⟩, _⟩, _⟩ := h
  exact counts

end Eez.Codec
