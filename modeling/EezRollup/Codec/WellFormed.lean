import EezRollup.Codec.Container

/-! An accepted span has one value of each column per block, and as many transactions as its counts
add up to. -/
namespace Eez.Codec
open List Octets Outcome

theorem readCounts_eq_ok (h : readCounts n total cur = .ok (counts, total', rest)) :
    counts.length = n ∧ total' = total + (counts.map UInt32.toNat).sum := by
  induction n generalizing total cur counts with
  | zero =>
    simp only [readCounts, Except.ok.injEq, Prod.mk.injEq] at h
    obtain ⟨rfl, rfl, rfl⟩ := h
    exact ⟨rfl, rfl⟩
  | succ n ih =>
    simp only [readCounts, bind_eq_ok, Prod.exists, ensure_eq_ok, pure_eq_ok, Prod.mk.injEq] at h
    obtain ⟨count, cur', _, _, _, counts', total'', rest', hrest, rfl, rfl, rfl⟩ := h
    obtain ⟨hlen, htotal⟩ := ih hrest
    refine ⟨by rw [length_cons, hlen], ?_⟩
    rw [htotal, map_cons, sum_cons, Nat.add_assoc]

/-- Induction over the runs of an accepted column. -/
theorem decodeRunsLoop_rule {α} [DecidableEq α] {blockCount what value column rest}
    {motive : List α → Option α → Bytes → Prop}
    (done : ∀ previous, ¬column.length < blockCount → motive column previous rest)
    (step : ∀ out previous cur run cur' v cur'', out.length < blockCount → uvarint32 what cur = .ok (run, cur') →
      run.toNat ≠ 0 → value cur' = .ok (v, cur'') → previous ≠ some v → out.length + run.toNat ≤ blockCount →
      motive (out ++ replicate run.toNat v) (some v) cur'' → motive out previous cur)
    (out : List α) (previous : Option α) (cur : Bytes)
    (h : decodeRunsLoop blockCount what value out previous cur = .ok (column, rest)) : motive out previous cur := by
  induction out, previous, cur using decodeRunsLoop.induct blockCount what value with
  | case1 out previous cur more e he => rw [decodeRunsLoop, if_pos more, he] at h; cases h
  | case2 out previous cur more run rest' hrun zero =>
    rw [decodeRunsLoop, if_pos more, hrun] at h
    simp only [if_pos zero] at h
    cases h
  | case3 out previous cur more run rest' hrun zero e he =>
    rw [decodeRunsLoop, if_pos more, hrun] at h
    simp only [if_neg zero, he] at h
    cases h
  | case4 out cur more run rest' hrun zero v rest'' hv =>
    rw [decodeRunsLoop, if_pos more, hrun] at h
    simp only [if_neg zero, hv, if_true] at h
    cases h
  | case5 out previous cur more run rest' hrun zero v rest'' hv differs above =>
    rw [decodeRunsLoop, if_pos more, hrun] at h
    simp only [if_neg zero, hv, if_neg differs, if_pos above] at h
    cases h
  | case6 out previous cur more run rest' hrun zero v rest'' hv differs within ih =>
    rw [decodeRunsLoop, if_pos more, hrun] at h
    simp only [if_neg zero, hv, if_neg differs, if_neg within] at h
    exact step out previous cur run rest' v rest'' more hrun zero hv differs (Nat.le_of_not_lt within) (ih h)
  | case7 out previous cur finished =>
    rw [decodeRunsLoop, if_neg finished] at h
    cases h
    exact done previous finished

theorem decodeRunsLoop_length {α} [DecidableEq α] {blockCount what value} (out : List α) (previous : Option α)
    (cur : Bytes) {column rest} (h : decodeRunsLoop blockCount what value out previous cur = .ok (column, rest))
    (le : out.length ≤ blockCount) :
    column.length = blockCount := by
  refine decodeRunsLoop_rule (motive := fun out _ _ => out.length ≤ blockCount → column.length = blockCount)
    ?_ ?_ out previous cur h le
  · intro _ finished le
    omega
  · intro out _ _ run _ _ _ _ _ _ _ _ fits ih _
    apply ih
    rw [length_append, length_replicate]
    exact fits

theorem readLengths_length (h : readLengths n i total cur = .ok (lengths, total', rest)) : lengths.length = n := by
  induction n generalizing i total cur lengths total' rest with
  | zero =>
    simp only [readLengths, Except.ok.injEq, Prod.mk.injEq] at h
    obtain ⟨rfl, _⟩ := h
    rfl
  | succ n ih =>
    simp only [readLengths, bind_eq_ok, Prod.exists, ensure_eq_ok, pure_eq_ok, Prod.mk.injEq] at h
    obtain ⟨len, cur', _, _, _, _, _, lengths', _, _, hrest, rfl, _⟩ := h
    rw [length_cons, ih hrest]

theorem readTransactions_length (h : readTransactions lengths cur = .ok (txs, rest)) : txs.length = lengths.length := by
  induction lengths generalizing cur txs rest with
  | nil => cases h; rfl
  | cons len lengths ih =>
    simp only [readTransactions, bind_eq_ok, Prod.exists, pure_eq_ok, Prod.mk.injEq] at h
    obtain ⟨_, _, _, txs', _, hrest, rfl, _⟩ := h
    rw [length_cons, length_cons, ih hrest]

/-- The columns of an accepted span agree on the number of blocks. -/
structure DecodedSpan.Consistent (span : DecodedSpan) : Prop where
  beneficiaries : span.beneficiaries.length = span.blockCount
  extraData : span.extraData.length = span.blockCount
  transactions : span.transactions.length = (span.blockTxCounts.map UInt32.toNat).sum
  nonempty : span.blockTxCounts ≠ []

theorem decode_consistent {payload span} (h : decode payload = .ok span) : span.Consistent := by
  cases payload with
  | nil => cases h
  | cons version body =>
    simp only [decode, decodeBody, bind_eq_ok, ensure_eq_ok, checkPlausible, Prod.exists, pure_eq_ok] at h
    obtain ⟨_, _, blockCount, cur, _, _, positive, _, _, counts, total, cur', hcounts,
      beneficiaries, cur2, hbeneficiaries, extraData, cur3, hextra, _, _, lengths, bytes, cur4,
      hlengths, _, _, txs, cur5, htxs, _, _, rfl⟩ := h
    obtain ⟨hlen, htotal⟩ := readCounts_eq_ok hcounts
    refine ⟨?_, ?_, ?_, ?_⟩
    · exact (decodeRunsLoop_length _ _ _ hbeneficiaries (Nat.zero_le _)).trans hlen.symm
    · exact (decodeRunsLoop_length _ _ _ hextra (Nat.zero_le _)).trans hlen.symm
    · rw [readTransactions_length htxs, readLengths_length hlengths, htotal, Nat.zero_add]
    · intro empty
      simp only at empty
      rw [empty] at hlen
      exact positive hlen.symm

theorem decodeContainer_consistent (h : decodeContainer payload = .ok container) : container.span.Consistent := by
  cases payload with
  | nil => cases h
  | cons version body =>
    simp only [decodeContainer, bind_eq_ok, Prod.exists, pure_eq_ok] at h
    obtain ⟨_, _, _, _, _, _, _, _, _, _, span, hspan, _, _, rfl⟩ := h
    exact decode_consistent hspan

end Eez.Codec
