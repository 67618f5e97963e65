import EezRollup.Lib.Segments
import EezRollup.Protocol.SystemTx
import EezRollup.Signer.Framing

/-! The pair ends of a flag list are the ends of its frames: a system transaction with the user
transaction after it, or a single transaction. -/
namespace Eez.Signer
open List Octets Segments EezTxEnvelope

/-- Cut greedily: a system transaction takes the user transaction after it. -/
def frames : List Bool → List (List Bool)
  | true :: false :: rest => [true, false] :: frames rest
  | flag :: rest => [flag] :: frames rest
  | [] => []

/-- One user, one system, or one system followed by one user. -/
def IsFrame (piece : List Bool) : Prop := piece = [false] ∨ piece = [true] ∨ piece = [true, false]

theorem frames_flatten (flags : List Bool) : (frames flags).flatten = flags := by
  fun_induction frames flags with
  | case1 rest ih | case2 flag rest _ ih => rw [flatten_cons, ih]; rfl
  | case3 => rfl

theorem isFrame_of_mem_frames (mem : piece ∈ frames flags) : IsFrame piece := by
  fun_induction frames flags with
  | case1 rest ih =>
    rcases mem_cons.mp mem with rfl | mem
    · exact .inr (.inr rfl)
    · exact ih mem
  | case2 flag rest _ ih =>
    rcases mem_cons.mp mem with rfl | mem
    · cases flag with
      | false => exact .inl rfl
      | true => exact .inr (.inl rfl)
    · exact ih mem
  | case3 => cases mem

theorem IsFrame.ne_nil (frame : IsFrame piece) : piece ≠ [] := by
  rcases frame with rfl | rfl | rfl <;> exact cons_ne_nil _ _

theorem frames_filled (flags : List Bool) : Filled (frames flags) := by
  intro piece mem
  exact (isFrame_of_mem_frames mem).ne_nil

theorem pairEndPositions_cons (flag : Bool) (rest : List Bool) : pairEndPositions (flag :: rest) =
      if flag = true ∧ rest.head? = some false then (pairEndPositions rest).map (· + 1)
      else 0 :: (pairEndPositions rest).map (· + 1) := by
  have shifted : (List.map (· + 1) (List.range rest.length)).filter
      (fun i => !((flag :: rest).getD i false) || ((flag :: rest)[i + 1]?).getD true) =
        (pairEndPositions rest).map (· + 1) := by
    rw [filter_map]
    rfl
  rw [pairEndPositions, length_cons, range_succ_eq_map]
  split
  · rename_i taken
    rw [filter_cons_of_neg, shifted]
    rw [head?_eq_getElem?] at taken
    simp [taken.1, taken.2]
  · rename_i alone
    rw [filter_cons_of_pos, shifted]
    rw [head?_eq_getElem?] at alone
    cases flag with
    | false => rfl
    | true =>
      cases next : rest[0]? with
      | none => simp [next]
      | some b =>
        cases b with
        | false => exact absurd ⟨rfl, next⟩ alone
        | true => simp [next]

theorem pairEndPositions_eq_ends (flags : List Bool) : pairEndPositions flags = ends (frames flags) := by
  have filled := frames_filled flags
  fun_induction frames flags with
  | case1 rest ih => rw [pairEndPositions_pair, ih (frames_filled rest), ends_cons filled]; rfl
  | case2 flag rest lone ih =>
    rw [pairEndPositions_cons, if_neg, ih (frames_filled rest), ends_cons filled]
    · rfl
    · rintro ⟨rfl, next⟩
      obtain ⟨tail, rfl⟩ := head?_eq_some_iff.mp next
      exact lone tail rfl rfl
  | case3 => rfl

/-- A system transaction and an optional user transaction, as they are paired. -/
abbrev TxPair := SystemTransaction × Option TransactionSigned

def TxPair.syncPair (pair : TxPair) : SyncPair := ⟨pair.1.encoded2718, pair.2.map TransactionSigned.encoded⟩

def TxPair.flags (pair : TxPair) : List Bool := if pair.2.isSome then [true, false] else [true]

theorem isSystemTx_eq_head (tx : EezTxEnvelope) :
    isSystemTx tx = decide (tx.encoded2718.head? = some systemTxType) := by
  cases tx with
  | system tx => rfl
  | ethereum tx =>
    obtain ⟨first, head, other⟩ := tx.encoded_head?
    have apart : ¬some first = some systemTxType := fun same => other (Option.some.inj same)
    rw [isSystemTx, encoded2718, head, decide_eq_false apart]

/-- Whether a transaction is a system one is seen in its encoding, so a block's
flags are those of its pairs. -/
theorem flags_of_interleaved {pairs : List TxPair} {txs : List EezTxEnvelope}
    (block : txs.map encoded2718 = interleaveSyncBlockTxs (pairs.map TxPair.syncPair)) :
    txs.map isSystemTx = pairs.flatMap TxPair.flags := by
  have seen : txs.map isSystemTx = (txs.map encoded2718).map fun raw => decide (raw.head? = some systemTxType) := by
    rw [map_map]
    exact map_congr_left fun tx _ => isSystemTx_eq_head tx
  rw [seen, block, interleaveSyncBlockTxs, flatMap_map, map_flatMap]
  refine flatMap_congr fun pair _ => ?_
  obtain ⟨system, user⟩ := pair
  cases user with
  | none => rfl
  | some user =>
    have read := isSystemTx_eq_head (.ethereum user)
    change false = decide (user.encoded.head? = some systemTxType) at read
    change [true, decide (user.encoded.head? = some systemTxType)] = [true, false]
    rw [← read]

theorem frames_append_pair (pair : TxPair) {rest : List Bool} (lead : rest.head? ≠ some false) :
    frames (pair.flags ++ rest) = pair.flags :: frames rest := by
  obtain ⟨system, user⟩ := pair
  cases user with
  | some user => rfl
  | none =>
    cases rest with
    | nil => rfl
    | cons flag rest =>
      cases flag with
      | false => exact absurd rfl lead
      | true => rfl

theorem frames_flatMap_flags (pairs : List TxPair) : frames (pairs.flatMap TxPair.flags) = pairs.map TxPair.flags := by
  induction pairs with
  | nil => rfl
  | cons pair pairs ih =>
    have lead : (pairs.flatMap TxPair.flags).head? ≠ some false := by
      cases pairs with
      | nil => simp
      | cons next pairs =>
        rw [flatMap_cons, TxPair.flags]
        split <;> simp
    rw [flatMap_cons, frames_append_pair pair lead, ih, map_cons]

def TxPair.raws (pair : TxPair) : List Bytes := interleaveSyncBlockTxs [pair.syncPair]

theorem interleaved_eq_flatten (pairs : List TxPair) :
    interleaveSyncBlockTxs (pairs.map TxPair.syncPair) = (pairs.map TxPair.raws).flatten := by
  induction pairs with
  | nil => rfl
  | cons pair pairs ih =>
    rw [map_cons, map_cons, flatten_cons, ← ih, TxPair.raws, interleaveSyncBlockTxs,
      interleaveSyncBlockTxs, interleaveSyncBlockTxs, flatMap_cons, flatMap_singleton]

theorem TxPair.raws_length (pair : TxPair) : pair.raws.length = pair.flags.length := by
  obtain ⟨system, user⟩ := pair
  cases user <;> rfl

theorem TxPair.raws_getLast? (pair : TxPair) :
    pair.raws.getLast? = some (pair.syncPair.userTx.getD pair.syncPair.systemTx) := by
  obtain ⟨system, user⟩ := pair
  cases user <;> rfl

theorem raws_filled (pairs : List TxPair) : Filled (pairs.map TxPair.raws) := by
  intro piece mem
  obtain ⟨pair, _, rfl⟩ := mem_map.mp mem
  intro none
  have last := pair.raws_getLast?
  rw [none] at last
  cases last

theorem interleaved_length (pairs : List TxPair) :
    (interleaveSyncBlockTxs (pairs.map TxPair.syncPair)).length = (pairs.map TxPair.flags).flatten.length := by
  rw [interleaved_eq_flatten, length_flatten, length_flatten, map_map, map_map]
  congr 1
  exact map_congr_left fun pair _ => pair.raws_length

/-- Pair ends of an interleaved block: one per pair, at the pair's last
transaction. Pair ends of any flags: increasing, up to the last position, and
cutting the flags into frames. -/
theorem pairEndPositions_inverts : (∀ (pairs : List TxPair) (txs : List EezTxEnvelope),
      txs.map encoded2718 = interleaveSyncBlockTxs (pairs.map TxPair.syncPair) →
      (pairEndPositions (txs.map isSystemTx)).length = pairs.length ∧ ∀ k (pair : TxPair), pairs[k]? = some pair →
          ∃ i, (pairEndPositions (txs.map isSystemTx))[k]? = some i ∧
            i + 1 = (interleaveSyncBlockTxs ((pairs.take (k + 1)).map TxPair.syncPair)).length ∧
            (txs[i]?).map encoded2718 = some (pair.syncPair.userTx.getD pair.syncPair.systemTx)) ∧
    ∀ flags : List Bool, (pairEndPositions flags).Pairwise (· < ·) ∧
      (flags ≠ [] → (pairEndPositions flags).getLast? = some (flags.length - 1)) ∧
      ∀ k, k < (pairEndPositions flags).length → IsFrame (segment flags (pairEndPositions flags) k) := by
  refine ⟨?_, ?_⟩
  · intro pairs txs block
    have positions : pairEndPositions (txs.map isSystemTx) = ends (pairs.map TxPair.flags) := by
      rw [flags_of_interleaved block, pairEndPositions_eq_ends, frames_flatMap_flags]
    refine ⟨by rw [positions, ends_length, length_map], ?_⟩
    intro k pair at_k
    have inside : k < (pairs.map TxPair.flags).length := by
      rw [length_map]
      exact (List.getElem?_eq_some_iff.mp at_k).1
    have piece : (pairs.map TxPair.raws)[k]? = some pair.raws := by rw [getElem?_map, at_k, Option.map_some]
    have last := getElem?_end (raws_filled pairs) piece
    rw [← map_take, ← interleaved_eq_flatten, ← interleaved_eq_flatten, ← block, pair.raws_getLast?] at last
    refine ⟨(interleaveSyncBlockTxs ((pairs.take (k + 1)).map TxPair.syncPair)).length - 1, ?_, ?_, ?_⟩
    · rw [positions, ends_getElem? _ inside, ← map_take, interleaved_length]
    · apply Nat.sub_add_cancel
      rw [interleaved_eq_flatten, map_take, flatten_take_succ piece, length_append]
      have positive := length_pos_of_ne_nil (raws_filled pairs _ (mem_of_getElem? piece))
      omega
    · rwa [getElem?_map] at last
  · intro flags
    have positions := pairEndPositions_eq_ends flags
    have whole := frames_flatten flags
    refine ⟨pairEndPositions_sorted flags, ?_, ?_⟩
    · intro filled
      have pieces : frames flags ≠ [] := by
        intro none
        rw [none] at whole
        exact filled whole.symm
      rw [positions, ends_getLast? pieces, whole]
    · intro k inside
      rw [positions, ends_length] at inside
      have piece := getElem?_eq_getElem inside
      have read := segment_ends (frames_filled flags) piece
      rw [whole] at read
      rw [positions, read]
      exact isFrame_of_mem_frames (getElem_mem inside)

def samplePairs : List TxPair :=
  [(⟨1, 5, eezl2Address, 0, [1]⟩, none),
    (⟨1, 6, eezl2Address, 0, [2]⟩, some ⟨.legacy, 0, none, 0, [], [0xc1], 0xc1, [], rfl, by decide⟩)]

def samplePairTxs : List EezTxEnvelope :=
  [.system ⟨1, 5, eezl2Address, 0, [1]⟩, .system ⟨1, 6, eezl2Address, 0, [2]⟩,
    .ethereum ⟨.legacy, 0, none, 0, [], [0xc1], 0xc1, [], rfl, by decide⟩]

theorem pairEndPositions_inverts_mixed :
    samplePairTxs.map encoded2718 = interleaveSyncBlockTxs (samplePairs.map TxPair.syncPair) ∧
      (pairEndPositions (samplePairTxs.map isSystemTx)).length = samplePairs.length ∧
      (pairEndPositions [true, true, false]).getLast? = some 2 :=
  ⟨rfl, (pairEndPositions_inverts.1 samplePairs samplePairTxs rfl).1,
    (pairEndPositions_inverts.2 [true, true, false]).2.1 (cons_ne_nil _ _)⟩

example : pairEndPositions (samplePairTxs.map isSystemTx) = [0, 2] := by decide

end Eez.Signer
