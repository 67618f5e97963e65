import EezRollup.Deriver.Reconcile

/-! A batch that settles in two steps, the second by a resumed settlement, leaves the same block
content as one that settles at once. -/
namespace Eez.Deriver
open List Octets Outcome

theorem stripSuffix_append (a b : List Bytes) : stripSuffix (a ++ b) b = some a := by
  simp [stripSuffix]

theorem resumeReplayTxs_append (localHash : B256) (settled : Option B256) (a b : List Bytes)
    (h : settled ≠ some localHash) : resumeReplayTxs localHash settled (a ++ b) b = some (a ++ b) := by
  unfold resumeReplayTxs
  rw [if_neg h, stripSuffix_append]
  by_cases empty : b = []
  · subst empty
    simp
  · rw [if_neg empty]
    rfl

theorem resumeReplayTxs_eq_some {localHash settled existing new r}
    (h : resumeReplayTxs localHash settled existing new = some r) : ∃ base, r = base ++ new := by
  unfold resumeReplayTxs at h
  split at h
  · cases h
  · exact ⟨_, (Option.some.inj h).symm⟩

theorem interleaveSyncBlockTxs_append (a b : List SyncPair) :
    interleaveSyncBlockTxs (a ++ b) = interleaveSyncBlockTxs a ++ interleaveSyncBlockTxs b :=
  flatMap_append

def effectRole (outboundLen i : Nat) : EntryRole :=
  if i < outboundLen then .outbound i else .inbound (i - outboundLen)

/-- Effects `p` to `m`, excluded, as L1 reports them. Entry 0 is the anchor. -/
def effectsApplied (outboundLen p m : Nat) : List AppliedEntry :=
  (List.range' p (m - p)).map fun i => ⟨i + 1, effectRole outboundLen i⟩

theorem effectsApplied_cons {outboundLen m} (h : p < m) : effectsApplied outboundLen p m =
      ⟨p + 1, effectRole outboundLen p⟩ :: effectsApplied outboundLen (p + 1) m := by
  unfold effectsApplied
  rw [show m - p = (m - (p + 1)) + 1 by omega, range'_succ, map_cons]

theorem effectsApplied_self (outboundLen p : Nat) : effectsApplied outboundLen p p = [] := by
  simp [effectsApplied]

def effectSlots (pairs : List (ExecutionEntrySol × Bytes)) (inbound : List ExecutionEntrySol) (p m : Nat) :
    AppliedSlots where
  outboundPaired := (pairs.take m).drop p
  inbound := (inbound.take (m - pairs.length)).drop (p - pairs.length)

theorem selectAppliedSlots_anchors {lead applied} (h : ∀ a ∈ lead, a.role = .anchor)
    (outbound inbound : List ExecutionEntrySol) (users : List Bytes) :
    selectAppliedSlots (lead ++ applied) outbound inbound users =
      selectAppliedSlots applied outbound inbound users := by
  induction lead with
  | nil => rfl
  | cons a lead ih =>
    rw [cons_append, selectAppliedSlots, h a mem_cons_self]
    exact ih fun b hb => h b (mem_cons_of_mem _ hb)

theorem selectAppliedSlots_effects (pairs : List (ExecutionEntrySol × Bytes))
    (inbound : List ExecutionEntrySol) (hm : m ≤ pairs.length + inbound.length) :
    ∀ k p, m - p = k → p ≤ m →
      selectAppliedSlots (effectsApplied pairs.length p m) (pairs.map Prod.fst) inbound (pairs.map Prod.snd) =
        .ok (effectSlots pairs inbound p m) := by
  intro k
  induction k with
  | zero =>
    intro p hk hp
    obtain rfl : p = m := by omega
    rw [effectsApplied_self]
    simp [selectAppliedSlots, effectSlots]
  | succ k ih =>
    intro p hk hp
    have hlt : p < m := by omega
    have rest := ih (p + 1) (by omega) (by omega)
    rw [effectsApplied_cons hlt, selectAppliedSlots, effectRole]
    by_cases side : p < pairs.length
    · have taken : p < (pairs.take m).length := by rw [length_take]; omega
      simp only [if_pos side, getElem?_map, getElem?_eq_getElem side, Option.map_some, rest, ok_bind]
      simp only [effectSlots]
      rw [drop_eq_getElem_cons taken, getElem_take, show p + 1 - pairs.length = p - pairs.length by omega]
      rfl
    · have index : p - pairs.length < inbound.length := by omega
      have taken : p - pairs.length < (inbound.take (m - pairs.length)).length := by
        rw [length_take]; omega
      simp only [if_neg side, getElem?_eq_getElem index, rest, ok_bind]
      simp only [effectSlots]
      have spent : ∀ q, p ≤ q → (pairs.take m).drop q = [] := fun q hq =>
        drop_eq_nil_of_le (by rw [length_take]; omega)
      rw [drop_eq_getElem_cons taken, getElem_take, show p + 1 - pairs.length = p - pairs.length + 1 by omega,
        spent p (Nat.le_refl _), spent (p + 1) (Nat.le_succ _)]
      rfl

section
variable (keccak : Bytes → B256) (cfg : SystemTxContext) (ref : BatchRef)

theorem buildCrossChainSyncPairs_split (pairs : List (ExecutionEntrySol × Bytes)) (inbound : List ExecutionEntrySol)
    (n : UInt64) {m} (hpm : p ≤ m) {c} :
    buildCrossChainSyncPairs keccak cfg (effectSlots pairs inbound 0 m).outboundPaired
        (effectSlots pairs inbound 0 m).inbound n = .ok c ↔
      ∃ a t b, buildCrossChainSyncPairs keccak cfg (effectSlots pairs inbound 0 p).outboundPaired
          (effectSlots pairs inbound 0 p).inbound n = .ok a ∧
        checkedAdd n (UInt64.ofNat a.length) = some t ∧
        buildCrossChainSyncPairs keccak cfg (effectSlots pairs inbound p m).outboundPaired
          (effectSlots pairs inbound p m).inbound t = .ok b ∧ c = a ++ b := by
  simp only [effectSlots, drop_zero, Nat.zero_sub]
  by_cases side : p ≤ pairs.length
  · have split : pairs.take m = pairs.take p ++ (pairs.take m).drop p := by
      conv_lhs => rw [← take_append_drop p (pairs.take m)]
      rw [take_take, Nat.min_eq_left hpm]
    have none : p - pairs.length = 0 := by omega
    rw [none, take_zero, drop_zero]
    conv_lhs => rw [split]
    exact buildCrossChainSyncPairs_outbound_append keccak cfg
  · have whole : ∀ k, p ≤ k → pairs.take k = pairs := fun k hk => take_of_length_le (by omega)
    have split : inbound.take (m - pairs.length) = inbound.take (p - pairs.length) ++
        (inbound.take (m - pairs.length)).drop (p - pairs.length) := by
      conv_lhs => rw [← take_append_drop (p - pairs.length) (inbound.take (m - pairs.length))]
      rw [take_take, Nat.min_eq_left (by omega)]
    rw [whole m hpm, whole p (Nat.le_refl _), drop_eq_nil_of_le (by omega)]
    conv_lhs => rw [split]
    exact buildCrossChainSyncPairs_inbound_append keccak cfg

theorem resumedNonce_fresh {inbound users first} (n : UInt64)
    (h : skippedPrefix first outbound.length = (0, 0)) :
    resumedNonce keccak cfg ref outbound inbound users first n = .ok n := by
  simp [resumedNonce, h]

theorem skippedPrefix_effectRole (outboundLen p : Nat) :
    skippedPrefix (some (effectRole outboundLen p)) outboundLen = (min p outboundLen, p - outboundLen) := by
  unfold effectRole
  split
  · rw [skippedPrefix, Nat.min_eq_left (by omega), Nat.sub_eq_zero_of_le (by omega)]
  · rw [skippedPrefix, Nat.min_eq_right (by omega)]

/-- A resumed settlement starts at the nonce the skipped effects leave. -/
theorem resumedNonce_effectRole (pairs : List (ExecutionEntrySol × Bytes)) (inbound : List ExecutionEntrySol)
    (n t : UInt64) {p} (hp : 0 < p) :
    resumedNonce keccak cfg ref (pairs.map Prod.fst) inbound (pairs.map Prod.snd)
        (some (effectRole pairs.length p)) n = .ok t ↔
      ∃ a, buildCrossChainSyncPairs keccak cfg (effectSlots pairs inbound 0 p).outboundPaired
          (effectSlots pairs inbound 0 p).inbound n = .ok a ∧
        checkedAdd n (UInt64.ofNat a.length) = some t := by
  have skipped : (min p pairs.length) > 0 ∨ p - pairs.length > 0 := by omega
  have paired : ((pairs.map Prod.fst).take (min p pairs.length)).zip
      ((pairs.map Prod.snd).take (min p pairs.length)) = pairs.take p := by
    rw [← map_take, ← map_take, ← take_eq_take_min]
    exact (zip_of_prod rfl rfl).symm
  simp only [resumedNonce, length_map, skippedPrefix_effectRole, if_pos skipped, paired, bind_eq_ok,
    mapError_eq_ok, require_eq_ok, effectSlots, drop_zero, Nat.zero_sub]

theorem rebuildSyncBlock_eq_ok {pairs : List (ExecutionEntrySol × Bytes)} {inbound applied slots n c}
    (h : selectAppliedSlots applied (pairs.map Prod.fst) inbound (pairs.map Prod.snd) = .ok slots) :
    rebuildSyncBlock keccak cfg ref (pairs.map Prod.fst) inbound (pairs.map Prod.snd) applied n = .ok c ↔
      ∃ t built, resumedNonce keccak cfg ref (pairs.map Prod.fst) inbound (pairs.map Prod.snd)
          (applied.head?.map AppliedEntry.role) n = .ok t ∧
        buildCrossChainSyncPairs keccak cfg slots.outboundPaired slots.inbound t = .ok built ∧
        c = interleaveSyncBlockTxs built := by
  have drained : (pairs.map Prod.snd).drop pairs.length = [] :=
    drop_eq_nil_of_le (by rw [length_map])
  simp only [rebuildSyncBlock, h, bind_eq_ok, mapError_eq_ok, pure_eq_ok, ensure_eq_ok, length_map,
    Nat.le_refl, exists_const, true_and, Except.ok.injEq, exists_eq_left', drained, append_nil]
  constructor
  · rintro ⟨t, ht, built, hbuilt, rfl⟩
    exact ⟨t, built, ht, hbuilt, rfl⟩
  · rintro ⟨t, built, ht, hbuilt, rfl⟩
    exact ⟨t, ht, built, hbuilt, rfl⟩

/-- The content of a block of which L1 applied the first `m` effects. -/
theorem rebuildSyncBlock_fresh {pairs : List (ExecutionEntrySol × Bytes)} {inbound lead}
    (anchors : ∀ a ∈ lead, a.role = .anchor) {n c m} (hm : m ≤ pairs.length + inbound.length) :
    rebuildSyncBlock keccak cfg ref (pairs.map Prod.fst) inbound (pairs.map Prod.snd)
        (lead ++ effectsApplied pairs.length 0 m) n = .ok c ↔
      ∃ built, buildCrossChainSyncPairs keccak cfg (effectSlots pairs inbound 0 m).outboundPaired
          (effectSlots pairs inbound 0 m).inbound n = .ok built ∧ c = interleaveSyncBlockTxs built := by
  have slots := (selectAppliedSlots_anchors anchors (pairs.map Prod.fst) inbound (pairs.map Prod.snd)).trans
    (selectAppliedSlots_effects pairs inbound hm m 0 rfl (Nat.zero_le _))
  have fresh : skippedPrefix ((lead ++ effectsApplied pairs.length 0 m).head?.map AppliedEntry.role)
      (pairs.map Prod.fst).length = (0, 0) := by
    cases lead with
    | cons a lead => simp [anchors a mem_cons_self, skippedPrefix]
    | nil =>
      rcases Nat.eq_zero_or_pos m with rfl | pos
      · rfl
      · simp [effectsApplied_cons pos, skippedPrefix_effectRole]
  simp only [rebuildSyncBlock_eq_ok keccak cfg ref slots, resumedNonce_fresh keccak cfg ref n fresh,
    Except.ok.injEq, exists_and_left, exists_eq_left']

theorem rebuildSyncBlock_resumed {n c p m}
    (hp : 0 < p) (hpm : p < m) (hm : m ≤ pairs.length + inbound.length) :
    rebuildSyncBlock keccak cfg ref (pairs.map Prod.fst) inbound (pairs.map Prod.snd)
        (effectsApplied pairs.length p m) n = .ok c ↔
      ∃ a t built, buildCrossChainSyncPairs keccak cfg (effectSlots pairs inbound 0 p).outboundPaired
          (effectSlots pairs inbound 0 p).inbound n = .ok a ∧
        checkedAdd n (UInt64.ofNat a.length) = some t ∧
        buildCrossChainSyncPairs keccak cfg (effectSlots pairs inbound p m).outboundPaired
          (effectSlots pairs inbound p m).inbound t = .ok built ∧ c = interleaveSyncBlockTxs built := by
  rw [rebuildSyncBlock_eq_ok keccak cfg ref
    (selectAppliedSlots_effects pairs inbound hm (m - p) p rfl (Nat.le_of_lt hpm))]
  simp only [effectsApplied_cons hpm, head?_cons, Option.map_some,
    resumedNonce_effectRole keccak cfg ref pairs inbound n _ hp]
  constructor
  · rintro ⟨t, built, ⟨a, ha, ht⟩, hbuilt, rfl⟩
    exact ⟨a, t, built, ha, ht, hbuilt, rfl⟩
  · rintro ⟨a, t, built, ha, ht, hbuilt, rfl⟩
    exact ⟨t, built, ⟨a, ha, ht⟩, hbuilt, rfl⟩

theorem rebuildSyncBlock_nothing (pairs : List (ExecutionEntrySol × Bytes)) (inbound : List ExecutionEntrySol) {lead}
    (anchors : ∀ a ∈ lead, a.role = .anchor) (n : UInt64) :
    rebuildSyncBlock keccak cfg ref (pairs.map Prod.fst) inbound (pairs.map Prod.snd) lead n = .ok [] := by
  have built : buildCrossChainSyncPairs keccak cfg [] [] n = .ok [] := rfl
  have fresh := @rebuildSyncBlock_fresh keccak cfg ref pairs inbound lead anchors n [] 0 (Nat.zero_le _)
  rw [effectsApplied_self, append_nil] at fresh
  exact fresh.mpr ⟨[], by simpa [effectSlots] using built, rfl⟩

theorem rebuildSyncBlock_split (pairs : List (ExecutionEntrySol × Bytes)) (inbound : List ExecutionEntrySol)
    (n : UInt64) {lead} (anchors : ∀ a ∈ lead, a.role = .anchor) {p m} (hpm : p ≤ m)
    (hm : m ≤ pairs.length + inbound.length) (c : List Bytes) :
    rebuildSyncBlock keccak cfg ref (pairs.map Prod.fst) inbound (pairs.map Prod.snd)
        (lead ++ effectsApplied pairs.length 0 m) n = .ok c ↔
      ∃ a b, rebuildSyncBlock keccak cfg ref (pairs.map Prod.fst) inbound (pairs.map Prod.snd)
          (lead ++ effectsApplied pairs.length 0 p) n = .ok a ∧
        rebuildSyncBlock keccak cfg ref (pairs.map Prod.fst) inbound (pairs.map Prod.snd)
          (effectsApplied pairs.length p m) n = .ok b ∧ c = a ++ b := by
  rcases Nat.eq_or_lt_of_le hpm with rfl | hlt
  · -- nothing is left
    have empty := @rebuildSyncBlock_nothing keccak cfg ref pairs inbound [] (by simp) n
    simp [effectsApplied_self pairs.length p, empty]
  rcases Nat.eq_zero_or_pos p with rfl | pos
  · -- nothing was settled before: the anchors add nothing
    rw [effectsApplied_self, append_nil, rebuildSyncBlock_nothing keccak cfg ref pairs inbound anchors n,
      rebuildSyncBlock_fresh keccak cfg ref anchors hm]
    have plain := fun b => @rebuildSyncBlock_fresh keccak cfg ref pairs inbound [] (by simp) n b m hm
    simp only [nil_append] at plain
    simp only [plain, Except.ok.injEq, exists_and_left, exists_eq_left', nil_append]
    simp
  · rw [rebuildSyncBlock_fresh keccak cfg ref anchors hm]
    simp only [rebuildSyncBlock_fresh keccak cfg ref anchors (Nat.le_trans hpm hm),
      rebuildSyncBlock_resumed keccak cfg ref pos hlt hm, buildCrossChainSyncPairs_split keccak cfg pairs inbound n hpm]
    constructor
    · rintro ⟨_, ⟨x, t, y, hx, ht, hy, rfl⟩, rfl⟩
      exact ⟨_, _, ⟨x, hx, rfl⟩, ⟨x, t, y, hx, ht, hy, rfl⟩, interleaveSyncBlockTxs_append x y⟩
    · rintro ⟨_, _, ⟨x, hx, rfl⟩, ⟨x', t, y, hx', ht, hy, rfl⟩, rfl⟩
      obtain rfl : x = x' := Except.ok.inj (hx.symm.trans hx')
      exact ⟨x ++ y, ⟨x, t, y, hx, ht, hy, rfl⟩, (interleaveSyncBlockTxs_append x y).symm⟩

/-- A batch settled in two steps leaves the block it would have left at once,
and a second pass of the resumed step finds nothing more to append. -/
theorem rebuildSyncBlock_resume (pairs : List (ExecutionEntrySol × Bytes)) (inbound : List ExecutionEntrySol)
    (n : UInt64) {lead : List AppliedEntry} (anchors : ∀ a ∈ lead, a.role = .anchor) {p m : Nat} (hpm : p ≤ m)
    (hm : m ≤ pairs.length + inbound.length) :
    (∀ c, rebuildSyncBlock keccak cfg ref (pairs.map Prod.fst) inbound (pairs.map Prod.snd)
        (lead ++ effectsApplied pairs.length 0 m) n = .ok c ↔
      ∃ a b, rebuildSyncBlock keccak cfg ref (pairs.map Prod.fst) inbound (pairs.map Prod.snd)
          (lead ++ effectsApplied pairs.length 0 p) n = .ok a ∧
        rebuildSyncBlock keccak cfg ref (pairs.map Prod.fst) inbound (pairs.map Prod.snd)
          (effectsApplied pairs.length p m) n = .ok b ∧ c = a ++ b) ∧
    ∀ b, rebuildSyncBlock keccak cfg ref (pairs.map Prod.fst) inbound (pairs.map Prod.snd)
        (effectsApplied pairs.length p m) n = .ok b →
      ∀ (localHash : B256) (settled : Option B256), settled ≠ some localHash →
        (∀ a, resumeReplayTxs localHash settled (a ++ b) b = some (a ++ b)) ∧
        ∀ localHash' settled' existing r, resumeReplayTxs localHash' settled' existing b = some r →
          resumeReplayTxs localHash settled r b = some r := by
  refine ⟨rebuildSyncBlock_split keccak cfg ref pairs inbound n anchors hpm hm, ?_⟩
  intro b _ localHash settled stale
  refine ⟨fun a => resumeReplayTxs_append localHash settled a b stale, ?_⟩
  intro localHash' settled' existing r appended
  obtain ⟨base, rfl⟩ := resumeReplayTxs_eq_some appended
  exact resumeReplayTxs_append localHash settled base b stale

end

def withdrawalEntry : ExecutionEntrySol where
  rollupUpdates := []
  proxyEntryHash := 0
  l2ToL1Calls := [⟨0, false, 0, 0x1111, 7, 0x2222, 5, [0xaa]⟩]
  expectedL1ToL2Calls := []
  rollingHash := 0
  destinationRollupId := 7
  success := true
  returnData := [1]

def depositEntry : ExecutionEntrySol :=
  sidecarEntry Keccak.keccak256 ⟨0x3333, 0x4444, 9, [0xbb, 0xcc], mainnet, 7, [], true⟩

theorem exists_ok_of_isOk {ε α} {x : Except ε α} (h : x.isOk = true) : ∃ a, x = .ok a := by
  cases x with
  | error e => cases h
  | ok a => exact ⟨a, rfl⟩

/-- A withdrawal settled first, its batch's deposit by the resumed settlement. -/
theorem rebuildSyncBlock_resume_deposit :
    ∃ a b, rebuildSyncBlock Keccak.keccak256 ⟨eezl2Address, 11, 7⟩ ⟨3, 0⟩ [withdrawalEntry] [depositEntry] [[0x02]]
        ([⟨0, .anchor⟩] ++ effectsApplied 1 0 1) 4 = .ok a ∧
      rebuildSyncBlock Keccak.keccak256 ⟨eezl2Address, 11, 7⟩ ⟨3, 0⟩ [withdrawalEntry] [depositEntry] [[0x02]]
        (effectsApplied 1 1 2) 4 = .ok b ∧
      resumeReplayTxs 0 none (a ++ b) b = some (a ++ b) := by
  obtain ⟨c, whole⟩ : ∃ c, rebuildSyncBlock Keccak.keccak256 ⟨eezl2Address, 11, 7⟩ ⟨3, 0⟩ [withdrawalEntry]
      [depositEntry] [[0x02]] ([⟨0, .anchor⟩] ++ effectsApplied 1 0 2) 4 = .ok c :=
    exists_ok_of_isOk (by decide +kernel)
  have resume := @rebuildSyncBlock_resume Keccak.keccak256 ⟨eezl2Address, 11, 7⟩ ⟨3, 0⟩ [(withdrawalEntry, [0x02])]
    [depositEntry] 4 [⟨0, .anchor⟩] (by decide) 1 2 (by decide) (by decide)
  obtain ⟨a, b, first, second, rfl⟩ := (resume.1 c).mp whole
  exact ⟨a, b, first, second, (resume.2 b second 0 none (by decide)).1 a⟩

end Eez.Deriver
