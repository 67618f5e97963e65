import EezRollup.Signer.Completeness

/-! Two settlements of one window with the same entries publish the same container, as far as the
hash function does not collide. -/
open List
namespace Eez.Signer
open Octets Outcome Codec

section
variable {keccak : Bytes → B256} {r : UInt64} {a : Action} {entry : ExecutionEntrySol}

def rebuildPreimages (keccak : Bytes → B256) (action : Action) : List Bytes :=
  let callHash := commonCrossChainCallHash keccak (callHashInputOf action)
  [callHashPreimage (callHashInputOf action) 0,
    callEndPreimage (callBegin keccak (seedForL2 keccak callHash) callHash) action.success action.returnData]

/-- An entry with neither hash is that of an outbound action: any other action
has two different preimages of zero. -/
theorem entryFromAction_outward (ha : entryFromAction keccak a r = .ok entry) (proxy : entry.proxyEntryHash = 0)
    (rolling : entry.rollingHash = 0) (free : collisionFreeOn keccak (rebuildPreimages keccak a)) :
    Carries a entry ∧ a.targetRollupId = mainnet := by
  obtain ⟨_, carries, _, _, _, hashes⟩ := entryFromAction_eq_ok.mp ha
  refine ⟨carries, ?_⟩
  by_cases outward : a.sourceRollupId = r ∧ a.targetRollupId = mainnet
  · exact outward.2
  · rw [if_neg outward, proxy, rolling] at hashes
    obtain ⟨callHash, rollingHash⟩ := Prod.mk.inj hashes
    have collision := free (callHashPreimage (callHashInputOf a) 0) (by simp [rebuildPreimages])
      (callEndPreimage (callBegin keccak (seedForL2 keccak (commonCrossChainCallHash keccak (callHashInputOf a)))
        (commonCrossChainCallHash keccak (callHashInputOf a))) a.success a.returnData) (by simp [rebuildPreimages])
      (callHash.symm.trans rollingHash)
    exact absurd collision (callHashPreimage_ne_callEndPreimage _ _ _ _ _)

end

section
variable (keccak : Bytes → B256) (r : UInt64)

/-- The action published for an outbound entry. -/
def Publishes (claimed : ExecutionEntrySol) (action : Action) : Prop :=
  ∃ entry, entryFromAction keccak action r = .ok entry ∧
    entry = { claimed with rollupUpdates := [], rollingHash := 0, returnData := entry.returnData } ∧
    callEnd keccak (pendingHash keccak claimed) claimed.success entry.returnData = claimed.rollingHash

def slotPreimages (slot : ExecutionEntrySol × Action) : List Bytes :=
  callEndPreimage (pendingHash keccak slot.1) slot.2.success slot.2.returnData :: rebuildPreimages keccak slot.2

def outboundPreimages (entries : List ExecutionEntrySol) (actions : List Action) : List Bytes :=
  ((entries.filter fun e => e.l2ToL1Calls ≠ []).zip actions).flatMap (slotPreimages keccak)

variable {keccak r}

theorem Publishes.unique {claimed : ExecutionEntrySol} (proxy : claimed.proxyEntryHash = 0)
    (ha : Publishes keccak r claimed a) (hb : Publishes keccak r claimed b)
    (free : collisionFreeOn keccak (slotPreimages keccak (claimed, a) ++ slotPreimages keccak (claimed, b))) :
    a = b := by
  obtain ⟨entry, hentry, derived, hash⟩ := ha
  obtain ⟨entry', hentry', derived', hash'⟩ := hb
  have proxy' : ∀ e : ExecutionEntrySol,
      e = { claimed with rollupUpdates := [], rollingHash := 0, returnData := e.returnData } →
      e.proxyEntryHash = 0 ∧ e.rollingHash = 0 ∧ e.success = claimed.success := by
    intro e he
    rw [he]
    exact ⟨proxy, rfl, rfl⟩
  obtain ⟨zero, zero', success⟩ := proxy' entry derived
  obtain ⟨czero, czero', success'⟩ := proxy' entry' derived'
  obtain ⟨carries, target⟩ := entryFromAction_outward hentry zero zero'
    (free.mono fun x hx => mem_append_left _ (mem_cons_of_mem _ hx))
  obtain ⟨carries', target'⟩ := entryFromAction_outward hentry' czero czero'
    (free.mono fun x hx => mem_append_right _ (mem_cons_of_mem _ hx))
  -- both return data complete one rolling hash
  have same : entry.returnData = entry'.returnData := by
    rw [carries.returnData, carries'.returnData]
    refine (callEndPreimage_inj (free _ (mem_append_left _ mem_cons_self) _
      (mem_append_right _ mem_cons_self) ?_)).2.2
    rw [← carries.success, ← carries.returnData, ← carries'.success, ← carries'.returnData, success, success']
    exact hash.trans hash'.symm
  have entries : entry = entry' := by
    rw [derived, derived', same]
  exact carries.eq (entries ▸ carries') (target.trans target'.symm)

end

theorem framedFlags_inj (h : framedFlags k m = framedFlags k' m') : k = k' ∧ m = m' := by
  have falses := congrArg (List.count false) h
  have lengths := congrArg List.length h
  have count : ∀ k m, (framedFlags k m).count false = k := by
    intro k m
    induction k with
    | zero => simp [framedFlags, count_replicate]
    | succ k ih => rw [framedFlags_succ, count_cons_of_ne (by decide), count_cons_self, ih]
  rw [count, count] at falses
  rw [framedFlags_length, framedFlags_length] at lengths
  omega

theorem forall₂_unique {α β : Type} {R S : α → β → Prop} {l m n} (hm : Forall₂ R l m) (hn : Forall₂ S l n)
    (unique : ∀ a b c, (a, b) ∈ l.zip m → (a, c) ∈ l.zip n → R a b → S a c → b = c) : m = n := by
  induction hm generalizing n with
  | nil => cases hn; rfl
  | @cons a b l m hab _ ih =>
    obtain ⟨c, n, hac, rest, rfl⟩ := forall₂_cons_left_iff.mp hn
    rw [unique a b c mem_cons_self mem_cons_self hab hac,
      ih rest fun x y z hy hz => unique x y z (mem_cons_of_mem _ hy) (mem_cons_of_mem _ hz)]

theorem mem_zip_append {α β : Type} {p} {l : List α} {m} (h : p ∈ l.zip m) (n : List β) : p ∈ l.zip (m ++ n) := by
  obtain ⟨i, hi⟩ := mem_iff_getElem?.mp h
  obtain ⟨ha, hb⟩ := getElem?_zip_eq_some.mp hi
  refine mem_iff_getElem?.mpr ⟨i, getElem?_zip_eq_some.mpr ⟨ha, ?_⟩⟩
  rw [getElem?_append_left (List.getElem?_eq_some_iff.mp hb).1, hb]

namespace Settled
variable {ext : Externals} {input : SettlementInput} (s : Settled ext input)

theorem outActions_publish : Forall₂ (Publishes ext.keccak256 input.expectedRollupId) s.outbound s.outActions := by
  have completes := s.published.actions.completes
  rw [forall₂_map_left_iff] at completes
  rw [outbound, forall₂_map_left_iff]
  refine (forall₂_join completes.flip s.published.actions.rebuilt.flip).imp ?_
  rintro e action ⟨entry, _, completes, rebuilt⟩
  exact ⟨entry, rebuilt, completes.derived, completes.rollingHash⟩

theorem filter_calls : s.batch.entries.filter (fun e => e.l2ToL1Calls ≠ []) = s.outbound := by
  have anchored : s.anchor.l2ToL1Calls = [] := by
    have shape := classifyClaimedEntry_admits ext.keccak256 s.chain.leading.claimedEntry
      s.chain.leading.claimedUpdate s.chain.expectedRollup
    rw [s.bound.anchor] at shape
    exact shape.2
  rw [s.entries_eq, filter_cons_of_neg (by simp [anchored]), filter_append, filter_eq_self.mpr,
    filter_eq_nil_iff.mpr, append_nil]
  · intro entry hentry
    obtain ⟨e, he, rfl⟩ := mem_map.mp hentry
    simp [(s.admits_in he).2]
  · intro entry hentry
    obtain ⟨e, he, rfl⟩ := mem_map.mp hentry
    obtain ⟨_, call, sole⟩ := s.admits_out he
    simp [sole]

theorem slot_preimages (h : slot ∈ s.outbound.zip s.outActions) : ∀ x ∈ slotPreimages ext.keccak256 slot,
      x ∈ outboundPreimages ext.keccak256 s.batch.entries s.container.actions := by
  intro x hx
  refine mem_flatMap.mpr ⟨slot, ?_, hx⟩
  rw [s.filter_calls, s.published.actions.split]
  exact mem_zip_append h _

section
variable {input' : SettlementInput} (s' : Settled ext input')
  (window : input'.validatedWindow = input.validatedWindow) (rollup : input'.expectedRollupId = input.expectedRollupId)

include window in
theorem counts_eq : s'.outs.length = s.outs.length ∧ s'.ins.length = s.ins.length := by
  have flags := s'.flags_eq
  rw [window, s.flags_eq] at flags
  obtain ⟨outs, ins⟩ := framedFlags_inj flags
  exact ⟨outs.symm, ins.symm⟩

include window in
theorem pairs_eq : s'.pairs = s.pairs := by
  have framed := s'.layout.transactions
  rw [window, s.layout.transactions] at framed
  refine (framedList_inj ?_ framed.symm).1
  rw [s'.pairs_length, s.pairs_length, (s.counts_eq s' window).1]

include window rollup in
theorem deliveries_eq : s'.deliveries = s.deliveries := by
  have candidates := s'.candidates
  rw [window, rollup, s.candidates] at candidates
  refine (map_injective_iff.mpr ?_ candidates).symm
  intro a b same
  obtain ⟨index, observation⟩ := a
  obtain ⟨index', observation'⟩ := b
  obtain ⟨rfl, inspection⟩ := InboundCandidate.mk.inj same
  obtain rfl := Except.ok.inj inspection
  rfl

include window rollup in
theorem inActions_eq : s'.inActions = s.inActions := by
  have delivered := s.published.actions.delivered.flip
  have delivered' := s'.published.actions.delivered.flip
  rw [s.deliveries_eq s' window rollup, rollup] at delivered'
  refine forall₂_unique delivered' delivered ?_
  intro b action action' hmem _ rebuilt rebuilt'
  refine entryFromAction_inj_inbound rebuilt rebuilt' ?_
  obtain ⟨incoming, hincoming, allIncoming⟩ := s.sidecars_incoming
  have sidecar : b.observation.derivedDaEntry.abiEntry ∈ s.sidecars :=
    mem_map.mpr ⟨b, (of_mem_zip hmem).1, rfl⟩
  rw [hincoming] at sidecar
  obtain ⟨i, hi, same⟩ := mem_map.mp sidecar
  rw [← same]
  exact (allIncoming i hi).callHash_ne_zero

variable (entries : s'.batch.entries = s.batch.entries)

include rollup entries in
theorem outActions_eq
    (free : collisionFreeOn ext.keccak256 (outboundPreimages ext.keccak256 s.batch.entries s.container.actions ++
      outboundPreimages ext.keccak256 s.batch.entries s'.container.actions)) :
    s'.outActions = s.outActions := by
  have outbound : s'.outbound = s.outbound := by
    rw [← s'.filter_calls, ← s.filter_calls, entries]
  have publish := s.outActions_publish
  have publish' := s'.outActions_publish
  rw [outbound, rollup] at publish'
  refine forall₂_unique publish' publish ?_
  intro claimed action action' hslot hslot' publishes publishes'
  have member : claimed ∈ s.outbound := (of_mem_zip hslot').1
  obtain ⟨e, he, rfl⟩ := mem_map.mp member
  refine publishes.unique (s.admits_out he).1 publishes' (free.mono ?_)
  intro x hx
  rcases mem_append.mp hx with hx | hx
  · rw [← outbound] at hslot
    have preimage := s'.slot_preimages hslot x hx
    rw [entries] at preimage
    exact mem_append_right _ preimage
  · exact mem_append_left _ (s.slot_preimages hslot' x hx)

include window rollup entries in
theorem container_eq
    (free : collisionFreeOn ext.keccak256 (outboundPreimages ext.keccak256 s.batch.entries s.container.actions ++
      outboundPreimages ext.keccak256 s.batch.entries s'.container.actions)) :
    s'.container = s.container := by
  have consistent := decodeContainer_consistent s.payload
  have consistent' := decodeContainer_consistent s'.payload
  have published := s.published
  have published' := s'.published
  rw [window, rollup, s.pairs_eq s' window] at published'
  have counts : s'.container.span.blockTxCounts = s.container.span.blockTxCounts :=
    map_injective_iff.mpr (fun _ _ h => UInt32.toNat_inj.mp h) (published'.counts.trans published.counts.symm)
  have span : s'.container.span = s.container.span := by
    have beneficiaries := (published'.beneficiaries consistent').trans (published.beneficiaries consistent).symm
    have extraData := (published'.extraData consistent').trans (published.extraData consistent).symm
    have transactions := published'.transactions.trans published.transactions.symm
    cases hspan : s.container.span
    cases hspan' : s'.container.span
    simp only [hspan, hspan'] at counts beneficiaries extraData transactions
    rw [counts, beneficiaries, extraData, transactions]
  have actions : s'.container.actions = s.container.actions := by
    rw [published'.actions.split, published.actions.split, s.inActions_eq s' window rollup,
      s.outActions_eq s' rollup entries free]
  have rollupId := published'.rollupId.trans published.rollupId.symm
  cases hcontainer : s.container
  cases hcontainer' : s'.container
  simp only [hcontainer, hcontainer'] at rollupId span actions
  rw [rollupId, span, actions]

end

end Settled

/-- What is published is determined by the window and the entries. -/
theorem runSettlement_determined {ext : Externals} {input input' : SettlementInput} {hash hash' : B256}
    (window : input'.validatedWindow = input.validatedWindow)
    (rollup : input'.expectedRollupId = input.expectedRollupId) (h : runSettlement ext input = .ok hash)
    (h' : runSettlement ext input' = .ok hash') {batch batch' : EvmBatch}
    (decoded : decodeCanonicalPostBatch ext input.submittedPostBatchCalldata = .ok ⟨batch⟩)
    (decoded' : decodeCanonicalPostBatch ext input'.submittedPostBatchCalldata = .ok ⟨batch'⟩)
    (entries : batch'.entries = batch.entries)
    (free : ∀ container container', decodeContainer batch.callData = .ok container →
      decodeContainer batch'.callData = .ok container' →
      collisionFreeOn ext.keccak256 (outboundPreimages ext.keccak256 batch.entries container.actions ++
        outboundPreimages ext.keccak256 batch.entries container'.actions)) :
    ∃ container, decodeContainer batch.callData = .ok container ∧ decodeContainer batch'.callData = .ok container := by
  obtain ⟨s⟩ := runSettlement_settled h
  obtain ⟨s'⟩ := runSettlement_settled h'
  obtain rfl : s.batch = batch := CanonicalPostBatch.mk.inj (Except.ok.inj (s.decoded.symm.trans decoded))
  obtain rfl : s'.batch = batch' := CanonicalPostBatch.mk.inj (Except.ok.inj (s'.decoded.symm.trans decoded'))
  have same := s.container_eq s' window rollup entries (free _ _ s.payload s'.payload)
  exact ⟨s.container, s.payload, same ▸ s'.payload⟩

theorem sampleBatch_collisionFree :
    collisionFreeOn Keccak.keccak256 (outboundPreimages Keccak.keccak256 sampleBatch.entries sampleActions) := by
  unfold collisionFreeOn
  decide +kernel

theorem determined_sample : ∃ container, decodeContainer sampleBatch.callData = .ok container ∧
    decodeContainer sampleBatch.callData = .ok container := by
  obtain ⟨_, accepted⟩ := sampleSubmission.run_ok
  refine runSettlement_determined rfl rfl accepted accepted sampleSubmission.decode_ok sampleSubmission.decode_ok rfl ?_
  intro container container' decoded decoded'
  obtain rfl := Except.ok.inj (sampleSubmission.payload_decodes.symm.trans decoded)
  obtain rfl := Except.ok.inj (sampleSubmission.payload_decodes.symm.trans decoded')
  exact sampleBatch_collisionFree.mono fun x hx => (mem_append.mp hx).elim id id

end Eez.Signer
