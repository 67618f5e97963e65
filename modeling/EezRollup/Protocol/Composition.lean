import EezRollup.Protocol.SyncBlock

/-! The builder on arbitrary lists, with entries of other rollups anywhere among the inbound ones.
The split laws follow. -/
namespace Eez
open List Octets Outcome SyncPair IncomingEntry

section
variable (keccak : Bytes → B256) (cfg : SystemTxContext)

/-- The sidecar entry of some deliverable call. -/
def Canonical (entry : ExecutionEntrySol) : Prop :=
  ∃ incoming : IncomingEntry, incoming.Deliverable ∧ entry = sidecarEntry keccak incoming

def own (incoming : List IncomingEntry) : List IncomingEntry :=
  incoming.filter fun i => i.l2RollupId = cfg.thisRollupId

def emitted (outbound : List (ExecutionEntrySol × Bytes)) (inbound : List ExecutionEntrySol) : Nat :=
  outbound.length + (inbound.filter fun entry => entry.destinationRollupId = cfg.thisRollupId).length

theorem admitInbound_canonical (h : admitInbound keccak entry = .ok s) : Canonical keccak entry := by
  simp only [admitInbound, bind_eq_ok, mapError_eq_ok] at h
  obtain ⟨_, _, accepted⟩ := h
  obtain ⟨rfl, made⟩ := (InboundSidecar.tryFrom_eq_ok keccak).mp accepted
  obtain ⟨deliverable, entry⟩ := (InboundSidecar.new_eq_ok keccak).mp made
  exact ⟨s.incomingEntry, deliverable, entry⟩

variable {inbound : List ExecutionEntrySol} {incoming : List IncomingEntry} {n : UInt64}
  {outbound : List (ExecutionEntrySol × Bytes)} {pairs : List SyncPair}

theorem exists_incoming (canonical : ∀ entry ∈ inbound, Canonical keccak entry) :
    ∃ incoming : List IncomingEntry, (∀ i ∈ incoming, i.Deliverable) ∧ inbound =
    incoming.map (sidecarEntry keccak) := by
  induction inbound with
  | nil => exact ⟨[], forall_mem_nil _, rfl⟩
  | cons entry inbound ih =>
    obtain ⟨first, others⟩ := forall_mem_cons.mp canonical
    obtain ⟨i, deliverable, rfl⟩ := first
    obtain ⟨incoming, deliverables, rfl⟩ := ih others
    exact ⟨i :: incoming, forall_mem_cons.mpr ⟨deliverable, deliverables⟩, rfl⟩

theorem mapM_admitInbound (deliverable : ∀ i ∈ incoming, i.Deliverable) :
    (incoming.map (sidecarEntry keccak)).mapM (admitInbound keccak) = .ok (incoming.map (sidecar keccak)) :=
  mapM_eq_ok.mpr ((admitInbound_sidecarEntries keccak deliverable).mpr rfl)

theorem emitted_map (outbound : List (ExecutionEntrySol × Bytes)) (incoming : List IncomingEntry) :
    emitted cfg outbound (incoming.map (sidecarEntry keccak)) = outbound.length + (own cfg incoming).length := by
  rw [emitted, filter_map, length_map]
  rfl

theorem inboundStep_foreign (t : UInt64) (s : InboundSidecar)
    (foreign : decide (s.incomingEntry.l2RollupId = cfg.thisRollupId) = false) :
    inboundStep keccak cfg t s = .ok ([], t) :=
  if_pos (of_decide_eq_false foreign)

theorem buildCrossChainSyncPairs_own (deliverable : ∀ i ∈ incoming, i.Deliverable)
    (outbound : List (ExecutionEntrySol × Bytes)) (n : UInt64) :
    buildCrossChainSyncPairs keccak cfg outbound (incoming.map (sidecarEntry keccak)) n =
      buildCrossChainSyncPairs keccak cfg outbound ((own cfg incoming).map (sidecarEntry keccak)) n := by
  have deliverable' : ∀ i ∈ own cfg incoming, i.Deliverable := fun i hi => deliverable i (mem_of_mem_filter hi)
  have kept : (incoming.map (sidecar keccak)).filter
      (fun s => decide (s.incomingEntry.l2RollupId = cfg.thisRollupId)) = (own cfg incoming).map (sidecar keccak) := by
    rw [filter_map]
    rfl
  have same : ∀ t, threadM (inboundStep keccak cfg) t (incoming.map (sidecar keccak)) =
      threadM (inboundStep keccak cfg) t ((own cfg incoming).map (sidecar keccak)) := by
    intro t
    rw [threadM_filter _ _ (inboundStep_foreign keccak cfg), kept]
  rw [buildCrossChainSyncPairs, buildCrossChainSyncPairs, mapM_admitInbound keccak deliverable,
    mapM_admitInbound keccak deliverable', ok_bind, ok_bind]
  simp only [buildInboundSystemTxs, same]

theorem encodeSystemTx_target {nonce calldata raw value}
    (h : encodeSystemTx nonce cfg.eezl2Address calldata value cfg.l2ChainId = .ok raw) :
    cfg.eezl2Address = eezl2Address := by
  simp only [encodeSystemTx, bind_eq_ok, ensure_eq_ok, exists_const] at h
  exact h.1

theorem outboundStep_target {t item x} (h : outboundStep keccak cfg n item = .ok (x, t)) :
    cfg.eezl2Address = eezl2Address := by
  simp only [outboundStep, buildOutboundPair, buildOutboundLoadTableTxs, threadM, loadTableStep, bind_eq_ok,
    Prod.exists] at h
  obtain ⟨_, ⟨_, _, _, _, _, _, _, ⟨_, _, ⟨_, _, ⟨_, encoded, _⟩, _⟩, _⟩, _⟩, _⟩ := h
  exact encodeSystemTx_target cfg encoded

theorem inboundStep_target {t} {s : InboundSidecar} {x} (mine : s.incomingEntry.l2RollupId = cfg.thisRollupId)
    (h : inboundStep keccak cfg n s = .ok (x, t)) :
    cfg.eezl2Address = eezl2Address := by
  simp only [inboundStep, mine, ne_eq, not_true_eq_false, if_false, bind_eq_ok] at h
  obtain ⟨_, _, _, encoded, _⟩ := h
  exact encodeSystemTx_target cfg encoded

theorem buildCrossChainSyncPairs_target (deliverable : ∀ i ∈ incoming, i.Deliverable)
    (h : buildCrossChainSyncPairs keccak cfg outbound ((own cfg incoming).map (sidecarEntry keccak)) n = .ok pairs) :
    cfg.eezl2Address = eezl2Address ∨ outbound = [] ∧ own cfg incoming = [] := by
  have deliverable' : ∀ i ∈ own cfg incoming, i.Deliverable := fun i hi => deliverable i (mem_of_mem_filter hi)
  obtain ⟨sidecars, loads, t, txs, u, admitted, loaded, delivered, _⟩ :=
    (buildCrossChainSyncPairs_eq_ok keccak cfg).mp h
  rw [admitInbound_sidecarEntries keccak deliverable'] at admitted
  subst admitted
  cases outbound with
  | cons item outbound =>
    simp only [threadM, bind_eq_ok, Prod.exists] at loaded
    obtain ⟨_, _, first, _⟩ := loaded
    exact .inl (outboundStep_target keccak cfg first)
  | nil =>
    cases mine : own cfg incoming with
    | nil => exact .inr ⟨rfl, rfl⟩
    | cons i rest =>
      have member : i ∈ own cfg incoming := by rw [mine]; exact mem_cons_self
      have delivers := of_decide_eq_true (mem_filter.mp member).2
      rw [mine, map_cons] at delivered
      simp only [threadM, bind_eq_ok, Prod.exists] at delivered
      obtain ⟨_, _, first, _⟩ := delivered
      exact .inl (inboundStep_target keccak cfg (s := i.sidecar keccak) delivers first)

theorem buildCrossChainSyncPairs_iff (deliverable : ∀ i ∈ incoming, i.Deliverable) :
    buildCrossChainSyncPairs keccak cfg outbound (incoming.map (sidecarEntry keccak)) n = .ok pairs ↔
      (∀ item ∈ outbound, ∃ call, item.1.Flat call) ∧
      (cfg.eezl2Address = eezl2Address ∨ outbound = [] ∧ own cfg incoming = []) ∧
      n.toNat + (outbound.length + (own cfg incoming).length) < 2 ^ 64 ∧
      pairs = blockPairs keccak cfg n outbound (own cfg incoming) := by
  have deliverable' : ∀ i ∈ own cfg incoming, i.Deliverable := fun i hi => deliverable i (mem_of_mem_filter hi)
  have mine : ∀ i ∈ own cfg incoming, i.l2RollupId = cfg.thisRollupId := by
    intro i hi
    exact of_decide_eq_true (mem_filter.mp hi).2
  rw [buildCrossChainSyncPairs_own keccak cfg deliverable]
  constructor
  · intro h
    have target := buildCrossChainSyncPairs_target keccak cfg deliverable h
    rcases target with manager | ⟨rfl, none⟩
    · obtain ⟨flat, inside, built⟩ :=
        (buildCrossChainSyncPairs_eq_blockPairs keccak manager deliverable' mine).mp h
      exact ⟨flat, .inl manager, inside, built⟩
    · rw [none] at h ⊢
      cases h
      exact ⟨forall_mem_nil _, .inr ⟨rfl, rfl⟩, n.toNat_lt, rfl⟩
  · rintro ⟨flat, manager | ⟨rfl, none⟩, inside, built⟩
    · exact (buildCrossChainSyncPairs_eq_blockPairs keccak manager deliverable' mine).mpr ⟨flat, inside, built⟩
    · rw [none] at built ⊢
      rw [built]
      rfl

theorem buildCrossChainSyncPairs_admitted (h : buildCrossChainSyncPairs keccak cfg outbound inbound n = .ok pairs) :
    ∃ incoming : List IncomingEntry, (∀ i ∈ incoming, i.Deliverable) ∧ inbound =
    incoming.map (sidecarEntry keccak) := by
  obtain ⟨_, _, _, _, _, admitted, _⟩ := (buildCrossChainSyncPairs_eq_ok keccak cfg).mp h
  apply exists_incoming
  intro entry mem
  obtain ⟨_, _, ok⟩ := forall₂_exists_right admitted entry mem
  exact admitInbound_canonical keccak ok

theorem buildCrossChainSyncPairs_isOk : (∃ pairs, buildCrossChainSyncPairs keccak cfg outbound inbound n = .ok pairs) ↔
      (∀ item ∈ outbound, ∃ call, item.1.Flat call) ∧ (∀ entry ∈ inbound, Canonical keccak entry) ∧
      (cfg.eezl2Address = eezl2Address ∨ emitted cfg outbound inbound = 0) ∧
      n.toNat + emitted cfg outbound inbound < 2 ^ 64 := by
  have nothing : ∀ incoming : List IncomingEntry, outbound.length + (own cfg incoming).length = 0 ↔
      outbound = [] ∧ own cfg incoming = [] := by
    intro incoming
    rw [Nat.add_eq_zero_iff, length_eq_zero_iff, length_eq_zero_iff]
  constructor
  · rintro ⟨pairs, h⟩
    obtain ⟨incoming, deliverable, rfl⟩ := buildCrossChainSyncPairs_admitted keccak cfg h
    obtain ⟨flat, target, inside, _⟩ := (buildCrossChainSyncPairs_iff keccak cfg deliverable).mp h
    rw [emitted_map, nothing]
    refine ⟨flat, ?_, target, inside⟩
    intro entry mem
    obtain ⟨i, hi, rfl⟩ := mem_map.mp mem
    exact ⟨i, deliverable i hi, rfl⟩
  · rintro ⟨flat, canonical, target, inside⟩
    obtain ⟨incoming, deliverable, rfl⟩ := exists_incoming keccak canonical
    rw [emitted_map] at target inside
    rw [nothing] at target
    exact ⟨_, (buildCrossChainSyncPairs_iff keccak cfg deliverable).mpr ⟨flat, target, inside, rfl⟩⟩

theorem loads_getElem? (n : UInt64) (entries : List ExecutionEntrySol) (k : Nat) :
    (loads keccak cfg n entries)[k]? = (entries[k]?).map (loadTransaction keccak cfg (n + UInt64.ofNat k)) := by
  induction entries generalizing n k with
  | nil => rfl
  | cons entry entries ih =>
    cases k with
    | zero => simp [loads]
    | succ k => rw [loads, getElem?_cons_succ, getElem?_cons_succ, ih, nonce_add_succ]

theorem deliveries_getElem? (n : UInt64) (incoming : List IncomingEntry) (k : Nat) :
    (deliveries keccak cfg n incoming)[k]? =
      (incoming[k]?).map (deliveryTransaction keccak cfg (n + UInt64.ofNat k)) := by
  induction incoming generalizing n k with
  | nil => rfl
  | cons i incoming ih =>
    cases k with
    | zero => simp [deliveries]
    | succ k => rw [deliveries, getElem?_cons_succ, getElem?_cons_succ, ih, nonce_add_succ]

theorem loadPairs_length (n : UInt64) (items : List (ExecutionEntrySol × Bytes)) :
    (loadPairs keccak cfg n items).length = items.length := by
  simp [loadPairs]

theorem blockPairs_length (n : UInt64) (outbound : List (ExecutionEntrySol × Bytes)) (incoming : List IncomingEntry) :
    (blockPairs keccak cfg n outbound incoming).length = outbound.length + incoming.length := by
  rw [blockPairs, length_append, loadPairs_length, length_map, deliveries_length]

theorem toNat_add_ofNat {k : Nat} (inside : n.toNat + k < 2 ^ 64) : (n + UInt64.ofNat k).toNat = n.toNat + k := by
  rw [UInt64.toNat_add, UInt64.toNat_ofNat']
  omega

theorem blockPairs_nonce (inside : n.toNat + (outbound.length + incoming.length) < 2 ^ 64) {k : Nat}
    (h : (blockPairs keccak cfg n outbound incoming)[k]? = some pair) :
    ∃ tx : SystemTransaction, pair.systemTx = tx.encoded2718 ∧ tx.nonce.toNat = n.toNat + k := by
  have bound := (List.getElem?_eq_some_iff.mp h).1
  rw [blockPairs_length] at bound
  rw [blockPairs, getElem?_append, loadPairs_length] at h
  split at h
  · rw [loadPairs, getElem?_map, Option.map_eq_some_iff] at h
    obtain ⟨⟨tx, user⟩, at_k, rfl⟩ := h
    have load := (getElem?_zip_eq_some.mp at_k).1
    rw [loads_getElem?, Option.map_eq_some_iff] at load
    obtain ⟨entry, _, rfl⟩ := load
    exact ⟨_, rfl, toNat_add_ofNat (by omega)⟩
  · rename_i later
    rw [getElem?_map, deliveries_getElem?, Option.map_map, Option.map_eq_some_iff] at h
    obtain ⟨i, _, rfl⟩ := h
    refine ⟨_, rfl, ?_⟩
    change (n + UInt64.ofNat outbound.length + UInt64.ofNat (k - outbound.length)).toNat = n.toNat + k
    have start : (n + UInt64.ofNat outbound.length).toNat = n.toNat + outbound.length := toNat_add_ofNat (by omega)
    rw [toNat_add_ofNat (by omega), start]
    omega

theorem blockPairs_users (n : UInt64) (outbound : List (ExecutionEntrySol × Bytes)) (incoming : List IncomingEntry) :
    (blockPairs keccak cfg n outbound incoming).map userTx =
      (outbound.map fun item => some item.2) ++ replicate incoming.length none := by
  have loaded : (loadPairs keccak cfg n outbound).map userTx = outbound.map fun item => some item.2 := by
    have second : ∀ pair : SystemTransaction × Bytes, (ofLoad pair).userTx = some pair.2 := fun _ => rfl
    have width : (outbound.map Prod.snd).length ≤ (loads keccak cfg n (outbound.map Prod.fst)).length := by simp
    calc (loadPairs keccak cfg n outbound).map userTx
        = (((loads keccak cfg n (outbound.map Prod.fst)).zip (outbound.map Prod.snd)).map Prod.snd).map some := by
          rw [loadPairs, map_map, map_map]
          exact map_congr_left fun pair _ => second pair
      _ = outbound.map fun item => some item.2 := by
          rw [map_snd_zip width, map_map]
          rfl
  have delivered : ∀ m, ((deliveries keccak cfg m incoming).map ofDelivery).map userTx =
      replicate incoming.length none := by
    intro m
    rw [map_map, eq_replicate_iff, length_map, deliveries_length]
    refine ⟨rfl, ?_⟩
    intro user mem
    obtain ⟨tx, _, rfl⟩ := mem_map.mp mem
    rfl
  rw [blockPairs, map_append, loaded, delivered]

theorem buildCrossChainSyncPairs_foreign (canonical : Canonical keccak entry)
    (foreign : entry.destinationRollupId ≠ cfg.thisRollupId) (outbound : List (ExecutionEntrySol × Bytes))
    (before after : List ExecutionEntrySol) (n : UInt64) :
    buildCrossChainSyncPairs keccak cfg outbound (before ++ entry :: after) n =
      buildCrossChainSyncPairs keccak cfg outbound (before ++ after) n := by
  obtain ⟨incoming, deliverable, rfl⟩ := canonical
  have admitted : admitInbound keccak (sidecarEntry keccak incoming) = .ok (incoming.sidecar keccak) :=
    (admitInbound_sidecarEntry keccak deliverable).mpr rfl
  have same : ∀ (t : UInt64) (l m : List InboundSidecar),
      threadM (inboundStep keccak cfg) t (l ++ incoming.sidecar keccak :: m) =
        threadM (inboundStep keccak cfg) t (l ++ m) := by
    intro t l m
    have dropped : decide ((incoming.sidecar keccak).incomingEntry.l2RollupId = cfg.thisRollupId) = false :=
      decide_eq_false foreign
    rw [threadM_filter _ _ (inboundStep_foreign keccak cfg),
      threadM_filter _ _ (inboundStep_foreign keccak cfg) t (l ++ m),
      filter_append, filter_append,
      filter_cons_of_neg (by rw [dropped]; exact Bool.false_ne_true)]
  simp only [buildCrossChainSyncPairs, buildInboundSystemTxs, mapM_append, mapM_cons, admitted, ok_bind]
  cases before.mapM (admitInbound keccak) with
  | error e => rfl
  | ok l =>
    cases after.mapM (admitInbound keccak) with
    | error e => rfl
    | ok m =>
      simp only [ok_bind, pure_bind, same]

theorem checkedAdd_eq_add (h : checkedAdd a b = some c) : c = a + b := by
  unfold checkedAdd at h
  split at h
  · exact (Option.some.inj h).symm
  · cases h

/-- Building in three goes: outbound entries, the rest of them with some inbound
ones, the rest of those. -/
theorem buildCrossChainSyncPairs_parts {O₁ : List (ExecutionEntrySol × Bytes)} {I₁ : List ExecutionEntrySol}
    (h : buildCrossChainSyncPairs keccak cfg (O₁ ++ O₂) (I₁ ++ I₂) n = .ok pairs) :
    ∃ a b c, buildCrossChainSyncPairs keccak cfg O₁ [] n = .ok a ∧
      buildCrossChainSyncPairs keccak cfg O₂ I₁ (n + UInt64.ofNat a.length) = .ok b ∧
      buildCrossChainSyncPairs keccak cfg [] I₂ (n + UInt64.ofNat (a.length + b.length)) = .ok c ∧
      pairs = a ++ b ++ c := by
  obtain ⟨ab, u, c, first, reached, last, rfl⟩ := (buildCrossChainSyncPairs_inbound_append keccak cfg).mp h
  obtain ⟨a, t, b, outer, met, inner, rfl⟩ := (buildCrossChainSyncPairs_outbound_append keccak cfg).mp first
  rw [checkedAdd_eq_add met] at inner
  rw [checkedAdd_eq_add reached, length_append] at last
  exact ⟨a, b, c, outer, inner, last, rfl⟩

theorem emitted_zero : ¬(cfg.eezl2Address = eezl2Address ∨ emitted cfg outbound inbound = 0) ↔
      cfg.eezl2Address ≠ eezl2Address ∧ 0 < emitted cfg outbound inbound := by
  rw [not_or, Nat.pos_iff_ne_zero]

/-- A build that succeeds is the builds of its parts one after the other, with
consecutive nonces and every outbound pair ahead of the deliveries. An entry of
another rollup changes nothing. A build fails exactly on an unsupported entry, on
a transaction for another target, or when the nonce after the last one is no
`u64`. -/
theorem syncPairs_compositional :
    (∀ (O₁ O₂ : List (ExecutionEntrySol × Bytes)) (I₁ I₂ : List ExecutionEntrySol) (n : UInt64)
      (pairs : List SyncPair), buildCrossChainSyncPairs keccak cfg (O₁ ++ O₂) (I₁ ++ I₂) n = .ok pairs →
      (∃ a b c, buildCrossChainSyncPairs keccak cfg O₁ [] n = .ok a ∧
        buildCrossChainSyncPairs keccak cfg O₂ I₁ (n + UInt64.ofNat a.length) = .ok b ∧
        buildCrossChainSyncPairs keccak cfg [] I₂ (n + UInt64.ofNat (a.length + b.length)) = .ok c ∧
        pairs = a ++ b ++ c) ∧
      (∀ k pair, pairs[k]? = some pair →
        ∃ tx : SystemTransaction, pair.systemTx = tx.encoded2718 ∧ tx.nonce.toNat = n.toNat + k) ∧
      ∃ delivered, pairs.map userTx = ((O₁ ++ O₂).map fun item => some item.2) ++ replicate delivered none ∧
        emitted cfg (O₁ ++ O₂) (I₁ ++ I₂) = (O₁ ++ O₂).length + delivered) ∧
    (∀ (entry : ExecutionEntrySol), Canonical keccak entry → entry.destinationRollupId ≠ cfg.thisRollupId →
      ∀ (outbound : List (ExecutionEntrySol × Bytes)) (before after : List ExecutionEntrySol) (n : UInt64),
        buildCrossChainSyncPairs keccak cfg outbound (before ++ entry :: after) n =
          buildCrossChainSyncPairs keccak cfg outbound (before ++ after) n) ∧
    ∀ (outbound : List (ExecutionEntrySol × Bytes)) (inbound : List ExecutionEntrySol) (n : UInt64),
      (∃ error, buildCrossChainSyncPairs keccak cfg outbound inbound n = .error error) ↔
        (∃ item ∈ outbound, ¬∃ call, item.1.Flat call) ∨ (∃ entry ∈ inbound, ¬Canonical keccak entry) ∨
        (cfg.eezl2Address ≠ eezl2Address ∧ 0 < emitted cfg outbound inbound) ∨
        2 ^ 64 ≤ n.toNat + emitted cfg outbound inbound := by
  refine ⟨?_, ?_, ?_⟩
  · intro O₁ O₂ I₁ I₂ n pairs h
    obtain ⟨incoming, deliverable, entries⟩ := buildCrossChainSyncPairs_admitted keccak cfg h
    have whole := h
    rw [entries] at whole
    obtain ⟨_, _, inside, built⟩ := (buildCrossChainSyncPairs_iff keccak cfg deliverable).mp whole
    refine ⟨buildCrossChainSyncPairs_parts keccak cfg h, ?_, (own cfg incoming).length, ?_, ?_⟩
    · intro k pair at_k
      rw [built] at at_k
      exact blockPairs_nonce keccak cfg inside at_k
    · rw [built, blockPairs_users]
    · rw [entries, emitted_map]
  · intro entry canonical foreign outbound before after n
    exact buildCrossChainSyncPairs_foreign keccak cfg canonical foreign outbound before after n
  · intro outbound inbound n
    rw [exists_error_iff, buildCrossChainSyncPairs_isOk, not_and_or, not_and_or, not_and_or, emitted_zero, Nat.not_lt]
    simp only [not_forall, exists_prop]

end

/-- One delivery to rollup 7, at nonce 4. -/
theorem syncPairs_compositional_one : ∃ pairs, buildCrossChainSyncPairs Keccak.keccak256 ⟨eezl2Address, 1, 7⟩ ([] ++ [])
        ([] ++ [sidecarEntry Keccak.keccak256 ⟨6, 5, 9, [1, 2], 0, 7, [3], true⟩]) 4 = .ok pairs ∧
      ∃ delivered, pairs.map userTx = replicate delivered none := by
  have deliverable : ∀ i ∈ [(⟨6, 5, 9, [1, 2], 0, 7, [3], true⟩ : IncomingEntry)], i.Deliverable := by
    intro i hi
    rw [mem_singleton.mp hi]
    refine ⟨?_, ?_, ?_⟩ <;> decide
  have built : buildCrossChainSyncPairs Keccak.keccak256 ⟨eezl2Address, 1, 7⟩ []
      ([(⟨6, 5, 9, [1, 2], 0, 7, [3], true⟩ : IncomingEntry)].map (sidecarEntry Keccak.keccak256)) 4 = .ok _ :=
    (buildCrossChainSyncPairs_iff Keccak.keccak256 ⟨eezl2Address, 1, 7⟩ deliverable).mpr
      ⟨forall_mem_nil _, .inl rfl, by decide, rfl⟩
  obtain ⟨_, _, delivered, users, _⟩ :=
    (syncPairs_compositional Keccak.keccak256 ⟨eezl2Address, 1, 7⟩).1 [] [] [] _ 4 _ built
  exact ⟨_, built, delivered, users⟩

/-- With nothing to emit no target is looked at. -/
theorem emptyBuild_any_target : (⟨0, 1, 7⟩ : SystemTxContext).eezl2Address ≠ eezl2Address ∧
      buildCrossChainSyncPairs Keccak.keccak256 ⟨0, 1, 7⟩ [] [] 4 = .ok [] :=
  ⟨by decide, rfl⟩

end Eez
