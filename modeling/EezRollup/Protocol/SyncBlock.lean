import EezRollup.Protocol.SystemTx

/-! One load per outbound entry, one delivery per incoming call of this rollup, system nonces
counting up from the first. -/
namespace Eez
open List Octets Outcome InboundSidecar IncomingEntry

section
variable (keccak : Bytes → B256)

def OutboundEntry.lowered (entry : OutboundEntry) : L2ExecutionEntrySol where
  proxyEntryHash := l2OutboundCallHash keccak
    ⟨.mutable, entry.source, entry.l2RollupId, entry.target, mainnet, entry.value, entry.data⟩ 0
  incomingCalls := []
  expectedOutgoingCalls := []
  rollingHash := seedForL2 keccak (l2OutboundCallHash keccak
    ⟨.mutable, entry.source, entry.l2RollupId, entry.target, mainnet, entry.value, entry.data⟩ 0)
  success := true
  returnData := entry.returnData

theorem buildL2OutboundEntry_eq_ok :
    buildL2OutboundEntry keccak entry = .ok l2Entry ↔ entry.success = true ∧ l2Entry = entry.lowered keccak := by
  simp only [buildL2OutboundEntry, bind_eq_ok, ensure_eq_ok, exists_const, pure_eq_ok]
  exact and_congr_right fun _ => eq_comm

structure ExecutionEntrySol.Flat (entry : ExecutionEntrySol) (call : L2ToL1CallSol) : Prop where
  sole : entry.l2ToL1Calls = [call]
  expected : entry.expectedL1ToL2Calls = []
  success : entry.success = true
  isStatic : call.isStatic = false
  revertNextNCalls : call.revertNextNCalls = 0
  gas : call.gas = 0

theorem checkEntryShape_eq_ok {entry : ExecutionEntrySol} {call : L2ToL1CallSol}
    (sole : entry.l2ToL1Calls = [call]) : checkEntryShape entry dir = .ok u ↔ entry.Flat call := by
  simp only [checkEntryShape, bind_eq_ok, ensure_eq_ok, exists_const, sole, length_singleton, le_refl,
    true_and, mem_singleton, forall_eq]
  constructor
  · rintro ⟨expected, success, isStatic, revert, gas⟩
    exact ⟨sole, expected, success, isStatic, revert, gas⟩
  · intro flat
    exact ⟨flat.expected, flat.success, flat.isStatic, flat.revertNextNCalls, flat.gas⟩

variable (cfg : SystemTxContext)

def loadTransaction (nonce : UInt64) (entry : ExecutionEntrySol) : SystemTransaction where
  chainId := cfg.l2ChainId
  nonce := nonce
  toAddress := eezl2Address
  value := 0
  input := encodeLoadExecutionTable ⟨entry.l2ToL1Calls.map fun call => OutboundEntry.lowered keccak
    ⟨call.targetAddress, call.sourceAddress, call.value, call.data, cfg.thisRollupId, entry.returnData, true⟩, []⟩

def deliveryTransaction (nonce : UInt64) (incoming : IncomingEntry) : SystemTransaction where
  chainId := cfg.l2ChainId
  nonce := nonce
  toAddress := eezl2Address
  value := incoming.value
  input := encodeExecuteIncoming (incoming.lowered keccak)

def loads : UInt64 → List ExecutionEntrySol → List SystemTransaction
  | _, [] => []
  | nonce, entry :: entries => loadTransaction keccak cfg nonce entry :: loads (nonce + 1) entries

def deliveries : UInt64 → List IncomingEntry → List SystemTransaction
  | _, [] => []
  | nonce, incoming :: rest => deliveryTransaction keccak cfg nonce incoming :: deliveries (nonce + 1) rest

@[simp] theorem loads_length (nonce : UInt64) (entries : List ExecutionEntrySol) :
    (loads keccak cfg nonce entries).length = entries.length := by
  induction entries generalizing nonce with
  | nil => rfl
  | cons entry entries ih => simp only [loads, length_cons, ih]

@[simp] theorem deliveries_length (nonce : UInt64) (incoming : List IncomingEntry) :
    (deliveries keccak cfg nonce incoming).length = incoming.length := by
  induction incoming generalizing nonce with
  | nil => rfl
  | cons i incoming ih => simp only [deliveries, length_cons, ih]

theorem mem_loads (h : tx ∈ loads keccak cfg nonce entries) :
    ∃ n, ∃ entry ∈ entries, tx = loadTransaction keccak cfg n entry := by
  induction entries generalizing nonce with
  | nil => cases h
  | cons entry entries ih =>
    rcases mem_cons.mp h with rfl | h
    · exact ⟨nonce, entry, mem_cons_self, rfl⟩
    · obtain ⟨n, e, he, rfl⟩ := ih h
      exact ⟨n, e, mem_cons_of_mem _ he, rfl⟩

theorem deliveries_forall₂ (nonce : UInt64) (incoming : List IncomingEntry) :
    Forall₂ (fun tx i => ∃ n, tx = deliveryTransaction keccak cfg n i)
      (deliveries keccak cfg nonce incoming) incoming := by
  induction incoming generalizing nonce with
  | nil => exact .nil
  | cons i incoming ih => exact .cons ⟨nonce, rfl⟩ (ih (nonce + 1))

def SyncPair.ofLoad (pair : SystemTransaction × Bytes) : SyncPair := ⟨pair.1.encoded2718, some pair.2⟩

def SyncPair.ofDelivery (tx : SystemTransaction) : SyncPair := ⟨tx.encoded2718, none⟩

def loadPairs (nonce : UInt64) (items : List (ExecutionEntrySol × Bytes)) : List SyncPair :=
  ((loads keccak cfg nonce (items.map Prod.fst)).zip (items.map Prod.snd)).map .ofLoad

end

theorem checkedAdd_one_eq_some : checkedAdd n 1 = some t ↔ n.toNat + 1 < 2 ^ 64 ∧ t = n + 1 := by
  unfold checkedAdd
  split
  · rename_i inside
    simp only [Option.some.injEq]
    exact ⟨fun h => ⟨inside, h.symm⟩, fun h => h.2.symm⟩
  · rename_i outside
    simp only [reduceCtorEq, false_iff, not_and]
    exact fun inside => absurd inside outside

theorem nonce_succ {n : UInt64} {k : Nat} :
    (n.toNat + 1 < 2 ^ 64 ∧ (n + 1).toNat + k < 2 ^ 64) ↔ n.toNat + (k + 1) < 2 ^ 64 := by
  have sum : n.toNat + 1 < 2 ^ 64 → (n + 1).toNat = n.toNat + 1 := by
    intro inside
    rw [UInt64.toNat_add]
    exact Nat.mod_eq_of_lt inside
  constructor
  · rintro ⟨inside, rest⟩
    rw [sum inside] at rest
    omega
  · intro whole
    have inside : n.toNat + 1 < 2 ^ 64 := by omega
    rw [sum inside]
    omega

theorem nonce_add_succ (n : UInt64) (k : Nat) : n + 1 + UInt64.ofNat k = n + UInt64.ofNat (k + 1) := by
  rw [UInt64.ofNat_add, UInt64.add_assoc, UInt64.add_comm 1]
  rfl

section
variable {keccak : Bytes → B256} {cfg : SystemTxContext} (manager : cfg.eezl2Address = eezl2Address)
include manager

theorem encodeSystemTx_eq_ok {nonce calldata raw value} :
    encodeSystemTx nonce cfg.eezl2Address calldata value cfg.l2ChainId = .ok raw ↔
      raw = SystemTransaction.encoded2718 ⟨cfg.l2ChainId, nonce, eezl2Address, value, calldata⟩ := by
  simp only [encodeSystemTx, bind_eq_ok, ensure_eq_ok, exists_const, pure_eq_ok, manager, true_and]
  exact eq_comm

theorem outboundStep_eq_ok_iff {n t item x} : outboundStep keccak cfg n item = .ok (x, t) ↔
      (∃ call, item.1.Flat call) ∧ (n.toNat + 1 < 2 ^ 64 ∧ t = n + 1) ∧
        x = [⟨(loadTransaction keccak cfg n item.1).encoded2718, some item.2⟩] := by
  obtain ⟨entry, userTx⟩ := item
  simp only [outboundStep, buildOutboundPair, buildOutboundLoadTableTxs, threadM, loadTableStep, bind_eq_ok,
    Prod.exists, pure_eq_ok, Except.ok.injEq, Prod.mk.injEq, require_eq_ok, mapError_eq_ok,
    buildL2OutboundEntry_eq_ok, encodeSystemTx_eq_ok manager]
  constructor
  · rintro ⟨_, ⟨_, shape, call, hcall, _, ⟨_, rfl⟩, _,
      ⟨_, _, ⟨_, _, ⟨_, rfl, _, _, rfl, rfl⟩, _, _, ⟨rfl, rfl⟩, rfl, rfl⟩,
      rfl⟩, rfl⟩, _, hnonce, rfl, rfl⟩
    have sole : entry.l2ToL1Calls = [call] := by
      simp only [checkEntryShape, bind_eq_ok, ensure_eq_ok, exists_const] at shape
      obtain ⟨rest, hrest⟩ := head?_eq_some_iff.mp hcall
      rw [hrest] at shape ⊢
      cases rest with
      | nil => rfl
      | cons c rest => exact absurd shape.1 (by simp)
    have flat := (checkEntryShape_eq_ok sole).mp shape
    refine ⟨⟨call, flat⟩, checkedAdd_one_eq_some.mp hnonce, ?_⟩
    simp only [loadTransaction, sole, flat.success]
    rfl
  · rintro ⟨⟨call, flat⟩, hnonce, rfl⟩
    have next := checkedAdd_one_eq_some.mpr hnonce
    refine ⟨_, ⟨(), (checkEntryShape_eq_ok flat.sole).mpr flat, call, by rw [flat.sole]; rfl, _, ⟨flat.success, rfl⟩,
      _, ⟨_, _, ⟨_, _, ⟨_, rfl, t, next, rfl, rfl⟩, [], t, ⟨rfl, rfl⟩, rfl, rfl⟩, rfl⟩, rfl⟩, t, next, ?_, rfl⟩
    simp only [loadTransaction, flat.sole, flat.success]
    rfl

theorem threadM_outboundStep_eq_ok : threadM (outboundStep keccak cfg) n items = .ok (x, t) ↔
      (∀ item ∈ items, ∃ call, item.1.Flat call) ∧
        (n.toNat + items.length < 2 ^ 64 ∧ t = n + UInt64.ofNat items.length) ∧ x = loadPairs keccak cfg n items := by
  induction items generalizing n t x with
  | nil =>
    simp only [threadM, Except.ok.injEq, Prod.mk.injEq, not_mem_nil, false_imp_iff, implies_true, true_and,
      length_nil, Nat.add_zero, n.toNat_lt, loadPairs]
    constructor
    · rintro ⟨rfl, rfl⟩
      exact ⟨(UInt64.add_zero n).symm, rfl⟩
    · rintro ⟨rfl, rfl⟩
      exact ⟨rfl, (UInt64.add_zero n).symm⟩
  | cons item items ih =>
    simp only [threadM, bind_eq_ok, Prod.exists, pure_eq_ok, Prod.mk.injEq, outboundStep_eq_ok_iff manager, ih,
      forall_mem_cons, length_cons]
    constructor
    · rintro ⟨_, _, ⟨flat, ⟨inside, rfl⟩, rfl⟩, _, _, ⟨flats, ⟨rest, rfl⟩, rfl⟩, rfl, rfl⟩
      exact ⟨⟨flat, flats⟩, ⟨nonce_succ.mp ⟨inside, rest⟩, nonce_add_succ n _⟩, rfl⟩
    · rintro ⟨⟨flat, flats⟩, ⟨whole, rfl⟩, rfl⟩
      obtain ⟨inside, rest⟩ := nonce_succ.mpr whole
      exact ⟨_, _, ⟨flat, ⟨inside, rfl⟩, rfl⟩, _, _, ⟨flats, ⟨rest, rfl⟩, rfl⟩, rfl, nonce_add_succ n _⟩

theorem inboundStep_eq_ok_iff {n t} {sidecar : InboundSidecar} {x}
    (own : sidecar.incomingEntry.l2RollupId = cfg.thisRollupId) :
    inboundStep keccak cfg n sidecar = .ok (x, t) ↔ (n.toNat + 1 < 2 ^ 64 ∧ t = n + 1) ∧
        x = [(deliveryTransaction keccak cfg n sidecar.incomingEntry).encoded2718] := by
  have success : sidecar.incomingEntry.success = true := rfl
  simp only [inboundStep, own, ne_eq, not_true_eq_false, if_false, bind_eq_ok, mapError_eq_ok,
    buildL2IncomingEntry_eq_ok, success, true_and, exists_eq_left, encodeSystemTx_eq_ok manager, require_eq_ok,
    checkedAdd_one_eq_some, pure_eq_ok, Prod.mk.injEq]
  constructor
  · rintro ⟨_, ⟨inside, rfl⟩, rfl, rfl⟩
    exact ⟨⟨inside, rfl⟩, rfl⟩
  · rintro ⟨⟨inside, rfl⟩, rfl⟩
    exact ⟨_, ⟨inside, rfl⟩, rfl, rfl⟩

theorem threadM_inboundStep_eq_ok {n t : UInt64} {sidecars : List InboundSidecar} {x : List Bytes}
    (own : ∀ s ∈ sidecars, s.incomingEntry.l2RollupId = cfg.thisRollupId) :
    threadM (inboundStep keccak cfg) n sidecars = .ok (x, t) ↔
      (n.toNat + sidecars.length < 2 ^ 64 ∧ t = n + UInt64.ofNat sidecars.length) ∧
        x = (deliveries keccak cfg n (sidecars.map incomingEntry)).map
          SystemTransaction.encoded2718 := by
  induction sidecars generalizing n t x with
  | nil =>
    simp only [threadM, Except.ok.injEq, Prod.mk.injEq, length_nil, Nat.add_zero, n.toNat_lt, true_and,
      map_nil, deliveries]
    constructor
    · rintro ⟨rfl, rfl⟩
      exact ⟨(UInt64.add_zero n).symm, rfl⟩
    · rintro ⟨rfl, rfl⟩
      exact ⟨rfl, (UInt64.add_zero n).symm⟩
  | cons sidecar sidecars ih =>
    obtain ⟨first, others⟩ := forall_mem_cons.mp own
    simp only [threadM, bind_eq_ok, Prod.exists, pure_eq_ok, Prod.mk.injEq, inboundStep_eq_ok_iff manager first,
      ih others, length_cons]
    constructor
    · rintro ⟨_, _, ⟨⟨inside, rfl⟩, rfl⟩, _, _, ⟨⟨rest, rfl⟩, rfl⟩, rfl, rfl⟩
      exact ⟨⟨nonce_succ.mp ⟨inside, rest⟩, nonce_add_succ n _⟩, rfl⟩
    · rintro ⟨⟨whole, rfl⟩, rfl⟩
      obtain ⟨inside, rest⟩ := nonce_succ.mpr whole
      exact ⟨_, _, ⟨⟨inside, rfl⟩, rfl⟩, _, _, ⟨⟨rest, rfl⟩, rfl⟩, rfl, nonce_add_succ n _⟩

end

section
variable (keccak : Bytes → B256)

def IncomingEntry.sidecar (incoming : IncomingEntry) : InboundSidecar where
  abiEntry := sidecarEntry keccak incoming
  call := ⟨0, false, 0, incoming.source, incoming.sourceRollupId, incoming.target, incoming.value, incoming.data⟩
  sole := rfl

theorem InboundSidecar.eq_sidecar {s : InboundSidecar} (h : s.abiEntry = sidecarEntry keccak incoming) :
    s = incoming.sidecar keccak := by
  obtain ⟨abiEntry, call, sole⟩ := s
  simp only at h
  subst h
  obtain rfl := singleton_inj.mp sole
  rfl

theorem IncomingEntry.sidecar_incomingEntry {incoming : IncomingEntry} (success : incoming.success = true) :
    (incoming.sidecar keccak).incomingEntry = incoming := by
  simp only [sidecar, incomingEntry, sidecarEntry, ← success]

theorem admitInbound_sidecarEntry {incoming : IncomingEntry} (deliverable : incoming.Deliverable) :
    admitInbound keccak (sidecarEntry keccak incoming) = .ok s ↔ s = incoming.sidecar keccak := by
  have shape : checkEntryShape (sidecarEntry keccak incoming) "inbound" = .ok () :=
    (checkEntryShape_eq_ok rfl).mpr ⟨rfl, rfl, rfl, rfl, rfl, rfl⟩
  simp only [admitInbound, shape, ok_bind, mapError_eq_ok, tryFrom_eq_ok, new_eq_ok]
  constructor
  · rintro ⟨entry, _⟩
    exact eq_sidecar keccak entry
  · rintro rfl
    rw [sidecar_incomingEntry keccak deliverable.2.2]
    exact ⟨rfl, deliverable, rfl⟩

theorem admitInbound_sidecarEntries {incoming : List IncomingEntry} (deliverable : ∀ i ∈ incoming, i.Deliverable)
    {sidecars : List InboundSidecar} :
    Forall₂ (fun e s => admitInbound keccak e = .ok s) (incoming.map (sidecarEntry keccak)) sidecars ↔
      sidecars = incoming.map (sidecar keccak) := by
  induction incoming generalizing sidecars with
  | nil => simp
  | cons i incoming ih =>
    obtain ⟨first, others⟩ := forall_mem_cons.mp deliverable
    simp only [map_cons, forall₂_cons_left_iff, admitInbound_sidecarEntry keccak first, ih others,
      exists_and_left, exists_eq_left]

variable (cfg : SystemTxContext)

def blockPairs (n : UInt64) (outbound : List (ExecutionEntrySol × Bytes)) (incoming : List IncomingEntry) :
    List SyncPair :=
  loadPairs keccak cfg n outbound ++ (deliveries keccak cfg (n + UInt64.ofNat outbound.length) incoming).map .ofDelivery

/-- The builder emits `blockPairs`, unless an outbound entry is not flat or the
nonces run out. -/
theorem buildCrossChainSyncPairs_eq_blockPairs {cfg : SystemTxContext} (manager : cfg.eezl2Address = eezl2Address)
    {outbound : List (ExecutionEntrySol × Bytes)} {incoming : List IncomingEntry}
    (deliverable : ∀ i ∈ incoming, i.Deliverable) (own : ∀ i ∈ incoming, i.l2RollupId = cfg.thisRollupId)
    {n : UInt64} {pairs : List SyncPair} :
    buildCrossChainSyncPairs keccak cfg outbound (incoming.map (sidecarEntry keccak)) n = .ok pairs ↔
      (∀ item ∈ outbound, ∃ call, item.1.Flat call) ∧ n.toNat + (outbound.length + incoming.length) < 2 ^ 64 ∧
        pairs = blockPairs keccak cfg n outbound incoming := by
  have carried : (incoming.map (sidecar keccak)).map incomingEntry = incoming := by
    rw [map_map, map_congr_left, map_id]
    intro i hi
    exact sidecar_incomingEntry keccak (deliverable i hi).2.2
  have ownSidecars : ∀ s ∈ incoming.map (sidecar keccak), s.incomingEntry.l2RollupId = cfg.thisRollupId := by
    intro s hs
    have hmem := mem_map_of_mem (f := incomingEntry) hs
    rw [carried] at hmem
    exact own _ hmem
  have sum : n.toNat + outbound.length < 2 ^ 64 →
      (n + UInt64.ofNat outbound.length).toNat = n.toNat + outbound.length := by
    intro inside
    rw [UInt64.toNat_add, UInt64.toNat_ofNat']
    omega
  simp only [buildCrossChainSyncPairs_eq_ok, admitInbound_sidecarEntries keccak deliverable,
    threadM_outboundStep_eq_ok manager]
  constructor
  · rintro ⟨_, _, _, txs, u, rfl, ⟨flat, ⟨inside, rfl⟩, rfl⟩, htxs, rfl⟩
    obtain ⟨⟨rest, _⟩, rfl⟩ := (threadM_inboundStep_eq_ok manager ownSidecars).mp htxs
    rw [sum inside, length_map] at rest
    exact ⟨flat, by omega, by rw [carried, map_map]; rfl⟩
  · rintro ⟨flat, whole, rfl⟩
    have inside : n.toNat + outbound.length < 2 ^ 64 := by omega
    refine ⟨_, _, _, _, _, rfl, ⟨flat, ⟨inside, rfl⟩, rfl⟩,
      (threadM_inboundStep_eq_ok manager ownSidecars).mpr ⟨⟨?_, rfl⟩, rfl⟩, by rw [carried, map_map]; rfl⟩
    rw [sum inside, length_map]
    omega

end

end Eez
