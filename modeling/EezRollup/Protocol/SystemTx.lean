import EezRollup.Protocol.Entries

/-! The builder shared by the composer, the deriver and the proof signer: outbound pairs, then
inbound deliveries, with consecutive system nonces. -/
namespace Eez
open List Octets Outcome

structure SystemTxContext where
  eezl2Address : Address
  l2ChainId : UInt64
  thisRollupId : UInt64

structure SyncPair where
  systemTx : Bytes
  userTx : Option Bytes

def encodeSystemTx (nonce : UInt64) (to' : Address) (calldata : Bytes) (value : U256) (chainId : UInt64) :
    Except String Bytes := do
  ensure (to' = eezl2Address) "native system transactions must target the EEZL2 predeploy"
  return SystemTransaction.encoded2718 ⟨chainId, nonce, to', value, calldata⟩

def encodeExecuteIncoming (entry : L2ExecutionEntrySol) : Bytes := encodeExecuteIncomingCall ⟨[entry], []⟩

def interleaveSyncBlockTxs (pairs : List SyncPair) : List Bytes :=
  pairs.flatMap fun pair =>
    match pair.userTx with
    | some userTx => [pair.systemTx, userTx]
    | none => [pair.systemTx]

def checkEntryShape (entry : ExecutionEntrySol) (dir : String) : Except String Unit := do
  ensure (entry.l2ToL1Calls.length ≤ 1)
    (s!"N>=2 multi-call {dir} entry not yet supported (l2ToL1Calls={entry.l2ToL1Calls.length}); " ++
      "multi-call support is parked")
  ensure (entry.expectedL1ToL2Calls = []) s!"nested {dir} entry materialization is not supported"
  ensure (entry.success = true) s!"unsuccessful {dir} entry is not supported"
  ensure (∀ call ∈ entry.l2ToL1Calls, call.isStatic = false ∧ call.revertNextNCalls = 0 ∧ call.gas = 0)
    s!"{dir} entry uses static, revert-span, or explicit-gas semantics that are not supported"

section
variable (keccak : Bytes → B256) (cfg : SystemTxContext)

/-- One delivery; an entry of another rollup is skipped and takes no nonce. -/
def inboundStep (nonce : UInt64) (sidecar : InboundSidecar) : Except String (List Bytes × UInt64) :=
  let incoming := sidecar.incomingEntry
  if incoming.l2RollupId ≠ cfg.thisRollupId then .ok ([], nonce)
  else do
    let l2Entry ← (buildL2IncomingEntry keccak incoming).mapError ProtocolError.message
    let raw ← encodeSystemTx nonce cfg.eezl2Address (encodeExecuteIncoming l2Entry) incoming.value cfg.l2ChainId
    let nonce ← require (checkedAdd nonce 1) "SYSTEM_ADDRESS nonce overflow in build_inbound_system_txs"
    return ([raw], nonce)

def buildInboundSystemTxs (entries : List InboundSidecar) (startingNonce : UInt64) :
    Except String (List Bytes) := do
  let (txs, _) ← threadM (inboundStep keccak cfg) startingNonce entries
  return txs

def loadTableStep (nonce : UInt64) (entry : L2ExecutionEntrySol) : Except String (List Bytes × UInt64) := do
  let raw ← encodeSystemTx nonce cfg.eezl2Address (encodeLoadExecutionTable ⟨[entry], []⟩) 0 cfg.l2ChainId
  let nonce ← require (checkedAdd nonce 1) "SYSTEM_ADDRESS nonce overflow in build_outbound_load_table_txs"
  return ([raw], nonce)

def buildOutboundLoadTableTxs (entries : List L2ExecutionEntrySol) (startingNonce : UInt64) :
    Except String (List Bytes) := do
  let (txs, _) ← threadM (loadTableStep cfg) startingNonce entries
  return txs

def buildOutboundPair (entry : ExecutionEntrySol) (userTx : Bytes) (startingNonce : UInt64) :
    Except String (List SyncPair) := do
  checkEntryShape entry "outbound"
  let call ← require entry.l2ToL1Calls.head?
    "outbound entry must contain exactly one l2ToL1Call; found 0"
  let l2Entry ← (buildL2OutboundEntry keccak ⟨call.targetAddress, call.sourceAddress, call.value, call.data,
    cfg.thisRollupId, entry.returnData, entry.success⟩).mapError ProtocolError.message
  let loads ← buildOutboundLoadTableTxs cfg [l2Entry] startingNonce
  return loads.map fun load => ⟨load, some userTx⟩

def outboundStep (nonce : UInt64) (item : ExecutionEntrySol × Bytes) :
    Except String (List SyncPair × UInt64) := do
  let built ← buildOutboundPair keccak cfg item.1 item.2 nonce
  let nonce ← require (checkedAdd nonce (UInt64.ofNat built.length))
    "SYSTEM_ADDRESS nonce overflow (outbound loads)"
  return (built, nonce)

/-- Even an entry of another rollup must be canonical. -/
def admitInbound (entry : ExecutionEntrySol) : Except String InboundSidecar := do
  checkEntryShape entry "inbound"
  (InboundSidecar.tryFrom keccak entry).mapError ProtocolError.message

def buildCrossChainSyncPairs (outbound : List (ExecutionEntrySol × Bytes))
    (inbound : List ExecutionEntrySol) (startingNonce : UInt64) : Except String (List SyncPair) := do
  let sidecars ← inbound.mapM (admitInbound keccak)
  let (pairs, nonce) ← threadM (outboundStep keccak cfg) startingNonce outbound
  let deliveries ← buildInboundSystemTxs keccak cfg sidecars nonce
  return pairs ++ deliveries.map fun d => ⟨d, none⟩

theorem checkedAdd_eq_some (h : checkedAdd a b = some c) : c.toNat = a.toNat + b.toNat := by
  unfold checkedAdd at h
  split at h
  · cases h
    rw [UInt64.toNat_add]
    exact Nat.mod_eq_of_lt ‹_›
  · cases h

theorem checkedAdd_of_toNat {a c : UInt64} (h : c.toNat = a.toNat + k) : checkedAdd a (UInt64.ofNat k) = some c := by
  have bound := c.toNat_lt
  have hk : (UInt64.ofNat k).toNat = k := by
    rw [UInt64.toNat_ofNat']
    omega
  unfold checkedAdd
  rw [hk, if_pos (by omega)]
  congr 1
  apply UInt64.toNat_inj.mp
  rw [UInt64.toNat_add, hk, h]
  exact Nat.mod_eq_of_lt (by omega)

variable {n t : UInt64} {pairs : List SyncPair}

theorem inboundStep_count (h : inboundStep keccak cfg n sidecar = .ok (x, t)) : t.toNat = n.toNat + x.length := by
  simp only [inboundStep] at h
  split at h
  · cases h; rfl
  · simp only [bind_eq_ok, require_eq_ok, pure_eq_ok, Prod.mk.injEq] at h
    obtain ⟨_, _, _, _, _, hnonce, rfl, rfl⟩ := h
    exact checkedAdd_eq_some hnonce

theorem buildOutboundPair_eq_ok (h : buildOutboundPair keccak cfg entry userTx n = .ok pairs) :
    ∃ load, pairs = [⟨load, some userTx⟩] := by
  simp only [buildOutboundPair, buildOutboundLoadTableTxs, threadM, loadTableStep, bind_eq_ok, Prod.exists,
    pure_eq_ok, Except.ok.injEq, Prod.mk.injEq] at h
  obtain ⟨_, _, _, _, _, _, loads, ⟨_, _, ⟨_, _, ⟨load, _, _, _, rfl, rfl⟩, _, _, ⟨rfl, rfl⟩, rfl, rfl⟩, rfl⟩, rfl⟩ := h
  exact ⟨load, rfl⟩

theorem outboundStep_eq_ok (h : outboundStep keccak cfg n item = .ok (x, t)) : ∃ load, x = [⟨load, some item.2⟩] := by
  simp only [outboundStep, bind_eq_ok, pure_eq_ok, Prod.mk.injEq] at h
  obtain ⟨_, hbuilt, _, _, rfl, _⟩ := h
  exact buildOutboundPair_eq_ok keccak cfg hbuilt

theorem outboundStep_count (h : outboundStep keccak cfg n item = .ok (x, t)) : t.toNat = n.toNat + x.length := by
  obtain ⟨load, rfl⟩ := outboundStep_eq_ok keccak cfg h
  simp only [outboundStep, bind_eq_ok, require_eq_ok, pure_eq_ok, Prod.mk.injEq] at h
  obtain ⟨_, _, _, hnonce, rfl, rfl⟩ := h
  exact checkedAdd_eq_some hnonce

theorem buildCrossChainSyncPairs_eq_ok : buildCrossChainSyncPairs keccak cfg outbound inbound n = .ok pairs ↔
      ∃ sidecars loads t txs u, Forall₂ (fun e s => admitInbound keccak e = .ok s) inbound sidecars ∧
        threadM (outboundStep keccak cfg) n outbound = .ok (loads, t) ∧
        threadM (inboundStep keccak cfg) t sidecars = .ok (txs, u) ∧
        pairs = loads ++ txs.map fun d => ⟨d, none⟩ := by
  simp only [buildCrossChainSyncPairs, buildInboundSystemTxs, bind_eq_ok, mapM_eq_ok, Prod.exists, pure_eq_ok]
  constructor
  · rintro ⟨sidecars, hside, loads, t, hloads, _, ⟨txs, u, htxs, rfl⟩, rfl⟩
    exact ⟨sidecars, loads, t, txs, u, hside, hloads, htxs, rfl⟩
  · rintro ⟨sidecars, loads, t, txs, u, hside, hloads, htxs, rfl⟩
    exact ⟨sidecars, hside, loads, t, hloads, txs, ⟨txs, u, htxs, rfl⟩, rfl⟩

theorem buildCrossChainSyncPairs_outbound_append {first : List (ExecutionEntrySol × Bytes)} :
    buildCrossChainSyncPairs keccak cfg (first ++ second) inbound n = .ok pairs ↔
      ∃ a t b, buildCrossChainSyncPairs keccak cfg first [] n = .ok a ∧ checkedAdd n (UInt64.ofNat a.length) = some t ∧
        buildCrossChainSyncPairs keccak cfg second inbound t = .ok b ∧ pairs = a ++ b := by
  simp only [buildCrossChainSyncPairs_eq_ok, threadM_append_eq_ok]
  constructor
  · rintro ⟨sidecars, _, u, txs, v, hside, ⟨x, t, y, hx, hy, rfl⟩, htxs, rfl⟩
    refine ⟨x, t, y ++ txs.map _, ⟨[], x, t, [], t, .nil, hx, rfl, by simp⟩, ?_,
      ⟨sidecars, y, u, txs, v, hside, hy, htxs, rfl⟩, by rw [append_assoc]⟩
    exact checkedAdd_of_toNat (threadM_count _ UInt64.toNat (outboundStep_count keccak cfg) hx)
  · rintro ⟨_, t, _, ⟨_, x, t', _, _, hnil, hx, hnone, rfl⟩, hadd, ⟨sidecars, y, u, txs, v, hside, hy, htxs, rfl⟩, rfl⟩
    cases hnil
    cases hnone
    have same : t' = t := by
      have reached := checkedAdd_of_toNat (threadM_count _ UInt64.toNat (outboundStep_count keccak cfg) hx)
      simp only [map_nil, append_nil] at hadd
      exact Option.some.inj (reached.symm.trans hadd)
    subst same
    refine ⟨sidecars, x ++ y, u, txs, v, hside, ⟨x, t', y, hx, hy, rfl⟩, htxs, ?_⟩
    simp only [map_nil, append_nil, append_assoc]

theorem buildCrossChainSyncPairs_inbound_append {first : List ExecutionEntrySol} :
    buildCrossChainSyncPairs keccak cfg outbound (first ++ second) n = .ok pairs ↔
      ∃ a t b, buildCrossChainSyncPairs keccak cfg outbound first n = .ok a ∧
        checkedAdd n (UInt64.ofNat a.length) = some t ∧
        buildCrossChainSyncPairs keccak cfg [] second t = .ok b ∧ pairs = a ++ b := by
  have reached : ∀ {loads t txs u} {sidecars : List InboundSidecar},
      threadM (outboundStep keccak cfg) n outbound = .ok (loads, t) →
      threadM (inboundStep keccak cfg) t sidecars = .ok (txs, u) →
      checkedAdd n (UInt64.ofNat (loads ++ txs.map fun d => (⟨d, none⟩ : SyncPair)).length) = some u := by
    intro loads t txs u sidecars hloads htxs
    apply checkedAdd_of_toNat
    rw [threadM_count _ UInt64.toNat (inboundStep_count keccak cfg) htxs,
      threadM_count _ UInt64.toNat (outboundStep_count keccak cfg) hloads, length_append, length_map,
      Nat.add_assoc]
  simp only [buildCrossChainSyncPairs_eq_ok]
  constructor
  · rintro ⟨sidecars, loads, t, _, v, hside, hloads, htxs, rfl⟩
    obtain ⟨s₁, s₂, hs₁, hs₂, rfl⟩ := forall₂_append_left hside
    obtain ⟨x, u, y, hx, hy, rfl⟩ := (threadM_append_eq_ok _).mp htxs
    refine ⟨_, u, _, ⟨s₁, loads, t, x, u, hs₁, hloads, hx, rfl⟩, reached hloads hx,
      ⟨s₂, [], u, y, v, hs₂, rfl, hy, rfl⟩, ?_⟩
    simp only [map_append, nil_append, append_assoc]
  · rintro ⟨_, t', _, ⟨s₁, loads, t, x, u, hs₁, hloads, hx, rfl⟩, hadd, ⟨s₂, _, u', y, v, hs₂, hnone, hy, rfl⟩, rfl⟩
    cases hnone
    have same : u = t' := Option.some.inj ((reached hloads hx).symm.trans hadd)
    subst same
    refine ⟨s₁ ++ s₂, loads, t, x ++ y, v, rel_append hs₁ hs₂, hloads,
      (threadM_append_eq_ok _).mpr ⟨x, u, y, hx, hy, rfl⟩, ?_⟩
    simp only [map_append, nil_append, append_assoc]

end

end Eez
