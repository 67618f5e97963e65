import EezRollup.Lib.HashChain
import EezRollup.Protocol.Builders
import EezRollup.Protocol.PublicInputs

/-! Two equal digests were made from equal preimages, as far as the hash has no collision on them.
-/
open List hiding tails
namespace Eez
open Octets Abi Outcome HashChain Keccak SameStatics

variable {keccak : Bytes → B256}

def statePreimage (previous : B256) (update : UInt64 × B256) : Bytes :=
  b256Bytes previous ++ beBytes 8 update.1.toNat ++ b256Bytes update.2

def seedPreimage (statesHash proxyEntryHash : B256) : Bytes := b256Bytes statesHash ++ b256Bytes proxyEntryHash

def ExecutionEntrySol.states (entry : ExecutionEntrySol) : List (UInt64 × B256) :=
  entry.rollupUpdates.map fun u => (u.rollupId, u.currentRoot)

def ExecutionEntrySol.statesHash (keccak : Bytes → B256) (entry : ExecutionEntrySol) : B256 :=
  fold keccak statePreimage 0 entry.states

def flatCallInput (call : L2ToL1CallSol) : CallHashInput :=
  ⟨.mutable, call.sourceAddress, call.sourceRollupId, call.targetAddress, mainnet, call.value, call.data⟩

def callPreimages (keccak : Bytes → B256) (entry : ExecutionEntrySol) (call : L2ToL1CallSol) : List Bytes :=
  [callHashPreimage (flatCallInput call) 0, callBeginPreimage (l1Seed keccak entry) (flatCallHash keccak call),
    callEndPreimage (callBegin keccak (l1Seed keccak entry) (flatCallHash keccak call)) entry.success entry.returnData]

def finalPreimages (keccak : Bytes → B256) (entry : ExecutionEntrySol) : List Bytes :=
  preimages keccak statePreimage 0 entry.states ++
    seedPreimage (entry.statesHash keccak) entry.proxyEntryHash ::
    entry.l2ToL1Calls.flatMap (callPreimages keccak entry)

theorem l1Seed_eq (entry : ExecutionEntrySol) :
    l1Seed keccak entry = keccak (seedPreimage (entry.statesHash keccak) entry.proxyEntryHash) := rfl

theorem statePreimage_inj (h : statePreimage d a = statePreimage e b) : d = e ∧ a = b := by
  unfold statePreimage at h
  rw [append_assoc, append_assoc] at h
  obtain ⟨previous, h⟩ := append_inj h (by simp)
  obtain ⟨rollup, root⟩ := append_inj h (by simp)
  have bound : ∀ n : UInt64, n.toNat < 256 ^ 8 := fun n => n.toNat_lt
  refine ⟨b256Bytes_injective previous, Prod.ext ?_ (b256Bytes_injective root)⟩
  exact UInt64.toNat_inj.mp (beBytes_injective (bound _) (bound _) rollup)

theorem statePreimage_length (d : B256) (a : UInt64 × B256) : (statePreimage d a).length = 72 := by
  simp [statePreimage]

theorem seedPreimage_inj (h : seedPreimage s p = seedPreimage s' p') : s = s' ∧ p = p' := by
  obtain ⟨states, proxy⟩ := append_inj h (by simp)
  exact ⟨b256Bytes_injective states, b256Bytes_injective proxy⟩

theorem callBeginPreimage_inj (eq : callBeginPreimage h c = callBeginPreimage h' c') : h = h' ∧ c = c' := by
  obtain ⟨previous, rest⟩ := append_inj eq (by simp)
  exact ⟨b256Bytes_injective previous, b256Bytes_injective (cons.inj rest).2⟩

theorem callBeginPreimage_length (h c : B256) : (callBeginPreimage h c).length = 65 := by
  simp [callBeginPreimage]

theorem callHashPreimage_inj (h : callHashPreimage i g = callHashPreimage j g') :
    i.callMode.isStatic = j.callMode.isStatic ∧ i.sourceAddress = j.sourceAddress ∧
      i.sourceRollupId = j.sourceRollupId ∧ i.targetAddress = j.targetAddress ∧ i.targetRollupId = j.targetRollupId ∧
      i.value = j.value ∧ i.data = j.data := by
  obtain ⟨statics, rest⟩ := encodeSequence_inj (by simp) (congrArg (· ++ []) h)
  simp only [static_iff, dynamic_iff, nil_iff, boolWord_inj, u64Word_inj, addressWord_inj, u256Word_inj] at statics
  simp only [tails, append_nil] at rest
  obtain ⟨mode, source, sourceRollup, target, targetRollup, value, _⟩ := statics
  exact ⟨mode, source, sourceRollup, target, targetRollup, value, encodeBytes_selfDelimiting.injective rest⟩

section
variable {e e' : ExecutionEntrySol}

theorem statesHash_of_updated (updated : e.rollupUpdates ≠ []) :
    ∃ d a, e.statesHash keccak = keccak (statePreimage d a) ∧ statePreimage d a ∈ finalPreimages keccak e := by
  obtain ⟨states, last, eq⟩ : ∃ l a, e.states = l ++ [a] := by
    have some_state : e.states ≠ [] := fun none => updated (map_eq_nil_iff.mp none)
    exact ⟨_, _, (dropLast_append_getLast some_state).symm⟩
  refine ⟨fold keccak statePreimage 0 states, last, ?_, ?_⟩
  · rw [ExecutionEntrySol.statesHash, eq, fold_concat]
  · apply mem_append_left
    rw [eq, preimages_concat]
    exact mem_append_right _ mem_cons_self

theorem states_mem (mem : x ∈ preimages keccak statePreimage 0 e.states) :
    x ∈ finalPreimages keccak e := mem_append_left _ mem

theorem seed_mem : seedPreimage (e.statesHash keccak) e.proxyEntryHash ∈ finalPreimages keccak e :=
  mem_append_right _ mem_cons_self

theorem call_mem (mem : call ∈ e.l2ToL1Calls) (mem_x : x ∈ callPreimages keccak e call) : x ∈ finalPreimages keccak e :=
  mem_append_right _ (mem_cons_of_mem _ (mem_flatMap_of_mem mem mem_x))

theorem l1Seed_inj (free : collisionFreeOn keccak (finalPreimages keccak e ++ finalPreimages keccak e'))
    (nonzero : ∀ x ∈ finalPreimages keccak e ++ finalPreimages keccak e', keccak x ≠ 0)
    (same : l1Seed keccak e = l1Seed keccak e') : e.states = e'.states ∧ e.proxyEntryHash = e'.proxyEntryHash := by
  rw [l1Seed_eq, l1Seed_eq] at same
  have preimage := free _ (mem_append_left _ seed_mem) _ (mem_append_right _ seed_mem) same
  obtain ⟨states, proxy⟩ := seedPreimage_inj preimage
  have sub : ∀ x ∈ preimages keccak statePreimage 0 e.states ++
      preimages keccak statePreimage 0 e'.states, x ∈ finalPreimages keccak e ++ finalPreimages keccak e' := by
    intro x mem
    cases mem_append.mp mem with
    | inl mem => exact mem_append_left _ (states_mem mem)
    | inr mem => exact mem_append_right _ (states_mem mem)
  exact ⟨fold_inj statePreimage_inj (free.mono sub) (fun x mem => nonzero x (sub x mem)) states, proxy⟩

/-- A finalized hash with a call is not one without: the digest it starts from was
made from 65 bytes, that of a seed from 72. -/
theorem callEnd_ne_seed (updated : e'.rollupUpdates ≠ []) (mem : call ∈ e.l2ToL1Calls)
    (free : collisionFreeOn keccak (finalPreimages keccak e ++ finalPreimages keccak e')) :
    callEnd keccak (callBegin keccak (l1Seed keccak e) (flatCallHash keccak call)) e.success e.returnData ≠
      l1Seed keccak e' := by
  intro same
  rw [l1Seed_eq e', callEnd] at same
  have preimage := free _ (mem_append_left _ (call_mem mem (by simp [callPreimages]))) _
    (mem_append_right _ seed_mem) same
  have digests := b256Bytes_injective (append_inj preimage (by simp)).1
  obtain ⟨d, a, states, mem'⟩ := @statesHash_of_updated keccak e' updated
  rw [states, callBegin] at digests
  have lengths := congrArg length (free _ (mem_append_left _ (call_mem mem (by simp [callPreimages]))) _
    (mem_append_right _ mem') digests)
  rw [callBeginPreimage_length, statePreimage_length] at lengths
  cases lengths

end

structure SameCommitment (e e' : ExecutionEntrySol) : Prop where
  states : e.states = e'.states
  proxyEntryHash : e.proxyEntryHash = e'.proxyEntryHash
  calls : e.l2ToL1Calls = e'.l2ToL1Calls
  returnData : e.l2ToL1Calls ≠ [] → e.returnData = e'.returnData

theorem callEnd_inj {e e' : ExecutionEntrySol} {call call' : L2ToL1CallSol} (mem : call ∈ e.l2ToL1Calls)
    (mem' : call' ∈ e'.l2ToL1Calls)
    (free : collisionFreeOn keccak (finalPreimages keccak e ++ finalPreimages keccak e'))
    (same : callEnd keccak (callBegin keccak (l1Seed keccak e) (flatCallHash keccak call)) e.success e.returnData =
      callEnd keccak (callBegin keccak (l1Seed keccak e') (flatCallHash keccak call')) e'.success e'.returnData) :
    l1Seed keccak e = l1Seed keccak e' ∧ callHashPreimage (flatCallInput call) 0 =
      callHashPreimage (flatCallInput call') 0 ∧
      e.returnData = e'.returnData := by
  have peel : ∀ x ∈ callPreimages keccak e call, ∀ y ∈ callPreimages keccak e' call', keccak x = keccak y → x = y := by
    intro x mem_x y mem_y
    exact free x (mem_append_left _ (call_mem mem mem_x)) y (mem_append_right _ (call_mem mem' mem_y))
  obtain ⟨begun, _, returned⟩ := callEndPreimage_inj (peel _ (by simp [callPreimages]) _ (by simp [callPreimages]) same)
  obtain ⟨seed, hash⟩ := callBeginPreimage_inj (peel _ (by simp [callPreimages]) _ (by simp [callPreimages]) begun)
  exact ⟨seed, peel _ (by simp [callPreimages]) _ (by simp [callPreimages]) hash, returned⟩

theorem L2ToL1CallSol.eq_of_flat {call call' : L2ToL1CallSol}
    (flat : call.revertNextNCalls = 0 ∧ call.isStatic = false ∧ call.gas = 0)
    (flat' : call'.revertNextNCalls = 0 ∧ call'.isStatic = false ∧ call'.gas = 0)
    (same : callHashPreimage (flatCallInput call) 0 = callHashPreimage (flatCallInput call') 0) : call = call' := by
  obtain ⟨_, source, sourceRollup, target, _, value, data⟩ := callHashPreimage_inj same
  cases call
  cases call'
  simp_all [flatCallInput]

theorem finalized_binds {e e' : ExecutionEntrySol} (ready : e.Finalizable) (ready' : e'.Finalizable)
    (free : collisionFreeOn keccak (finalPreimages keccak e ++ finalPreimages keccak e'))
    (nonzero : ∀ x ∈ finalPreimages keccak e ++ finalPreimages keccak e', keccak x ≠ 0)
    (same : (e.finalized keccak).rollingHash = (e'.finalized keccak).rollingHash) : SameCommitment e e' := by
  simp only [ExecutionEntrySol.finalized] at same
  have short := ready.short
  have short' := ready'.short
  cases calls : e.l2ToL1Calls with
  | nil =>
    cases calls' : e'.l2ToL1Calls with
    | nil =>
      rw [calls, calls'] at same
      obtain ⟨states, proxy⟩ := l1Seed_inj free nonzero same
      exact ⟨states, proxy, by rw [calls, calls'], fun called => absurd calls called⟩
    | cons call' rest' =>
      rw [calls, calls'] at same
      have swapped : collisionFreeOn keccak (finalPreimages keccak e' ++ finalPreimages keccak e) :=
        free.mono fun x mem => mem_append.mpr (mem_append.mp mem).symm
      exact absurd same.symm (callEnd_ne_seed ready.updated (by rw [calls']; exact mem_cons_self) swapped)
  | cons call rest =>
    have mem : call ∈ e.l2ToL1Calls := by rw [calls]; exact mem_cons_self
    cases calls' : e'.l2ToL1Calls with
    | nil =>
      rw [calls, calls'] at same
      exact absurd same (callEnd_ne_seed ready'.updated mem free)
    | cons call' rest' =>
      have mem' : call' ∈ e'.l2ToL1Calls := by rw [calls']; exact mem_cons_self
      rw [calls, calls'] at same
      obtain ⟨seed, hash, returned⟩ := callEnd_inj mem mem' free same
      obtain ⟨states, proxy⟩ := l1Seed_inj free nonzero seed
      rw [calls] at short
      rw [calls'] at short'
      obtain rfl : rest = [] := length_eq_zero_iff.mp (by simpa using short)
      obtain rfl : rest' = [] := length_eq_zero_iff.mp (by simpa using short')
      refine ⟨states, proxy, ?_, fun _ => returned⟩
      rw [calls, calls', L2ToL1CallSol.eq_of_flat (ready.flat call mem) (ready'.flat call' mem') hash]

/-- Entries of two finalized batches with one rolling hash have the same prior roots,
proxy hash, call and result of the call. -/
theorem finalizeL1RollingHashes_binds {batch batch' final final' : EvmBatch}
    (done : finalizeL1RollingHashes keccak batch = .ok final)
    (done' : finalizeL1RollingHashes keccak batch' = .ok final') {i j : Nat} {e e' f f' : ExecutionEntrySol}
    (at_e : batch.entries[i]? = some e) (at_e' : batch'.entries[j]? = some e')
    (at_f : final.entries[i]? = some f) (at_f' : final'.entries[j]? = some f')
    (free : collisionFreeOn keccak (finalPreimages keccak e ++ finalPreimages keccak e'))
    (nonzero : ∀ x ∈ finalPreimages keccak e ++ finalPreimages keccak e', keccak x ≠ 0)
    (same : f.rollingHash = f'.rollingHash) : SameCommitment e e' := by
  obtain ⟨_, ready, rfl⟩ := finalizeL1RollingHashes_eq_ok.mp done
  obtain ⟨_, ready', rfl⟩ := finalizeL1RollingHashes_eq_ok.mp done'
  simp only [getElem?_map, at_e, Option.map_some, Option.some.injEq] at at_f
  simp only [getElem?_map, at_e', Option.map_some, Option.some.injEq] at at_f'
  subst at_f at_f'
  exact finalized_binds (ready e (mem_of_getElem? at_e)) (ready' e' (mem_of_getElem? at_e')) free nonzero same

def releasing : ExecutionEntrySol :=
  { rollupUpdates := [⟨1, 0, 0x10#256, 0x11#256⟩]
    proxyEntryHash := 0
    l2ToL1Calls := [⟨0, false, 0, 7#160, 1, 9#160, 5#256, [1, 2]⟩]
    expectedL1ToL2Calls := []
    rollingHash := 0
    destinationRollupId := 1
    success := true
    returnData := [3] }

def releasingBatch (entry : ExecutionEntrySol) : EvmBatch :=
  ⟨[], [entry], [], 1, 0, [1#160], [⟨1, [0]⟩], [], [], [], 0, false⟩

def redirected : ExecutionEntrySol :=
  { releasing with rollupUpdates := [⟨1, 0, 0x10#256, 0x12#256⟩], destinationRollupId := 2, rollingHash := 8 }

theorem finalizeL1RollingHashes_binds_redirected : releasing ≠ redirected ∧
    ((releasing.finalized keccak256).rollingHash = (redirected.finalized keccak256).rollingHash) ∧
    SameCommitment releasing redirected := by
  refine ⟨by decide, by decide +kernel, ?_⟩
  have free : collisionFreeOn keccak256
      (finalPreimages keccak256 releasing ++ finalPreimages keccak256 redirected) := by
    unfold collisionFreeOn
    decide +kernel
  have done (entry : ExecutionEntrySol) (ready : entry.Finalizable) :
      finalizeL1RollingHashes keccak256 (releasingBatch entry) = .ok (releasingBatch (entry.finalized keccak256)) :=
    finalizeL1RollingHashes_eq_ok.mpr ⟨rfl, by simpa [releasingBatch] using ready, rfl⟩
  have ready : releasing.Finalizable := ⟨by decide, rfl, rfl, by decide, by decide⟩
  have ready' : redirected.Finalizable := ⟨by decide, rfl, rfl, by decide, by decide⟩
  have first (entry : ExecutionEntrySol) : (releasingBatch entry).entries[0]? = some entry := rfl
  exact finalizeL1RollingHashes_binds (done _ ready) (done _ ready') (first _) (first _) (first _) (first _) free
    (by decide +kernel) (by decide +kernel)

def customDataPreimage (rollupId : UInt64) (customData : Bytes) : Bytes :=
  encodeSequence [.static (u64Word rollupId), .dynamic (encodeBytes customData)]

/-- The sender counts only in a batch that binds it. -/
def EvmBatch.boundSender (batch : EvmBatch) (sender : Address) : Address :=
  if batch.bindMsgSenderInPublicInput then sender else 0

def sharedPreimage (keccak : Bytes → B256) (batch : EvmBatch) (sender : Address) : Bytes :=
  encodeHashes (batch.entries.map (entryHash keccak)) ++ encodeHashes
  (batch.staticEntries.map (staticEntryHash keccak)) ++
    encodeHashes [] ++ b256Bytes (keccak batch.callData) ++
    encodeHashes (batch.rollupIdsWithProofSystems.map fun rollup => customDataHash keccak rollup.rollupId []) ++
    addressBytes (batch.boundSender sender)

def sharedPreimages (keccak : Bytes → B256) (batch : EvmBatch) (sender : Address) : List Bytes :=
  batch.entries.map ExecutionEntrySol.abiEncode ++ (batch.staticEntries.map fun e => abiEncode e.encode) ++
    (batch.rollupIdsWithProofSystems.map fun rollup => customDataPreimage rollup.rollupId []) ++
    [batch.callData, sharedPreimage keccak batch sender]

variable {batch batch' : EvmBatch} {sender : Address} {vkey : B256}

theorem batchSharedPublicInput_eq_ok : batchSharedPublicInput keccak batch sender = .ok shared ↔
      batch.blockNumber = 0 ∧ batch.blobIndices = [] ∧ keccak (sharedPreimage keccak batch sender) = shared := by
  simp only [batchSharedPublicInput, bind_eq_ok, ensure_eq_ok, exists_const, pure_eq_ok]
  rfl

theorem encodeHashes_selfDelimiting : SelfDelimiting encodeHashes := by
  intro a b x y h
  obtain ⟨_, rest⟩ := encodeSequence_inj (by simp) h
  simp only [tails, append_nil] at rest
  exact encodeStaticArray_selfDelimiting u256Word_selfDelimiting _ _ _ _ rest

theorem customDataPreimage_inj (h : customDataPreimage r data = customDataPreimage r' data') :
    r = r' ∧ data = data' := by
  obtain ⟨statics, rest⟩ := encodeSequence_inj (by simp) (congrArg (· ++ []) h)
  simp only [static_iff, dynamic_iff, nil_iff, u64Word_inj] at statics
  simp only [tails, append_nil] at rest
  exact ⟨statics.1, encodeBytes_selfDelimiting.injective rest⟩

theorem sharedPreimage_inj (h : sharedPreimage keccak batch sender = sharedPreimage keccak batch' sender') :
    batch.entries.map (entryHash keccak) = batch'.entries.map (entryHash keccak) ∧
      batch.staticEntries.map (staticEntryHash keccak) = batch'.staticEntries.map (staticEntryHash keccak) ∧
      keccak batch.callData = keccak batch'.callData ∧
      (batch.rollupIdsWithProofSystems.map fun rollup => customDataHash keccak rollup.rollupId []) =
        (batch'.rollupIdsWithProofSystems.map fun rollup => customDataHash keccak rollup.rollupId []) ∧
      batch.boundSender sender = batch'.boundSender sender' := by
  simp only [sharedPreimage, append_assoc] at h
  obtain ⟨entries, h⟩ := encodeHashes_selfDelimiting _ _ _ _ h
  obtain ⟨staticEntries, h⟩ := encodeHashes_selfDelimiting _ _ _ _ h
  obtain ⟨callData, h⟩ := append_inj (append_cancel_left h) (by simp)
  obtain ⟨customData, sender⟩ := encodeHashes_selfDelimiting _ _ _ _ h
  exact ⟨entries, staticEntries, b256Bytes_injective callData, customData, addressBytes_injective sender⟩

theorem map_keccak_inj {α : Type} {enc} (inj : Function.Injective enc) {l m : List α} {ps : List Bytes} {qs}
    (free : collisionFreeOn keccak (ps ++ qs)) (left : ∀ x ∈ l.map enc, x ∈ ps) (right : ∀ x ∈ m.map enc, x ∈ qs)
    (same : l.map (fun a => keccak (enc a)) = m.map fun a => keccak (enc a)) : l = m := by
  have sub : ∀ x ∈ l.map enc ++ m.map enc, x ∈ ps ++ qs := by
    intro x mem
    cases mem_append.mp mem with
    | inl mem => exact mem_append_left _ (left x mem)
    | inr mem => exact mem_append_right _ (right x mem)
  have digests : (l.map enc).map keccak = (m.map enc).map keccak := by
    simpa only [map_map, Function.comp_def] using same
  exact map_injective_iff.mpr inj (map_inj (free.mono sub) digests)

/-- The listed rollup ids, and nothing else of the list, enter the shared input. -/
def EvmBatch.rollupIds (batch : EvmBatch) : List UInt64 := batch.rollupIdsWithProofSystems.map (·.rollupId)

section
variable (keccak : Bytes → B256) (batch : EvmBatch) (sender : Address)

theorem entries_mem_sharedPreimages :
    ∀ x ∈ batch.entries.map ExecutionEntrySol.abiEncode, x ∈ sharedPreimages keccak batch sender := by
  intro x mem
  simp only [sharedPreimages, mem_append, mem, true_or]

theorem staticEntries_mem_sharedPreimages :
    ∀ x ∈ batch.staticEntries.map fun e => abiEncode e.encode, x ∈ sharedPreimages keccak batch sender := by
  intro x mem
  simp only [sharedPreimages, mem_append, mem, true_or, or_true]

theorem rollupIds_mem_sharedPreimages :
    ∀ x ∈ batch.rollupIds.map fun r => customDataPreimage r [], x ∈ sharedPreimages keccak batch sender := by
  intro x mem
  rw [EvmBatch.rollupIds, map_map, Function.comp_def] at mem
  simp only [sharedPreimages, mem_append, mem, true_or, or_true]

end

structure SameBatch (batch batch' : EvmBatch) (sender sender' : Address) : Prop where
  entries : batch.entries = batch'.entries
  staticEntries : batch.staticEntries = batch'.staticEntries
  callData : batch.callData = batch'.callData
  rollupIds : batch.rollupIds = batch'.rollupIds
  boundSender : batch.boundSender sender = batch'.boundSender sender'

theorem sharedPreimages_bind {sender'}
    (free : collisionFreeOn keccak (sharedPreimages keccak batch sender ++ sharedPreimages keccak batch' sender'))
    (same : keccak (sharedPreimage keccak batch sender) = keccak (sharedPreimage keccak batch' sender')) :
    SameBatch batch batch' sender sender' := by
  have preimage := free _ (by simp [sharedPreimages]) _ (by simp [sharedPreimages]) same
  obtain ⟨entries, staticEntries, callData, customData, bound⟩ := sharedPreimage_inj preimage
  have static_inj : Function.Injective fun e : StaticExecutionEntrySol => abiEncode e.encode :=
    abiEncode_injective.comp StaticExecutionEntrySol.encode_selfDelimiting.injective
  have custom_inj : Function.Injective fun r => customDataPreimage r [] := fun _ _ h => (customDataPreimage_inj h).1
  have ids : batch.rollupIds.map (fun r => keccak (customDataPreimage r [])) =
      batch'.rollupIds.map fun r => keccak (customDataPreimage r []) := by
    rw [EvmBatch.rollupIds, EvmBatch.rollupIds, map_map, map_map]
    exact customData
  constructor
  case entries =>
    exact map_keccak_inj ExecutionEntrySol.abiEncode_injective free (entries_mem_sharedPreimages keccak batch sender)
      (entries_mem_sharedPreimages keccak batch' sender') entries
  case staticEntries =>
    exact map_keccak_inj static_inj free (staticEntries_mem_sharedPreimages keccak batch sender)
      (staticEntries_mem_sharedPreimages keccak batch' sender') staticEntries
  case callData => exact free _ (by simp [sharedPreimages]) _ (by simp [sharedPreimages]) callData
  case rollupIds =>
    exact map_keccak_inj custom_inj free (rollupIds_mem_sharedPreimages keccak batch sender)
      (rollupIds_mem_sharedPreimages keccak batch' sender') ids
  case boundSender => exact bound

structure Contribution where
  rollupId : UInt64
  vkey : B256
  customData : Bytes
  deriving DecidableEq

open Contribution

def contributionsOf (psIndex : UInt64) :
    List RollupProofAssignment → List (List B256) → List Bytes → List Contribution
  | assignment :: assignments, row :: rows, data :: customData =>
    match positionOf psIndex assignment.proofSystemIndexes with
    | none => contributionsOf psIndex assignments rows customData
    | some j => ⟨assignment.rollupId, (row[j]?).getD 0, data⟩ :: contributionsOf psIndex assignments rows customData
  | _, _, _ => []

def ProofPlan.contributions (plan : ProofPlan) (psIndex : UInt64) : List Contribution :=
  contributionsOf psIndex plan.rollupAssignments plan.vkMatrix plan.customData

def foldPreimage (acc : B256) (key : UInt64 × B256) : Bytes := u256Word acc ++ u64Word key.1 ++ u256Word key.2

def Contribution.key (c : Contribution) : UInt64 × B256 := (c.rollupId, c.vkey)

theorem foldPreimage_inj (h : foldPreimage d a = foldPreimage e b) : d = e ∧ a = b := by
  unfold foldPreimage at h
  rw [append_assoc, append_assoc] at h
  obtain ⟨acc, h⟩ := append_inj h (by simp)
  obtain ⟨rollup, vkey⟩ := append_inj h (by simp)
  exact ⟨u256Word_inj.mp acc, Prod.ext (u64Word_inj.mp rollup) (u256Word_inj.mp vkey)⟩

theorem perPsFold_eq {assignments : List RollupProofAssignment} {customData : List Bytes}
    (len : customData.length = assignments.length) (acc : B256) :
    perPsFold keccak psIndex assignments rows acc =
      fold keccak foldPreimage acc ((contributionsOf psIndex assignments rows customData).map key) := by
  induction assignments generalizing rows customData acc with
  | nil => rfl
  | cons assignment assignments ih =>
    cases customData with
    | nil => cases len
    | cons data customData =>
      cases rows with
      | nil => rfl
      | cons row rows =>
        have len' : customData.length = assignments.length := Nat.succ.inj len
        simp only [perPsFold, contributionsOf]
        cases positionOf psIndex assignment.proofSystemIndexes with
        | none => exact ih len' acc
        | some j => exact ih len' _

theorem perPsFold_batchPlan (batch : EvmBatch) (vkey : B256) (k : UInt64) :
    perPsFold keccak k (batchPlan batch vkey).rollupAssignments (batchPlan batch vkey).vkMatrix 0 =
      fold keccak foldPreimage 0 (((batchPlan batch vkey).contributions k).map key) :=
  perPsFold_eq length_replicate 0

theorem contributionsOf_customData {psIndex assignments rows customData c}
    (mem : c ∈ contributionsOf psIndex assignments rows customData) :
    c.customData ∈ customData := by
  induction assignments generalizing rows customData with
  | nil => cases mem
  | cons assignment assignments ih =>
    cases rows with
    | nil => cases mem
    | cons row rows =>
      cases customData with
      | nil => cases mem
      | cons data customData =>
        simp only [contributionsOf] at mem
        cases used : positionOf psIndex assignment.proofSystemIndexes with
        | none =>
          rw [used] at mem
          exact mem_cons_of_mem _ (ih mem)
        | some j =>
          rw [used] at mem
          cases mem_cons.mp mem with
          | inl first => rw [first]; exact mem_cons_self
          | inr later => exact mem_cons_of_mem _ (ih later)

theorem batchPlan_contributions_eq {vkey' : B256} {k k' : UInt64}
    (keys : ((batchPlan batch vkey).contributions k).map key = ((batchPlan batch' vkey').contributions k').map key) :
    (batchPlan batch vkey).contributions k = (batchPlan batch' vkey').contributions k' := by
  have rebuilt : ∀ (batch : EvmBatch) vkey k, ((batchPlan batch vkey).contributions k) =
      (((batchPlan batch vkey).contributions k).map key).map fun key => ⟨key.1, key.2, []⟩ := by
    intro batch vkey k
    rw [map_map]
    refine (map_id _).symm.trans (map_congr_left fun c mem => ?_)
    have empty : c.customData = [] := eq_of_mem_replicate (contributionsOf_customData mem)
    cases c
    cases empty
    rfl
  rw [rebuilt, keys, ← rebuilt]

def perPsPreimages (keccak : Bytes → B256) (shared : B256) (plan : ProofPlan) (k : UInt64) : List Bytes :=
  preimages keccak foldPreimage 0 ((plan.contributions k).map key) ++
    [b256Bytes shared ++ b256Bytes (perPsFold keccak k plan.rollupAssignments plan.vkMatrix 0)]

theorem perPsPublicInputsHash_bind {shared shared' : B256} {vkey' : B256} {k k' : UInt64}
    (free : collisionFreeOn keccak (perPsPreimages keccak shared (batchPlan batch vkey) k ++
      perPsPreimages keccak shared' (batchPlan batch' vkey') k'))
    (nonzero : ∀ x ∈ perPsPreimages keccak shared (batchPlan batch vkey) k ++
      perPsPreimages keccak shared' (batchPlan batch' vkey') k', keccak x ≠ 0)
    (same : perPsPublicInputsHash keccak shared (batchPlan batch vkey) k =
      perPsPublicInputsHash keccak shared' (batchPlan batch' vkey') k') :
    shared = shared' ∧ (batchPlan batch vkey).contributions k = (batchPlan batch' vkey').contributions k' := by
  have preimage := free _ (by simp [perPsPreimages]) _ (by simp [perPsPreimages]) same
  obtain ⟨eq_shared, folds⟩ := append_inj preimage (by simp)
  refine ⟨b256Bytes_injective eq_shared, batchPlan_contributions_eq ?_⟩
  have chains := b256Bytes_injective folds
  rw [perPsFold_batchPlan, perPsFold_batchPlan] at chains
  have sub : ∀ x ∈ preimages keccak foldPreimage 0 (((batchPlan batch vkey).contributions k).map key) ++
      preimages keccak foldPreimage 0 (((batchPlan batch' vkey').contributions k').map key),
      x ∈ perPsPreimages keccak shared (batchPlan batch vkey) k ++ perPsPreimages keccak shared'
      (batchPlan batch' vkey') k' := by
    intro x mem
    cases mem_append.mp mem with
    | inl mem => exact mem_append_left _ (mem_append_left _ mem)
    | inr mem => exact mem_append_right _ (mem_append_left _ mem)
  exact fold_inj foldPreimage_inj (free.mono sub) (fun x mem => nonzero x (sub x mem)) chains

theorem publicInputsHashes_at {i : Nat} (done : publicInputsHashes keccak batch vkey = .ok hashes)
    (at_i : hashes[i]? = some h) :
    ∃ shared, batchSharedPublicInput keccak batch 0 = .ok shared ∧
      h = perPsPublicInputsHash keccak shared (batchPlan batch vkey) (UInt64.ofNat i) := by
  simp only [publicInputsHashes, bind_eq_ok, ensure_eq_ok, exists_const, pure_eq_ok] at done
  obtain ⟨_, shared, shared_ok, _, _, rfl⟩ := done
  simp only [perPsHashes, getElem?_map, Option.map_eq_some_iff] at at_i
  obtain ⟨k, at_k, rfl⟩ := at_i
  obtain ⟨_, rfl⟩ := List.getElem?_eq_some_iff.mp at_k
  rw [getElem_range]
  exact ⟨shared, shared_ok, rfl⟩

/-- Equal shared inputs come from batches that agree on all they hash, the sender as
far as it is bound; equal hashes at one position come from equal shared inputs and
equal contributions. -/
theorem publicInputs_bind (batch batch' : EvmBatch) :
    (∀ sender sender' shared, batchSharedPublicInput keccak batch sender = .ok shared →
      batchSharedPublicInput keccak batch' sender' = .ok shared →
      collisionFreeOn keccak (sharedPreimages keccak batch sender ++ sharedPreimages keccak batch' sender') →
      SameBatch batch batch' sender sender') ∧
    ∀ vkey vkey' hashes hashes' i h shared shared', publicInputsHashes keccak batch vkey = .ok hashes →
      publicInputsHashes keccak batch' vkey' = .ok hashes' → hashes[i]? = some h → hashes'[i]? = some h →
      batchSharedPublicInput keccak batch 0 = .ok shared → batchSharedPublicInput keccak batch' 0 = .ok shared' →
      collisionFreeOn keccak (perPsPreimages keccak shared (batchPlan batch vkey) (UInt64.ofNat i) ++
        perPsPreimages keccak shared' (batchPlan batch' vkey') (UInt64.ofNat i)) →
      (∀ x ∈ perPsPreimages keccak shared (batchPlan batch vkey) (UInt64.ofNat i) ++
        perPsPreimages keccak shared' (batchPlan batch' vkey') (UInt64.ofNat i), keccak x ≠ 0) →
      shared = shared' ∧ (batchPlan batch vkey).contributions (UInt64.ofNat i) =
        (batchPlan batch' vkey').contributions (UInt64.ofNat i) := by
  constructor
  · intro sender sender' shared done done' free
    obtain ⟨_, _, digest⟩ := batchSharedPublicInput_eq_ok.mp done
    obtain ⟨_, _, digest'⟩ := batchSharedPublicInput_eq_ok.mp done'
    exact sharedPreimages_bind free (digest.trans digest'.symm)
  · intro vkey vkey' hashes hashes' i h shared shared' done done' at_i at_i' ok ok' free nonzero
    obtain ⟨s, found, hash⟩ := publicInputsHashes_at done at_i
    obtain ⟨s', found', hash'⟩ := publicInputsHashes_at done' at_i'
    obtain rfl : shared = s := Except.ok.inj (ok.symm.trans found)
    obtain rfl : shared' = s' := Except.ok.inj (ok'.symm.trans found')
    exact perPsPublicInputsHash_bind free nonzero (hash.symm.trans hash')

def rekeyedBatch : EvmBatch := { releasingBatch releasing with proofSystems := [2#160], proofs := [[1]] }

theorem publicInputs_bind_rekeyed : releasingBatch releasing ≠ rekeyedBatch ∧
    SameBatch (releasingBatch releasing) rekeyedBatch 1#160 2#160 ∧
    (∃ h, publicInputsHashes keccak256 (releasingBatch releasing) 5#256 = .ok [h] ∧
      publicInputsHashes keccak256 rekeyedBatch 5#256 = .ok [h] ∧
      (batchPlan (releasingBatch releasing) 5#256).contributions 0 = [⟨1, 5#256, []⟩] ∧
      (batchPlan (releasingBatch releasing) 5#256).contributions 0 =
      (batchPlan rekeyedBatch 5#256).contributions 0) := by
  have bind := @publicInputs_bind keccak256 (releasingBatch releasing) rekeyedBatch
  refine ⟨by decide, bind.1 1#160 2#160 _ rfl rfl ?_, _, rfl, rfl, by decide, ?_⟩
  · unfold collisionFreeOn
    decide +kernel
  · refine (bind.2 5#256 5#256 _ _ 0 _ _ _ rfl rfl rfl rfl rfl rfl ?_ ?_).2
    · unfold collisionFreeOn
      decide +kernel
    · decide +kernel

/-- A batch that does not ask for it has the same shared input from every sender. -/
theorem batchSharedPublicInput_unbound : ∃ shared,
    batchSharedPublicInput keccak256 (releasingBatch releasing) 1#160 = .ok shared ∧
    batchSharedPublicInput keccak256 (releasingBatch releasing) 2#160 = .ok shared ∧
    collisionFreeOn keccak256 (sharedPreimages keccak256 (releasingBatch releasing) 1#160 ++
      sharedPreimages keccak256 (releasingBatch releasing) 2#160) := by
  refine ⟨_, rfl, rfl, ?_⟩
  unfold collisionFreeOn
  decide +kernel

end Eez
