import EezRollup.Signer.Assembler

/-! A stream is admitted exactly when it is one header with its declared span of linked blocks,
within the quotas. -/
open List
namespace Eez.Window
open Octets Outcome Signer

def WireExecutionWitness.items (w : WireExecutionWitness) : Nat :=
  w.state.length + w.codes.length + w.keys.length + w.headers.length

def BlockWitness.items (b : BlockWitness) : Nat := (b.witness.map WireExecutionWitness.items).getD 0

def BlockWitness.chunk (b : BlockWitness) : ProveChunk := ⟨some (.block b)⟩

def ProveHeader.chunk (h : ProveHeader) : ProveChunk := ⟨some (.header h)⟩

def payloadOf (blocks : List BlockWitness) : Nat := (blocks.map fun b => b.chunk.encodedLen).sum

def itemsOf (blocks : List BlockWitness) : Nat := (blocks.map BlockWitness.items).sum

def Parent (a b : BlockWitness) : Prop := b.parentHash = a.hash

def streamOf (header : ProveHeader) (blocks : List BlockWitness) : List ProveChunk :=
  header.chunk :: blocks.map BlockWitness.chunk

structure Opens (limits : WindowLimits) (header : ProveHeader) (batch : PostBatch) : Prop where
  post_batch : header.postBatch = some batch
  timeless : batch.l1BlockHash = []
  positive : 1 ≤ header.fromBlock.toNat
  ordered : header.fromBlock.toNat ≤ header.toBlock.toNat
  span : header.toBlock.toNat - header.fromBlock.toNat + 1 ≤ limits.blocks.toNat

structure WellFormed (limits : WindowLimits) (expected : NonZeroU64) (header : ProveHeader) (batch : PostBatch)
    (blocks : List BlockWitness) : Prop extends Opens limits header batch where
  rollup : header.rollupId = expected.val
  numbered : blocks.map (fun b => b.number.toNat) =
    List.range' header.fromBlock.toNat (header.toBlock.toNat - header.fromBlock.toNat + 1)
  hashes : ∀ b ∈ blocks, b.hash.length = 32 ∧ b.parentHash.length = 32
  witnessed : ∀ b ∈ blocks, b.witness.isSome
  linked : blocks.IsChain Parent
  payload : header.chunk.encodedLen + payloadOf blocks ≤ limits.payloadBytes.toNat
  items : itemsOf blocks ≤ limits.witnessItems.toNat

structure Lists (b : BlockWitness) (admitted : AdmittedBlock) : Prop where
  number : admitted.declaredNumber = b.number
  hash : b.hash = b256Bytes admitted.claimedHash
  parentHash : b.parentHash = b256Bytes admitted.claimedParentHash
  rlp : admitted.rlp = b.rlp
  witness : ∃ w, b.witness = some w ∧ admitted.witness = intoExecutionWitness w

theorem charge_eq_ok {current add v max exceeded} :
    charge current add max exceeded = .ok v ↔ current + add ≤ max.toNat ∧ current + add = v := by
  have word := max.toNat_lt
  simp only [charge, bind_eq_ok, ensure_eq_ok, pure_eq_ok, exists_const]
  constructor
  · rintro ⟨_, within, rfl⟩
    exact ⟨within, rfl⟩
  · rintro ⟨within, rfl⟩
    exact ⟨by omega, within, rfl⟩

theorem wireWitnessItemCount_eq (w : WireExecutionWitness) : wireWitnessItemCount w = w.items := by
  have fits := w.fits
  unfold wireWitnessItemCount WireExecutionWitness.items saturatingAdd
  omega

theorem forwardChecked_eq_some : forwardChecked start n = some m ↔ m.toNat = start.toNat + n := by
  have word := m.toNat_lt
  unfold forwardChecked
  split
  · next fits =>
    rw [Option.some.injEq, ← UInt64.toNat_inj, UInt64.toNat_add, UInt64.toNat_ofNat']
    omega
  · next wraps =>
    constructor
    · intro none
      cases none
    · intro eq
      omega

theorem nthInclusive_eq_some :
    nthInclusive start last n = some m ↔ m.toNat = start.toNat + n ∧ m.toNat ≤ last.toNat := by
  unfold nthInclusive
  split
  · next _ =>
    rw [Option.filter_eq_some_iff, forwardChecked_eq_some, decide_eq_true_iff, UInt64.le_iff_toNat_le]
  · next empty =>
    rw [UInt64.le_iff_toNat_le] at empty
    constructor
    · intro none
      cases none
    · rintro ⟨eq, within⟩
      omega

theorem b256TryFrom_eq_some : b256TryFrom bytes = some h ↔ bytes = b256Bytes h := by
  unfold b256TryFrom
  split
  · next length =>
    rw [Option.some.injEq]
    exact ofNat_ofLe_eq_iff (by decide) length
  · next other =>
    constructor
    · intro none
      cases none
    · rintro rfl
      exact absurd (b256Bytes_length h) other

theorem exists_b256TryFrom {bytes : Bytes} (length : bytes.length = 32) : ∃ h, bytes = b256Bytes h :=
  ⟨_, b256TryFrom_eq_some.mp (if_pos length)⟩

theorem span_toNat {first last : UInt64} (positive : 1 ≤ first.toNat) (ordered : first.toNat ≤ last.toNat) :
    (last - first + 1).toNat = last.toNat - first.toNat + 1 := by
  have word := last.toNat_lt
  rw [UInt64.toNat_add, UInt64.toNat_sub_of_le _ _ (UInt64.le_iff_toNat_le.mpr ordered)]
  change (last.toNat - first.toNat + 1) % 2 ^ 64 = _
  exact Nat.mod_eq_of_lt (by omega)

def ProveHeader.admitted (header : ProveHeader) (batch : PostBatch) : AdmittedHeader :=
  ⟨header.fromBlock, header.toBlock, batch.abiCalldata⟩

theorem checkHeader_eq_ok : checkHeader header limits = .ok parsed ↔ ∃ batch, Opens limits header batch ∧
      parsed = ⟨header.rollupId, header.admitted batch, header.toBlock.toNat - header.fromBlock.toNat + 1⟩ := by
  simp only [checkHeader, bind_eq_ok, require_eq_ok, ensure_eq_ok, pure_eq_ok, exists_const, length_eq_zero_iff,
    not_or, ← UInt64.toNat_inj, gt_iff_lt, UInt64.lt_iff_toNat_lt, UInt64.le_iff_toNat_le, Nat.not_lt]
  constructor
  · rintro ⟨batch, post_batch, timeless, ⟨nonzero, ordered⟩, span, rfl⟩
    have positive : 1 ≤ header.fromBlock.toNat := Nat.one_le_iff_ne_zero.mpr nonzero
    rw [span_toNat positive ordered] at span ⊢
    exact ⟨batch, ⟨post_batch, timeless, positive, ordered, span⟩, rfl⟩
  · rintro ⟨batch, opens, rfl⟩
    rw [span_toNat opens.positive opens.ordered]
    exact ⟨batch, opens.post_batch, opens.timeless, ⟨Nat.one_le_iff_ne_zero.mp opens.positive, opens.ordered⟩,
      opens.span, rfl⟩

def opened (limits : WindowLimits) (header : ProveHeader) (batch : PostBatch) (checked : Bool) :
    WindowAssembler checked :=
  ⟨limits, header.chunk.encodedLen, 0, header.rollupId, header.admitted batch,
    header.toBlock.toNat - header.fromBlock.toNat + 1, []⟩

theorem start_eq_ok {limits first a} :
    WindowAssembler.start limits first = .ok a ↔ ∃ header batch, first = header.chunk ∧ Opens limits header batch ∧
      header.chunk.encodedLen ≤ limits.payloadBytes.toNat ∧ a = opened limits header batch false := by
  simp only [WindowAssembler.start, bind_eq_ok, charge_eq_ok, Nat.zero_add]
  constructor
  · rintro ⟨_, ⟨within, rfl⟩, ran⟩
    split at ran
    · next header kind =>
      obtain ⟨_, parsed, result⟩ := bind_eq_ok.mp ran
      obtain ⟨batch, opens, rfl⟩ := checkHeader_eq_ok.mp parsed
      obtain rfl : first = header.chunk := congrArg ProveChunk.mk kind
      exact ⟨header, batch, rfl, opens, within, (pure_eq_ok.mp result).symm⟩
    · cases ran
    · cases ran
  · rintro ⟨header, batch, rfl, opens, within, rfl⟩
    refine ⟨_, ⟨within, rfl⟩, ?_⟩
    exact bind_eq_ok.mpr ⟨_, checkHeader_eq_ok.mpr ⟨batch, opens, rfl⟩, rfl⟩

theorem checkAdjacency_eq_ok {last number hash u} :
    WindowAssembler.checkAdjacency last number hash = .ok u ↔ ∀ previous ∈ last, hash = previous.claimedHash := by
  unfold WindowAssembler.checkAdjacency
  cases last with
  | none | some previous => simp

namespace WindowAssembler

structure Fits (storage : Nat → Bool) (a : WindowAssembler true) (b : BlockWitness) (admitted : AdmittedBlock) :
    Prop where
  number : b.number.toNat = a.header.declaredFromBlock.toNat + a.blocks.length
  within : b.number.toNat ≤ a.header.declaredToBlock.toNat
  lists : Lists b admitted
  linked : ∀ previous ∈ a.blocks.getLast?, admitted.claimedParentHash = previous.claimedHash
  items : a.accountedWitnessItems + b.items ≤ a.limits.witnessItems.toNat
  stored : storage a.blocks.length = true

def extended (a : WindowAssembler true) (b : BlockWitness) (admitted : AdmittedBlock) : WindowAssembler true :=
  { a with
    accountedPayloadBytes := a.accountedPayloadBytes + b.chunk.encodedLen
    accountedWitnessItems := a.accountedWitnessItems + b.items
    blocks := a.blocks ++ [admitted] }

variable {storage : Nat → Bool} {a a' : WindowAssembler true}

theorem pushBlock_eq_ok {b} : pushBlock storage a b = .ok a' ↔ ∃ admitted, Fits storage a b admitted ∧ a' = { a with
        accountedWitnessItems := a.accountedWitnessItems + b.items, blocks := a.blocks ++ [admitted] } := by
  simp only [pushBlock, bind_eq_ok, require_eq_ok, ensure_eq_ok, pure_eq_ok, exists_const, charge_eq_ok,
    nthInclusive_eq_some, b256TryFrom_eq_some, checkAdjacency_eq_ok, wireWitnessItemCount_eq]
  constructor
  · rintro ⟨_, ⟨number, within⟩, rfl, hash, eq_hash, parent, eq_parent, w, witness, _, ⟨items, rfl⟩,
      linked, stored, rfl⟩
    have same : b.items = w.items := by
      unfold BlockWitness.items
      rw [witness]
      rfl
    rw [← same] at items ⊢
    have lists : Lists b ⟨b.number, hash, parent, b.rlp, intoExecutionWitness w⟩ :=
      ⟨rfl, eq_hash, eq_parent, rfl, w, witness, rfl⟩
    exact ⟨⟨b.number, hash, parent, b.rlp, intoExecutionWitness w⟩, ⟨number, within, lists, linked, items, stored⟩, rfl⟩
  · rintro ⟨admitted, fits, rfl⟩
    obtain ⟨number, hash, parent, rlp, w, witness, retained⟩ := fits.lists
    have same : w.items = b.items := by
      unfold BlockWitness.items
      rw [witness]
      rfl
    refine ⟨_, ⟨fits.number, fits.within⟩, rfl, _, hash, _, parent, w, witness, _, ⟨?_, rfl⟩, fits.linked,
      fits.stored, ?_⟩
    · rw [same]
      exact fits.items
    · rw [same, ← number, ← rlp, ← retained]

theorem push_eq_ok {chunk} : push storage a chunk = .ok a' ↔ ∃ b admitted, chunk = b.chunk ∧
      a.accountedPayloadBytes + b.chunk.encodedLen ≤ a.limits.payloadBytes.toNat ∧ Fits storage a b admitted ∧
        a' = a.extended b admitted := by
  simp only [push, bind_eq_ok, charge_eq_ok]
  constructor
  · rintro ⟨_, ⟨payload, rfl⟩, ran⟩
    split at ran
    · cases ran
    · next b kind =>
      obtain rfl : chunk = b.chunk := congrArg ProveChunk.mk kind
      obtain ⟨admitted, fits, rfl⟩ := pushBlock_eq_ok.mp ran
      exact ⟨b, admitted, rfl, payload, ⟨fits.number, fits.within, fits.lists, fits.linked, fits.items, fits.stored⟩,
        rfl⟩
    · cases ran
  · rintro ⟨b, admitted, rfl, payload, fits, rfl⟩
    refine ⟨_, ⟨payload, rfl⟩, pushBlock_eq_ok.mpr ⟨admitted, ?_, rfl⟩⟩
    exact ⟨fits.number, fits.within, fits.lists, fits.linked, fits.items, fits.stored⟩

def after (a : WindowAssembler true) (blocks : List BlockWitness) (admitted : List AdmittedBlock) :
    WindowAssembler true :=
  { a with
    accountedPayloadBytes := a.accountedPayloadBytes + payloadOf blocks
    accountedWitnessItems := a.accountedWitnessItems + itemsOf blocks
    blocks := admitted }

theorem payloadOf_concat (blocks : List BlockWitness) (b : BlockWitness) :
    payloadOf (blocks ++ [b]) = payloadOf blocks + b.chunk.encodedLen := by
  rw [payloadOf, map_append, sum_append]
  rfl

theorem itemsOf_concat (blocks : List BlockWitness) (b : BlockWitness) :
    itemsOf (blocks ++ [b]) = itemsOf blocks + b.items := by
  rw [itemsOf, map_append, sum_append]
  rfl

theorem after_extended (a : WindowAssembler true) (blocks : List BlockWitness) (admitted : List AdmittedBlock)
    (b : BlockWitness) (last : AdmittedBlock) :
    (a.after blocks admitted).extended b last = a.after (blocks ++ [b]) (admitted ++ [last]) := by
  simp only [after, extended, payloadOf_concat, itemsOf_concat, Nat.add_assoc]

def Adjacent (p q : AdmittedBlock) : Prop := q.claimedParentHash = p.claimedHash

/-- What a run of blocks has to be, seen from the assembler that takes it. -/
structure Takes (storage : Nat → Bool) (a : WindowAssembler true) (blocks : List BlockWitness)
    (admitted : List AdmittedBlock) : Prop where
  lists : Forall₂ Lists blocks admitted
  numbered : blocks.map (fun b => b.number.toNat) = List.range' a.header.declaredFromBlock.toNat blocks.length
  within : ∀ b ∈ blocks, b.number.toNat ≤ a.header.declaredToBlock.toNat
  linked : admitted.IsChain Adjacent
  payload : a.accountedPayloadBytes + payloadOf blocks ≤ a.limits.payloadBytes.toNat
  items : a.accountedWitnessItems + itemsOf blocks ≤ a.limits.witnessItems.toNat
  stored : ∀ i < blocks.length, storage i = true

theorem Takes.concat {blocks admitted} {b : BlockWitness} {last} (takes : Takes storage a blocks admitted)
    (payload : (a.after blocks admitted).accountedPayloadBytes + b.chunk.encodedLen ≤ a.limits.payloadBytes.toNat)
    (fits : Fits storage (a.after blocks admitted) b last) : Takes storage a (blocks ++ [b]) (admitted ++ [last]) := by
  have length : admitted.length = blocks.length := takes.lists.length_eq.symm
  refine ⟨rel_append takes.lists (.cons fits.lists .nil), ?_, ?_, ?_, ?_, ?_, ?_⟩
  · rw [map_append, takes.numbered, length_append, length_singleton, range'_1_concat, map_singleton,
      fits.number, ← length]
    rfl
  · rw [forall_mem_append, forall_mem_singleton]
    exact ⟨takes.within, fits.within⟩
  · refine isChain_append.mpr ⟨takes.linked, .singleton last, ?_⟩
    rintro previous at_end _ ⟨⟩
    exact fits.linked previous at_end
  · rw [payloadOf_concat, ← Nat.add_assoc]
    exact payload
  · rw [itemsOf_concat, ← Nat.add_assoc]
    exact fits.items
  · rw [length_append, length_singleton]
    intro i bound
    cases Nat.lt_succ_iff_lt_or_eq.mp bound with
    | inl before => exact takes.stored i before
    | inr last =>
      rw [last, ← length]
      exact fits.stored

theorem Takes.of_concat {blocks : List BlockWitness} {b : BlockWitness}
    (takes : Takes storage a (blocks ++ [b]) taken) :
    ∃ admitted last, taken = admitted ++ [last] ∧ Takes storage a blocks admitted ∧
      (a.after blocks admitted).accountedPayloadBytes + b.chunk.encodedLen ≤ a.limits.payloadBytes.toNat ∧
      Fits storage (a.after blocks admitted) b last := by
  obtain ⟨admitted, tail, lists, rest, rfl⟩ := forall₂_append_left takes.lists
  obtain ⟨last, _, listed, empty, rfl⟩ := forall₂_cons_left_iff.mp rest
  obtain rfl := forall₂_nil_left_iff.mp empty
  have length : admitted.length = blocks.length := lists.length_eq.symm
  have numbered := takes.numbered
  rw [map_append, length_append, length_singleton, range'_1_concat] at numbered
  obtain ⟨before, number⟩ := append_inj' numbered rfl
  have within := takes.within
  rw [forall_mem_append, forall_mem_singleton] at within
  obtain ⟨chain, _, adjacent⟩ := isChain_append.mp takes.linked
  have payload := takes.payload
  rw [payloadOf_concat, ← Nat.add_assoc] at payload
  have items := takes.items
  rw [itemsOf_concat, ← Nat.add_assoc] at items
  have stored := takes.stored
  rw [length_append, length_singleton] at stored
  refine ⟨admitted, last, rfl, ?_, payload, ?_⟩
  · exact ⟨lists, before, within.1, chain, Nat.le_of_add_right_le payload, Nat.le_of_add_right_le items,
      fun i bound => stored i (Nat.lt_succ_of_lt bound)⟩
  · refine ⟨?_, within.2, listed, fun previous at_end => adjacent previous at_end last rfl, items, ?_⟩
    · change b.number.toNat = a.header.declaredFromBlock.toNat + admitted.length
      rw [length]
      exact (List.cons.inj number).1
    · change storage admitted.length = true
      rw [length]
      exact stored _ (Nat.lt_succ_self _)

/-- The chunks are blocks that the assembler takes, whatever came of each push on the way. -/
theorem foldlM_push_eq_ok {rest : List ProveChunk} (fresh : a.blocks = [])
    (payload : a.accountedPayloadBytes ≤ a.limits.payloadBytes.toNat)
    (items : a.accountedWitnessItems ≤ a.limits.witnessItems.toNat) :
    rest.foldlM (push storage) a = .ok a' ↔ ∃ blocks admitted, rest = blocks.map BlockWitness.chunk ∧
      Takes storage a blocks admitted ∧ a' = a.after blocks admitted := by
  induction rest using List.reverseRecOn generalizing a' with
  | nil =>
    rw [foldlM_nil, pure_eq_ok]
    constructor
    · rintro rfl
      refine ⟨[], [], rfl, ⟨.nil, rfl, forall_mem_nil _, .nil, payload, items, ?_⟩, ?_⟩
      · intro i none
        cases none
      · rw [after, ← fresh]
        rfl
    · rintro ⟨blocks, admitted, none, takes, rfl⟩
      obtain rfl := map_eq_nil_iff.mp none.symm
      obtain rfl := forall₂_nil_left_iff.mp takes.lists
      rw [after, ← fresh]
      rfl
  | append_singleton rest chunk ih =>
    rw [foldlM_append, bind_eq_ok]
    simp only [foldlM_cons, foldlM_nil, bind_pure, ih, push_eq_ok]
    constructor
    · rintro ⟨_, ⟨blocks, admitted, rfl, takes, rfl⟩, b, last, rfl, fitting, fits, rfl⟩
      refine ⟨blocks ++ [b], admitted ++ [last], ?_, takes.concat fitting fits, after_extended a blocks admitted b last⟩
      rw [map_append, map_singleton]
    · rintro ⟨blocks, admitted, eq, takes, rfl⟩
      obtain ⟨blocks, tail, rfl, rfl, eq_chunk⟩ := append_eq_map_iff.mp eq
      obtain ⟨b, rfl, rfl⟩ := map_eq_singleton_iff.mp eq_chunk
      obtain ⟨admitted, last, rfl, before, fitting, fits⟩ := takes.of_concat
      exact ⟨_, ⟨blocks, admitted, rfl, before, rfl⟩, b, last, rfl, fitting, fits,
        (after_extended a blocks admitted b last).symm⟩

end WindowAssembler

open WindowAssembler

theorem isChain_iff {blocks admitted} (lists : Forall₂ Lists blocks admitted) :
    blocks.IsChain Parent ↔ admitted.IsChain Adjacent := by
  induction lists with
  | nil => exact ⟨fun _ => .nil, fun _ => .nil⟩
  | @cons p p' blocks admitted listed rest ih =>
    cases rest with
    | nil => exact ⟨fun _ => .singleton p', fun _ => .singleton p⟩
    | cons next _ =>
      rw [isChain_cons_cons, isChain_cons_cons, ih, Parent, Adjacent, next.parentHash, listed.hash]
      exact and_congr_left fun _ => b256Bytes_injective.eq_iff

theorem exists_lists {blocks} (hashes : ∀ b ∈ blocks, b.hash.length = 32 ∧ b.parentHash.length = 32)
    (witnessed : ∀ b ∈ blocks, b.witness.isSome) : ∃ admitted, Forall₂ Lists blocks admitted := by
  induction blocks with
  | nil => exact ⟨[], .nil⟩
  | cons b blocks ih =>
    rw [forall_mem_cons] at hashes witnessed
    obtain ⟨admitted, lists⟩ := ih hashes.2 witnessed.2
    obtain ⟨hash, eq_hash⟩ := exists_b256TryFrom hashes.1.1
    obtain ⟨parent, eq_parent⟩ := exists_b256TryFrom hashes.1.2
    obtain ⟨w, witness⟩ := Option.isSome_iff_exists.mp witnessed.1
    exact ⟨⟨b.number, hash, parent, b.rlp, intoExecutionWitness w⟩ :: admitted,
      .cons ⟨rfl, eq_hash, eq_parent, rfl, w, witness, rfl⟩ lists⟩

section
variable {storage : Nat → Bool} {expected : NonZeroU64} {limits : WindowLimits}

/-- The run of blocks of a well-formed stream, and nothing else, completes the window its header opened. -/
theorem wellFormed_iff {header batch blocks admitted} (opens : Opens limits header batch)
    (rollup : header.rollupId = expected.val) (lists : Forall₂ Lists blocks admitted) :
    WellFormed limits expected header batch blocks ∧ (∀ i < blocks.length, storage i = true) ↔
      Takes storage (opened limits header batch true) blocks admitted ∧
        admitted.length = header.toBlock.toNat - header.fromBlock.toNat + 1 := by
  have length := lists.length_eq
  constructor
  · rintro ⟨formed, stored⟩
    have count : blocks.length = header.toBlock.toNat - header.fromBlock.toNat + 1 := by
      have lengths := congrArg List.length formed.numbered
      rwa [length_map, length_range'] at lengths
    refine ⟨⟨lists, ?_, ?_, (isChain_iff lists).mp formed.linked, formed.payload, ?_, stored⟩, length ▸ count⟩
    · rw [count]
      exact formed.numbered
    · intro b mem
      have listed : b.number.toNat ∈ blocks.map fun b => b.number.toNat := mem_map_of_mem mem
      rw [formed.numbered, mem_range'_1] at listed
      have ordered := opens.ordered
      change b.number.toNat ≤ header.toBlock.toNat
      omega
    · change 0 + itemsOf blocks ≤ limits.witnessItems.toNat
      rw [Nat.zero_add]
      exact formed.items
  · rintro ⟨takes, count⟩
    have items : 0 + itemsOf blocks ≤ limits.witnessItems.toNat := takes.items
    have numbered := takes.numbered
    rw [length, count] at numbered
    rw [Nat.zero_add] at items
    refine ⟨⟨opens, rollup, numbered, ?_, ?_, (isChain_iff lists).mpr takes.linked, takes.payload, items⟩, takes.stored⟩
    · intro b mem
      obtain ⟨c, _, listed⟩ := forall₂_exists_right lists b mem
      rw [listed.hash, listed.parentHash]
      exact ⟨b256Bytes_length _, b256Bytes_length _⟩
    · intro b mem
      obtain ⟨c, _, listed⟩ := forall₂_exists_right lists b mem
      obtain ⟨w, witness, _⟩ := listed.witness
      rw [witness]
      rfl

theorem verifyRollupIdentity_eq_ok {a : WindowAssembler false} :
    a.verifyRollupIdentity expected = .ok a' ↔ a.claimedRollupId = expected.val ∧
      a' = ⟨a.limits, a.accountedPayloadBytes, a.accountedWitnessItems, a.claimedRollupId, a.header,
        a.declaredBlockCount,
        a.blocks⟩ := by
  simp only [verifyRollupIdentity, bind_eq_ok, ensure_eq_ok, pure_eq_ok, exists_const]
  constructor
  · rintro ⟨same, rfl⟩
    rw [same]
    exact ⟨rfl, rfl⟩
  · rintro ⟨same, rfl⟩
    rw [same]
    exact ⟨rfl, rfl⟩

theorem streamOf_inj {header header' blocks blocks'} (eq : streamOf header blocks = streamOf header' blocks') :
    header = header' ∧ blocks = blocks' := by
  obtain ⟨same, rest⟩ := List.cons.inj eq
  refine ⟨Kind.header.inj (Option.some.inj (ProveChunk.mk.inj same)), map_injective_iff.mpr ?_ rest⟩
  intro a b chunks
  exact Kind.block.inj (Option.some.inj (ProveChunk.mk.inj chunks))

theorem readWindow_eq_ok : readWindow storage expected limits chunks = .ok w ↔ ∃ header batch blocks,
      chunks = streamOf header blocks ∧ WellFormed limits expected header batch blocks ∧
        (∀ i < blocks.length, storage i = true) ∧ w.header = header.admitted batch ∧ Forall₂ Lists blocks w.blocks := by
  cases chunks with
  | nil =>
    constructor
    · intro ran
      cases ran
    · rintro ⟨header, batch, blocks, none, _⟩
      cases none
  | cons first rest =>
    simp only [readWindow, bind_eq_ok, mapError_eq_ok, start_eq_ok, verifyRollupIdentity_eq_ok]
    constructor
    · rintro ⟨_, ⟨header, batch, rfl, opens, payload, rfl⟩, _, ⟨rollup, rfl⟩, a, ran, finished⟩
      obtain ⟨blocks, admitted, rfl, takes, rfl⟩ := (foldlM_push_eq_ok rfl payload (Nat.zero_le _)).mp ran
      simp only [WindowAssembler.finish, bind_eq_ok, ensure_eq_ok, pure_eq_ok, exists_const] at finished
      obtain ⟨count, rfl⟩ := finished
      obtain ⟨formed, stored⟩ := (wellFormed_iff opens rollup takes.lists).mpr ⟨takes, count⟩
      exact ⟨header, batch, blocks, rfl, formed, stored, rfl, takes.lists⟩
    · rintro ⟨header, batch, blocks, eq, formed, stored, at_header, lists⟩
      obtain ⟨rfl, rfl⟩ := List.cons.inj eq
      obtain ⟨takes, count⟩ := (wellFormed_iff formed.toOpens formed.rollup lists).mp ⟨formed, stored⟩
      have payload : header.chunk.encodedLen ≤ limits.payloadBytes.toNat := Nat.le_of_add_right_le formed.payload
      refine ⟨_, ⟨header, batch, rfl, formed.toOpens, payload, rfl⟩, _, ⟨formed.rollup, rfl⟩, _,
        (foldlM_push_eq_ok rfl payload (Nat.zero_le _)).mpr ⟨blocks, w.blocks, rfl, takes, rfl⟩, ?_⟩
      simp only [WindowAssembler.finish, bind_eq_ok, ensure_eq_ok, pure_eq_ok, exists_const]
      refine ⟨count, ?_⟩
      change AdmittedWindow.mk (header.admitted batch) w.blocks = w
      rw [← at_header]

end

/-- A stream is admitted exactly when it is well formed and storage is found for its blocks, and the
window then lists these blocks in order. -/
theorem readWindow_admits (storage : Nat → Bool) (expected : NonZeroU64) (limits : WindowLimits)
    (chunks : List ProveChunk) :
    ((∃ w, readWindow storage expected limits chunks = .ok w) ↔
      (∃ header batch blocks, chunks = streamOf header blocks ∧
        WellFormed limits expected header batch blocks) ∧ ∀ i, i + 1 < chunks.length → storage i = true) ∧
    ∀ w (header : ProveHeader) blocks, readWindow storage expected limits chunks = .ok w →
      chunks = streamOf header blocks →
        w.header.declaredFromBlock = header.fromBlock ∧ w.header.declaredToBlock = header.toBlock ∧
          header.postBatch.map PostBatch.abiCalldata = some w.header.submittedPostBatchCalldata ∧
            Forall₂ Lists blocks w.blocks := by
  refine ⟨⟨?_, ?_⟩, ?_⟩
  · rintro ⟨w, ran⟩
    obtain ⟨header, batch, blocks, rfl, formed, stored, _⟩ := readWindow_eq_ok.mp ran
    refine ⟨⟨header, batch, blocks, rfl, formed⟩, ?_⟩
    intro i bound
    rw [streamOf, length_cons, length_map] at bound
    exact stored i (Nat.lt_of_succ_lt_succ bound)
  · rintro ⟨⟨header, batch, blocks, rfl, formed⟩, stored⟩
    obtain ⟨admitted, lists⟩ := exists_lists formed.hashes formed.witnessed
    rw [streamOf, length_cons, length_map] at stored
    exact ⟨⟨header.admitted batch, admitted⟩, readWindow_eq_ok.mpr ⟨header, batch, blocks, rfl, formed,
      fun i bound => stored i (Nat.succ_lt_succ bound), rfl, lists⟩⟩
  · intro w header blocks ran eq
    obtain ⟨header', batch, blocks', eq', formed, _, at_header, lists⟩ := readWindow_eq_ok.mp ran
    obtain ⟨rfl, rfl⟩ := streamOf_inj (eq.symm.trans eq')
    rw [at_header, formed.post_batch]
    exact ⟨rfl, rfl, rfl, lists⟩

-- The last block number there is.
example : (readWindow (fun _ => true) ⟨7, by decide⟩ ⟨1, 200, 2⟩
    (streamOf ⟨7, 0xffffffffffffffff, 0xffffffffffffffff, some ⟨[1, 2, 3], [], []⟩⟩
      [⟨0xffffffffffffffff, replicate 32 1, replicate 32 0, [0xc0],
        some ⟨[[1]], [[2]], [], [], by decide⟩⟩])).isOk := by decide +kernel

end Eez.Window
