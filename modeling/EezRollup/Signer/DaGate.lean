import EezRollup.Codec.WellFormed
import EezRollup.Signer.Da
import EezRollup.Signer.Framing

/-! What the data-availability gate establishes, once the cursor over the transaction column is
eliminated. -/
open List
namespace Eez.Signer
open DaPayload
open Octets Outcome Codec

variable {p p' : DaPayload} {i : Nat} {number : UInt64}

theorem DaPayload.decode_eq_ok : decode payload r = .ok p ↔
      ∃ container, decodeContainer payload = .ok container ∧ container.rollupId = r ∧
        p = ⟨container.span, container.actions, 0⟩ := by
  simp only [decode, bind_eq_ok, mapError_eq_ok, ensure_eq_ok, exists_const, pure_eq_ok]
  refine exists_congr fun container => and_congr_right fun _ => and_congr_right fun _ => eq_comm

def DaPayload.advance (p : DaPayload) (n : Nat) : DaPayload := { p with nextTransaction := p.nextTransaction + n }

@[simp] theorem DaPayload.advance_span (p : DaPayload) (n : Nat) : (p.advance n).span = p.span := rfl

@[simp] theorem DaPayload.advance_actions (p : DaPayload) (n : Nat) : (p.advance n).actions = p.actions := rfl

@[simp] theorem DaPayload.advance_nextTransaction (p : DaPayload) (n : Nat) :
    (p.advance n).nextTransaction = p.nextTransaction + n := rfl

theorem DaPayload.advance_advance (p : DaPayload) (m n : Nat) : (p.advance m).advance n = p.advance (m + n) := by
  simp only [advance, Nat.add_assoc]

def DaPayload.remaining (p : DaPayload) : List RawTx := p.span.transactions.drop p.nextTransaction

theorem DaPayload.remaining_advance (p : DaPayload) (n : Nat) : (p.advance n).remaining = p.remaining.drop n := by
  simp only [remaining, advance, drop_drop]

theorem DaPayload.expectTransaction_eq_ok :
    p.expectTransaction number i tx = .ok p' ↔ p.remaining.head? = some tx ∧ p' = p.advance 1 := by
  simp only [expectTransaction, bind_eq_ok, ensure_eq_ok, exists_const, pure_eq_ok, remaining, head?_drop]
  exact and_congr_right fun _ => eq_comm

theorem cons_prefix_iff_head {α : Type} {a : α} {l : List α} {m} :
    a :: l <+: m ↔ m.head? = some a ∧ l <+: m.drop 1 := by
  cases m with
  | nil => simp
  | cons b m =>
    rw [cons_prefix_cons, head?_cons, Option.some.injEq, drop_one, tail_cons]
    exact and_congr_left fun _ => eq_comm

theorem expectTransactions_eq_ok {txs} :
    expectTransactions number i txs p = .ok p' ↔ txs <+: p.remaining ∧ p' = p.advance txs.length := by
  induction txs generalizing i p with
  | nil =>
    simp only [expectTransactions, Except.ok.injEq, nil_prefix, true_and, length_nil]
    exact eq_comm
  | cons tx txs ih =>
    simp only [expectTransactions, bind_eq_ok, expectTransaction_eq_ok, ih, cons_prefix_iff_head, length_cons]
    constructor
    · rintro ⟨_, ⟨head, rfl⟩, rest, rfl⟩
      rw [remaining_advance] at rest
      exact ⟨⟨head, rest⟩, by rw [advance_advance, Nat.add_comm]⟩
    · rintro ⟨⟨head, rest⟩, rfl⟩
      refine ⟨_, ⟨head, rfl⟩, ?_, ?_⟩
      · rwa [remaining_advance]
      · rw [advance_advance, Nat.add_comm]

/-- The span's columns for block `i`: its header inputs and `count` transactions. -/
structure CarriesBlock (span : DecodedSpan) (i : Nat) (header : Header) (count : Nat) : Prop where
  count : (span.blockTxCounts[i]?).map UInt32.toNat = some count
  beneficiary : span.beneficiaries[i]? = some header.beneficiary
  extraData : span.extraData[i]? = some header.extraData

theorem carriesBlock_iff {n count block} : (p.blockCount n i = .ok count ∧ verifyHeaderInputs p i block = .ok ()) ↔
      p.span.blockCount = n ∧ CarriesBlock p.span i block.decoded.header count := by
  simp only [blockCount, verifyHeaderInputs, bind_eq_ok, ensure_eq_ok, exists_const, require_eq_ok, pure_eq_ok]
  constructor
  · rintro ⟨⟨hn, c, hc, rfl⟩, b, hb, rfl, e, he, rfl⟩
    exact ⟨hn, by rw [hc]; rfl, hb, he⟩
  · rintro ⟨hn, hcount, hb, he⟩
    obtain ⟨c, hc, rfl⟩ := Option.map_eq_some_iff.mp hcount
    exact ⟨⟨hn, c, hc, rfl⟩, _, hb, rfl, _, he, rfl⟩

def encodedAll (blocks : List ValidatedBlock) : List Bytes := blocks.flatMap fun b => b.decoded.encodedTransactions

/-- Blocks carried verbatim from index `i` on. -/
def CarriesBlocks (span : DecodedSpan) (i : Nat) (blocks : List ValidatedBlock) : Prop :=
  ∀ k block, blocks[k]? = some block → CarriesBlock span (i + k) block.decoded.header block.decoded.transactions.length

theorem carriesBlocks_cons {span} {block : ValidatedBlock} {blocks} : CarriesBlocks span i (block :: blocks) ↔
      CarriesBlock span i block.decoded.header block.decoded.transactions.length ∧
        CarriesBlocks span (i + 1) blocks := by
  constructor
  · intro h
    refine ⟨h 0 block rfl, fun k b hb => ?_⟩
    have step := h (k + 1) b hb
    rwa [Nat.add_comm k 1, ← Nat.add_assoc] at step
  · rintro ⟨first, rest⟩ k b hb
    cases k with
    | zero => cases hb; exact first
    | succ k =>
      have step := rest k b hb
      rwa [Nat.add_assoc, Nat.add_comm 1 k] at step

theorem verifyPrecedingBlockTransactions_eq_ok {n blocks retained} :
    verifyPrecedingBlockTransactions n i blocks p = .ok (p', retained) ↔
      (blocks ≠ [] → p.span.blockCount = n) ∧ CarriesBlocks p.span i blocks ∧
      encodedAll blocks <+: p.remaining ∧ p' = p.advance (encodedAll blocks).length ∧
      retained = (encodedAll blocks).length := by
  induction blocks generalizing i p p' retained with
  | nil =>
    simp only [verifyPrecedingBlockTransactions, Except.ok.injEq, Prod.mk.injEq, encodedAll, flatMap_nil]
    constructor
    · rintro ⟨rfl, rfl⟩
      exact ⟨by simp, fun k b hb => by simp at hb, nil_prefix, rfl, rfl⟩
    · rintro ⟨_, _, _, rfl, rfl⟩
      exact ⟨rfl, rfl⟩
  | cons block blocks ih =>
    have encoded : encodedAll (block :: blocks) = block.decoded.encodedTransactions ++ encodedAll blocks := rfl
    have count : block.decoded.encodedTransactions.length = block.decoded.transactions.length := by
      rw [Block.encodedTransactions, length_map]
    have prefixes : ∀ a b l : List Bytes, a ++ b <+: l ↔ a <+: l ∧ b <+: l.drop a.length := by
      intro a b l
      constructor
      · rintro ⟨rest, rfl⟩
        refine ⟨⟨b ++ rest, by rw [append_assoc]⟩, ⟨rest, ?_⟩⟩
        rw [append_assoc, drop_left]
      · rintro ⟨⟨rest, rfl⟩, hb⟩
        rw [drop_left] at hb
        obtain ⟨rest', rfl⟩ := hb
        exact ⟨rest', by rw [append_assoc]⟩
    simp only [verifyPrecedingBlockTransactions, bind_eq_ok, ensure_eq_ok, exists_const, Prod.exists, pure_eq_ok,
      Prod.mk.injEq, expectTransactions_eq_ok, ih, encoded, prefixes, length_append, carriesBlocks_cons]
    constructor
    · rintro ⟨submitted, hcount, _, hheader, rfl, q, ⟨first, rfl⟩, q', rest, ⟨_, hblocks, hrest, rfl, rfl⟩, rfl, rfl⟩
      obtain ⟨hn, carries⟩ := carriesBlock_iff.mp ⟨hcount, hheader⟩
      rw [remaining_advance] at hrest
      exact ⟨fun _ => hn, ⟨carries, hblocks⟩, ⟨first, hrest⟩, advance_advance _ _ _, by rw [count]⟩
    · rintro ⟨hn, ⟨carries, hblocks⟩, ⟨first, hrest⟩, rfl, rfl⟩
      obtain ⟨hcount, hheader⟩ := carriesBlock_iff.mpr ⟨hn (by simp), carries⟩
      refine ⟨_, hcount, (), hheader, rfl, _, ⟨first, rfl⟩, _, _,
        ⟨fun _ => hn (by simp), hblocks, ?_, rfl, rfl⟩, advance_advance _ _ _, by rw [count]⟩
      rwa [remaining_advance]

theorem expectRetained_rest : expectRetained number i rest (List.range' i rest.length) p = .ok p' ↔ p' = p := by
  induction rest generalizing i with
  | nil =>
    simp only [length_nil, range'_zero, expectRetained, Except.ok.injEq]
    exact eq_comm
  | cons tx rest ih =>
    simp only [length_cons, range'_succ, expectRetained, head?_cons, if_true, tail_cons, ih]

theorem expectRetained_framed {pairs rest} : expectRetained number i (framedList pairs rest)
        ((List.range pairs.length).map (fun k => i + 2 * k) ++ List.range' (i + 2 * pairs.length) rest.length) p =
          .ok p' ↔
      pairs.map Prod.snd <+: p.remaining ∧ p' = p.advance pairs.length := by
  induction pairs generalizing i p with
  | nil =>
    simp only [framedList, flatMap_nil, nil_append, length_nil, range_zero, map_nil,
      Nat.mul_zero, Nat.add_zero, expectRetained_rest, nil_prefix, true_and]
    rfl
  | cons pair pairs ih =>
    have positions : (List.range (pair :: pairs).length).map (fun k => i + 2 * k) =
        i :: (List.range pairs.length).map fun k => (i + 2) + 2 * k := by
      rw [length_cons, range_succ_eq_map, map_cons, map_map]
      refine congrArg₂ _ rfl (map_congr_left fun k _ => ?_)
      simp only [Function.comp_apply]
      omega
    have start : i + 2 * (pair :: pairs).length = (i + 2) + 2 * pairs.length := by
      rw [length_cons]
      omega
    have odd : ((List.range pairs.length).map (fun k => (i + 2) + 2 * k) ++
        List.range' ((i + 2) + 2 * pairs.length) rest.length).head? ≠ some (i + 1) := by
      intro h
      rcases mem_append.mp (mem_of_head? h) with h | h
      · obtain ⟨k, _, hk⟩ := mem_map.mp h
        omega
      · have bounds := mem_range'_1.mp h
        omega
    rw [positions, start, framedList_cons, cons_append, expectRetained, head?_cons, if_pos rfl,
      tail_cons, expectRetained, if_neg odd]
    simp only [bind_eq_ok, expectTransaction_eq_ok, ih, map_cons, cons_prefix_iff_head, length_cons]
    constructor
    · rintro ⟨_, ⟨head, rfl⟩, users, rfl⟩
      rw [remaining_advance] at users
      exact ⟨⟨head, users⟩, by rw [advance_advance, Nat.add_comm]⟩
    · rintro ⟨⟨head, users⟩, rfl⟩
      refine ⟨_, ⟨head, rfl⟩, ?_, ?_⟩
      · rwa [remaining_advance]
      · rw [advance_advance, Nat.add_comm]

section
variable (keccak : Bytes → B256) (r : UInt64)

theorem rebuildAction_eq_ok {actions i position entry} : rebuildAction keccak r actions i position = .ok entry ↔
      ∃ action, (actions.drop i).head? = some action ∧ entryFromAction keccak action r = .ok entry := by
  simp only [rebuildAction, bind_eq_ok, require_eq_ok, mapError_eq_ok, head?_drop]

structure CompletesCall (effect : AuthorizedOutboundEffect) (entry : ExecutionEntrySol) : Prop where
  derived : entry = effect.derivedDaEntry entry.returnData
  rollingHash : callEnd keccak effect.pendingRollingHash effect.baseDaEntry.success entry.returnData =
    effect.claimedRollingHash

theorem verifyOutboundSidecars_eq_ok {actions i effects entries} :
    verifyOutboundSidecars keccak r actions i effects = .ok entries ↔
      ∃ described rest, actions.drop i = described ++ rest ∧
        Forall₂ (fun action entry => entryFromAction keccak action r = .ok entry) described entries ∧
        Forall₂ (CompletesCall keccak) effects entries := by
  induction effects generalizing i entries with
  | nil =>
    simp only [verifyOutboundSidecars, Except.ok.injEq]
    constructor
    · rintro rfl
      exact ⟨[], _, rfl, .nil, .nil⟩
    · rintro ⟨_, _, _, _, hnil⟩
      cases hnil
      rfl
  | cons effect effects ih =>
    simp only [verifyOutboundSidecars, bind_eq_ok, rebuildAction_eq_ok, ensure_eq_ok, exists_const, mapError_eq_ok,
      AuthorizedOutboundEffect.bindReturnData, ih, pure_eq_ok]
    constructor
    · rintro ⟨rebuilt, ⟨action, hhead, hrebuilt⟩, same, hash, _, ⟨described, rest, hdrop, hdescribed, hentries⟩, rfl⟩
      have derived := ExecutionEntrySol.abiEncode_injective same
      rw [← derived]
      refine ⟨action :: described, rest, ?_, .cons hrebuilt hdescribed, .cons ⟨derived, hash⟩ hentries⟩
      rw [cons_append, ← hdrop]
      obtain ⟨tail, htail⟩ := head?_eq_some_iff.mp hhead
      rw [htail, ← drop_drop, htail]
      rfl
    · rintro ⟨described, rest, hdrop, hdescribed, hentries⟩
      obtain ⟨entry, entries, completes, completed, rfl⟩ := forall₂_cons_left_iff.mp hentries
      obtain ⟨action, described, hrebuilt, others, rfl⟩ := forall₂_cons_right_iff.mp hdescribed
      refine ⟨entry, ⟨action, by rw [hdrop]; rfl, hrebuilt⟩, by rw [← completes.derived], completes.rollingHash,
        entries, ⟨described, rest, ?_, others, completed⟩, by rw [← completes.derived]⟩
      rw [← drop_drop, hdrop]
      rfl

theorem verifyInboundSidecars_eq_ok {actions i effects u} : verifyInboundSidecars keccak r actions i effects = .ok u ↔
      ∃ described rest, actions.drop i = described ++ rest ∧ Forall₂ (fun action effect =>
          entryFromAction keccak action r = .ok effect.observation.derivedDaEntry.abiEntry) described effects := by
  induction effects generalizing i with
  | nil =>
    simp only [verifyInboundSidecars, true_iff]
    exact ⟨[], _, rfl, .nil⟩
  | cons effect effects ih =>
    simp only [verifyInboundSidecars, bind_eq_ok, rebuildAction_eq_ok, ensure_eq_ok, exists_const, ih]
    constructor
    · rintro ⟨rebuilt, ⟨action, hhead, hrebuilt⟩, same, described, rest, hdrop, hdescribed⟩
      obtain rfl := ExecutionEntrySol.abiEncode_injective same
      refine ⟨action :: described, rest, ?_, .cons hrebuilt hdescribed⟩
      rw [cons_append, ← hdrop]
      obtain ⟨tail, htail⟩ := head?_eq_some_iff.mp hhead
      rw [htail, ← drop_drop, htail]
      rfl
    · rintro ⟨described, rest, hdrop, hdescribed⟩
      obtain ⟨action, described, hrebuilt, others, rfl⟩ := forall₂_cons_right_iff.mp hdescribed
      refine ⟨_, ⟨action, by rw [hdrop]; rfl, hrebuilt⟩, rfl, described, rest, ?_, others⟩
      rw [← drop_drop, hdrop]
      rfl

/-- One action per effect, outbound first. -/
structure Describes (actions : List Action) (outbound : List AuthorizedOutboundEffect)
    (inbound : List AuthorizedInboundEffect) (entries : List ExecutionEntrySol)
    (outActions inActions : List Action) : Prop where
  split : actions = outActions ++ inActions
  rebuilt : Forall₂ (fun action entry => entryFromAction keccak action r = .ok entry) outActions entries
  completes : Forall₂ (CompletesCall keccak) outbound entries
  delivered : Forall₂ (fun action effect =>
    entryFromAction keccak action r = .ok effect.observation.derivedDaEntry.abiEntry) inActions inbound

theorem verifyEffectSidecars_eq_ok {p outbound inbound entries} :
    verifyEffectSidecars keccak r p outbound inbound = .ok entries ↔
      ∃ outActions inActions, Describes keccak r p.actions outbound inbound entries outActions inActions := by
  simp only [verifyEffectSidecars, bind_eq_ok, ensure_eq_ok, exists_const, pure_eq_ok, verifyOutboundSidecars_eq_ok,
    verifyInboundSidecars_eq_ok, drop_zero]
  constructor
  · rintro ⟨_, ⟨outActions, rest, hsplit, hrebuilt, hcompletes⟩, ⟨inActions, rest', hdrop, hdelivered⟩, hlength, rfl⟩
    refine ⟨outActions, inActions, ?_, hrebuilt, hcompletes, hdelivered⟩
    have counts := hrebuilt.length_eq
    rw [hsplit, ← counts, drop_left] at hdrop
    subst hdrop
    have spent : rest' = [] := by
      rw [hsplit, length_append, length_append, hcompletes.length_eq, ← hdelivered.length_eq, counts] at hlength
      exact length_eq_zero_iff.mp (by omega)
    rw [hsplit, spent, append_nil]
  · rintro ⟨outActions, inActions, hsplit, hrebuilt, hcompletes, hdelivered⟩
    refine ⟨_, ⟨outActions, inActions, hsplit, hrebuilt, hcompletes⟩, ⟨inActions, [], ?_, hdelivered⟩, ?_, rfl⟩
    · rw [hsplit, ← hrebuilt.length_eq, drop_left, append_nil]
    · rw [hsplit, length_append, hcompletes.length_eq, ← hdelivered.length_eq, hrebuilt.length_eq]

end

theorem compareTransactions_eq_ok {a b : List Bytes} (h : b.length = a.length) :
    compareTransactions i a b = .ok u ↔ b = a := by
  induction a generalizing i b with
  | nil =>
    obtain rfl := length_eq_zero_iff.mp h
    simp [compareTransactions]
  | cons x a ih =>
    obtain ⟨y, b, rfl⟩ := exists_cons_of_length_eq_add_one h
    simp only [length_cons, Nat.add_right_cancel_iff] at h
    simp only [compareTransactions, bind_eq_ok, ensure_eq_ok, exists_const, ih h, List.cons.injEq]
    exact and_congr_left fun _ => eq_comm

/-- The settling block and the positions of its effects. -/
structure Layout (block : ValidatedBlock) (pairs : List (Bytes × Bytes)) (rest : List Bytes)
    (outbound : List AuthorizedOutboundEffect) (inbound : List AuthorizedInboundEffect) : Prop where
  transactions : block.decoded.encodedTransactions = framedList pairs rest
  loads : outbound.map AuthorizedOutboundEffect.loadTransactionIndex = (List.range pairs.length).map fun k => 0 + 2 * k
  users : Forall₂ (fun b (p : Bytes × Bytes) =>
    block.decoded.encodedTransactions[b.transactionIndex]? = some p.2) outbound pairs
  deliveries : inbound.map AuthorizedInboundEffect.transactionIndex = List.range' (0 + 2 * pairs.length) rest.length

theorem outboundReconstructionInputs_eq {validated : List Bytes} {outbound : List AuthorizedOutboundEffect}
    {entries : List ExecutionEntrySol} (lengths : outbound.length = entries.length)
    (users : Forall₂ (fun b (p : Bytes × Bytes) => validated[b.transactionIndex]? = some p.2) outbound pairs) :
    outboundReconstructionInputs validated outbound entries = .ok (entries.zip (pairs.map Prod.snd)) := by
  unfold outboundReconstructionInputs
  rw [mapM_eq_ok]
  induction users generalizing entries with
  | nil => simp
  | cons user _ ih =>
    obtain ⟨entry, entries, rfl⟩ := exists_cons_of_length_eq_add_one lengths.symm
    simp only [length_cons, Nat.add_right_cancel_iff] at lengths
    refine .cons ?_ (ih lengths)
    simp [require, user]

namespace Layout
variable {block : ValidatedBlock} {pairs : List (Bytes × Bytes)} {rest : List Bytes}
  {outbound : List AuthorizedOutboundEffect} {inbound : List AuthorizedInboundEffect}

variable (h : Layout block pairs rest outbound inbound)
include h

theorem outbound_length : outbound.length = pairs.length :=
  h.users.length_eq

theorem inbound_length : inbound.length = rest.length := by
  have lengths := congrArg List.length h.deliveries
  simpa using lengths

theorem transactions_length : block.decoded.transactions.length = 2 * pairs.length + rest.length := by
  have lengths := congrArg List.length h.transactions
  rwa [Block.encodedTransactions, length_map, framedList_length] at lengths

theorem firstSystemPosition_eq
    (some_effect : outbound.length + inbound.length ≠ 0) : firstSystemPosition outbound inbound = some 0 := by
  cases outbound with
  | cons first others =>
    have loads := h.loads
    rw [← h.outbound_length, length_cons, range_succ_eq_map, map_cons, map_cons] at loads
    simp only [firstSystemPosition, head?_cons, Option.map_some, (List.cons.inj loads).1]
    rfl
  | nil =>
    cases inbound with
    | nil => simp at some_effect
    | cons first others =>
      have deliveries := h.deliveries
      rw [← h.outbound_length, ← h.inbound_length, length_cons, range'_succ, map_cons] at deliveries
      simp only [firstSystemPosition, head?_nil, Option.map_none, head?_cons, Option.map_some,
        (List.cons.inj deliveries).1]
      rfl

end Layout

/-- What a published container says about a framed window. -/
structure Published (keccak : Bytes → B256) (context : SystemTxContext) (r : UInt64)
    (preceding : List ValidatedBlock) (settling : ValidatedBlock) (pairs : List (Bytes × Bytes))
    (outbound : List AuthorizedOutboundEffect) (inbound : List AuthorizedInboundEffect)
    (container : DecodedContainer) (entries : List ExecutionEntrySol) (outActions inActions : List Action) :
    Prop where
  rollupId : container.rollupId = r
  blockCount : container.span.blockCount = preceding.length + 1
  precedingBlocks : CarriesBlocks container.span 0 preceding
  settlingBlock : CarriesBlock container.span preceding.length settling.decoded.header pairs.length
  transactions : container.span.transactions = encodedAll preceding ++ pairs.map Prod.snd
  actions : Describes keccak r container.actions outbound inbound entries outActions inActions
  rebuilt : outbound.length + inbound.length ≠ 0 → ∃ first built, settling.decoded.transactions.head? = some first ∧
      buildCrossChainSyncPairs keccak context (entries.zip (pairs.map Prod.snd))
        (inbound.map fun b => b.observation.derivedDaEntry.abiEntry) first.nonce = .ok built ∧
      interleaveSyncBlockTxs built = settling.decoded.encodedTransactions

theorem eq_map_concat {α β : Type} {f : α → β} {l : List β} {bs : List α} {last} (length : l.length = bs.length + 1)
    (each : ∀ (k : Nat) b, bs[k]? = some b → l[k]? = some (f b)) (final : l[bs.length]? = some last) :
    l = bs.map f ++ [last] := by
  refine ext_getElem? fun i => ?_
  rcases Nat.lt_trichotomy i bs.length with inside | rfl | outside
  · rw [getElem?_append_left (by rwa [length_map]), getElem?_map, getElem?_eq_getElem inside]
    exact each i _ (getElem?_eq_getElem inside)
  · simp [final]
  · rw [getElem?_eq_none (by omega), getElem?_eq_none (by simp; omega)]

section
variable {keccak : Bytes → B256} {context : SystemTxContext} {r : UInt64} {preceding : List ValidatedBlock}
  {settling : ValidatedBlock} {pairs : List (Bytes × Bytes)} {rest : List Bytes}
  {outbound : List AuthorizedOutboundEffect} {inbound : List AuthorizedInboundEffect}

namespace Published
variable {container : DecodedContainer} {entries : List ExecutionEntrySol} {outActions inActions : List Action}
  (h : Published keccak context r preceding settling pairs outbound inbound container entries outActions inActions)

include h in
theorem counts : container.span.blockTxCounts.map UInt32.toNat =
    preceding.map (fun block => block.decoded.transactions.length) ++ [pairs.length] := by
  refine eq_map_concat (by rw [length_map]; exact h.blockCount) ?_ ?_
  · intro k block hblock
    have carried := (h.precedingBlocks k block hblock).count
    rwa [Nat.zero_add, ← getElem?_map] at carried
  · rw [getElem?_map]
    exact h.settlingBlock.count

include h in
theorem beneficiaries (consistent : container.span.Consistent) : container.span.beneficiaries =
    (preceding ++ [settling]).map fun block => block.decoded.header.beneficiary := by
  rw [map_append]
  refine eq_map_concat (consistent.beneficiaries.trans h.blockCount) ?_ h.settlingBlock.beneficiary
  intro k block hblock
  have carried := (h.precedingBlocks k block hblock).beneficiary
  rwa [Nat.zero_add] at carried

include h in
theorem extraData (consistent : container.span.Consistent) : container.span.extraData =
    (preceding ++ [settling]).map fun block => block.decoded.header.extraData := by
  rw [map_append]
  refine eq_map_concat (consistent.extraData.trans h.blockCount) ?_ h.settlingBlock.extraData
  intro k block hblock
  have carried := (h.precedingBlocks k block hblock).extraData
  rwa [Nat.zero_add] at carried

end Published

variable (layout : Layout settling pairs rest outbound inbound)
include layout

theorem verifySettlingBlockTransactions_eq_ok {n : Nat} :
    verifySettlingBlockTransactions p settling (n + 1) outbound inbound = .ok (p', retained) ↔
      p.span.blockCount = n + 1 ∧ CarriesBlock p.span n settling.decoded.header pairs.length ∧
      pairs.map Prod.snd <+: p.remaining ∧ p' = p.advance pairs.length ∧ retained = pairs.length := by
  have omitted : omittedPositions outbound inbound =
      (List.range pairs.length).map (fun k => 0 + 2 * k) ++ List.range' (0 + 2 * pairs.length) rest.length := by
    rw [omittedPositions, layout.loads, layout.deliveries]
  have count : settling.decoded.transactions.length - (outbound.length + inbound.length) = pairs.length := by
    rw [layout.transactions_length, layout.outbound_length, layout.inbound_length]
    omega
  have enough : outbound.length + inbound.length ≤ settling.decoded.transactions.length := by
    rw [layout.transactions_length, layout.outbound_length, layout.inbound_length]
    omega
  simp only [verifySettlingBlockTransactions, bind_eq_ok, ensure_eq_ok, exists_const, pure_eq_ok,
    Prod.mk.injEq, Nat.add_sub_cancel, enough, true_and, count, layout.transactions, omitted,
    expectRetained_framed]
  constructor
  · rintro ⟨submitted, hcount, _, hheader, rfl, _, ⟨users, rfl⟩, rfl, rfl⟩
    obtain ⟨blocks, carries⟩ := carriesBlock_iff.mp ⟨hcount, hheader⟩
    exact ⟨blocks, carries, users, rfl, rfl⟩
  · rintro ⟨blocks, carries, users, rfl, rfl⟩
    obtain ⟨hcount, hheader⟩ := carriesBlock_iff.mpr ⟨blocks, carries⟩
    exact ⟨_, hcount, (), hheader, rfl, _, ⟨users, rfl⟩, rfl, rfl⟩

theorem verifyReconstructedSyncBlock_eq_ok {entries : List ExecutionEntrySol}
    (lengths : outbound.length = entries.length) (some_effect : outbound.length + inbound.length ≠ 0) :
    verifyReconstructedSyncBlock keccak context settling outbound entries inbound = .ok u ↔
      ∃ first built, settling.decoded.transactions.head? = some first ∧
        buildCrossChainSyncPairs keccak context (entries.zip (pairs.map Prod.snd))
          (inbound.map fun b => b.observation.derivedDaEntry.abiEntry) first.nonce = .ok built ∧
        interleaveSyncBlockTxs built = settling.decoded.encodedTransactions := by
  simp only [verifyReconstructedSyncBlock, layout.firstSystemPosition_eq some_effect,
    outboundReconstructionInputs_eq lengths layout.users, require, bind_eq_ok, Except.ok.injEq, exists_eq_left',
    mapError_eq_ok, ensure_eq_ok, exists_const, head?_eq_getElem?]
  cases settling.decoded.transactions[0]? with
  | none => simp
  | some first =>
    simp only [Except.ok.injEq, exists_eq_left', Option.some.injEq, exists_and_left]
    refine exists_congr fun built => and_congr_right fun _ => ?_
    constructor
    · rintro ⟨same, h⟩
      exact (compareTransactions_eq_ok same).mp h
    · intro h
      have same := congrArg List.length h
      exact ⟨same, (compareTransactions_eq_ok same).mpr h⟩

theorem verifyEncodedDaPayload_eq_ok :
    verifyEncodedDaPayload keccak context payload preceding settling outbound inbound r = .ok u ↔
      ∃ container entries outActions inActions, decodeContainer payload = .ok container ∧
        Published keccak context r preceding settling pairs outbound inbound container entries outActions
          inActions := by
  have column : ∀ txs : List Bytes,
      ((encodedAll preceding <+: txs ∧ pairs.map Prod.snd <+: txs.drop (encodedAll preceding).length) ∧
        (encodedAll preceding).length + pairs.length = txs.length) ↔
      txs = encodedAll preceding ++ pairs.map Prod.snd := by
    intro txs
    constructor
    · rintro ⟨⟨⟨tail, rfl⟩, users⟩, total⟩
      rw [drop_left] at users
      rw [length_append, Nat.add_left_cancel_iff] at total
      rw [users.eq_of_length (by rw [length_map, total])]
    · rintro rfl
      refine ⟨⟨prefix_append _ _, [], ?_⟩, by rw [length_append, length_map]⟩
      rw [append_nil, drop_left]
  simp only [verifyEncodedDaPayload, bind_eq_ok, decode_eq_ok, Prod.exists,
    verifyPrecedingBlockTransactions_eq_ok, verifySettlingBlockTransactions_eq_ok layout, verifyEffectSidecars_eq_ok,
    transactionsExhausted, ensure_eq_ok, exists_const]
  constructor
  · rintro ⟨_, ⟨container, hdecode, hid, rfl⟩, _, _, ⟨_, carried, first, rfl, rfl⟩, _, _,
      ⟨blocks, settled, users, rfl, rfl⟩, exhausted, entries, ⟨outActions, inActions, actions⟩, rebuilt⟩
    rw [remaining_advance] at users
    refine ⟨container, entries, outActions, inActions, hdecode, hid, blocks, carried, settled, ?_, actions, ?_⟩
    · refine (column _).mp ⟨⟨first, users⟩, ?_⟩
      simpa using exhausted
    · intro some_effect
      rw [if_pos some_effect] at rebuilt
      exact (verifyReconstructedSyncBlock_eq_ok layout actions.completes.length_eq some_effect).mp rebuilt
  · rintro ⟨container, entries, outActions, inActions, hdecode, published⟩
    obtain ⟨⟨first, users⟩, total⟩ := (column _).mpr published.transactions
    refine ⟨_, ⟨container, hdecode, published.rollupId, rfl⟩, _, _,
      ⟨fun _ => published.blockCount, published.precedingBlocks, first, rfl, rfl⟩, _, _,
      ⟨published.blockCount, published.settlingBlock, ?_, rfl, rfl⟩, ?_, entries,
      ⟨outActions, inActions, published.actions⟩, ?_⟩
    · rwa [remaining_advance]
    · simpa using total
    · split
      · rename_i some_effect
        exact (verifyReconstructedSyncBlock_eq_ok layout published.actions.completes.length_eq some_effect).mpr
          (published.rebuilt some_effect)
      · rfl

end

end Eez.Signer
