import EezRollup.Lib.Bytes
import EezRollup.Lib.Outcome
import Mathlib.Algebra.Order.Floor.Div

/-! What a trigger produces. An unguarded step of the source that leaves its width is an error here.
-/
namespace Eez.Driver
open Outcome

inductive TimingError where
  | timingConfig (text : String)
  | outOfRange
  deriving DecidableEq

def difference (a b : Nat) : Except TimingError Nat := if b ≤ a then .ok (a - b) else .error .outOfRange

def narrow (width n : Nat) : Except TimingError Nat := if n < 2 ^ width then .ok n else .error .outOfRange

def quotient (a b : Nat) : Except TimingError Nat := if b = 0 then .error .outOfRange else .ok (a / b)

def divCeil (a b : Nat) : Except TimingError Nat := if b = 0 then .error .outOfRange else .ok (a ⌈/⌉ b)

/-- A saturating result; saturating subtraction is that of `Nat`. -/
def saturate (width n : Nat) : Nat := min n (2 ^ width - 1)

structure RollupTiming where
  l1BlockTimeMs : UInt32
  l2BlockTimeMs : UInt32
  proofTimeMs : UInt32
  submissionSlackMs : UInt32

inductive SlotComposition where
  | idle
  | catchup (live : Nat)
  | slot (live future : Nat)
  deriving DecidableEq

namespace RollupTiming
variable (t : RollupTiming)

def k : Except TimingError Nat := quotient t.l1BlockTimeMs.toNat t.l2BlockTimeMs.toNat

def budgetMs : Nat := saturate 32 (t.proofTimeMs.toNat + t.submissionSlackMs.toNat)

def futureCount : Except TimingError Nat := do
  let blocks ← quotient (saturate 32 (t.budgetMs + t.l2BlockTimeMs.toNat) - 1) t.l2BlockTimeMs.toNat
  return blocks - 1

def liveCount : Except TimingError Nat := do
  let rest ← difference (← t.k) (← t.futureCount)
  difference rest 1

def proofWindowOpen : Except TimingError Nat := do
  let blocks ← narrow 32 ((← t.futureCount) + 1)
  return t.l1BlockTimeMs.toNat - saturate 32 (blocks * t.l2BlockTimeMs.toNat)

def validate : Except TimingError Unit := do
  let l1 := t.l1BlockTimeMs.toNat
  let l2 := t.l2BlockTimeMs.toNat
  let proof := t.proofTimeMs.toNat
  let slack := t.submissionSlackMs.toNat
  ensure (¬(l1 = 0 ∨ l2 = 0 ∨ proof = 0))
    (.timingConfig "all timing fields (l1_block_time, l2_block_time, proof_time) must be > 0")
  ensure (l2 % 1000 = 0) (.timingConfig (s!"L2 block time ({l2} ms) must be a whole number of seconds; " ++
    "unix block timestamps are integer-second and the sync-slot block-height arithmetic relies on it"))
  ensure (l1 % l2 = 0) (.timingConfig (s!"L1 block time ({l1} ms) must be an integer multiple of " ++
    s!"L2 block time ({l2} ms); K must be integer"))
  let k ← t.k
  ensure (2 ≤ k) (.timingConfig
    s!"K must be >= 2 (got {k}); Sync slot must be distinct from surrounding Live blocks")
  ensure (t.budgetMs < l1) (.timingConfig
    s!"proof_time ({proof} ms) + submission_slack ({slack} ms) must be < L1 block time ({l1} ms)")
  let blocks ← difference k 1
  let maxBudget ← narrow 32 (blocks * l2)
  ensure (t.budgetMs ≤ maxBudget) (.timingConfig (s!"proof_time ({proof} ms) + submission_slack ({slack} ms) " ++
    s!"must be <= (K-1) * L2 block time ({blocks} * {l2} = {maxBudget} ms); " ++
    "else there is no room for Future blocks before Sync"))

def perTriggerComposition (headBlock syncSlotBlock maxCatchupBlocks : UInt64) :
    Except TimingError SlotComposition := do
  let head := headBlock.toNat
  let sync := syncSlotBlock.toNat
  if sync ≤ head then return .idle
  let future ← t.futureCount
  let k ← t.k
  let tail ← narrow 64 (future + 1)
  let liveRegionEnd := sync - tail
  if head < liveRegionEnd then
    let live ← difference liveRegionEnd head
    if live ≤ k - tail then return .slot live future
    let gap ← difference sync head
    let snap := saturate 64 ((← divCeil (gap - maxCatchupBlocks.toNat) k) * k)
    if sync ≤ snap then return .idle
    let terminal ← difference sync snap
    if terminal ≤ head then return .idle
    return .catchup (← difference (← difference terminal head) 1)
  else
    let inFuture ← difference head liveRegionEnd
    return .slot 0 (future - inFuture)

/-- The heights a trigger may end at. -/
def OnGrid (k : Nat) (head sync budget : UInt64) (height : Nat) : Prop :=
  head.toNat < height ∧ height ≤ min sync.toNat (head.toNat + budget.toNat) ∧ height % k = sync.toNat % k

end RollupTiming

@[simp] theorem difference_eq_ok : difference a b = .ok c ↔ b ≤ a ∧ a - b = c := by
  unfold difference
  split <;> simp [*]

@[simp] theorem narrow_eq_ok : narrow w n = .ok m ↔ n < 2 ^ w ∧ n = m := by
  unfold narrow
  split <;> simp [*]

@[simp] theorem quotient_eq_ok : quotient a b = .ok c ↔ b ≠ 0 ∧ a / b = c := by
  unfold quotient
  split <;> simp [*]

theorem difference_pos (h : b ≤ a) : difference a b = .ok (a - b) := if_pos h

theorem narrow_pos (h : n < 2 ^ w) : narrow w n = .ok n := if_pos h

theorem divCeil_pos (h : b ≠ 0) : divCeil a b = .ok (a ⌈/⌉ b) := if_neg h

namespace RollupTiming
variable {t : RollupTiming} {k future : Nat} {head sync budget : UInt64}

/-- What an accepted timing has: nothing in its counts saturates, and a slot has room for
its budget and a Live block. -/
structure Fits (t : RollupTiming) (k future : Nat) : Prop where
  k_eq : t.k = .ok k
  future_eq : t.futureCount = .ok future
  room : future + 2 ≤ k
  l1 : t.l1BlockTimeMs.toNat = k * t.l2BlockTimeMs.toNat
  small : k < 2 ^ 32
  covers : t.proofTimeMs.toNat + t.submissionSlackMs.toNat ≤ (future + 1) * t.l2BlockTimeMs.toNat

theorem fits_of_validate (accepted : t.validate = .ok ()) : ∃ k future, Fits t k future := by
  have bound := t.l1BlockTimeMs.toNat_lt
  simp only [validate, RollupTiming.k, bind_eq_ok, ensure_eq_ok, quotient_eq_ok, difference_eq_ok,
    narrow_eq_ok, not_or, exists_const] at accepted
  obtain ⟨⟨-, l2, proof⟩, -, whole, _, ⟨-, rfl⟩, two, below, _, ⟨-, rfl⟩, _, ⟨-, rfl⟩, le⟩ := accepted
  generalize eq : t.l1BlockTimeMs.toNat / t.l2BlockTimeMs.toNat = k at two le
  have l1 : t.l1BlockTimeMs.toNat = k * t.l2BlockTimeMs.toNat :=
    eq ▸ (Nat.div_mul_cancel (Nat.dvd_of_mod_eq_zero whole)).symm
  have pos : 0 < t.l2BlockTimeMs.toNat := Nat.pos_of_ne_zero l2
  have exact : t.budgetMs = t.proofTimeMs.toNat + t.submissionSlackMs.toNat := by
    unfold budgetMs saturate at *
    omega
  have whole_slot : (k - 1) * t.l2BlockTimeMs.toNat + t.l2BlockTimeMs.toNat = t.l1BlockTimeMs.toNat := by
    rw [l1, ← Nat.succ_mul, Nat.succ_eq_add_one, Nat.sub_add_cancel (Nat.le_of_succ_le two)]
  have blocks : ∀ n, t.budgetMs ⌈/⌉ t.l2BlockTimeMs.toNat ≤ n ↔ t.budgetMs ≤ t.l2BlockTimeMs.toNat * n :=
    fun _ => ceilDiv_le_iff_le_mul pos
  have below_k := (blocks (k - 1)).mpr (Nat.mul_comm _ _ ▸ le)
  have enough := (blocks _).mp le_rfl
  have some_block := mt (blocks 0).mp (by omega)
  refine ⟨k, t.budgetMs ⌈/⌉ t.l2BlockTimeMs.toNat - 1, by simp [RollupTiming.k, l2, eq], ?_, by omega, l1, ?_, ?_⟩
  · have : saturate 32 (t.budgetMs + t.l2BlockTimeMs.toNat) = t.budgetMs + t.l2BlockTimeMs.toNat := by
      unfold saturate
      omega
    exact bind_eq_ok.mpr ⟨_, quotient_eq_ok.mpr ⟨l2, rfl⟩, by rw [this]; rfl⟩
  · exact Nat.lt_of_le_of_lt (eq ▸ Nat.div_le_self _ _) bound
  · rw [← exact, Nat.sub_add_cancel (by omega), Nat.mul_comm]
    exact enough

theorem Fits.pos (h : Fits t k future) : 0 < k := by have := h.room; omega

theorem Fits.liveCount (h : Fits t k future) : t.liveCount = .ok (k - future - 1) := by
  have := h.room
  simp only [RollupTiming.liveCount, h.k_eq, h.future_eq, ok_bind, bind_eq_ok, difference_eq_ok]
  exact ⟨_, ⟨by omega, rfl⟩, by omega, rfl⟩

theorem Fits.proofWindowOpen (h : Fits t k future) : ∃ opened, t.proofWindowOpen = .ok opened ∧
    opened + t.proofTimeMs.toNat + t.submissionSlackMs.toNat ≤ t.l1BlockTimeMs.toNat := by
  have bound := t.l1BlockTimeMs.toNat_lt
  have reserved : (future + 1) * t.l2BlockTimeMs.toNat ≤ t.l1BlockTimeMs.toNat :=
    h.l1 ▸ Nat.mul_le_mul_right _ (by have := h.room; omega)
  have := h.room
  have := h.small
  have := h.covers
  refine ⟨t.l1BlockTimeMs.toNat - (future + 1) * t.l2BlockTimeMs.toNat, ?_, by omega⟩
  simp only [RollupTiming.proofWindowOpen, h.future_eq, ok_bind, bind_eq_ok, narrow_eq_ok, pure_eq_ok]
  refine ⟨_, ⟨by omega, rfl⟩, ?_⟩
  unfold saturate
  omega

/-- What `perTriggerComposition` returns: no step of it leaves its width. -/
theorem Fits.perTriggerComposition (h : Fits t k future) (head sync budget : UInt64) :
    let tail := sync.toNat - (future + 1)
    let terminal := sync.toNat - (sync.toNat - head.toNat - budget.toNat) ⌈/⌉ k * k
    t.perTriggerComposition head sync budget = .ok (if sync.toNat ≤ head.toNat then .idle
      else if sync.toNat ≤ head.toNat + k then .slot (tail - head.toNat) (future - (head.toNat - tail))
      else if terminal ≤ head.toNat then .idle
      else .catchup (terminal - head.toNat - 1)) := by
  have := h.room
  have := h.small
  have := sync.toNat_lt
  simp (disch := omega) only [RollupTiming.perTriggerComposition, h.future_eq, h.k_eq, narrow_pos, ok_bind]
  split
  · rfl
  split
  next below =>
    simp (disch := omega) only [difference_pos, divCeil_pos, ok_bind]
    generalize (sync.toNat - head.toNat - budget.toNat) ⌈/⌉ k * k = snap
    by_cases near : sync.toNat ≤ head.toNat + k
    · simp (disch := omega) only [if_pos near, if_pos, Nat.sub_eq_zero_of_le (Nat.le_of_lt below)]
      rfl
    simp (disch := omega) only [if_neg near, if_neg]
    by_cases past : sync.toNat ≤ snap
    · rw [if_pos (by unfold saturate; omega), if_pos (by omega)]
      rfl
    rw [show saturate 64 snap = snap by unfold saturate; omega, if_neg past]
    split
    · simp (disch := omega) only [difference_pos, ok_bind, if_pos]
      rfl
    · simp (disch := omega) only [difference_pos, ok_bind, if_neg]
      rfl
  next inside =>
    simp (disch := omega) only [difference_pos, ok_bind, if_pos, Nat.sub_eq_zero_of_le (Nat.not_lt.mp inside)]
    rfl

/-- Stepping back by whole slots ends at the highest height that is left. -/
theorem onGrid_terminal (head sync budget : UInt64) (pos : 0 < k) :
    let terminal := sync.toNat - (sync.toNat - head.toNat - budget.toNat) ⌈/⌉ k * k
    (head.toNat < terminal → OnGrid k head sync budget terminal) ∧
      ∀ height, OnGrid k head sync budget height → height ≤ terminal := by
  have steps : ∀ n, (sync.toNat - head.toNat - budget.toNat) ⌈/⌉ k ≤ n ↔
      sync.toNat - head.toNat - budget.toNat ≤ k * n := fun _ => ceilDiv_le_iff_le_mul pos
  generalize (sync.toNat - head.toNat - budget.toNat) ⌈/⌉ k = n at steps
  have enough := Nat.mul_comm n k ▸ (steps n).mp le_rfl
  refine ⟨?_, ?_⟩
  · intro reached
    refine ⟨reached, Nat.le_min.mpr ⟨by omega, by omega⟩, ?_⟩
    rw [Nat.mul_comm] at reached ⊢
    exact Nat.sub_mul_mod (by omega)
  · rintro height ⟨low, high, same⟩
    have le := Nat.le_min.mp high
    obtain ⟨j, apart⟩ := Nat.dvd_of_mod_eq_zero (Nat.sub_mod_eq_zero_of_mod_eq same.symm)
    have := Nat.mul_le_mul_left k ((steps j).mpr (by omega))
    rw [Nat.mul_comm n k]
    omega

/-- Every trigger ends on the grid, except that a sync height inside the first Future
region is run past, and only that. -/
theorem perTriggerComposition_onGrid (t : RollupTiming) (head sync budget : UInt64) (accepted : t.validate = .ok ()) :
    ∃ k future live opened result, t.k = .ok k ∧ t.futureCount = .ok future ∧ t.liveCount = .ok live ∧ 1 ≤ live ∧
      t.proofWindowOpen = .ok opened ∧
      opened + t.proofTimeMs.toNat + t.submissionSlackMs.toNat ≤ t.l1BlockTimeMs.toNat ∧
      t.perTriggerComposition head sync budget = .ok result ∧
      (result = .idle ↔ sync.toNat ≤ head.toNat ∨
        k < sync.toNat - head.toNat ∧ ∀ height, ¬OnGrid k head sync budget height) ∧
      ((∃ l f, result = .slot l f) ↔ 0 < sync.toNat - head.toNat ∧ sync.toNat - head.toNat ≤ k) ∧
      (∀ l f, result = .slot l f → l ≤ live ∧ f ≤ future) ∧
      ((∀ l f, result = .slot l f → head.toNat + l + f + 1 = sync.toNat) ↔
        sync.toNat ≤ head.toNat ∨ future < sync.toNat) ∧
      ∀ l, result = .catchup l → OnGrid k head sync budget (head.toNat + l + 1) ∧
        ∀ height, OnGrid k head sync budget height → height ≤ head.toNat + l + 1 := by
  obtain ⟨k, future, h⟩ := fits_of_validate accepted
  obtain ⟨opened, window, slack⟩ := h.proofWindowOpen
  have room := h.room
  obtain ⟨attained, greatest⟩ := onGrid_terminal head sync budget h.pos
  refine ⟨k, future, _, opened, _, h.k_eq, h.future_eq, h.liveCount, by omega, window, slack,
    h.perTriggerComposition head sync budget, ?_⟩
  generalize sync.toNat - (sync.toNat - head.toNat - budget.toNat) ⌈/⌉ k * k = terminal at *
  split_ifs with reached near low
  · simp [reached]
  · simp only [SlotComposition.slot.injEq, false_iff, false_imp_iff, implies_true, and_true]
    refine ⟨by omega, ⟨fun _ => by omega, fun _ => ⟨_, _, rfl, rfl⟩⟩, ?_, ?_⟩
    · rintro l f ⟨rfl, rfl⟩
      omega
    · refine ⟨fun ends => .inr ?_, ?_⟩
      · have := ends _ _ ⟨rfl, rfl⟩
        omega
      · rintro above l f ⟨rfl, rfl⟩
        omega
  · simp only [true_iff, exists_const, false_iff, false_imp_iff, implies_true, and_true]
    refine ⟨.inr ⟨by omega, fun height on => ?_⟩, by omega, trivial, by omega⟩
    exact Nat.not_lt.mpr (Nat.le_trans (greatest height on) low) on.1
  · have on := attained (Nat.not_le.mp low)
    simp only [SlotComposition.catchup.injEq, exists_const, false_iff, false_imp_iff, implies_true, true_and, true_iff]
    refine ⟨?_, by omega, by omega, ?_⟩
    · rintro (above | ⟨-, nothing⟩)
      · exact reached above
      · exact nothing _ on
    · rintro l rfl
      rw [show head.toNat + (terminal - head.toNat - 1) + 1 = terminal by omega]
      exact ⟨on, greatest⟩

def mainnet : RollupTiming := ⟨12000, 2000, 4000, 1500⟩

/-- The region before the Future blocks ends at 0 for a sync height of 1: three blocks are produced. -/
theorem perTriggerComposition_overshoots : mainnet.validate = .ok () ∧ mainnet.futureCount = .ok 2 ∧
    mainnet.perTriggerComposition 0 1 300 = .ok (.slot 0 2) ∧ 0 + 0 + 2 + 1 ≠ 1 := by
  decide

theorem perTriggerComposition_mainnet : mainnet.validate = .ok () ∧
    ∃ l f, mainnet.perTriggerComposition 0 6 300 = .ok (.slot l f) ∧ 0 + l + f + 1 = 6 := by
  have accepted : mainnet.validate = .ok () := by decide
  obtain ⟨k, future, _, _, result, k_eq, future_eq, -, -, -, -, run, -, slots, -, ends, -⟩ :=
    perTriggerComposition_onGrid mainnet 0 6 300 accepted
  cases k_eq
  cases future_eq
  obtain ⟨l, f, rfl⟩ := slots.mpr (by decide)
  exact ⟨accepted, l, f, run, ends.mpr (.inr (by decide)) l f rfl⟩

end RollupTiming
end Eez.Driver
