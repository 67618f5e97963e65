import Mathlib.Data.Multiset.AddSub
import Mathlib.Tactic.Common

/-! A map from keys to counts that are put in and taken out one at a time, as the multiset it stands
for. -/
abbrev Tally (α : Type*) := α → Option Nat

namespace Tally
open Multiset

variable {α : Type*} [DecidableEq α]

def add (t : Tally α) (a : α) : Tally α := Function.update t a (some ((t a).getD 0 + 1))

/-- One `a` less, when there is one. -/
def take? (t : Tally α) (a : α) : Option (Tally α) :=
  match t a with
  | some (n + 1) => some (Function.update t a (some n))
  | _ => none

def Counts (t : Tally α) (m : Multiset α) : Prop := ∀ a, (t a).getD 0 = m.count a

variable {t : Tally α} {m : Multiset α} {a : α}

theorem Counts.add (h : Counts t m) (a : α) : Counts (Tally.add t a) (a ::ₘ m) := by
  intro b
  unfold Tally.add
  by_cases same : b = a
  · subst same
    rw [Function.update_self, count_cons_self, ← h b]
    rfl
  · rw [Function.update_of_ne same, count_cons_of_ne same, h b]

theorem take?_eq_some : take? t a = some t' ↔ ∃ n, t a = some (n + 1) ∧ t' = Function.update t a (some n) := by
  unfold take?
  split
  · rename_i n held
    simp [held, eq_comm]
  · rename_i none_held
    constructor
    · intro absent
      cases absent
    · rintro ⟨n, held, -⟩
      exact absurd held (none_held n)

/-- A key can be taken out exactly when the multiset has it, and is then erased there. -/
theorem Counts.take? (h : Counts t m) :
    (a ∉ m ∧ Tally.take? t a = none) ∨ ∃ t', a ∈ m ∧ Tally.take? t a = some t' ∧ Counts t' (m.erase a) := by
  have count := h a
  cases taken : Tally.take? t a with
  | none =>
    refine .inl ⟨?_, rfl⟩
    rw [← count_eq_zero, ← count]
    match held : t a with
    | none | some 0 => rfl
    | some (n + 1) => exact absurd (take?_eq_some.mpr ⟨n, held, rfl⟩) (by simp [taken])
  | some t' =>
    obtain ⟨n, held, rfl⟩ := take?_eq_some.mp taken
    refine .inr ⟨_, ?_, rfl, fun b => ?_⟩
    · rw [← count_pos, ← count, held]
      exact n.succ_pos
    · by_cases same : b = a
      · subst same
        rw [Function.update_self, count_erase_self, ← count, held]
        rfl
      · rw [Function.update_of_ne same, count_erase_of_ne same, h b]

theorem cons_le_iff_erase {a : α} {s : Multiset α} : a ::ₘ s ≤ m ↔ a ∈ m ∧ s ≤ m.erase a := by
  constructor
  · intro h
    refine ⟨mem_of_le h (mem_cons_self a s), ?_⟩
    rw [← erase_cons_head a s]
    exact erase_le_erase a h
  · rintro ⟨mem, h⟩
    rw [← cons_erase mem]
    exact cons_le_cons a h

end Tally
