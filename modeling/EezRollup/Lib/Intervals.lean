import Mathlib.Tactic.Common

/-! Ranges of naturals that follow on each other and cover an interval. -/
namespace Intervals

/-- The ranges follow on each other and cover `[start, stop)`. -/
def Tiles : Nat → List (Nat × Nat) → Nat → Prop
  | start, [], stop => start = stop
  | start, r :: ranges, stop => r.1 = start ∧ r.1 ≤ r.2 ∧ Tiles (r.2 + 1) ranges stop

variable {start middle stop : Nat} {r : Nat × Nat} {ranges left right : List (Nat × Nat)}

theorem tiles_append :
    Tiles start (left ++ right) stop ↔ ∃ middle, Tiles start left middle ∧ Tiles middle right stop := by
  induction left generalizing start with
  | nil => simp [Tiles]
  | cons r left ih => simp only [List.cons_append, Tiles, ih, exists_and_left, and_assoc]

theorem Tiles.le (h : Tiles start ranges stop) : start ≤ stop := by
  induction ranges generalizing start with
  | nil => exact Nat.le_of_eq h
  | cons r ranges ih =>
    obtain ⟨first, inside, rest⟩ := h
    have := ih rest
    omega

theorem Tiles.mem (h : Tiles start ranges stop) (mem : r ∈ ranges) : start ≤ r.1 ∧ r.1 ≤ r.2 ∧ r.2 < stop := by
  induction ranges generalizing start with
  | nil => cases mem
  | cons head ranges ih =>
    obtain ⟨first, inside, rest⟩ := h
    obtain rfl | mem := List.mem_cons.mp mem
    · exact ⟨Nat.le_of_eq first.symm, inside, rest.le⟩
    · have := ih rest mem
      omega

end Intervals
