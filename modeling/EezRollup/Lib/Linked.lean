import Mathlib.Data.List.Basic
import Mathlib.Data.List.Induction
import Mathlib.Tactic.Common

/-! Lists whose elements continue what stands before them. With a rank that grows by one along a
link, a cut by rank is a cut by index. -/

variable {α β : Type*}

def tipOf (ends : β → α) (anchor : α) (l : List β) : α := l.foldl (fun _ b => ends b) anchor

def Linked (follows : α → β → Prop) (ends : β → α) : α → List β → Prop
  | _, [] => True
  | a, b :: l => follows a b ∧ Linked follows ends (ends b) l

section
variable {follows : α → β → Prop} {ends : β → α} {a : α} {l m : List β}

@[simp] theorem tipOf_cons {b : β} : tipOf ends a (b :: l) = tipOf ends (ends b) l := rfl

theorem tipOf_append : tipOf ends a (l ++ m) = tipOf ends (tipOf ends a l) m := List.foldl_append

@[simp] theorem tipOf_concat {b : β} : tipOf ends a (l ++ [b]) = ends b := tipOf_append

theorem tipOf_eq_getLast? : tipOf ends a l = (l.getLast?.map ends).getD a := by
  induction l using List.reverseRecOn with
  | nil => rfl
  | append_singleton l b _ => simp

theorem linked_append :
    Linked follows ends a (l ++ m) ↔ Linked follows ends a l ∧ Linked follows ends (tipOf ends a l) m := by
  induction l generalizing a with
  | nil => exact (iff_of_eq (true_and _)).symm
  | cons b l ih => simp only [List.cons_append, Linked, ih, tipOf_cons, and_assoc]

theorem linked_concat {b : β} :
    Linked follows ends a (l ++ [b]) ↔ Linked follows ends a l ∧ follows (tipOf ends a l) b := by
  rw [linked_append]
  exact and_congr_right fun _ => iff_of_eq (and_true _)

theorem Linked.take (h : Linked follows ends a l) (n : Nat) : Linked follows ends a (l.take n) :=
  (linked_append.mp ((List.take_append_drop n l).symm ▸ h)).1

theorem Linked.drop (h : Linked follows ends a l) (n : Nat) :
    Linked follows ends (tipOf ends a (l.take n)) (l.drop n) :=
  (linked_append.mp ((List.take_append_drop n l).symm ▸ h)).2

end

section
variable {follows : α → β → Prop} {ends : β → α} {rank : α → Nat} {a : α} {l : List β} {n : Nat}
  (grow : ∀ a b, follows a b → rank (ends b) = rank a + 1)
include grow

variable (h : Linked follows ends a l)
include h

theorem Linked.rank_tipOf : rank (tipOf ends a l) = rank a + l.length := by
  induction l generalizing a with
  | nil => rfl
  | cons b l ih =>
    rw [tipOf_cons, ih h.2, grow _ _ h.1, List.length_cons]
    omega

theorem Linked.rank_getElem? {i : Nat} (at_i : l[i]? = some b) : rank (ends b) = rank a + 1 + i := by
  induction l generalizing a i with
  | nil => cases at_i
  | cons c l ih =>
    cases i with
    | zero =>
      obtain rfl : c = b := Option.some.inj at_i
      exact grow _ _ h.1
    | succ i =>
      rw [ih h.2 at_i, grow _ _ h.1]
      omega

theorem Linked.rank_mem (mem : b ∈ l) : rank a < rank (ends b) := by
  obtain ⟨i, at_i⟩ := List.getElem?_of_mem mem
  rw [h.rank_getElem? grow at_i]
  omega

theorem Linked.map_rank : l.map (fun b => rank (ends b)) = List.range' (rank a + 1) l.length := by
  induction l generalizing a with
  | nil => rfl
  | cons b l ih =>
    rw [List.map_cons, ih h.2, grow _ _ h.1]
    rfl

theorem Linked.filter_le {p : β → Bool}
    (cut : ∀ b ∈ l, p b = true ↔ rank (ends b) ≤ rank a + n) : l.filter p = l.take n := by
  induction l generalizing a n with
  | nil => simp
  | cons b l ih =>
    have first := grow _ _ h.1
    cases n with
    | zero =>
      refine List.filter_eq_nil_iff.mpr fun c mem holds => ?_
      have above := h.rank_mem grow mem
      have below := (cut c mem).mp holds
      omega
    | succ n =>
      rw [List.filter_cons_of_pos ((cut b List.mem_cons_self).mpr (by omega)), List.take_succ_cons]
      refine congrArg (b :: ·) (ih h.2 fun c mem => ?_)
      rw [cut c (List.mem_cons_of_mem _ mem), first, Nat.add_right_comm, Nat.add_assoc]

theorem Linked.filter_gt {p : β → Bool}
    (cut : ∀ b ∈ l, p b = true ↔ rank a + n < rank (ends b)) : l.filter p = l.drop n := by
  induction l generalizing a n with
  | nil => simp
  | cons b l ih =>
    have first := grow _ _ h.1
    cases n with
    | zero =>
      rw [List.drop_zero]
      exact List.filter_eq_self.mpr fun c mem => (cut c mem).mpr (h.rank_mem grow mem)
    | succ n =>
      have refused : ¬ p b = true := fun holds => by
        have := (cut b List.mem_cons_self).mp holds
        omega
      rw [List.filter_cons_of_neg refused, List.drop_succ_cons]
      refine ih h.2 fun c mem => ?_
      rw [cut c (List.mem_cons_of_mem _ mem), first, Nat.add_right_comm, Nat.add_assoc]

theorem Linked.dropWhile_le {p : β → Bool}
    (cut : ∀ b ∈ l, p b = true ↔ rank (ends b) ≤ rank a + n) : l.dropWhile p = l.drop n := by
  induction l generalizing a n with
  | nil => simp
  | cons b l ih =>
    have first := grow _ _ h.1
    cases n with
    | zero =>
      have refused : ¬ p b = true := fun holds => by
        have := (cut b List.mem_cons_self).mp holds
        omega
      rw [List.dropWhile_cons_of_neg refused, List.drop_zero]
    | succ n =>
      rw [List.dropWhile_cons_of_pos ((cut b List.mem_cons_self).mpr (by omega)), List.drop_succ_cons]
      refine ih h.2 fun c mem => ?_
      rw [cut c (List.mem_cons_of_mem _ mem), first, Nat.add_right_comm, Nat.add_assoc]

end
