import Mathlib.Logic.Relation
import EezRollup.Lib.Linked

/-! A name stands for at most one node, and a node points up to the name of its parent. -/
open List
namespace Ancestry

variable {α ν : Type*} (node : α → Option ν) (up : ν → α)

def Parent (p c : α) : Prop := ∃ x, node c = some x ∧ up x = p

/-- The second name is the first one, or descends from it. -/
def Descends (a b : α) : Prop := Relation.ReflTransGen (Parent node up) a b

variable {node up} {a b c : α} {x y : ν}

theorem Descends.refl : Descends node up a a := Relation.ReflTransGen.refl

theorem Descends.trans (first : Descends node up a b) (second : Descends node up b c) : Descends node up a c :=
  Relation.ReflTransGen.trans first second

theorem Descends.child (h : Descends node up a (up x)) (at_b : node b = some x) : Descends node up a b :=
  Relation.ReflTransGen.tail h ⟨x, at_b, rfl⟩

theorem Descends.of_child (h : Descends node up a b) (at_b : node b = some x) (other : b ≠ a) :
    Descends node up a (up x) := by
  rcases Relation.ReflTransGen.cases_tail h with same | ⟨p, above, y, at_y, rfl⟩
  · exact absurd same other
  · obtain rfl : y = x := Option.some.inj (at_y.symm.trans at_b)
    exact above

theorem Descends.known (h : Descends node up a b) (at_a : node a = some x) : ∃ y, node b = some y := by
  rcases Relation.ReflTransGen.cases_tail h with rfl | ⟨p, _, y, at_y, _⟩
  · exact ⟨x, at_a⟩
  · exact ⟨y, at_y⟩

variable (node up) (rank : ν → Nat)

/-- Ranks grow by one along every pointer at or above a name. -/
def Ranked (b : α) : Prop :=
  ∀ c x y, Descends node up c b → node c = some x → node (up x) = some y → rank x = rank y + 1

variable {node up rank}

theorem Ranked.ancestor (h : Ranked node up rank b) (above : Descends node up a b) : Ranked node up rank a :=
  fun c x y below => h c x y (below.trans above)

theorem Ranked.parent (h : Ranked node up rank b) (at_b : node b = some x) : Ranked node up rank (up x) :=
  h.ancestor (Descends.refl.child at_b)

theorem Ranked.lt_or_eq (h : Ranked node up rank b) (d : Descends node up a b) (at_a : node a = some x)
    (at_b : node b = some y) : rank x < rank y ∨ a = b := by
  induction d generalizing y with
  | refl => exact .inr rfl
  | @tail c b above pointer ih =>
    obtain ⟨y', at_b', rfl⟩ := pointer
    obtain rfl : y' = y := Option.some.inj (at_b'.symm.trans at_b)
    obtain ⟨z, at_c⟩ := Descends.known above at_a
    have next : rank y' = rank z + 1 := h b y' z Descends.refl at_b at_c
    rcases ih (h.parent at_b) at_c with below | rfl
    · exact .inl (by omega)
    · obtain rfl : x = z := Option.some.inj (at_a.symm.trans at_c)
      exact .inl (by omega)

variable {name : ν → α} {l : List ν}

def Stacked (node : α → Option ν) (up name : ν → α) (a : α) (l : List ν) : Prop :=
  Linked (fun p x => up x = p ∧ node (name x) = some x) name a l

variable (h : Stacked node up name a l)
include h

theorem Stacked.tip_descends : Descends node up a (tipOf name a l) := by
  induction l generalizing a with
  | nil => exact .refl
  | cons x l ih =>
    obtain ⟨⟨points, at_x⟩, rest⟩ := h
    have first : Descends node up a (name x) := by
      rw [← points]
      exact Descends.refl.child at_x
    exact first.trans (ih rest)

theorem Stacked.mem_descends (mem : x ∈ l) :
    Descends node up a (name x) ∧ Descends node up (name x) (tipOf name a l) := by
  obtain ⟨before, after, rfl⟩ := append_of_mem mem
  rw [append_cons] at h ⊢
  have lower := (linked_append.mp h).1
  have upper := (linked_append.mp h).2
  rw [tipOf_append, tipOf_concat] at *
  refine ⟨?_, Stacked.tip_descends upper⟩
  simpa only [tipOf_concat] using Stacked.tip_descends lower

theorem Stacked.descends_tip (d : Descends node up b (tipOf name a l)) :
    (∃ x ∈ l, name x = b) ∨ Descends node up b a := by
  induction l using List.reverseRecOn with
  | nil => exact .inr d
  | append_singleton l x ih =>
    obtain ⟨below, points, at_x⟩ := linked_concat.mp h
    rw [tipOf_concat] at d
    by_cases same : name x = b
    · exact .inl ⟨x, mem_append_right l mem_cons_self, same⟩
    · have lower : Descends node up b (tipOf name a l) := points ▸ d.of_child at_x same
      rcases ih below lower with ⟨y, mem, named⟩ | deeper
      · exact .inl ⟨y, mem_append_left _ mem, named⟩
      · exact .inr deeper

end Ancestry
