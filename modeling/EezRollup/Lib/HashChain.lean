import Mathlib.Data.List.Basic
import Mathlib.Data.List.Induction
import Mathlib.Tactic.Common

/-! A list folded into one digest: every step hashes the digest so far together with the next
element. -/
open List
namespace HashChain

variable {α β κ : Type*}

def CollisionFree (hash : β → κ) (preimages : List β) : Prop :=
  ∀ x ∈ preimages, ∀ y ∈ preimages, hash x = hash y → x = y

theorem CollisionFree.mono {hash : β → κ} (free : CollisionFree hash ys) (sub : ∀ x ∈ xs, x ∈ ys) :
    CollisionFree hash xs :=
  fun x mem y mem' => free x (sub x mem) y (sub y mem')

section
variable (hash : β → κ) (pre : κ → α → β)

def fold (start : κ) (l : List α) : κ := l.foldl (fun digest a => hash (pre digest a)) start

def preimages (start : κ) : List α → List β
  | [] => []
  | a :: l => pre start a :: preimages (hash (pre start a)) l

end

section
variable {hash : β → κ} {pre : κ → α → β} {start : κ}

theorem fold_concat (l : List α) (a : α) : fold hash pre start (l ++ [a]) = hash (pre (fold hash pre start l) a) :=
  foldl_concat _ _ _ _

theorem preimages_concat (l : List α) (a : α) :
    preimages hash pre start (l ++ [a]) = preimages hash pre start l ++ [pre (fold hash pre start l) a] := by
  induction l generalizing start with
  | nil => rfl
  | cons b l ih =>
    simp only [cons_append, preimages, ih]
    rfl

theorem fold_inj (inj : ∀ {d e a b}, pre d a = pre e b → d = e ∧ a = b) {l : List α}
    (free : CollisionFree hash (preimages hash pre start l ++ preimages hash pre start m))
    (fresh : ∀ x ∈ preimages hash pre start l ++ preimages hash pre start m, hash x ≠ start)
    (eq : fold hash pre start l = fold hash pre start m) : l = m := by
  -- The last steps agree, so the chains before them do.
  induction l using List.reverseRecOn generalizing m with
  | nil =>
    cases m using List.reverseRecOn with
    | nil => rfl
    | append_singleton m b =>
      rw [fold_concat] at eq
      exact absurd eq.symm (fresh _ (by simp [preimages_concat]))
  | append_singleton l a ih =>
    cases m using List.reverseRecOn with
    | nil =>
      rw [fold_concat] at eq
      exact absurd eq (fresh _ (by simp [preimages_concat]))
    | append_singleton m b =>
      rw [fold_concat, fold_concat] at eq
      rw [preimages_concat, preimages_concat] at free fresh
      obtain ⟨before, last⟩ := inj (free _ (by simp) _ (by simp) eq)
      have sub : ∀ x ∈ preimages hash pre start l ++ preimages hash pre start m,
          x ∈ preimages hash pre start l ++ [pre (fold hash pre start l) a] ++
            (preimages hash pre start m ++ [pre (fold hash pre start m) b]) := by
        intro x mem
        cases mem_append.mp mem with
        | inl mem => exact mem_append_left _ (mem_append_left _ mem)
        | inr mem => exact mem_append_right _ (mem_append_left _ mem)
      rw [ih (free.mono sub) (fun x mem => fresh x (sub x mem)) before, last]

theorem map_inj {l : List β} (free : CollisionFree hash (l ++ m)) (eq : l.map hash = m.map hash) : l = m := by
  induction l generalizing m with
  | nil => exact (map_eq_nil_iff.mp eq.symm).symm
  | cons x l ih =>
    cases m with
    | nil => cases eq
    | cons y m =>
      obtain ⟨first, rest⟩ := List.cons.inj eq
      have same : x = y := free x (by simp) y (by simp) first
      have sub : ∀ z ∈ l ++ m, z ∈ x :: l ++ y :: m := by
        intro z mem
        cases mem_append.mp mem with
        | inl mem => exact mem_append_left _ (mem_cons_of_mem _ mem)
        | inr mem => exact mem_append_right _ (mem_cons_of_mem _ mem)
      rw [same, ih (free.mono sub) rest]

end

end HashChain
