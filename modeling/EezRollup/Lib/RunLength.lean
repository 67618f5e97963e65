import Mathlib.Data.List.Chain
import Mathlib.Data.List.Basic
import Mathlib.Tactic.Common

/-! A list cut into its longest stretches of one key. -/
open List
namespace RunLength

variable {α κ : Type*} [DecidableEq κ]

/-- Extend the last run, kept at the front, or open a new one. -/
def push (key : α → κ) (out : List (Nat × α)) (a : α) : List (Nat × α) :=
  match out with
  | (n, first) :: rest => if key first = key a then (n + 1, first) :: rest else (1, a) :: out
  | [] => [(1, a)]

/-- Maximal runs of `l` by `key`, as run length and first element. -/
def runs (key : α → κ) (l : List α) : List (Nat × α) := (l.foldl (push key) []).reverse

def expand (key : α → κ) (rs : List (Nat × α)) : List κ :=
  rs.flatMap fun r => replicate r.1 (key r.2)

def Maximal (key : α → κ) (rs : List (Nat × α)) : Prop :=
  rs.IsChain fun r s => key r.2 ≠ key s.2

def Positive (rs : List (Nat × α)) : Prop := ∀ r ∈ rs, 0 < r.1

theorem expand_push (key : α → κ) (out : List (Nat × α)) (a : α) :
    expand key (push key out a).reverse = expand key out.reverse ++ [key a] := by
  unfold push expand
  split
  · split
    · rename_i same
      simp [replicate_succ', same]
    · simp
  · simp

section
variable (key : α → κ) (l : List α)
include key l

theorem expand_foldl (out : List (Nat × α)) :
    expand key (l.foldl (push key) out).reverse = expand key out.reverse ++ l.map key := by
  induction l generalizing out with
  | nil => simp
  | cons a l ih => rw [foldl_cons, ih, expand_push, append_assoc]; rfl

theorem expand_runs : expand key (runs key l) = l.map key := by
  rw [runs, expand_foldl]
  rfl

theorem positive_foldl (out : List (Nat × α)) (h : Positive out) : Positive (l.foldl (push key) out) := by
  induction l generalizing out with
  | nil => exact h
  | cons a l ih =>
    apply ih
    unfold push
    split
    · split
      · intro r hr
        rcases mem_cons.mp hr with rfl | hr
        · exact Nat.succ_pos _
        · exact h r (mem_cons_of_mem _ hr)
      · intro r hr
        rcases mem_cons.mp hr with rfl | hr
        · exact Nat.one_pos
        · exact h r hr
    · intro r hr
      rw [mem_singleton.mp hr]
      exact Nat.one_pos

theorem positive_runs : Positive (runs key l) := by
  intro r hr
  exact positive_foldl key l [] (by intro _ h; cases h) r (mem_reverse.mp hr)

theorem maximal_foldl (out : List (Nat × α)) (h : out.IsChain fun r s => key r.2 ≠ key s.2) :
    (l.foldl (push key) out).IsChain fun r s => key r.2 ≠ key s.2 := by
  induction l generalizing out with
  | nil => exact h
  | cons a l ih =>
    apply ih
    unfold push
    split
    · split
      · exact (isChain_cons.mpr ⟨(isChain_cons.mp h).1, (isChain_cons.mp h).2⟩)
      · rename_i differ
        refine isChain_cons_cons.mpr ⟨?_, h⟩
        exact fun same => differ same.symm
    · exact isChain_singleton _

theorem maximal_runs : Maximal key (runs key l) := by
  unfold Maximal runs
  rw [isChain_reverse]
  exact (maximal_foldl key l [] .nil).imp fun _ _ differ same => differ same.symm

end

section Uniqueness
omit [DecidableEq κ]

def keyed (key : α → κ) (rs : List (Nat × α)) : List (Nat × κ) := rs.map fun r => (r.1, key r.2)

theorem expand_keyed (key : α → κ) (rs : List (Nat × α)) : expand id (keyed key rs) = expand key rs := by
  simp [expand, keyed, flatMap_map]

theorem positive_keyed {key : α → κ} (positive : Positive rs) : Positive (keyed key rs) := by
  intro r mem
  obtain ⟨s, mem, eq⟩ := mem_map.mp mem
  rw [← eq]
  exact positive s mem

theorem maximal_keyed {key : α → κ} (maximal : Maximal key rs) : Maximal id (keyed key rs) := by
  unfold Maximal keyed
  rw [isChain_map]
  exact maximal

theorem head_expand_ne {n : Nat} {k : κ} {rs : List (Nat × κ)} (positive : Positive ((n, k) :: rs))
    (maximal : Maximal id ((n, k) :: rs)) : (expand id rs).head? ≠ some k := by
  cases rs with
  | nil => exact nofun
  | cons r rs =>
    have differ : k ≠ r.2 := (isChain_cons_cons.mp maximal).1
    have some_key : 0 < r.1 := positive r (by simp)
    obtain ⟨m, eq⟩ := Nat.exists_eq_succ_of_ne_zero (Nat.ne_of_gt some_key)
    simp only [expand, flatMap_cons, eq, replicate_succ, cons_append, head?_cons, id]
    intro same
    exact differ (Option.some.inj same).symm

theorem replicate_append_inj {x y : List κ} (x_head : x.head? ≠ some k) (y_head : y.head? ≠ some k)
    (eq : replicate n k ++ x = replicate m k ++ y) : n = m ∧ x = y := by
  induction n generalizing m with
  | zero =>
    cases m with
    | zero => exact ⟨rfl, eq⟩
    | succ m =>
      rw [replicate_zero, nil_append, replicate_succ, cons_append] at eq
      exact absurd (by rw [eq]; rfl) x_head
  | succ n ih =>
    cases m with
    | zero =>
      rw [replicate_zero, nil_append, replicate_succ, cons_append] at eq
      exact absurd (by rw [← eq]; rfl) y_head
    | succ m =>
      simp only [replicate_succ, cons_append, List.cons.injEq, true_and] at eq
      obtain ⟨same, rest⟩ := ih eq
      exact ⟨congrArg Nat.succ same, rest⟩

/-- A column has one cut into non-empty runs of differing neighbours. -/
theorem eq_of_expand {rs ss : List (Nat × κ)} (positive : Positive rs) (positive' : Positive ss)
    (maximal : Maximal id rs) (maximal' : Maximal id ss) (eq : expand id rs = expand id ss) : rs = ss := by
  induction rs generalizing ss with
  | nil =>
    cases ss with
    | nil => rfl
    | cons s ss =>
      have some_key := positive' s mem_cons_self
      have length := congrArg List.length eq
      simp only [expand, flatMap_nil, flatMap_cons, length_nil, length_append, length_replicate] at length
      omega
  | cons r rs ih =>
    cases ss with
    | nil =>
      have some_key := positive r mem_cons_self
      have length := congrArg List.length eq
      simp only [expand, flatMap_nil, flatMap_cons, length_nil, length_append, length_replicate] at length
      omega
    | cons s ss =>
      have some_key := positive r mem_cons_self
      have some_key' := positive' s mem_cons_self
      change replicate r.1 r.2 ++ expand id rs = replicate s.1 s.2 ++ expand id ss at eq
      have same : r.2 = s.2 := by
        obtain ⟨n, hn⟩ := Nat.exists_eq_succ_of_ne_zero (Nat.ne_of_gt some_key)
        obtain ⟨m, hm⟩ := Nat.exists_eq_succ_of_ne_zero (Nat.ne_of_gt some_key')
        rw [hn, hm, replicate_succ, replicate_succ] at eq
        exact (List.cons.inj eq).1
      have r_head := head_expand_ne positive maximal
      have s_head := head_expand_ne positive' maximal'
      rw [← same] at eq s_head
      obtain ⟨length, rest⟩ := replicate_append_inj r_head s_head eq
      have tails : rs = ss := by
        apply ih _ _ _ _ rest
        · exact fun r mem => positive r (mem_cons_of_mem _ mem)
        · exact fun r mem => positive' r (mem_cons_of_mem _ mem)
        · exact (isChain_cons.mp maximal).2
        · exact (isChain_cons.mp maximal').2
      rw [tails, Prod.ext length same]

end Uniqueness

theorem keyed_runs {key : α → κ} {l : List α} {rs : List (Nat × κ)} (positive : Positive rs) (maximal : Maximal id rs)
    (eq : expand id rs = l.map key) : keyed key (runs key l) = rs := by
  apply eq_of_expand
  · exact positive_keyed (positive_runs key l)
  · exact positive
  · exact maximal_keyed (maximal_runs key l)
  · exact maximal
  · rw [expand_keyed, expand_runs, eq]

end RunLength
