import Mathlib.Tactic.Common

/-! A run is a list of inputs. What holds of its steps and what holds in its states are two
recursions over that list. -/
namespace Runs

variable {σ ω : Type*} (step : σ → ω → σ)

/-- `P` holds of every step of the run. -/
def Along (P : σ → ω → Prop) : σ → List ω → Prop
  | _, [] => True
  | s, a :: l => P s a ∧ Along P (step s a) l

/-- `Q` holds in every state of the run. -/
def Throughout (Q : σ → Prop) : σ → List ω → Prop
  | s, [] => Q s
  | s, a :: l => Q s ∧ Throughout Q (step s a) l

instance decidableAlong (P : σ → ω → Prop) [∀ s a, Decidable (P s a)] :
    ∀ (s : σ) (l : List ω), Decidable (Along step P s l)
  | _, [] => isTrue trivial
  | s, a :: l =>
    have := decidableAlong P (step s a) l
    inferInstanceAs (Decidable (P s a ∧ Along step P (step s a) l))

variable {step} {Inv Q : σ → Prop} {A P : σ → ω → Prop} {s : σ} {l : List ω}

theorem Throughout.head (h : Throughout step Q s l) : Q s := by
  cases l with
  | nil => exact h
  | cons a l => exact h.1

theorem Throughout.last (h : Throughout step Q s l) : Q (l.foldl step s) := by
  induction l generalizing s with
  | nil => exact h
  | cons a l ih => exact ih h.2

theorem Throughout.imp {Q' : σ → Prop} (weaken : ∀ {s}, Q s → Q' s) (h : Throughout step Q s l) :
    Throughout step Q' s l := by
  induction l generalizing s with
  | nil => exact weaken h
  | cons a l ih => exact ⟨weaken h.1, ih h.2⟩

theorem Along.and (h : Along step A s l) (k : Along step P s l) : Along step (fun s a => A s a ∧ P s a) s l := by
  induction l generalizing s with
  | nil => trivial
  | cons a l ih => exact ⟨⟨h.1, k.1⟩, ih h.2 k.2⟩

/-- What holds at the start and is kept by every allowed step holds throughout. -/
theorem throughout_of_invariant (keep : ∀ {s a}, Inv s → A s a → Inv (step s a)) (inv : Inv s)
    (allowed : Along step A s l) : Throughout step Inv s l := by
  induction l generalizing s with
  | nil => exact inv
  | cons a l ih => exact ⟨inv, ih (keep inv allowed.1) allowed.2⟩

theorem along_of_invariant (keep : ∀ {s a}, Inv s → A s a → Inv (step s a)) (each : ∀ {s a}, Inv s → A s a → P s a)
    (inv : Inv s) (allowed : Along step A s l) : Along step P s l := by
  induction l generalizing s with
  | nil => trivial
  | cons a l ih => exact ⟨each inv allowed.1, ih (keep inv allowed.1) allowed.2⟩

theorem along_append : Along step P s (l ++ m) ↔ Along step P s l ∧ Along step P (l.foldl step s) m := by
  induction l generalizing s with
  | nil => exact (iff_of_eq (true_and _)).symm
  | cons a l ih => simp only [List.cons_append, Along, ih, List.foldl_cons, and_assoc]

theorem along_of_each (all : ∀ a ∈ l, ∀ s, P s a) : Along step P s l := by
  induction l generalizing s with
  | nil => trivial
  | cons a l ih => exact ⟨all a List.mem_cons_self s, ih fun b mem => all b (List.mem_cons_of_mem _ mem)⟩

theorem along_of_forall {R : ω → Prop} (all : ∀ a ∈ l, R a) : Along step (fun _ a => R a) s l :=
  along_of_each fun a mem _ => all a mem

/-- When, under an invariant, a step keeps `Q` exactly if it meets `P`, the runs
that stay in `Q` are the runs that meet `P`. -/
theorem throughout_iff_along (keep : ∀ {s a}, Inv s → Q s → A s a → Inv (step s a))
    (exact_step : ∀ {s a}, Inv s → Q s → A s a → (Q (step s a) ↔ P s a))
    (inv : Inv s) (start : Q s) (allowed : Along step A s l) :
    Throughout step Q s l ↔ Along step P s l := by
  induction l generalizing s with
  | nil => exact ⟨fun _ => trivial, fun _ => start⟩
  | cons a l ih =>
    have after := keep inv start allowed.1
    constructor
    · intro h
      have next : Q (step s a) := h.2.head
      exact ⟨(exact_step inv start allowed.1).mp next, (ih after next allowed.2).mp h.2⟩
    · intro h
      have next : Q (step s a) := (exact_step inv start allowed.1).mpr h.1
      exact ⟨start, (ih after next allowed.2).mpr h.2⟩

end Runs
