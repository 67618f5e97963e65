import Mathlib.Tactic.Common

/-! A program over a state that may stop with an error keeps what it has done until then. `Leaves x
s Q E`: `Q` with its result, or `E` when it fails. -/
namespace Faulty

variable {ε σ α β : Type}

abbrev Prog (ε σ α : Type) := ExceptT ε (StateM σ) α

def exec (x : Prog ε σ α) (s : σ) : Except ε α × σ := x.run.run s

def Leaves (x : Prog ε σ α) (s : σ) (Q : α → σ → Prop) (E : σ → Prop) : Prop :=
  match exec x s with
  | (.ok a, s) => Q a s
  | (.error _, s) => E s

variable {s : σ} {Q Q' : α → σ → Prop} {E E' : σ → Prop}

variable {a : α} {x : Prog ε σ α}

@[simp] theorem exec_pure : exec (pure a : Prog ε σ α) s = (.ok a, s) := rfl

@[simp] theorem exec_get : exec (get : Prog ε σ σ) s = (.ok s, s) := rfl

@[simp] theorem exec_modify {f : σ → σ} : exec (modify f : Prog ε σ PUnit) s = (.ok ⟨⟩, f s) := rfl

theorem exec_bind {f : α → Prog ε σ β} : exec (x >>= f) s = match exec x s with
      | (.ok a, s) => exec (f a) s
      | (.error e, s) => (.error e, s) := by
  unfold exec
  rw [ExceptT.run_bind, StateT.run_bind]
  cases x.run.run s with
  | mk r t => cases r <;> rfl

@[simp] theorem leaves_pure : Leaves (pure a : Prog ε σ α) s Q E ↔ Q a s := Iff.rfl

@[simp] theorem leaves_throw {e : ε} : Leaves (throw e : Prog ε σ α) s Q E ↔ E s := Iff.rfl

@[simp] theorem leaves_get {Q} : Leaves (get : Prog ε σ σ) s Q E ↔ Q s s := Iff.rfl

@[simp] theorem leaves_modify {f : σ → σ} {Q} : Leaves (modify f : Prog ε σ PUnit) s Q E ↔ Q ⟨⟩ (f s) := Iff.rfl

@[simp] theorem leaves_bind {Q : β → σ → Prop} :
    Leaves (x >>= f) s Q E ↔ Leaves x s (fun a s => Leaves (f a) s Q E) E := by
  unfold Leaves
  rw [exec_bind]
  cases exec x s with
  | mk r t => cases r <;> rfl

theorem Leaves.mono (h : Leaves x s Q E) (ok : ∀ a s, Q a s → Q' a s) (failed : ∀ s, E s → E' s) :
    Leaves x s Q' E' := by
  unfold Leaves at h ⊢
  cases ran : exec x s with
  | mk r t =>
    rw [ran] at h
    cases r with
    | ok a => exact ok a t h
    | error e => exact failed t h

theorem Leaves.ok (h : Leaves x s Q E) (ran : exec x s = (.ok a, t)) : Q a t := by
  unfold Leaves at h
  rw [ran] at h
  exact h

theorem Leaves.and (h : Leaves x s Q E) (h' : Leaves x s Q' E') :
    Leaves x s (fun a s => Q a s ∧ Q' a s) (fun s => E s ∧ E' s) := by
  unfold Leaves at h h' ⊢
  cases ran : exec x s with
  | mk r t =>
    rw [ran] at h h'
    cases r <;> exact ⟨h, h'⟩

theorem Leaves.final {I : σ → Prop} (h : Leaves x s (fun _ => I) I) : I (exec x s).2 := by
  unfold Leaves at h
  cases ran : exec x s with
  | mk r t =>
    rw [ran] at h
    cases r <;> exact h

/-- The run returns. -/
abbrev Succeeds (x : Prog ε σ α) (s : σ) (Q : α → σ → Prop) : Prop := Leaves x s Q fun _ => False

theorem Leaves.exists_exec (h : Succeeds x s Q) : ∃ a t, exec x s = (.ok a, t) ∧ Q a t := by
  unfold Succeeds Leaves at h
  cases ran : exec x s with
  | mk r t =>
    rw [ran] at h
    cases r with
    | ok a => exact ⟨a, t, rfl, h⟩
    | error _ => exact h.elim

def lift (x : Except ε α) : Prog ε σ α :=
  match x with
  | .ok a => pure a
  | .error e => throw e

@[simp] theorem exec_lift {x : Except ε α} : exec (lift x : Prog ε σ α) s = (x, s) := by
  cases x <;> rfl

theorem leaves_lift {x : Except ε α} :
    Leaves (lift x : Prog ε σ α) s Q E ↔ (∀ a, x = .ok a → Q a s) ∧ (∀ e, x = .error e → E s) := by
  cases x <;> simp [lift]

section
variable {ρ τ : Type} (Good : σ → Prop) (Expected : ε → Prop)

def Follows (shown : α → σ → ρ) (x : Prog ε σ α) (s : σ) (r : Except ε ρ) : Prop :=
  match exec x s with
  | (.ok a, t) => r = .ok (shown a t) ∧ Good t
  | (.error e, t) => r = .error e ∧ Good t ∧ Expected e

variable {Good Expected} {shown : α → σ → ρ} {x : Prog ε σ α} {r : Except ε ρ}

theorem Follows.pure (good : Good s) : Follows Good Expected shown (Pure.pure a) s (.ok (shown a s)) :=
  ⟨rfl, good⟩

theorem Follows.bind {f : α → Prog ε σ β} {g : ρ → Except ε τ} (first : Follows Good Expected shown x s r)
    (rest : ∀ a t, Good t → r = .ok (shown a t) → Follows Good Expected shown' (f a) t (g (shown a t))) :
    Follows Good Expected shown' (x >>= f) s (r >>= g) := by
  unfold Follows at first ⊢
  rw [exec_bind]
  cases ran : exec x s with
  | mk result t =>
    rw [ran] at first
    cases result with
    | ok a =>
      obtain ⟨eq, good⟩ := first
      subst eq
      exact rest a t good rfl
    | error e =>
      obtain ⟨eq, good, expected⟩ := first
      subst eq
      exact ⟨rfl, good, expected⟩

theorem Follows.silent {f : α → Prog ε σ β} {shown' : β → σ → τ} {a t r} (step : exec x s = (.ok a, t))
    (rest : Follows Good Expected shown' (f a) t r) :
    Follows Good Expected shown' (x >>= f) s r := by
  unfold Follows at rest ⊢
  rw [exec_bind, step]
  exact rest

theorem Follows.exec_eq {r} (h : Follows Good Expected (fun a _ => a) x s r) :
    ∃ t, exec x s = (r, t) ∧ Good t ∧ ∀ e, r = .error e → Expected e := by
  unfold Follows at h
  cases ran : exec x s with
  | mk result t =>
    rw [ran] at h
    cases result with
    | ok a =>
      obtain ⟨eq, good⟩ := h
      subst eq
      refine ⟨t, rfl, good, ?_⟩
      intro e impossible
      cases impossible
    | error e =>
      obtain ⟨eq, good, expected⟩ := h
      subst eq
      refine ⟨t, rfl, good, ?_⟩
      intro e' same
      cases same
      exact expected

end

end Faulty
