import Mathlib.Data.List.Forall2
import Mathlib.Tactic.Common

/-! Inversion rules for `Except`: what must have happened when a checked computation succeeds. -/
open List
namespace Outcome

universe u

variable {ε : Type*} {α β : Type u}

def ensure (p : Prop) [Decidable p] (e : ε) : Except ε Unit := if p then .ok () else .error e

def require (o : Option α) (e : ε) : Except ε α :=
  match o with
  | some a => .ok a
  | none => .error e

variable {e : ε} {p : Prop} {a : α} {x : Except ε α} {R : α → β → Prop} {r : List β}

@[simp] theorem ensure_eq_ok [Decidable p] : ensure p e = .ok u ↔ p := by
  unfold ensure
  split <;> simp_all

theorem ensure_pos [Decidable p] (h : p) : ensure p e = .ok () := if_pos h

theorem ensure_neg [Decidable p] (h : ¬p) : ensure p e = .error e := if_neg h

@[simp] theorem require_eq_ok {o : Option α} : require o e = .ok a ↔ o = some a := by
  cases o <;> simp [require]

@[simp] theorem bind_eq_ok {f : α → Except ε β} {b : β} : (x >>= f) = .ok b ↔ ∃ a, x = .ok a ∧ f a = .ok b := by
  cases x <;> simp [bind, Except.bind]

@[simp] theorem ok_bind (a : α) (f : α → Except ε β) : (Except.ok a >>= f) = f a := rfl

@[simp] theorem pure_eq_ok : (pure a : Except ε α) = .ok b ↔ a = b := by
  simp [pure, Except.pure]

@[simp] theorem throw_ne_ok : ((throw e : Except ε α) = .ok a) ↔ False := by
  simp [throw, throwThe, MonadExceptOf.throw]

theorem exists_error_iff : (∃ e, x = .error e) ↔ ¬∃ a, x = .ok a := by
  cases x <;> simp

@[simp] theorem mapError_eq_ok {δ : Type*} {f : ε → δ} : x.mapError f = .ok a ↔ x = .ok a := by
  cases x <;> simp [Except.mapError]

section
variable {P Q : ε → Prop}

def FailsIn (P : ε → Prop) (x : Except ε α) : Prop := ∀ e, x = .error e → P e

@[simp] theorem failsIn_ok {a : α} : FailsIn P (.ok a : Except ε α) := by
  intro e failed
  cases failed

@[simp] theorem failsIn_pure {a : α} : FailsIn P (pure a : Except ε α) := failsIn_ok

@[simp] theorem failsIn_error {e : ε} : FailsIn P (.error e : Except ε α) ↔ P e := by
  simp [FailsIn]

@[simp] theorem failsIn_throw {e : ε} : FailsIn P (throw e : Except ε α) ↔ P e := failsIn_error

@[simp] theorem failsIn_ensure {p : Prop} [Decidable p] : FailsIn P (ensure p e) ↔ (¬p → P e) := by
  unfold ensure
  split <;> simp_all

@[simp] theorem failsIn_require {o : Option α} {e : ε} : FailsIn P (require o e) ↔ (o = none → P e) := by
  cases o <;> simp [require]

@[simp] theorem failsIn_bind {x : Except ε α} {f : α → Except ε β} :
    FailsIn P (x >>= f) ↔ FailsIn P x ∧ ∀ a, x = .ok a → FailsIn P (f a) := by
  cases x with
  | error e => simp [bind, Except.bind]
  | ok a => simp

@[simp] theorem failsIn_mapError {δ : Type*} {f} {R : δ → Prop} {x : Except ε α} :
    FailsIn R (x.mapError f) ↔ FailsIn (fun e => R (f e)) x := by
  cases x <;> simp [Except.mapError]

@[simp] theorem failsIn_map {f : α → β} {x : Except ε α} : FailsIn P (f <$> x) ↔ FailsIn P x := by
  cases x <;> simp [Functor.map, Except.map]

@[simp] theorem failsIn_true {x : Except ε α} : FailsIn (fun _ => True) x := fun _ _ => trivial

theorem failsIn_mapM {f : α → Except ε β} {l : List α} (each : ∀ a ∈ l, FailsIn P (f a)) : FailsIn P (l.mapM f) := by
  induction l with
  | nil => exact failsIn_pure
  | cons a l ih =>
    obtain ⟨first, rest⟩ := forall_mem_cons.mp each
    rw [mapM_cons]
    exact failsIn_bind.mpr ⟨first, fun b _ => failsIn_bind.mpr ⟨ih rest, fun bs _ => failsIn_pure⟩⟩

theorem failsIn_of_ok {x : Except ε α} (h : ∃ a, x = .ok a) : FailsIn P x := by
  obtain ⟨a, rfl⟩ := h
  exact failsIn_ok

end

theorem forall₂_exists_right (h : Forall₂ R l r) : ∀ a ∈ l, ∃ b ∈ r, R a b := by
  induction h with
  | nil => intro a ha; cases ha
  | cons hab _ ih =>
    intro a ha
    rcases mem_cons.mp ha with rfl | ha
    · exact ⟨_, mem_cons_self, hab⟩
    · obtain ⟨b, hb, hab⟩ := ih a ha
      exact ⟨b, mem_cons_of_mem _ hb, hab⟩

theorem forall₂_getElem? (h : Forall₂ R l r) {i : Nat} (held : l[i]? = some a) : ∃ b, r[i]? = some b ∧ R a b := by
  induction h generalizing i with
  | nil => cases held
  | cons hab _ ih =>
    cases i with
    | zero =>
      obtain rfl := Option.some.inj held
      exact ⟨_, rfl, hab⟩
    | succ i => exact ih held

theorem forall₂_set (h : Forall₂ R l r) (hab : R a b) (i : Nat) : Forall₂ R (l.set i a) (r.set i b) := by
  induction h generalizing i with
  | nil => exact .nil
  | cons first rest ih =>
    cases i with
    | zero => exact .cons hab rest
    | succ i => exact .cons first (ih i)

theorem forall₂_append_left {l : List α} (h : Forall₂ R (l ++ m) r) :
    ∃ x y, Forall₂ R l x ∧ Forall₂ R m y ∧ r = x ++ y := by
  induction l generalizing r with
  | nil => exact ⟨[], r, .nil, h, rfl⟩
  | cons a l ih =>
    obtain ⟨b, bs, hab, rest, rfl⟩ := forall₂_cons_left_iff.mp h
    obtain ⟨x, y, hx, hy, rfl⟩ := ih rest
    exact ⟨b :: x, y, .cons hab hx, hy, rfl⟩

theorem forall₂_join {γ : Type*} {R : γ → α → Prop} {S : γ → β → Prop} {l m n} (h : Forall₂ R l m) (k : Forall₂ S l n) :
    Forall₂ (fun a b => ∃ c ∈ l, R c a ∧ S c b) m n := by
  induction h generalizing n with
  | nil => cases k; exact .nil
  | @cons c a l m hca _ ih =>
    obtain ⟨b, n, hcb, rest, rfl⟩ := forall₂_cons_left_iff.mp k
    refine .cons ⟨c, mem_cons_self, hca, hcb⟩ ((ih rest).imp ?_)
    rintro x y ⟨z, hz, related⟩
    exact ⟨z, mem_cons_of_mem c hz, related⟩

theorem map_eq_map_of_forall₂ {γ : Type*} {f : α → γ} {g : β → γ} (h : Forall₂ (fun a b => f a = g b) l m) :
    l.map f = m.map g := by
  rw [← forall₂_eq_eq_eq, forall₂_map_left_iff, forall₂_map_right_iff]
  exact h

/-- A traversal succeeds exactly when every element does, in order. -/
theorem mapM_eq_ok {f : α → Except ε β} {l : List α} : l.mapM f = .ok r ↔ Forall₂ (fun a b => f a = .ok b) l r := by
  induction l generalizing r with
  | nil => cases r <;> simp
  | cons a l ih =>
    simp only [mapM_cons, bind_eq_ok, pure_eq_ok, forall₂_cons_left_iff]
    constructor
    · rintro ⟨b, hb, bs, hbs, rfl⟩
      exact ⟨b, bs, hb, ih.mp hbs, rfl⟩
    · rintro ⟨b, bs, hb, hbs, rfl⟩
      exact ⟨b, hb, bs, ih.mpr hbs, rfl⟩

theorem forM_eq_ok {f : α → Except ε PUnit} {l : List α} {u : PUnit} : l.forM f = .ok u ↔ ∀ a ∈ l, f a = .ok ⟨⟩ := by
  induction l with
  | nil => simp
  | cons a l ih =>
    rw [show (a :: l).forM f = (f a >>= fun _ => l.forM f) from rfl, bind_eq_ok, forall_mem_cons, ← ih]
    exact Iff.intro (fun both => both.elim fun _ h => h) fun h => ⟨⟨⟩, h⟩

section
variable {σ : Type u} (step : σ → α → Except ε (List β × σ))

def threadM (s : σ) : List α → Except ε (List β × σ)
  | [] => .ok ([], s)
  | a :: l => do
    let (x, s) ← step s a
    let (y, s) ← threadM s l
    return (x ++ y, s)

theorem threadM_append_eq_ok {s s' : σ} {l m : List α} {r : List β} : threadM step s (l ++ m) = .ok (r, s') ↔
      ∃ x t y, threadM step s l = .ok (x, t) ∧ threadM step t m = .ok (y, s') ∧ r = x ++ y := by
  induction l generalizing s r with
  | nil =>
    simp only [nil_append, threadM, Except.ok.injEq, Prod.mk.injEq]
    constructor
    · intro h
      exact ⟨[], s, r, ⟨rfl, rfl⟩, h, rfl⟩
    · rintro ⟨_, _, y, ⟨rfl, rfl⟩, h, rfl⟩
      exact h
  | cons a l ih =>
    simp only [cons_append, threadM, bind_eq_ok, Prod.exists, pure_eq_ok, Prod.mk.injEq]
    constructor
    · rintro ⟨x, t, hx, y, t', hrest, rfl, rfl⟩
      obtain ⟨z, u, w, hz, hw, rfl⟩ := ih.mp hrest
      exact ⟨x ++ z, u, w, ⟨x, t, hx, z, u, hz, rfl, rfl⟩, hw, (append_assoc _ _ _).symm⟩
    · rintro ⟨_, _, w, ⟨x, t, hx, z, u, hz, rfl, rfl⟩, hw, rfl⟩
      exact ⟨x, t, hx, z ++ w, s', ih.mpr ⟨z, u, w, hz, hw, rfl⟩, (append_assoc _ _ _).symm, rfl⟩

theorem threadM_filter (keep : α → Bool) (skip : ∀ s a, keep a = false → step s a = .ok ([], s)) (s : σ)
    (l : List α) : threadM step s l = threadM step s (l.filter keep) := by
  induction l generalizing s with
  | nil => rfl
  | cons a l ih =>
    cases kept : keep a with
    | false =>
      rw [filter_cons_of_neg (by rw [kept]; exact Bool.false_ne_true), threadM, skip s a kept, ok_bind, ← ih]
      change (threadM step s l >>= fun result => pure ([] ++ result.1, result.2)) = threadM step s l
      cases threadM step s l <;> rfl
    | true =>
      rw [filter_cons_of_pos kept]
      simp only [threadM, ih]

theorem threadM_count (count : σ → Nat) (each : ∀ {s a x t}, step s a = .ok (x, t) → count t = count s + x.length)
    {s t : σ} {l : List α} {x : List β} (h : threadM step s l = .ok (x, t)) : count t = count s + x.length := by
  induction l generalizing s x with
  | nil => cases h; rfl
  | cons a l ih =>
    simp only [threadM, bind_eq_ok, Prod.exists, pure_eq_ok, Prod.mk.injEq] at h
    obtain ⟨y, u, hy, z, v, hz, rfl, rfl⟩ := h
    rw [ih hz, each hy, length_append, Nat.add_assoc]

end

theorem foldlM_invariant {σ α : Type*} {step : σ → α → Except ε σ} {P : σ → Prop}
    (keep : ∀ {s a t}, P s → step s a = .ok t → P t) {l : List α} {s t : σ} (start : P s)
    (h : l.foldlM step s = .ok t) : P t := by
  induction l generalizing s with
  | nil => cases h; exact start
  | cons a l ih =>
    rw [foldlM_cons] at h
    obtain ⟨u, hu, h⟩ := bind_eq_ok.mp h
    exact ih (keep start hu) h

end Outcome
