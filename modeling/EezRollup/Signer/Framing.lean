import EezRollup.Signer.Window

/-! A block with `k` outbound effects, each a system load and its user transaction, followed by `m`
inbound deliveries. No gate checks the layout. -/
open List
namespace Eez.Signer

theorem mem_pairEndPositions : i ∈ pairEndPositions flags ↔
      flags[i]? = some false ∨ flags[i]? = some true ∧ flags[i + 1]? ≠ some false := by
  simp only [pairEndPositions, mem_filter, mem_range, Bool.or_eq_true, Bool.not_eq_true', getD_eq_getElem?_getD]
  by_cases inside : i < flags.length
  · rw [getElem?_eq_getElem inside]
    cases flags[i] <;> cases flags[i + 1]? <;> simp [inside]
  · simp [inside]

theorem pairEndPositions_sorted (flags : List Bool) : (pairEndPositions flags).Pairwise (· < ·) :=
  pairwise_lt_range.filter _

/-- `k` times system then user, then `m` times system. -/
def framedFlags (k m : Nat) : List Bool := (replicate k [true, false]).flatten ++ replicate m true

theorem framedFlags_succ (k m : Nat) : framedFlags (k + 1) m = true :: false :: framedFlags k m := by
  simp [framedFlags, replicate_succ]

@[simp] theorem framedFlags_length (k m : Nat) : (framedFlags k m).length = 2 * k + m := by
  induction k with
  | zero => simp [framedFlags]
  | succ k ih =>
    rw [framedFlags_succ, length_cons, length_cons, ih]
    omega

/-- Every user follows a system transaction. -/
def UsersPreceded (flags : List Bool) : Prop :=
  ∀ i, flags[i]? = some false → ∃ j, i = j + 1 ∧ flags[j]? = some true

/-- No user follows a standalone system transaction. -/
def UsersLead (flags : List Bool) : Prop :=
  ∀ i j, i < j → flags[i]? = some true → flags[i + 1]? ≠ some false → flags[j]? ≠ some false

theorem replicate_of_usersLead (leads : UsersLead (true :: true :: rest)) :
    true :: true :: rest = replicate (rest.length + 2) true := by
  refine eq_replicate_iff.mpr ⟨by simp, ?_⟩
  intro b hb
  obtain ⟨j, hj⟩ := mem_iff_getElem?.mp hb
  cases b with
  | true => rfl
  | false =>
    have positive : 0 < j := by
      rcases Nat.eq_zero_or_pos j with rfl | pos
      · simp at hj
      · exact pos
    exact absurd hj (leads 0 j positive rfl (by simp))

theorem framedFlags_of_framing : ∀ (flags : List Bool), UsersPreceded flags → UsersLead flags →
    ∃ k m, flags = framedFlags k m
  | [], _, _ => ⟨0, 0, rfl⟩
  | false :: rest, preceded, _ => by
    obtain ⟨j, hj, _⟩ := preceded 0 rfl
    cases hj
  | [true], _, _ => ⟨0, 1, rfl⟩
  | true :: true :: rest, _, leads => by
    refine ⟨0, rest.length + 2, ?_⟩
    rw [replicate_of_usersLead leads]
    rfl
  | true :: false :: rest, preceded, leads => by
    have preceded' : UsersPreceded rest := by
      intro i hi
      obtain ⟨j, hj, hsys⟩ := preceded (i + 2) (by simpa using hi)
      cases i with
      | zero =>
        obtain rfl : j = 1 := by omega
        simp at hsys
      | succ i =>
        obtain rfl : j = i + 2 := by omega
        exact ⟨i, rfl, by simpa using hsys⟩
    have leads' : UsersLead rest := by
      intro i j hij hsys hnext
      have step := leads (i + 2) (j + 2) (by omega) (by simpa using hsys) (by simpa using hnext)
      simpa using step
    obtain ⟨k, m, rfl⟩ := framedFlags_of_framing rest preceded' leads'
    exact ⟨k + 1, m, (framedFlags_succ k m).symm⟩

def userPositions (k : Nat) : List Nat := (List.range k).map fun i => 2 * i + 1

def deliveryPositions (k m : Nat) : List Nat := (List.range m).map fun j => 2 * k + j

theorem framedFlags_getElem? (k m i : Nat) :
    (framedFlags k m)[i]? = if i < 2 * k then some (i % 2 == 0) else if i < 2 * k + m then some true else none := by
  induction k generalizing i with
  | zero => simp [framedFlags, getElem?_replicate]
  | succ k ih =>
    rw [framedFlags_succ]
    match i with
    | 0 => simp
    | 1 => simp; omega
    | i + 2 =>
      rw [getElem?_cons_succ, getElem?_cons_succ, ih]
      simp only [Nat.add_mod_right, show i + 2 < 2 * (k + 1) ↔ i < 2 * k by omega,
        show i + 2 < 2 * (k + 1) + m ↔ i < 2 * k + m by omega]

theorem pairEndPositions_pair (rest : List Bool) :
    pairEndPositions (true :: false :: rest) = 1 :: (pairEndPositions rest).map (· + 2) := by
  simp only [pairEndPositions, length_cons, range_succ_eq_map, map_cons, map_map]
  rw [filter_cons_of_neg (by simp), filter_cons_of_pos (by simp), filter_map]
  rfl

theorem pairEndPositions_replicate (m : Nat) : pairEndPositions (replicate m true) = List.range m := by
  unfold pairEndPositions
  rw [length_replicate, filter_eq_self]
  intro i _
  have next : ((replicate m true)[i + 1]?).getD true = true := by
    rw [getElem?_replicate]
    split <;> rfl
  rw [next, Bool.or_true]

theorem userPositions_succ (k : Nat) : userPositions (k + 1) = 1 :: (userPositions k).map (· + 2) := by
  rw [userPositions, range_succ_eq_map, map_cons, map_map, userPositions, map_map]
  rfl

theorem deliveryPositions_succ (k m : Nat) : deliveryPositions (k + 1) m = (deliveryPositions k m).map (· + 2) := by
  rw [deliveryPositions, deliveryPositions, map_map]
  refine map_congr_left fun j _ => ?_
  simp only [Function.comp_apply]
  omega

theorem pairEndPositions_framedFlags (k m : Nat) :
    pairEndPositions (framedFlags k m) = userPositions k ++ deliveryPositions k m := by
  induction k with
  | zero =>
    rw [framedFlags, replicate_zero, flatten_nil, nil_append, pairEndPositions_replicate]
    simp [userPositions, deliveryPositions]
  | succ k ih =>
    rw [framedFlags_succ, pairEndPositions_pair, ih, userPositions_succ, deliveryPositions_succ,
      map_append, cons_append]

theorem userPositions_length (k : Nat) : (userPositions k).length = k := by simp [userPositions]

theorem deliveryPositions_length (k m : Nat) : (deliveryPositions k m).length = m := by simp [deliveryPositions]

section
variable {α β : Type}

/-- Pairs laid out one after the other, then the rest. -/
def framedList (pairs : List (α × α)) (rest : List α) : List α :=
  (pairs.flatMap fun p => [p.1, p.2]) ++ rest

theorem framedList_cons (p : α × α) (pairs : List (α × α)) (rest : List α) :
    framedList (p :: pairs) rest = p.1 :: p.2 :: framedList pairs rest := rfl

@[simp] theorem framedList_length (pairs : List (α × α)) (rest : List α) :
    (framedList pairs rest).length = 2 * pairs.length + rest.length := by
  induction pairs with
  | nil => simp [framedList]
  | cons p pairs ih =>
    rw [framedList_cons, length_cons, length_cons, ih, length_cons]
    omega

theorem exists_framedList : ∀ (k : Nat) (l : List α) (m : Nat), l.length = 2 * k + m →
    ∃ pairs rest, pairs.length = k ∧ rest.length = m ∧ l = framedList pairs rest
  | 0, l, m, h => ⟨[], l, rfl, by omega, rfl⟩
  | k + 1, l, m, h => by
    match l, h with
    | a :: b :: l, h =>
      obtain ⟨pairs, rest, rfl, rfl, rfl⟩ := exists_framedList k l m (by simp only [length_cons] at h; omega)
      exact ⟨(a, b) :: pairs, rest, rfl, rfl, rfl⟩
    | [a], h | [], h => simp at h; omega

theorem framedList_users (pairs : List (α × α)) (rest : List α) :
    Forall₂ (fun i (p : α × α) => (framedList pairs rest)[i]? = some p.2) (userPositions pairs.length)
      pairs := by
  induction pairs with
  | nil => exact .nil
  | cons p pairs ih =>
    rw [length_cons, userPositions_succ]
    refine .cons rfl ?_
    rw [forall₂_map_left_iff]
    exact ih

theorem framedList_inj {pairs pairs' : List (α × α)} (length : pairs.length = pairs'.length)
    (h : framedList pairs rest = framedList pairs' rest') : pairs = pairs' ∧ rest = rest' := by
  induction pairs generalizing pairs' with
  | nil =>
    obtain rfl := length_eq_zero_iff.mp length.symm
    exact ⟨rfl, h⟩
  | cons p pairs ih =>
    obtain ⟨p', pairs', rfl⟩ := exists_cons_of_length_eq_add_one length.symm
    simp only [length_cons, Nat.add_right_cancel_iff] at length
    simp only [framedList_cons, List.cons.injEq] at h
    obtain ⟨first, second, h⟩ := h
    obtain ⟨rfl, rfl⟩ := ih length h
    exact ⟨by rw [Prod.ext first second], rfl⟩

theorem framedList_map (f : α → β) (pairs : List (α × α)) (rest : List α) :
    (framedList pairs rest).map f = framedList (pairs.map (Prod.map f f)) (rest.map f) := by
  induction pairs with
  | nil => rfl
  | cons p pairs ih => simp only [framedList_cons, map_cons, ih, Prod.map_fst, Prod.map_snd]

end

end Eez.Signer
