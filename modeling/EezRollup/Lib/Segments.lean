import EezRollup.Lib.Bytes

/-! A list cut into non-empty pieces, and the positions at which they end. -/
open List
namespace Segments

variable {α : Type*}

/-- The position of the last element of each piece, the first starting at `start`. -/
def endsFrom (start : Nat) : List (List α) → List Nat
  | [] => []
  | piece :: pieces => (start + piece.length - 1) :: endsFrom (start + piece.length) pieces

def ends (pieces : List (List α)) : List Nat := endsFrom 0 pieces

def startOf (positions : List Nat) : Nat → Nat
  | 0 => 0
  | k + 1 => positions.getD k 0 + 1

/-- What lies between two consecutive ends, the second included. -/
def segment (l : List α) (positions : List Nat) (k : Nat) : List α :=
  (l.drop (startOf positions k)).take (positions.getD k 0 + 1 - startOf positions k)

def Filled (pieces : List (List α)) : Prop := ∀ piece ∈ pieces, piece ≠ []

@[simp] theorem endsFrom_length (start : Nat) (pieces : List (List α)) :
    (endsFrom start pieces).length = pieces.length := by
  induction pieces generalizing start with
  | nil => rfl
  | cons piece pieces ih => rw [endsFrom, length_cons, ih, length_cons]

@[simp] theorem ends_length (pieces : List (List α)) : (ends pieces).length = pieces.length := endsFrom_length 0 pieces

theorem endsFrom_getElem? (start : Nat) (pieces : List (List α)) {k : Nat} (inside : k < pieces.length) :
    (endsFrom start pieces)[k]? = some (start + (pieces.take (k + 1)).flatten.length - 1) := by
  induction pieces generalizing start k with
  | nil => exact absurd inside (Nat.not_lt_zero k)
  | cons piece pieces ih =>
    cases k with
    | zero => simp [endsFrom]
    | succ k =>
      rw [endsFrom, getElem?_cons_succ, ih _ (Nat.lt_of_succ_lt_succ inside), take_succ_cons,
        flatten_cons, length_append, Nat.add_assoc]

theorem ends_getElem? (pieces : List (List α)) {k : Nat} (inside : k < pieces.length) :
    (ends pieces)[k]? = some ((pieces.take (k + 1)).flatten.length - 1) := by
  rw [ends, endsFrom_getElem? 0 pieces inside, Nat.zero_add]

section
variable {pieces : List (List α)}

variable {piece : List α} {k : Nat}

theorem Filled.tail (filled : Filled (piece :: pieces)) : Filled pieces := by
  intro other mem
  exact filled other (mem_cons_of_mem piece mem)

theorem Filled.head_pos (filled : Filled (piece :: pieces)) : 0 < piece.length :=
  length_pos_of_ne_nil (filled piece mem_cons_self)

theorem endsFrom_add (filled : Filled pieces) (start shift : Nat) :
    endsFrom (start + shift) pieces = (endsFrom start pieces).map (· + shift) := by
  induction pieces generalizing start with
  | nil => rfl
  | cons piece pieces ih =>
    have positive := filled.head_pos
    have next : start + shift + piece.length = start + piece.length + shift := by omega
    rw [endsFrom, endsFrom, map_cons, next, ih filled.tail]
    congr 1
    omega

theorem ends_cons (filled : Filled (piece :: pieces)) :
    ends (piece :: pieces) = (piece.length - 1) :: (ends pieces).map (· + piece.length) := by
  rw [ends, endsFrom, Nat.zero_add]
  congr 1
  have shifted := endsFrom_add filled.tail 0 piece.length
  rwa [Nat.zero_add] at shifted

theorem ends_getLast? (some_piece : pieces ≠ []) : (ends pieces).getLast? = some (pieces.flatten.length - 1) := by
  have positive : 0 < pieces.length := length_pos_of_ne_nil some_piece
  rw [getLast?_eq_getElem?, ends_length, ends_getElem? pieces (by omega), Nat.sub_add_cancel positive, List.take_length]

theorem flatten_split (h : pieces[k]? = some piece) :
    pieces.flatten = (pieces.take k).flatten ++ piece ++ (pieces.drop (k + 1)).flatten := by
  obtain ⟨inside, rfl⟩ := List.getElem?_eq_some_iff.mp h
  conv_lhs => rw [← take_append_drop k pieces, drop_eq_getElem_cons inside]
  rw [flatten_append, flatten_cons, append_assoc]

theorem flatten_take_succ (h : pieces[k]? = some piece) :
    (pieces.take (k + 1)).flatten = (pieces.take k).flatten ++ piece := by
  rw [take_add_one, h, Option.toList_some, flatten_append, flatten_singleton]

theorem getElem?_end (filled : Filled pieces) (h : pieces[k]? = some piece) :
    pieces.flatten[(pieces.take (k + 1)).flatten.length - 1]? = piece.getLast? := by
  have positive : 0 < piece.length := length_pos_of_ne_nil (filled piece (mem_of_getElem? h))
  rw [flatten_split h, flatten_take_succ h, length_append, getElem?_append_left (by simp; omega),
    getElem?_append_right (by omega), getLast?_eq_getElem?]
  congr 1
  omega

theorem startOf_ends (filled : Filled pieces) (inside : k < pieces.length) :
    startOf (ends pieces) k = (pieces.take k).flatten.length := by
  cases k with
  | zero => rfl
  | succ k =>
    have before : k < pieces.length := Nat.lt_of_succ_lt inside
    have here := getElem?_eq_getElem before
    have positive : 0 < pieces[k].length := length_pos_of_ne_nil (filled _ (getElem_mem before))
    rw [startOf, getD_eq_getElem?_getD, ends_getElem? pieces before, Option.getD_some, flatten_take_succ here,
      length_append]
    omega

/-- The ends determine the cut. -/
theorem segment_ends (filled : Filled pieces) (h : pieces[k]? = some piece) :
    segment pieces.flatten (ends pieces) k = piece := by
  have inside : k < pieces.length := (List.getElem?_eq_some_iff.mp h).1
  have positive : 0 < piece.length := length_pos_of_ne_nil (filled piece (mem_of_getElem? h))
  have width : (pieces.take (k + 1)).flatten.length - 1 + 1 - (pieces.take k).flatten.length = piece.length := by
    rw [flatten_take_succ h, length_append]
    omega
  rw [segment, startOf_ends filled inside, getD_eq_getElem?_getD, ends_getElem? pieces inside, Option.getD_some,
    width, flatten_split h, append_assoc, drop_left, take_left]

end

end Segments
