import Mathlib.Algebra.GroupWithZero.Nat
import Mathlib.Data.List.Basic
import Mathlib.Tactic.Common

/-! Byte strings, fixed-width integers and encodings that a reader who knows the type can find the
end of. -/
open List
namespace Octets

abbrev Bytes := List UInt8

/-- The `width` low base-256 digits of `n`, least significant first. -/
def leBytes : Nat → Nat → Bytes
  | 0, _ => []
  | width+1, n => UInt8.ofNat n :: leBytes width (n / 256)

def ofLe : Bytes → Nat
  | [] => 0
  | b :: bs => b.toNat + 256 * ofLe bs

def beBytes (width n : Nat) : Bytes := (leBytes width n).reverse

@[simp] theorem leBytes_length (width n : Nat) : (leBytes width n).length = width := by
  induction width generalizing n with
  | zero => rfl
  | succ width ih => simp only [leBytes, length_cons, ih]

@[simp] theorem beBytes_length (width n : Nat) : (beBytes width n).length = width := by
  simp only [beBytes, length_reverse, leBytes_length]

theorem ofLe_leBytes (width n : Nat) : ofLe (leBytes width n) = n % 256 ^ width := by
  induction width generalizing n with
  | zero => simp only [leBytes, ofLe, Nat.pow_zero, Nat.mod_one]
  | succ width ih =>
    have digit : (UInt8.ofNat n).toNat = n % 256 := by
      simp only [UInt8.toNat_ofNat', Nat.reducePow]
    rw [leBytes, ofLe, ih, digit, Nat.pow_succ, Nat.mul_comm (256 ^ width), Nat.mod_mul]

theorem leBytes_ofLe (bs : Bytes) : leBytes bs.length (ofLe bs) = bs := by
  induction bs with
  | nil => rfl
  | cons b bs ih =>
    have low := UInt8.toNat_lt b
    have rest : (b.toNat + 256 * ofLe bs) / 256 = ofLe bs := by omega
    have head : UInt8.ofNat (b.toNat + 256 * ofLe bs) = b := by
      apply UInt8.toNat_inj.mp
      rw [UInt8.toNat_ofNat']
      omega
    simp only [length_cons, ofLe, leBytes, rest, ih, head]

theorem ofLe_lt (bs : Bytes) : ofLe bs < 256 ^ bs.length := by
  induction bs with
  | nil => simp only [ofLe, length_nil, Nat.pow_zero, Nat.zero_lt_one]
  | cons b bs ih =>
    have low := UInt8.toNat_lt b
    rw [ofLe, length_cons, Nat.pow_succ]
    omega

theorem leBytes_succ_last (width n : Nat) :
    leBytes (width + 1) n = leBytes width n ++ [UInt8.ofNat (n / 256 ^ width)] := by
  induction width generalizing n with
  | zero => simp [leBytes]
  | succ width ih =>
    rw [leBytes, ih, leBytes, Nat.div_div_eq_div_mul, Nat.pow_succ, Nat.mul_comm 256]
    rfl

variable {width : Nat} {α : Type*} {enc : α → Bytes}

theorem leBytes_injective {n m : Nat} (hn : n < 256 ^ width) (hm : m < 256 ^ width)
    (h : leBytes width n = leBytes width m) : n = m := by
  have same := congrArg ofLe h
  rwa [ofLe_leBytes, ofLe_leBytes, Nat.mod_eq_of_lt hn, Nat.mod_eq_of_lt hm] at same

theorem beBytes_injective {n m : Nat} (hn : n < 256 ^ width) (hm : m < 256 ^ width)
    (h : beBytes width n = beBytes width m) : n = m :=
  leBytes_injective hn hm (reverse_injective h)

theorem ofNat_ofLe_eq_iff (fits : 256 ^ width = 2 ^ bits) {bytes : Bytes} (length : bytes.length = width) :
    BitVec.ofNat bits (ofLe bytes.reverse) = v ↔ bytes = beBytes width v.toNat := by
  have back := leBytes_ofLe bytes.reverse
  have small := ofLe_lt bytes.reverse
  rw [length_reverse, length] at back small
  rw [fits] at small
  unfold beBytes
  constructor
  · rintro rfl
    rw [BitVec.toNat_ofNat, Nat.mod_eq_of_lt small, back, reverse_reverse]
  · rintro rfl
    rw [reverse_reverse, ofLe_leBytes, fits, Nat.mod_eq_of_lt v.isLt, BitVec.ofNat_toNat, BitVec.setWidth_eq]

/-- Two encodings followed by anything agree only when the values and the
remainders agree. -/
def SelfDelimiting {α : Type*} (enc : α → Bytes) : Prop :=
  ∀ a b x y, enc a ++ x = enc b ++ y → a = b ∧ x = y

theorem SelfDelimiting.injective (h : SelfDelimiting enc) : Function.Injective enc := by
  intro a b hab
  exact (h a b [] [] (by rw [hab])).1

theorem SelfDelimiting.append_inj_iff (h : SelfDelimiting enc) : enc a ++ x = enc b ++ y ↔ a = b ∧ x = y := by
  refine ⟨h a b x y, ?_⟩
  rintro ⟨rfl, rfl⟩
  rfl

theorem SelfDelimiting.of_fixed (fixed : ∀ a, (enc a).length = width) (inj : Function.Injective enc) :
    SelfDelimiting enc := by
  intro a b x y h
  obtain ⟨hab, hxy⟩ := append_inj h (by rw [fixed, fixed])
  exact ⟨inj hab, hxy⟩

theorem SelfDelimiting.flatMap_inj (h : SelfDelimiting enc) : ∀ (l m : List α) (x y : Bytes), l.length = m.length →
      l.flatMap enc ++ x = m.flatMap enc ++ y → l = m ∧ x = y := by
  intro l
  induction l with
  | nil =>
    intro m x y len eq
    have empty : m = [] := length_eq_zero_iff.mp len.symm
    subst empty
    exact ⟨rfl, eq⟩
  | cons a l ih =>
    intro m x y len eq
    cases m with
    | nil => cases len
    | cons b m =>
      simp only [flatMap_cons, append_assoc] at eq
      obtain ⟨rfl, rest⟩ := h a b _ _ eq
      obtain ⟨rfl, tail⟩ := ih m x y (Nat.succ.inj len) rest
      exact ⟨rfl, tail⟩

/-- The inverse of an injective encoding. -/
noncomputable def canonicalDecoder {α : Type} (encode : α → Bytes) (bytes : Bytes) : Except String α :=
  open Classical in
  if h : ∃ a, encode a = bytes then .ok h.choose else .error "not a canonical encoding"

theorem canonicalDecoder_encode {α : Type} {encode} (injective : Function.Injective encode) (a : α) :
    canonicalDecoder encode (encode a) = .ok a := by
  have found : ∃ a', encode a' = encode a := ⟨a, rfl⟩
  rw [canonicalDecoder, dif_pos found, injective found.choose_spec]

end Octets
