import EezRollup.Lib.Bytes

/-! Strings, integers and one level of lists. Lengths are written in at most 32 bytes, which no
input in memory can exceed. -/
namespace Rlp
open List Octets

def trim (n : Nat) : Bytes := (beBytes 32 n).dropWhile (· == 0)

def header (offset : UInt8) (length : Nat) : Bytes :=
  if length ≤ 55 then [offset + UInt8.ofNat length]
  else (offset + 55 + UInt8.ofNat (trim length).length) :: trim length

def string (b : Bytes) : Bytes :=
  match b with
  | [x] => if x < 0x80 then [x] else [0x81, x]
  | b => header 0x80 b.length ++ b

def uint (n : Nat) : Bytes := string (trim n)

def list (payload : Bytes) : Bytes := header 0xc0 payload.length ++ payload

theorem trim_length_le (n : Nat) : (trim n).length ≤ 32 := by
  have shorter := (dropWhile_sublist (· == (0 : UInt8)) (l := beBytes 32 n)).length_le
  rwa [beBytes_length] at shorter

theorem ofLe_append_zero (bs : Bytes) : ofLe (bs ++ [0]) = ofLe bs := by
  induction bs with
  | nil => rfl
  | cons b bs ih => rw [cons_append, ofLe, ofLe, ih]

theorem ofLe_trimmed (bs : Bytes) : ofLe (bs.dropWhile (· == 0)).reverse = ofLe bs.reverse := by
  induction bs with
  | nil => rfl
  | cons b bs ih =>
    by_cases zero : b = 0
    · subst zero
      rw [dropWhile_cons_of_pos (by simp), ih, reverse_cons, ofLe_append_zero]
    · rw [dropWhile_cons_of_neg (by simpa using zero)]

theorem trim_injective {n m : Nat} (hn : n < 256 ^ 32) (hm : m < 256 ^ 32) (h : trim n = trim m) : n = m := by
  have same : ofLe (leBytes 32 n) = ofLe (leBytes 32 m) := by
    have values := congrArg (fun bs : Bytes => ofLe bs.reverse) h
    simpa only [trim, ofLe_trimmed, beBytes, reverse_reverse] using values
  rwa [ofLe_leBytes, ofLe_leBytes, Nat.mod_eq_of_lt hn, Nat.mod_eq_of_lt hm] at same

def leading (length : Nat) : Nat := if length ≤ 55 then length else 55 + (trim length).length

theorem leading_le (length : Nat) : leading length ≤ 87 := by
  unfold leading
  have digits := trim_length_le length
  split <;> omega

theorem header_length (offset : UInt8) (length : Nat) :
    (header offset length).length = max 1 (leading length - 54) := by
  unfold header leading
  split
  · rw [length_singleton]
    omega
  · rw [length_cons]
    omega

theorem header_head? (offset : UInt8) (length : Nat) :
    (header offset length).head? = some (offset + UInt8.ofNat (leading length)) := by
  unfold header leading
  split
  · rfl
  · rw [head?_cons, UInt8.ofNat_add, UInt8.add_assoc]
    rfl

theorem leading_inj {offset : UInt8} (h : offset + UInt8.ofNat (leading n) = offset + UInt8.ofNat (leading m)) :
    leading n = leading m := by
  have bytes := congrArg UInt8.toNat h
  have hn := leading_le n
  have hm := leading_le m
  rw [UInt8.toNat_add, UInt8.toNat_add, UInt8.toNat_ofNat', UInt8.toNat_ofNat'] at bytes
  omega

theorem header_length_eq {n m : Nat} (h : header offset n ++ x = header offset m ++ y) :
    (header offset n).length = (header offset m).length := by
  have heads := congrArg List.head? h
  rw [head?_append, head?_append, header_head?, header_head?] at heads
  rw [header_length, header_length, leading_inj (Option.some.inj heads)]

theorem list_injective : Function.Injective list := by
  intro p q h
  exact (append_inj h (header_length_eq h)).2

theorem string_eq (b : Bytes) : (∃ x, x < 0x80 ∧ b = [x] ∧ string b = [x]) ∨ string b = header 0x80 b.length ++ b := by
  match b with
  | [] => exact .inr rfl
  | [x] =>
    by_cases low : x < 0x80
    · exact .inl ⟨x, low, rfl, if_pos low⟩
    · exact .inr (if_neg low)
  | x :: y :: b => exact .inr rfl

theorem low_ne_header {x : UInt8} (low : x < 0x80) (n : Nat) (y z : Bytes) : x :: y ≠ header 0x80 n ++ z := by
  intro h
  have heads := congrArg List.head? h
  rw [head?_append, header_head?] at heads
  have first : x = 0x80 + UInt8.ofNat (leading n) := Option.some.inj heads
  have bound := leading_le n
  have value : x.toNat = 128 + leading n := by
    rw [first, UInt8.toNat_add, UInt8.toNat_ofNat']
    change (128 + leading n % 256) % 256 = _
    omega
  have small : x.toNat < 128 := low
  omega

theorem string_injective : Function.Injective string := by
  intro a b h
  rcases string_eq a with ⟨x, hx, rfl, ha⟩ | ha <;> rcases string_eq b with ⟨y, hy, rfl, hb⟩ | hb
  · rw [ha, hb] at h
    exact h
  · rw [ha, hb] at h
    exact absurd h (low_ne_header hx _ [] _)
  · rw [ha, hb] at h
    exact absurd h.symm (low_ne_header hy _ [] _)
  · rw [ha, hb] at h
    exact (append_inj h (header_length_eq h)).2

theorem string_append_inj {a b : Bytes} (ha : a.length ≤ 55) (hb : b.length ≤ 55)
    (h : string a ++ x = string b ++ y) : a = b ∧ x = y := by
  rcases string_eq a with ⟨c, hc, rfl, ea⟩ | ea <;> rcases string_eq b with ⟨d, hd, rfl, eb⟩ | eb
  · rw [ea, eb] at h
    obtain ⟨rfl, rfl⟩ := List.cons.inj h
    exact ⟨rfl, rfl⟩
  · rw [ea, eb, append_assoc] at h
    exact absurd h (low_ne_header hc _ _ _)
  · rw [ea, eb, append_assoc] at h
    exact absurd h.symm (low_ne_header hd _ _ _)
  · rw [ea, eb, append_assoc, append_assoc] at h
    obtain ⟨headers, rest⟩ := append_inj h (header_length_eq h)
    have heads := congrArg List.head? headers
    rw [header_head?, header_head?] at heads
    have lengths := leading_inj (Option.some.inj heads)
    rw [leading, leading, if_pos ha, if_pos hb] at lengths
    exact append_inj rest lengths

theorem uint_append_inj {n m : Nat} (hn : n < 256 ^ 32) (hm : m < 256 ^ 32) (h : uint n ++ x = uint m ++ y) :
    n = m ∧ x = y := by
  have bound : ∀ k, (trim k).length ≤ 55 := fun k => Nat.le_trans (trim_length_le k) (by decide)
  obtain ⟨same, rest⟩ := string_append_inj (bound n) (bound m) h
  exact ⟨trim_injective hn hm same, rest⟩

end Rlp
