import EezRollup.Lib.Bytes

/-! Head and tail encoding of argument sequences. Bodies follow each other in component order, so a
canonical encoding is read back without consulting the offsets. -/
namespace Abi
open List Octets

def word (n : Nat) : Bytes := beBytes 32 n

/-- The length word of a dynamic value. A length a 64-bit host cannot hold has
no word; the escape only keeps the function injective on lists of any length. -/
def lengthWord (n : Nat) : Bytes :=
  if n < 2 ^ 64 then word n else 255 :: (replicate n 1 ++ [0])

inductive Component where
  | static (body : Bytes)
  | dynamic (body : Bytes)

def headLength : List Component → Nat
  | [] => 0
  | .static body :: cs => body.length + headLength cs
  | .dynamic _ :: cs => 32 + headLength cs

/-- The head, given the offset at which the next dynamic body starts. -/
def heads : Nat → List Component → Bytes
  | _, [] => []
  | offset, .static body :: cs => body ++ heads offset cs
  | offset, .dynamic body :: cs => word offset ++ heads (offset + body.length) cs

def tails : List Component → Bytes
  | [] => []
  | .static _ :: cs => tails cs
  | .dynamic body :: cs => body ++ tails cs

/-- `abi.encode` of an argument sequence. -/
def encodeSequence (cs : List Component) : Bytes := heads (headLength cs) cs ++ tails cs

def encodeBytes (b : Bytes) : Bytes :=
  lengthWord b.length ++ (b ++ replicate ((32 - b.length % 32) % 32) 0)

def encodeStaticArray {α : Type*} (enc : α → Bytes) (l : List α) : Bytes :=
  lengthWord l.length ++ l.flatMap enc

def encodeArray {α : Type*} (enc : α → Bytes) (l : List α) : Bytes :=
  lengthWord l.length ++ encodeSequence (l.map (fun a => .dynamic (enc a)))

@[simp] theorem word_length (n : Nat) : (word n).length = 32 := beBytes_length 32 n

theorem word_injective {n m : Nat} (hn : n < 2 ^ 256) (hm : m < 2 ^ 256) (h : word n = word m) : n = m :=
  beBytes_injective (by simpa using hn) (by simpa using hm) h

theorem word_head {n : Nat} (h : n < 2 ^ 64) : ∃ rest, word n = 0 :: rest := by
  have small : n / 256 ^ 31 = 0 := Nat.div_eq_of_lt (by omega)
  refine ⟨(leBytes 31 n).reverse, ?_⟩
  rw [word, beBytes, leBytes_succ_last, small, reverse_append]
  rfl

theorem lengthWord_selfDelimiting : SelfDelimiting lengthWord := by
  have unary : ∀ (n m : Nat) (x y : Bytes), replicate n 1 ++ [0] ++ x = replicate m 1 ++ [0] ++ y → n = m ∧ x = y := by
    intro n
    induction n with
    | zero =>
      intro m x y h
      cases m with
      | zero => simpa using h
      | succ m => simp [replicate_succ] at h
    | succ n ih =>
      intro m x y h
      cases m with
      | zero => simp [replicate_succ] at h
      | succ m =>
        simp only [replicate_succ, cons_append, List.cons.injEq, true_and] at h
        obtain ⟨hn, hx⟩ := ih m x y (by simpa using h)
        exact ⟨congrArg Nat.succ hn, hx⟩
  intro n m x y h
  unfold lengthWord at h
  split at h <;> rename_i hn <;> split at h <;> rename_i hm
  · obtain ⟨hw, hx⟩ := append_inj h (by simp)
    exact ⟨word_injective (by omega) (by omega) hw, hx⟩
  · obtain ⟨rest, hr⟩ := word_head hn
    rw [hr] at h
    cases h
  · obtain ⟨rest, hr⟩ := word_head hm
    rw [hr] at h
    cases h
  · simp only [cons_append, List.cons.injEq, true_and] at h
    exact unary n m x y (by simpa using h)

/-- Components of the same kinds with static bodies of the same widths. -/
inductive SameShape : List Component → List Component → Prop
  | nil : SameShape [] []
  | static {b b' cs ds} : b.length = b'.length → SameShape cs ds → SameShape (.static b :: cs) (.static b' :: ds)
  | dynamic {b b' cs ds} : SameShape cs ds → SameShape (.dynamic b :: cs) (.dynamic b' :: ds)

@[simp] theorem SameShape.nil_iff : SameShape [] [] ↔ True := ⟨fun _ => trivial, fun _ => .nil⟩

variable {b b' : Bytes} {cs ds : List Component} {α : Type*}

@[simp] theorem SameShape.static_iff :
    SameShape (.static b :: cs) (.static b' :: ds) ↔ b.length = b'.length ∧ SameShape cs ds :=
  ⟨fun h => by cases h with | static len rest => exact ⟨len, rest⟩, fun h => .static h.1 h.2⟩

@[simp] theorem SameShape.dynamic_iff : SameShape (.dynamic b :: cs) (.dynamic b' :: ds) ↔ SameShape cs ds :=
  ⟨fun h => by cases h with | dynamic rest => exact rest, .dynamic⟩

/-- The static bodies of two sequences agree. -/
def SameStatics : List Component → List Component → Prop
  | .static b :: cs, .static b' :: ds => b = b' ∧ SameStatics cs ds
  | .dynamic _ :: cs, .dynamic _ :: ds => SameStatics cs ds
  | _, _ => True

@[simp] theorem SameStatics.nil_iff : SameStatics [] [] ↔ True := Iff.rfl

@[simp] theorem SameStatics.static_iff :
    SameStatics (.static b :: cs) (.static b' :: ds) ↔ b = b' ∧ SameStatics cs ds := Iff.rfl

@[simp] theorem SameStatics.dynamic_iff :
    SameStatics (.dynamic b :: cs) (.dynamic b' :: ds) ↔ SameStatics cs ds := Iff.rfl

theorem SameShape.headLength (h : SameShape cs ds) : headLength cs = headLength ds := by
  induction h with
  | nil => rfl
  | static len _ ih => simp only [Abi.headLength, len, ih]
  | dynamic _ ih => simp only [Abi.headLength, ih]

theorem heads_length (offset : Nat) (cs : List Component) : (heads offset cs).length = headLength cs := by
  induction cs generalizing offset with
  | nil => rfl
  | cons c cs ih =>
    cases c with
    | static b => simp only [heads, headLength, length_append, ih]
    | dynamic b => simp only [heads, headLength, length_append, word_length, ih]

theorem SameShape.statics (h : SameShape cs ds) : ∀ i j, heads i cs = heads j ds → SameStatics cs ds := by
  induction h with
  | nil => intro _ _ _; trivial
  | static len _ ih =>
    intro i j eq
    obtain ⟨hb, rest⟩ := append_inj eq len
    exact ⟨hb, ih i j rest⟩
  | @dynamic b b' _ _ _ ih =>
    intro i j eq
    obtain ⟨_, rest⟩ := append_inj eq (by simp)
    exact ih (i + b.length) (j + b'.length) rest

/-- Two sequences of one shape with one encoding agree on their static bodies,
and what is left to compare are their tails. -/
theorem encodeSequence_inj (shape : SameShape cs ds) (h : encodeSequence cs ++ x = encodeSequence ds ++ y) :
    SameStatics cs ds ∧ tails cs ++ x = tails ds ++ y := by
  simp only [encodeSequence, append_assoc] at h
  obtain ⟨hh, ht⟩ := append_inj h
    (by rw [heads_length, heads_length, shape.headLength])
  exact ⟨shape.statics _ _ hh, ht⟩

@[simp] theorem encodeBytes_selfDelimiting : SelfDelimiting encodeBytes := by
  intro a b x y h
  simp only [encodeBytes, append_assoc] at h
  obtain ⟨len, body⟩ := lengthWord_selfDelimiting _ _ _ _ h
  obtain ⟨rfl, padded⟩ := append_inj body len
  exact ⟨rfl, (append_inj padded rfl).2⟩

theorem encodeStaticArray_selfDelimiting {enc : α → Bytes}
    (h : SelfDelimiting enc) : SelfDelimiting (encodeStaticArray enc) := by
  intro l m x y eq
  simp only [encodeStaticArray, append_assoc] at eq
  obtain ⟨len, body⟩ := lengthWord_selfDelimiting _ _ _ _ eq
  exact h.flatMap_inj l m x y len body

theorem sameShape_dynamic (enc : α → Bytes) : ∀ {l m : List α}, l.length = m.length →
      SameShape (l.map (fun a => .dynamic (enc a))) (m.map (fun a => .dynamic (enc a)))
  | [], [], _ => .nil
  | _ :: _, _ :: _, len => .dynamic (sameShape_dynamic enc (Nat.succ.inj len))

theorem tails_dynamic (enc : α → Bytes) (l : List α) : tails (l.map (fun a => .dynamic (enc a))) = l.flatMap enc := by
  induction l with
  | nil => rfl
  | cons a l ih => simp only [map_cons, tails, ih, flatMap_cons]

theorem encodeArray_selfDelimiting {enc : α → Bytes} (h : SelfDelimiting enc) : SelfDelimiting (encodeArray enc) := by
  intro l m x y eq
  simp only [encodeArray, append_assoc] at eq
  obtain ⟨len, body⟩ := lengthWord_selfDelimiting _ _ _ _ eq
  obtain ⟨_, rest⟩ := encodeSequence_inj (sameShape_dynamic enc len) body
  rw [tails_dynamic, tails_dynamic] at rest
  exact h.flatMap_inj l m x y len rest

@[simp] theorem encodeBytes_append_inj : encodeBytes a ++ x = encodeBytes b ++ y ↔ a = b ∧ x = y :=
  encodeBytes_selfDelimiting.append_inj_iff

@[simp] theorem encodeStaticArray_append_inj {enc : α → Bytes} (h : SelfDelimiting enc) :
    encodeStaticArray enc l ++ x = encodeStaticArray enc m ++ y ↔ l = m ∧ x = y :=
  (encodeStaticArray_selfDelimiting h).append_inj_iff

@[simp] theorem encodeArray_append_inj {enc : α → Bytes} (h : SelfDelimiting enc) :
    encodeArray enc l ++ x = encodeArray enc m ++ y ↔ l = m ∧ x = y :=
  (encodeArray_selfDelimiting h).append_inj_iff

end Abi
