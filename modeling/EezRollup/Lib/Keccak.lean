import EezRollup.Lib.Bytes

/-! The Keccak-256 sponge, with rate 1088 and the original padding. Lanes are natural numbers below
2^64. -/
namespace Keccak
open Octets

def rotateLeft (lane n : Nat) : Nat := ((lane <<< n) ||| (lane >>> (64 - n))) % 2 ^ 64

def complement (lane : Nat) : Nat := lane ^^^ (2 ^ 64 - 1)

structure Plane where
  x0 : Nat
  x1 : Nat
  x2 : Nat
  x3 : Nat
  x4 : Nat

structure State where
  y0 : Plane
  y1 : Plane
  y2 : Plane
  y3 : Plane
  y4 : Plane

def Plane.zero : Plane := ⟨0, 0, 0, 0, 0⟩

def State.zero : State := ⟨.zero, .zero, .zero, .zero, .zero⟩

def Plane.xor (p q : Plane) : Plane :=
  ⟨p.x0 ^^^ q.x0, p.x1 ^^^ q.x1, p.x2 ^^^ q.x2, p.x3 ^^^ q.x3, p.x4 ^^^ q.x4⟩

def State.xor (s t : State) : State :=
  ⟨s.y0.xor t.y0, s.y1.xor t.y1, s.y2.xor t.y2, s.y3.xor t.y3, s.y4.xor t.y4⟩

def roundConstants : List Nat :=
  [0x0000000000000001, 0x0000000000008082, 0x800000000000808A, 0x8000000080008000,
   0x000000000000808B, 0x0000000080000001, 0x8000000080008081, 0x8000000000008009,
   0x000000000000008A, 0x0000000000000088, 0x0000000080008009, 0x000000008000000A,
   0x000000008000808B, 0x800000000000008B, 0x8000000000008089, 0x8000000000008003,
   0x8000000000008002, 0x8000000000000080, 0x000000000000800A, 0x800000008000000A,
   0x8000000080008081, 0x8000000000008080, 0x0000000080000001, 0x8000000080008008]

def Plane.mix (c : Plane) : Plane :=
  ⟨c.x4 ^^^ rotateLeft c.x1 1, c.x0 ^^^ rotateLeft c.x2 1, c.x1 ^^^ rotateLeft c.x3 1,
    c.x2 ^^^ rotateLeft c.x4 1, c.x3 ^^^ rotateLeft c.x0 1⟩

def theta (s : State) : State :=
  let d := (s.y0.xor (s.y1.xor (s.y2.xor (s.y3.xor s.y4)))).mix
  s.xor ⟨d, d, d, d, d⟩

/-- Rotate every lane and move lane (x, y) to (y, 2x + 3y). -/
def rhoPi (s : State) : State where
  y0 := ⟨rotateLeft s.y0.x0 0, rotateLeft s.y1.x1 44, rotateLeft s.y2.x2 43, rotateLeft s.y3.x3 21,
    rotateLeft s.y4.x4 14⟩
  y1 := ⟨rotateLeft s.y0.x3 28, rotateLeft s.y1.x4 20, rotateLeft s.y2.x0 3, rotateLeft s.y3.x1 45,
    rotateLeft s.y4.x2 61⟩
  y2 := ⟨rotateLeft s.y0.x1 1, rotateLeft s.y1.x2 6, rotateLeft s.y2.x3 25, rotateLeft s.y3.x4 8, rotateLeft s.y4.x0 18⟩
  y3 := ⟨rotateLeft s.y0.x4 27, rotateLeft s.y1.x0 36, rotateLeft s.y2.x1 10, rotateLeft s.y3.x2 15,
    rotateLeft s.y4.x3 56⟩
  y4 := ⟨rotateLeft s.y0.x2 62, rotateLeft s.y1.x3 55, rotateLeft s.y2.x4 39, rotateLeft s.y3.x0 41,
    rotateLeft s.y4.x1 2⟩

def Plane.chi (p : Plane) : Plane :=
  ⟨p.x0 ^^^ (complement p.x1 &&& p.x2), p.x1 ^^^ (complement p.x2 &&& p.x3), p.x2 ^^^ (complement p.x3 &&& p.x4),
    p.x3 ^^^ (complement p.x4 &&& p.x0), p.x4 ^^^ (complement p.x0 &&& p.x1)⟩

def chi (s : State) : State := ⟨s.y0.chi, s.y1.chi, s.y2.chi, s.y3.chi, s.y4.chi⟩

def iota (rc : Nat) (s : State) : State := s.xor { State.zero with y0 := { Plane.zero with x0 := rc } }

def permute (s : State) : State :=
  roundConstants.foldl (fun s rc => iota rc (chi (rhoPi (theta s)))) s

def pad (message : Bytes) : Bytes :=
  let missing := 136 - message.length % 136
  if missing = 1 then message ++ [0x81]
  else message ++ 0x01 :: List.replicate (missing - 2) 0 ++ [0x80]

def readLane (block : Bytes) (i : Nat) : Nat := ofLe ((block.drop (8 * i)).take 8)

def readPlane (block : Bytes) (i : Nat) : Plane :=
  ⟨readLane block i, readLane block (i + 1), readLane block (i + 2), readLane block (i + 3), readLane block (i + 4)⟩

def readBlock (block : Bytes) : State where
  y0 := readPlane block 0
  y1 := readPlane block 5
  y2 := readPlane block 10
  y3 := { Plane.zero with x0 := readLane block 15, x1 := readLane block 16 }
  y4 := .zero

def absorb : Nat → Bytes → State → State
  | 0, _, state => state
  | blocks+1, message, state => absorb blocks (message.drop 136) (permute (state.xor (readBlock message)))

def keccak256 (message : Bytes) : BitVec 256 :=
  let padded := pad message
  let state := absorb (padded.length / 136) padded .zero
  BitVec.ofNat 256 (ofLe ([state.y0.x0, state.y0.x1, state.y0.x2, state.y0.x3].flatMap (leBytes 8)).reverse)

example : keccak256 [] = 0xc5d2460186f7233c927e7db2dcc703c0e500b653ca82273b7bfad8045d85a470#256 := by
  decide +kernel

end Keccak
