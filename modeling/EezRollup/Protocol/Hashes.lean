import EezRollup.Lib.Keccak
import EezRollup.Protocol.AbiTypes

/-! Call hashes and rolling hashes. The hash function is a parameter; what it is applied to is
written out. -/
namespace Eez
open Octets Abi

def collisionFreeOn (keccak : Bytes → B256) (preimages : List Bytes) : Prop :=
  ∀ x ∈ preimages, ∀ y ∈ preimages, keccak x = keccak y → x = y

theorem collisionFreeOn.mono (h : collisionFreeOn keccak ys) (sub : ∀ x ∈ xs, x ∈ ys) : collisionFreeOn keccak xs :=
  fun x hx y hy => h x (sub x hx) y (sub y hy)

inductive CallMode where
  | mutable
  | static
  deriving DecidableEq

def CallMode.isStatic : CallMode → Bool
  | .mutable => false
  | .static => true

structure CallHashInput where
  callMode : CallMode
  sourceAddress : Address
  sourceRollupId : UInt64
  targetAddress : Address
  targetRollupId : UInt64
  value : U256
  data : Bytes

def mainnet : UInt64 := 0

/-- `abi.encode(isStatic, source, sourceRollup, target, targetRollup, value, callGas, data)`. -/
def callHashPreimage (input : CallHashInput) (callGas : UInt64) : Bytes :=
  encodeSequence [.static (boolWord input.callMode.isStatic), .static (addressWord input.sourceAddress),
    .static (u64Word input.sourceRollupId), .static (addressWord input.targetAddress),
    .static (u64Word input.targetRollupId), .static (u256Word input.value), .static (u64Word callGas),
    .dynamic (encodeBytes input.data)]

def callBeginTag : UInt8 := 1

def callEndTag : UInt8 := 2

def callBeginPreimage (rollingHash callHash : B256) : Bytes :=
  b256Bytes rollingHash ++ callBeginTag :: b256Bytes callHash

def callEndPreimage (rollingHash : B256) (success : Bool) (returnData : Bytes) : Bytes :=
  b256Bytes rollingHash ++ callEndTag :: UInt8.ofNat success.toNat :: returnData

theorem callEndPreimage_inj (eq : callEndPreimage h s r = callEndPreimage h' s' r') : h = h' ∧ s = s' ∧ r = r' := by
  obtain ⟨hh, rest⟩ := List.append_inj eq (by simp)
  simp only [List.cons.injEq, true_and] at rest
  refine ⟨b256Bytes_injective hh, ?_, rest.2⟩
  have flag := rest.1
  cases s <;> cases s' <;> first | rfl | exact absurd flag (by decide)

theorem callHashPreimage_ne_callEndPreimage (input : CallHashInput) (gas : UInt64) (h : B256)
    (success : Bool) (r : Bytes) : callHashPreimage input gas ≠ callEndPreimage h success r := by
  intro eq
  have small : input.sourceAddress.toNat / 256 ^ 31 = 0 := by
    have := input.sourceAddress.isLt
    exact Nat.div_eq_of_lt (by omega)
  have top : ∃ rest, addressWord input.sourceAddress = 0 :: rest := by
    refine ⟨(leBytes 31 input.sourceAddress.toNat).reverse, ?_⟩
    rw [addressWord, word, beBytes, leBytes_succ_last, small, List.reverse_append]
    rfl
  obtain ⟨rest, top⟩ := top
  simp only [callHashPreimage, encodeSequence, heads, List.append_assoc, callEndPreimage] at eq
  obtain ⟨_, eq⟩ := List.append_inj eq (by simp)
  rw [top] at eq
  exact absurd (List.cons.inj eq).1 (by decide)

section
variable (keccak : Bytes → B256)

def crossChainCallHash (input : CallHashInput) (callGas : UInt64) : B256 :=
  keccak (callHashPreimage input callGas)

def l2OutboundCallHash (input : CallHashInput) (callGas : UInt64) : B256 :=
  crossChainCallHash keccak input callGas

def commonCrossChainCallHash (input : CallHashInput) : B256 := crossChainCallHash keccak input 0

/-- Fold the ordered pre-states of an L1 entry, then bind its proxy hash. -/
def seedForL1 (stateUpdates : List (UInt64 × B256)) (proxyEntryHash : B256) : B256 :=
  let statesHash := stateUpdates.foldl (fun previous update =>
    keccak (b256Bytes previous ++ beBytes 8 update.1.toNat ++ b256Bytes update.2)) 0
  keccak (b256Bytes statesHash ++ b256Bytes proxyEntryHash)

def seedForL2 (proxyEntryHash : B256) : B256 :=
  keccak (b256Bytes 0 ++ b256Bytes proxyEntryHash)

def callBegin (rollingHash callHash : B256) : B256 := keccak (callBeginPreimage rollingHash callHash)

def callEnd (rollingHash : B256) (success : Bool) (returnData : Bytes) : B256 :=
  keccak (callEndPreimage rollingHash success returnData)

def l2RollingHash (callHash : B256) (success : Bool) (returnData : Bytes) : B256 :=
  callEnd keccak (callBegin keccak (seedForL2 keccak callHash) callHash) success returnData

end

example : commonCrossChainCallHash Keccak.keccak256
    ⟨.mutable, 0xbb#160, 7, 0xaa#160, 1, 0, [1, 2, 3]⟩ =
      0x16b1575ff5a4ec44167aebf047dd46f77db3766f7481445ad09c8136bff735a8#256 := by
  decide +kernel

end Eez
