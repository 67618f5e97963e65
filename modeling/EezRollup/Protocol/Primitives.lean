import EezRollup.Lib.Rlp

/-! Signed Ethereum transactions are opaque: a block carries their exact bytes and the few fields
the protocol reads. -/
namespace Eez
open Octets

abbrev B256 := BitVec 256
abbrev U256 := BitVec 256
abbrev Address := BitVec 160

/-- Two's complement, read through `BitVec.toInt`. -/
abbrev I192 := BitVec 192

def b256Bytes (h : B256) : Bytes := beBytes 32 h.toNat

def addressBytes (a : Address) : Bytes := beBytes 20 a.toNat

@[simp] theorem b256Bytes_length (h : B256) : (b256Bytes h).length = 32 := beBytes_length 32 _

theorem b256Bytes_injective : Function.Injective b256Bytes := by
  intro a b h
  have bound : ∀ x : B256, x.toNat < 256 ^ 32 := fun x => by simpa using x.isLt
  exact BitVec.eq_of_toNat_eq (beBytes_injective (bound a) (bound b) h)

@[simp] theorem addressBytes_length (a : Address) : (addressBytes a).length = 20 := beBytes_length 20 _

theorem addressBytes_injective : Function.Injective addressBytes := by
  intro a b h
  have bound : ∀ x : Address, x.toNat < 256 ^ 20 := fun x => by simpa using x.isLt
  exact BitVec.eq_of_toNat_eq (beBytes_injective (bound a) (bound b) h)

def checkedAdd (a b : UInt64) : Option UInt64 :=
  if a.toNat + b.toNat < 2 ^ 64 then some (a + b) else none

def systemTxType : UInt8 := 0x76

def systemAddress : Address := 0xeeeeeeeeeeeeeeeeeeeeeeeeeeeeeeeeeeee0076#160

def eezl2Address : Address := 0x4200000000000000000000000000000000000007#160

/-- Canonical wire body: chain id, nonce, destination, value, calldata. -/
structure SystemTransaction where
  chainId : UInt64
  nonce : UInt64
  toAddress : Address
  value : U256
  input : Bytes

def SystemTransaction.encoded2718 (tx : SystemTransaction) : Bytes :=
  systemTxType :: Rlp.list (Rlp.uint tx.chainId.toNat ++ Rlp.uint tx.nonce.toNat ++
    Rlp.string (addressBytes tx.toAddress) ++ Rlp.uint tx.value.toNat ++ Rlp.string tx.input)

example : SystemTransaction.encoded2718 ⟨1, 0, eezl2Address, 0, [1, 2, 3, 4]⟩ =
    [0x76, 0xdd, 0x01, 0x80, 0x94, 0x42, 0, 0, 0, 0, 0, 0, 0, 0, 0, 0, 0, 0, 0, 0, 0, 0, 0, 0, 0x07,
      0x80, 0x84, 1, 2, 3, 4] := by
  decide +kernel

theorem SystemTransaction.encoded2718_injective : Function.Injective SystemTransaction.encoded2718 := by
  intro a b h
  have word : ∀ n : UInt64, n.toNat < 256 ^ 32 := fun n => Nat.lt_trans n.toNat_lt (by decide)
  have payload := Rlp.list_injective (List.cons.inj h).2
  simp only [List.append_assoc] at payload
  obtain ⟨chainId, payload⟩ := Rlp.uint_append_inj (word _) (word _) payload
  obtain ⟨nonce, payload⟩ := Rlp.uint_append_inj (word _) (word _) payload
  obtain ⟨target, payload⟩ := Rlp.string_append_inj (by simp) (by simp) payload
  obtain ⟨value, payload⟩ := Rlp.uint_append_inj (by simpa using a.value.isLt) (by simpa using b.value.isLt) payload
  have input := Rlp.string_injective payload
  obtain ⟨_, _, _, _, _⟩ := a
  obtain ⟨_, _, _, _, _⟩ := b
  simp only [SystemTransaction.mk.injEq]
  exact ⟨UInt64.toNat_inj.mp chainId, UInt64.toNat_inj.mp nonce, addressBytes_injective target,
    BitVec.eq_of_toNat_eq value, input⟩

inductive EthereumTxType where
  | legacy | eip2930 | eip1559 | eip4844 | eip7702
  deriving DecidableEq

def EthereumTxType.byte : EthereumTxType → UInt8
  | .legacy => 0
  | .eip2930 => 1
  | .eip1559 => 2
  | .eip4844 => 3
  | .eip7702 => 4

/-- A signed Ethereum transaction. Its type byte leads its wire form, or a list
header if it is of the legacy type. -/
structure TransactionSigned where
  txType : EthereumTxType
  nonce : UInt64
  toAddress : Option Address
  value : U256
  input : Bytes
  encoded : Bytes
  led : ∃ first rest, encoded = first :: rest ∧ if txType = .legacy then 0xc0 ≤ first else first = txType.byte

theorem TransactionSigned.encoded_head? (tx : TransactionSigned) :
    ∃ first, tx.encoded.head? = some first ∧ first ≠ systemTxType := by
  obtain ⟨first, rest, encoded, led⟩ := tx.led
  refine ⟨first, by rw [encoded]; rfl, ?_⟩
  rintro rfl
  cases kind : tx.txType <;> rw [kind] at led <;> exact absurd led (by decide)

inductive EezTxEnvelope where
  | ethereum (tx : TransactionSigned)
  | system (tx : SystemTransaction)

namespace EezTxEnvelope

def ty : EezTxEnvelope → UInt8
  | ethereum tx => tx.txType.byte
  | system _ => systemTxType

def nonce : EezTxEnvelope → UInt64
  | ethereum tx => tx.nonce
  | system tx => tx.nonce

def toAddress : EezTxEnvelope → Option Address
  | ethereum tx => tx.toAddress
  | system tx => some tx.toAddress

def value : EezTxEnvelope → U256
  | ethereum tx => tx.value
  | system tx => tx.value

def input : EezTxEnvelope → Bytes
  | ethereum tx => tx.input
  | system tx => tx.input

def encoded2718 : EezTxEnvelope → Bytes
  | ethereum tx => tx.encoded
  | system tx => tx.encoded2718

theorem encoded2718_ne_nil (tx : EezTxEnvelope) : tx.encoded2718 ≠ [] := by
  cases tx with
  | ethereum tx =>
    intro empty
    obtain ⟨first, head, _⟩ := tx.encoded_head?
    change tx.encoded = [] at empty
    rw [empty] at head
    cases head
  | system tx => exact List.cons_ne_nil _ _

theorem eq_system_of_encoded2718 {tx : EezTxEnvelope} {system : SystemTransaction}
    (h : tx.encoded2718 = system.encoded2718) : tx = .system system := by
  cases tx with
  | ethereum tx =>
    obtain ⟨first, head, ne⟩ := tx.encoded_head?
    change tx.encoded = _ at h
    rw [h] at head
    exact absurd (Option.some.inj head).symm ne
  | system tx => rw [SystemTransaction.encoded2718_injective h]

end EezTxEnvelope

/-- Only the reserved envelope type is a system transaction. -/
def isSystemTx : EezTxEnvelope → Bool
  | .system _ => true
  | .ethereum _ => false

theorem ty_eq_systemTxType_iff (tx : EezTxEnvelope) : tx.ty = systemTxType ↔ isSystemTx tx = true := by
  cases tx with
  | ethereum tx =>
    refine ⟨fun h => ?_, fun h => nomatch h⟩
    change tx.txType.byte = systemTxType at h
    cases hk : tx.txType <;> rw [hk] at h <;> exact absurd h (by decide)
  | system tx => exact ⟨fun _ => rfl, fun _ => rfl⟩

end Eez
