import Mathlib.Data.List.AList
import Mathlib.Data.BitVec
import Skaled.Lib.BigEndian

/-! # Words, addresses, hashes and patches

The fixed-width types of the node. `u256` and `h256` convert into each other
byte for byte in the source, so both are 256-bit vectors here; `s256` storage
counters stay far below their 256 bits and are integers.
-/

namespace Skaled

abbrev U256 := BitVec 256
abbrev H256 := BitVec 256
abbrev Address := BitVec 160
abbrev Bytes := List UInt8

instance lawfulAddress : LawfulBEq Address := inferInstance

instance finiteBitVec (width : Nat) : Finite (BitVec width) :=
  Finite.of_injective BitVec.toFin fun _ _ heq => BitVec.eq_of_toFin_eq heq

/-- Finite maps in iteration order, for the hash maps of the source. -/
abbrev Map (Key Value : Type) := AList (fun _ : Key => Value)

/-- Keccak-256. The hash function itself is not part of the model. -/
class Keccak where
  sha3 : Bytes → H256

export Keccak (sha3)

def emptySHA3 [Keccak] : H256 := sha3 []

/-- `MaxAddress`, the sender of transactions with a zero signature. -/
def maxAddress : Address := BitVec.allOnes 160

/-- `Invalid256`, the start nonce of a state that was not told one. -/
def invalid256 : U256 := BitVec.allOnes 256

def toBigEndian (word : U256) : Bytes := BigEndian.encode 32 word.toNat

/-- The patches that are active in the working block, or for the timestamp of
the last committed block. Both are decided once per block. -/
structure Patches where
  contractStorage : Bool
  storageDestruction : Bool
  contractStorageZeroValue : Bool
  flexibleDeployment : Bool
  powCheck : Bool
  skipInvalidTransactions : Bool
  deriving DecidableEq, Repr

end Skaled
