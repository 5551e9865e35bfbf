import Skaled.Rlp

/-! # Accounts

`dev::eth::Account` without the storage root, which the flat state never
reads. Slots that were written are in the overlay, slots that were only read
are cached as originals. `setCode` and `resetCode` leave the changed mark
alone, every other mutator sets it.
-/

namespace Skaled

structure Account where
  isAlive : Bool := false
  isUnchanged : Bool := false
  hasNewCode : Bool := false
  nonce : U256 := 0
  balance : U256 := 0
  codeHash : H256
  version : U256 := 0
  storageOverlay : Map U256 U256 := ∅
  storageOriginal : Map U256 U256 := ∅
  codeCache : Bytes := []
  storageUsed : Int := 0

namespace Account

variable [Keccak]

/-- `Account()`: a dead account, which counts as changed. -/
def dead : Account := { codeHash := emptySHA3 }

def fresh (nonce balance : U256) : Account :=
  { isAlive := true, nonce, balance, codeHash := emptySHA3 }

/-- The account of a record that was read from the database. -/
def loaded (nonce balance : U256) (codeHash : H256) (version : U256) (storageUsed : Int) :
    Account :=
  { isAlive := true, isUnchanged := true, nonce, balance, codeHash, version, storageUsed }

variable (acc : Account)

def isDirty : Bool := !acc.isUnchanged

def isEmpty : Bool := acc.nonce = 0 ∧ acc.balance = 0 ∧ acc.codeHash = emptySHA3

def untouch : Account := { acc with isUnchanged := true }

def kill : Account :=
  { acc with
    isAlive := false, storageOverlay := ∅, codeHash := emptySHA3
    balance := 0, nonce := 0, version := 0, isUnchanged := false }

def addBalance (value : U256) : Account :=
  { acc with balance := acc.balance + value, isUnchanged := false }

def incNonce : Account := { acc with nonce := acc.nonce + 1, isUnchanged := false }

def setNonce (nonce : U256) : Account := { acc with nonce, isUnchanged := false }

def setStorage (key value : U256) : Account :=
  { acc with storageOverlay := acc.storageOverlay.insert key value, isUnchanged := false }

/-- `setStorageCache`: note a value that is already in the database. -/
def setStorageCache (key value : U256) : Account :=
  { acc with storageOriginal := acc.storageOriginal.insert key value }

/-- `setCode`: nothing but the version changes when the hash is the same. -/
def setCode (code : Bytes) (version : U256) : Account :=
  if sha3 code ≠ acc.codeHash then
    { acc with codeCache := code, hasNewCode := true, codeHash := sha3 code, version }
  else { acc with version }

def resetCode : Account :=
  { acc with codeCache := [], hasNewCode := false, codeHash := emptySHA3, version := 0 }

def noteCode (code : Bytes) : Account := { acc with codeCache := code }

def updateStorageUsage (value : Int) : Account :=
  { acc with storageUsed := acc.storageUsed + value, isUnchanged := false }

/-- The record `State::commit` writes: nonce, balance, code hash and used
storage; the version is not stored. -/
def encode : Option Bytes := do
  let nonce ← Rlp.appendInt acc.nonce.toNat
  let balance ← Rlp.appendInt acc.balance.toNat
  let codeHash ← Rlp.appendInt acc.codeHash.toNat
  let storageUsed ← Rlp.appendInt acc.storageUsed
  Rlp.wrapList [nonce, balance, codeHash, storageUsed].flatten

def decode (record : Bytes) : Option Account := do
  let state ← Rlp.parse record
  let nonce ← Rlp.toInt 32 (← Rlp.item state 0)
  let balance ← Rlp.toInt 32 (← Rlp.item state 1)
  let codeHash ← Rlp.toInt 32 (← Rlp.item state 2)
  let storageUsed ← Rlp.toInt 40 (← Rlp.item state 3)
  let versionItem ← Rlp.item state 4
  let version ← if versionItem = [] then some 0 else Rlp.toInt 32 versionItem
  some (loaded (BitVec.ofNat 256 nonce) (BitVec.ofNat 256 balance) (BitVec.ofNat 256 codeHash)
    (BitVec.ofNat 256 version) storageUsed)

end Account

end Skaled
