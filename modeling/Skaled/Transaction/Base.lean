import Skaled.Executive.Transaction
import Skaled.RlpItems

/-! # Transactions as bytes

`TransactionBase`: a legacy, type 1 or type 2 transaction is read from bytes,
written to bytes and hashed. Reading assigns one field after the other, and an
exception leaves the fields that were assigned before it. Bytes that are not a
transaction are kept as they came, by one of two handlers.

Recovering a public key from a signature is outside the model. The cached hash
is left out: it is only ever the hash of the fields.
-/

namespace Skaled

open Rlp

/-- `enum TransactionType`: the three formats. -/
inductive TxType where
  | legacy
  | type1
  | type2
  deriving DecidableEq, Repr

inductive CheckTransaction where
  | none
  | cheap
  | everything
  deriving DecidableEq, Repr

structure SignatureStruct where
  r : H256
  s : H256
  v : UInt8
  deriving DecidableEq, Repr

/-- Public key recovery. `none` is the zero key of a signature that does not
recover. -/
class Secp256k1 where
  recover : SignatureStruct → H256 → Option Bytes

export Secp256k1 (recover)

/-- `s_max`, the order of the curve. -/
def SignatureStruct.max : H256 :=
  0xfffffffffffffffffffffffffffffffebaaedce6af48a03bbfd25e8cd0364141

def SignatureStruct.isValid (vrs : SignatureStruct) : Bool :=
  vrs.v ≤ 1 ∧ 0 < vrs.r ∧ 0 < vrs.s ∧ vrs.r < SignatureStruct.max ∧ vrs.s < SignatureStruct.max

/-- `TransactionBase`. `knownSender` is `m_sender`, the sender once it was
recovered. -/
structure TransactionBase where
  type : TransactionType := .nullTransaction
  txType : TxType := .legacy
  nonce : U256 := 0
  value : U256 := 0
  gasPrice : U256 := 0
  gas : U256 := 0
  receiveAddress : Address := 0
  data : Bytes := []
  rawData : Bytes := []
  accessList : List Bytes := []
  maxPriorityFeePerGas : U256 := 0
  maxFeePerGas : U256 := 0
  chainId : Option (BitVec 64) := none
  vrs : Option SignatureStruct := none
  knownSender : Option Address := none
  deriving DecidableEq, Repr

namespace TransactionBase

section

variable (t : TransactionBase)

def isInvalid : Bool := t.type = .invalid

def hasZeroSignature : Bool :=
  match t.vrs with
  | some vrs => vrs.r = 0 ∧ vrs.s = 0
  | none => false

def isReplayProtected : Bool := t.chainId.isSome

/-! ## Writing -/

/-- A list of fields; an exception in one of them is one of the whole. -/
def streamList (fields : List (Option Bytes)) : Option Bytes := do
  wrapList (← fields.mapM id).flatten

def appendU256 (n : U256) : Option Bytes := appendInt n.toNat

/-- The recipient, or an empty string for a contract creation. -/
def appendRecipient : Option Bytes :=
  if t.type = .messageCall then appendBytes (BigEndian.encode 20 t.receiveAddress.toNat)
  else appendBytes []

def appendChainId : Option Bytes := do appendInt (← t.chainId).toNat

/-- `accessListToRLPs` and the list around it. -/
def appendAccessList : Option Bytes := do
  wrapList (← t.accessList.mapM parse).flatten

def vOffset : Option (BitVec 64) → BitVec 64
  | some chainId => chainId * 2 + 35
  | none => 27

def legacyV (vrs : SignatureStruct) : BitVec 64 :=
  if t.hasZeroSignature then t.chainId.getD 0
  else BitVec.ofNat 64 vrs.v.toNat + vOffset t.chainId

def streamLegacyTransaction (sig forEip155hash : Bool) : Option Bytes :=
  streamList <|
    [appendU256 t.nonce, appendU256 t.gasPrice, appendU256 t.gas, t.appendRecipient,
      appendU256 t.value, appendBytes t.data] ++
    if sig then
      match t.vrs with
      | some vrs => [appendInt (t.legacyV vrs).toNat, appendU256 vrs.r, appendU256 vrs.s]
      | none => [none]
    else if forEip155hash then [t.appendChainId, appendInt 0, appendInt 0]
    else []

/-- The last three fields of a type 1 or type 2 transaction. -/
def typedSignature (sig : Bool) : List (Option Bytes) :=
  if sig then
    match t.vrs with
    | some vrs => [appendInt vrs.v.toNat, appendU256 vrs.r, appendU256 vrs.s]
    | none => [none]
  else []

def streamType1Transaction (sig : Bool) : Option Bytes :=
  streamList <|
    [t.appendChainId, appendU256 t.nonce, appendU256 t.gasPrice, appendU256 t.gas,
      t.appendRecipient, appendU256 t.value, appendBytes t.data, t.appendAccessList] ++
    t.typedSignature sig

def streamType2Transaction (sig : Bool) : Option Bytes :=
  streamList <|
    [t.appendChainId, appendU256 t.nonce, appendU256 t.maxPriorityFeePerGas,
      appendU256 t.maxFeePerGas, appendU256 t.gas, t.appendRecipient, appendU256 t.value,
      appendBytes t.data, t.appendAccessList] ++
    t.typedSignature sig

def streamRLP (sig forEip155hash : Bool) : Option Bytes :=
  match t.type with
  | .invalid => some t.rawData
  | .nullTransaction => some []
  | _ => match t.txType with
    | .legacy => t.streamLegacyTransaction sig forEip155hash
    | .type1 => t.streamType1Transaction sig
    | .type2 => t.streamType2Transaction sig

/-- The byte in front of a transaction that is not a legacy one. -/
def typeByte : TxType → Bytes
  | .legacy => []
  | .type1 => [1]
  | .type2 => [2]

def toBytes : Option Bytes := do
  some (typeByte t.txType ++ (← t.streamRLP true false))

/-- `sha3`. What is hashed of an invalid transaction is the payload of the
bytes that were kept. -/
def sha3 [Keccak] (t : TransactionBase) (sig : Bool) : Option H256 :=
  if t.isInvalid then do
    let input ← payload (← parse t.rawData)
    some (Keccak.sha3 input)
  else do
    let input ← t.streamRLP sig (t.isReplayProtected && !sig)
    some (Keccak.sha3 (typeByte t.txType ++ input))

def right160 (hash : H256) : Address := hash.truncate 160

def sender [Keccak] [Secp256k1] : Option Address :=
  match t.knownSender with
  | some sender => some sender
  | none =>
    if t.isInvalid || t.hasZeroSignature then some maxAddress
    else do
      let p ← recover (← t.vrs) (← t.sha3 false)
      some (right160 (Keccak.sha3 p))

end

/-! ## Reading -/

/-- A program that assigns fields and may throw. -/
abbrev Fill := EStateM Unit TransactionBase

def require {α : Type} : Option α → Fill α
  | some a => pure a
  | none => throw ()

def check (condition : Bool) : Fill Unit := if condition then pure () else throw ()

def fieldInt (maxSize : Nat) (rlp : Bytes) (i : Nat) : Option Nat := do
  toInt maxSize (← item rlp i)

def readU256 (rlp : Bytes) (i : Nat) : Fill U256 := do
  let n ← require (fieldInt 32 rlp i)
  return BitVec.ofNat 256 n

def toRecipient (field : Bytes) : Option Address :=
  if isEmpty field then some 0 else toHash 20 field

def readRecipient (rlp : Bytes) (i : Nat) : Fill Unit := do
  let field ← require (item rlp i)
  check (isData field)
  modify fun t => { t with type := if isEmpty field then .contractCreation else .messageCall }
  let recipient ← require (toRecipient field)
  modify fun t => { t with receiveAddress := recipient }

def readValue (rlp : Bytes) (i : Nat) : Fill Unit := do
  let value ← readU256 rlp i
  modify fun t => { t with value := value }

def readData (rlp : Bytes) (i : Nat) : Fill Unit := do
  let field ← require (item rlp i)
  check (isData field)
  let data ← require (Rlp.toBytes field)
  modify fun t => { t with data := data }

def isAccess (entry : Bytes) : Bool :=
  match toList entry with
  | some [address, keys] => isData address && ((toList keys).map (·.all isData)).getD false
  | _ => false

def maxAccessListCount : Nat := 16

def validateAccessListRLP (data : Bytes) : Option (List Bytes) := do
  let rlpList ← toList data
  if rlpList.all isAccess ∧ rlpList.length ≤ maxAccessListCount then some rlpList else none

def readAccessList (rlp : Bytes) (i : Nat) : Fill Unit := do
  let accessList ← require (do validateAccessListRLP (← item rlp i))
  modify fun t => { t with accessList := accessList }

/-- The chain id in the `v` of a legacy transaction that is signed: `none` when
`v` is none of the known ones. -/
def chainIdOfV (v : U256) : Option (Option (BitVec 64)) :=
  if 36 < v then
    let chainId := (v - 35) / 2
    if 0xffffffffffffffff < chainId then none else some (some (chainId.truncate 64))
  else if v = 27 ∨ v = 28 then some none
  else none

def recoveryId (v : U256) (chainId : Option (BitVec 64)) : UInt8 :=
  match chainId with
  | some chainId => UInt8.ofNat (v - (chainId.setWidth 256 * 2 + 35)).toNat
  | none => UInt8.ofNat (v - 27).toNat

def keepSignature (vrs : SignatureStruct) (checkSig : CheckTransaction) : Fill Unit := do
  modify fun t => { t with vrs := some vrs }
  check (checkSig = .none || vrs.isValid)

/-- A signature that is not all zero. -/
def readSigned (v r s : U256) (checkSig : CheckTransaction) : Fill Unit := do
  let chainId ← require (chainIdOfV v)
  modify fun t => { t with chainId := chainId }
  keepSignature ⟨r, s, recoveryId v chainId⟩ checkSig

def readLegacySignature (rlp : Bytes) (checkSig : CheckTransaction) : Fill Unit := do
  let v ← readU256 rlp 6
  let r ← readU256 rlp 7
  let s ← readU256 rlp 8
  if r = 0 ∧ s = 0 then
    modify fun t => { t with chainId := some (v.truncate 64), vrs := some ⟨r, s, 0⟩ }
  else readSigned v r s checkSig

def readTypedSignature (rlp : Bytes) (i : Nat) (checkSig : CheckTransaction) : Fill Unit := do
  let yParity ← require (fieldInt 1 rlp i)
  let r ← readU256 rlp (i + 1)
  let s ← readU256 rlp (i + 2)
  keepSignature ⟨r, s, if yParity = 0 then 0 else 1⟩ checkSig

section

variable [Keccak] [Secp256k1]

def keepSender : Fill Unit := do
  let t ← get
  let sender ← require t.sender
  modify fun t => { t with knownSender := some sender }

def readSender (checkSig : CheckTransaction) : Fill Unit :=
  if checkSig = .everything then keepSender else pure ()

def checkItemCount (rlp : Bytes) (fields : Nat) : Fill Unit := do
  let count ← require (itemCount rlp)
  check (count ≤ fields)

def readLegacyFields (rlp : Bytes) : Fill Unit := do
  check (isList rlp)
  let nonce ← readU256 rlp 0
  modify fun t => { t with nonce := nonce }
  let gasPrice ← readU256 rlp 1
  modify fun t => { t with gasPrice := gasPrice }
  let gas ← readU256 rlp 2
  modify fun t => { t with gas := gas }
  readRecipient rlp 3
  readValue rlp 4
  readData rlp 5

def readLegacy (rlp : Bytes) (checkSig : CheckTransaction) : Fill Unit := do
  readLegacyFields rlp
  readLegacySignature rlp checkSig
  readSender checkSig
  modify fun t => { t with txType := .legacy }
  checkItemCount rlp 9

def readChainIdAndNonce (rlp : Bytes) : Fill Unit := do
  check (isList rlp)
  let chainId ← readU256 rlp 0
  modify fun t => { t with chainId := some (chainId.truncate 64) }
  let nonce ← readU256 rlp 1
  modify fun t => { t with nonce := nonce }

/-- The fields behind the fees, from the gas limit on. -/
def readTypedRest (rlp : Bytes) (i : Nat) (checkSig : CheckTransaction) : Fill Unit := do
  let gas ← readU256 rlp i
  modify fun t => { t with gas := gas }
  readRecipient rlp (i + 1)
  readValue rlp (i + 2)
  readData rlp (i + 3)
  readAccessList rlp (i + 4)
  readTypedSignature rlp (i + 5) checkSig

def readType1Fields (rlp : Bytes) (checkSig : CheckTransaction) : Fill Unit := do
  readChainIdAndNonce rlp
  let gasPrice ← readU256 rlp 2
  modify fun t => { t with gasPrice := gasPrice }
  readTypedRest rlp 3 checkSig

/-- The comparison of the priority fee is with itself, as in the source. -/
def readType2Fields (rlp : Bytes) (checkSig : CheckTransaction) : Fill Unit := do
  readChainIdAndNonce rlp
  let maxPriorityFeePerGas ← readU256 rlp 2
  modify fun t => { t with maxPriorityFeePerGas := maxPriorityFeePerGas }
  let maxFeePerGas ← readU256 rlp 3
  modify fun t => { t with maxFeePerGas := maxFeePerGas }
  check (¬ maxPriorityFeePerGas > maxPriorityFeePerGas)
  modify fun t => { t with gasPrice := maxFeePerGas }
  readTypedRest rlp 4 checkSig

def readType1 (rlp : Bytes) (checkSig : CheckTransaction) : Fill Unit := do
  readType1Fields rlp checkSig
  modify fun t => { t with txType := .type1 }
  readSender checkSig
  checkItemCount rlp 11

def readType2 (rlp : Bytes) (checkSig : CheckTransaction) : Fill Unit := do
  readType2Fields rlp checkSig
  modify fun t => { t with txType := .type2 }
  readSender checkSig
  checkItemCount rlp 12

/-- The handler of the `try` blocks. It prints the record first, which may
throw again. -/
def keepRaw (rlp rlpData : Bytes) (allowInvalid : Bool) : Fill Unit := do
  require (print rlp)
  modify fun t => { t with type := .invalid, rawData := rlpData }
  check allowInvalid

/-- What the three functions below have in common. -/
def fillFromBytes (read : Bytes → CheckTransaction → Fill Unit) (body rlpData : Bytes)
    (checkSig : CheckTransaction) (allowInvalid : Bool) : Fill Unit := do
  let rlp ← require (parse body)
  tryCatch (read rlp checkSig) fun _ => keepRaw rlp rlpData allowInvalid

def fillFromBytesLegacy (rlpData : Bytes) : CheckTransaction → Bool → Fill Unit :=
  fillFromBytes readLegacy rlpData rlpData

def fillFromBytesType1 (rlpData : Bytes) : CheckTransaction → Bool → Fill Unit :=
  fillFromBytes readType1 (rlpData.drop 1) rlpData

def fillFromBytesType2 (rlpData : Bytes) : CheckTransaction → Bool → Fill Unit :=
  fillFromBytes readType2 (rlpData.drop 1) rlpData

def fillFromBytesByType (rlpData : Bytes) (checkSig : CheckTransaction) (allowInvalid : Bool) :
    TxType → Fill Unit
  | .legacy => fillFromBytesLegacy rlpData checkSig allowInvalid
  | .type1 => fillFromBytesType1 rlpData checkSig allowInvalid
  | .type2 => fillFromBytesType2 rlpData checkSig allowInvalid

def getTransactionType : Bytes → TxType
  | 1 :: _ => .type1
  | 2 :: _ => .type2
  | _ => .legacy

/-- The handler of the constructor: the data becomes a string. -/
def keepString (rlpData : Bytes) (allowInvalid : Bool) : Fill Unit := do
  modify fun t => { t with type := .invalid }
  let raw ← require (appendBytes rlpData)
  modify fun t => { t with rawData := raw }
  check allowInvalid

/-- The `try` block of the constructor. -/
def fillFromData (rlpData : Bytes) (checkSig : CheckTransaction)
    (allowInvalid eip1559Enabled : Bool) : Fill Unit :=
  if eip1559Enabled then
    fillFromBytesByType rlpData checkSig allowInvalid (getTransactionType rlpData)
  else fillFromBytesLegacy rlpData checkSig allowInvalid

/-- The object that was built; `none` when the constructor throws. -/
def built : EStateM.Result Unit TransactionBase Unit → Option TransactionBase
  | .ok _ t => some t
  | .error _ _ => none

def ofBytes (rlpData : Bytes) (checkSig : CheckTransaction) (allowInvalid eip1559Enabled : Bool) :
    Option TransactionBase :=
  let fill := fillFromData rlpData checkSig allowInvalid eip1559Enabled
  built ((tryCatch fill fun _ => keepString rlpData allowInvalid) {})

end

end TransactionBase

def bytesRefFromTransactionRlp (rlp : Bytes) : Option Bytes :=
  if isList rlp then some rlp else payload rlp

end Skaled
