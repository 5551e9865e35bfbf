import Skaled.State.State

/-! # Transactions and their verification

`Transaction` with the gas it may bring from proof of work, the parameters of
the chain and the block that execution reads, and the checks a transaction has
to pass before it runs: `SealEngineFace::verifyTransaction` and
`Executive::verifyTransaction`.

Signatures are recovered outside the model: the sender of a transaction is a
field of it.
-/

namespace Skaled

inductive TransactionType where
  | nullTransaction
  | contractCreation
  | messageCall
  | invalid
  deriving DecidableEq, Repr

structure Signature where
  r : U256
  s : U256
  deriving DecidableEq, Repr

/-- A transaction. `externalGas` is empty until `checkOutExternalGas` has run;
then it holds the gas that was mined, if any. `hash` is `sha3()`. -/
structure Transaction where
  type : TransactionType := .messageCall
  nonce : U256 := 0
  value : U256 := 0
  ownGasPrice : U256 := 0
  nonPowGas : U256 := 0
  receiveAddress : Address := 0
  data : Bytes := []
  sender : Address := 0
  signature : Option Signature := none
  chainId : Option Nat := none
  externalGas : Option (Option U256) := some none
  hash : H256 := 0
  deriving DecidableEq, Repr

structure EVMSchedule where
  txGas : Nat := 21000
  txCreateGas : Nat := 53000
  txDataZeroGas : Nat := 4
  txDataNonZeroGas : Nat := 68
  createDataGas : Nat := 200
  suicideRefundGas : Nat := 24000
  maxCodeSize : Nat := 2 ^ 32 - 1
  exceptionalFailedCodeDeposit : Bool := true
  eip158Mode : Bool := false
  deriving DecidableEq, Repr

/-- `ChainOperationParams`, as far as execution depends on it. -/
structure ChainParams where
  chainID : Nat := 0
  skaleDisableChainIdCheck : Bool := false
  homesteadForkBlock : Nat := 0
  eip158ForkBlock : Nat := 0
  byzantiumForkBlock : Nat := 0
  constantinopleForkBlock : Nat := 0
  experimentalForkBlock : Nat := 0
  deriving DecidableEq, Repr

/-- `EnvInfo`: the block in which transactions run, with the patches and the gas
prices that hold in it. -/
structure EnvInfo where
  number : Nat := 0
  author : Address := 0
  gasLimit : U256 := 0
  gasUsed : U256 := 0
  chainParams : ChainParams := {}
  patches : Patches
  evmSchedule : EVMSchedule := {}
  deriving DecidableEq, Repr

namespace Transaction

/-- `operator bool`. -/
def isValid (t : Transaction) : Bool := t.type ≠ .nullTransaction ∧ t.type ≠ .invalid

def isInvalid (t : Transaction) : Bool := t.type = .invalid

def isCreation (t : Transaction) : Bool := t.type = .contractCreation

def hasSignature (t : Transaction) : Bool := t.signature.isSome

def hasZeroSignature (t : Transaction) : Bool :=
  match t.signature with
  | some vrs => vrs.r = 0 ∧ vrs.s = 0
  | none => false

def isReplayProtected (t : Transaction) : Bool := t.chainId.isSome

/-- `hasExternalGas`, which throws before the gas has been checked. -/
def hasExternalGas (t : Transaction) : Except Failure Bool :=
  match t.externalGas with
  | none => .error .externalGasException
  | some mined => .ok mined.isSome

def getExternalGas (t : Transaction) : U256 :=
  match t.externalGas with
  | some (some mined) => mined
  | _ => 0

def gas (t : Transaction) : U256 :=
  if t.getExternalGas ≠ 0 then t.getExternalGas else t.nonPowGas

/-- `Transaction::gasPrice`: mined gas costs nothing. -/
def gasPrice (t : Transaction) : U256 :=
  match t.externalGas with
  | some (some _) => 0
  | _ => t.ownGasPrice

def baseGasRequired (t : Transaction) (schedule : EVMSchedule) : Nat :=
  t.data.foldl
    (fun g byte => g + if byte ≠ 0 then schedule.txDataNonZeroGas else schedule.txDataZeroGas)
    (if t.isCreation then schedule.txCreateGas else schedule.txGas)

end Transaction

/-! ## Verification -/

def secp256k1n : U256 :=
  115792089237316195423570985008687907852837564279074904382605163141518161494337

open State (M)

def require (condition : Bool) (e : Failure) : M Unit :=
  if condition then pure () else throw e

def Transaction.isLowS (t : Transaction) : Bool :=
  t.signature.all fun vrs => vrs.s ≤ secp256k1n / 2

def checkChainId (applies : Bool) (chainId : Option Nat) (expected : Nat) (disabled : Bool) :
    M Unit := do
  require (!applies || disabled || chainId.isSome) .invalidTransactionFormat
  require (!applies || chainId.all (· = expected)) .invalidSignature

/-- `SealEngineFace::verifyTransaction`, with all import requirements. The gas
price it looks at is the one written in the transaction. -/
def sealVerifyTransaction (env : EnvInfo) (t : Transaction) : M Unit := do
  let params := env.chainParams
  let gas := if env.patches.powCheck then t.gas else t.nonPowGas
  require (!(env.number < params.eip158ForkBlock && t.isReplayProtected)) .invalidSignature
  require (!(env.number < params.experimentalForkBlock && t.hasZeroSignature)) .invalidSignature
  require (!(params.experimentalForkBlock ≤ env.number && t.hasZeroSignature &&
    (t.value ≠ 0 || t.ownGasPrice ≠ 0 || t.nonce ≠ 0))) .invalidZeroSignatureTransaction
  require (!(params.homesteadForkBlock ≤ env.number && t.hasSignature) || t.isLowS)
    .invalidSignature
  require (t.baseGasRequired env.evmSchedule ≤ gas.toNat) .outOfGasIntrinsic
  require (env.gasUsed.toNat + gas.toNat ≤ env.gasLimit.toNat) .blockGasLimitReached
  checkChainId (params.eip158ForkBlock ≤ env.number) t.chainId params.chainID
    params.skaleDisableChainIdCheck

variable [Keccak]

/-- The nonce check of `verifyTransaction`; a call without a signature has no
nonce to check. -/
def verifyNonce (t : Transaction) (allowFuture : Bool) : M Unit := do
  if t.hasSignature then
    let nonceReq ← State.getNonce t.sender
    require (!((t.nonce ≠ nonceReq && !allowFuture) || (t.nonce < nonceReq && allowFuture)))
      .invalidNonce

/-- The check that the sender can pay. The product of gas and gas price is one
of 256-bit numbers, widened afterwards. -/
def verifyCash (t : Transaction) (external : Bool) : M Unit := do
  let gasCost := if external then 0 else (t.gas * t.gasPrice).toNat
  let totalCost := t.value.toNat + gasCost
  let senderBalance ← State.balance t.sender
  require (totalCost ≤ senderBalance.toNat) .notEnoughCash

def verifyTransaction (env : EnvInfo) (t : Transaction) (gasPrice : U256)
    (allowFuture : Bool) : M Unit := do
  let external ← match t.hasExternalGas with
    | .ok external => pure external
    | .error e => throw e
  State.assert (!t.isInvalid)
  require (external || gasPrice ≤ t.gasPrice) .gasPriceTooLow
  sealVerifyTransaction env t
  if t.hasZeroSignature then pure ()
  else do
    verifyNonce t allowFuture
    verifyCash t external

end Skaled
