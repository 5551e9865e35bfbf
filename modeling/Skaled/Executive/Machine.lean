import Skaled.Executive.Transaction

/-! # The virtual machine and what it may ask for

Byte code is not interpreted here. A run of the machine on one frame is a tree
of requests to `ExtVM`, branching on the answers, that ends by returning,
reverting or failing; the machine is an arbitrary function from frames to such
trees. What is modelled is everything the requests do: reading and writing the
state, logs, refunds, self-destruction, and the tests `LegacyVM` makes before a
nested call or creation.

Precompiled contracts are parameters of the machine as well. They may look at
the state; the file system they write to is not part of it.
-/

namespace Skaled

/-- `TransactionException`: how the execution of a transaction failed. -/
inductive TransactionException where
  | none
  | unknown
  | outOfGasBase
  | badInstruction
  | badJumpDestination
  | outOfGas
  | outOfStack
  | stackUnderflow
  | revertInstruction
  | addressAlreadyUsed
  | invalidContractDeployer
  deriving DecidableEq, Repr

/-- The exceptions of the virtual machine, `RevertInstruction` apart. -/
inductive VMException where
  | invalidInstruction
  | badInstruction
  | badJumpDestination
  | outOfGas
  | outOfStack
  | stackUnderflow
  | disallowedStateChange
  | bufferOverrun
  | storageOverflow
  | invalidContractDeployer
  deriving DecidableEq, Repr

/-- `toTransactionException` on the exceptions of the virtual machine. -/
def toTransactionException : VMException → TransactionException
  | .badInstruction => .badInstruction
  | .badJumpDestination => .badJumpDestination
  | .outOfGas => .outOfGas
  | .outOfStack => .outOfStack
  | .stackUnderflow => .stackUnderflow
  | .invalidContractDeployer => .invalidContractDeployer
  | .invalidInstruction | .disallowedStateChange | .bufferOverrun | .storageOverflow => .unknown

/-- `evmc_status_code`, as far as it is used. -/
inductive StatusCode where
  | success
  | revert
  | outOfGas
  | undefinedInstruction
  | stackOverflow
  | stackUnderflow
  | badJumpDestination
  | failure
  deriving DecidableEq, Repr

def statusCode : TransactionException → StatusCode
  | .none => .success
  | .revertInstruction => .revert
  | .outOfGas => .outOfGas
  | .badInstruction => .undefinedInstruction
  | .outOfStack => .stackOverflow
  | .stackUnderflow => .stackUnderflow
  | .badJumpDestination => .badJumpDestination
  | .unknown | .outOfGasBase | .addressAlreadyUsed | .invalidContractDeployer => .failure

/-- `SubState`: what a frame adds to its transaction besides the state. -/
structure SubState where
  suicides : List Address := []
  logs : List LogEntry := []
  refunds : Int := 0
  deriving DecidableEq, Repr

/-- `operator+=`. -/
def SubState.accrue (sub child : SubState) : SubState where
  suicides := sub.suicides ∪ child.suicides
  logs := sub.logs ++ child.logs
  refunds := sub.refunds + child.refunds

/-- `ExtVM`: the frame the virtual machine runs in. -/
structure Ext where
  myAddress : Address
  caller : Address
  origin : Address
  value : U256
  gasPrice : U256
  data : Bytes
  code : Bytes
  codeHash : H256
  version : U256
  depth : Nat
  isCreate : Bool
  staticCall : Bool
  readOnly : Bool
  sub : SubState := {}
  deriving DecidableEq, Repr

structure CallParameters where
  senderAddress : Address
  codeAddress : Address
  receiveAddress : Address
  valueTransfer : U256
  apparentValue : U256
  gas : U256
  data : Bytes
  staticCall : Bool := false
  deriving DecidableEq, Repr

/-- `CallResult` and `CreateResult`, with the gas that is left and the substate
the nested frame hands on. -/
structure FrameResult where
  status : StatusCode
  output : Bytes
  newAddress : Address
  gas : U256
  sub : SubState
  deriving DecidableEq, Repr

inductive CallKind where
  | call
  | callCode
  | delegateCall
  | staticCall
  deriving DecidableEq, Repr

/-- The questions to `ExtVM` that are answered with one word. -/
inductive Query where
  | balance (a : Address)
  | accountExists (a : Address)
  | codeSizeAt (a : Address)
  | codeHashAt (a : Address)
  | store (key : U256)
  | originalStorageValue (key : U256)
  | blockHash (number : U256)
  deriving DecidableEq, Repr

/-- A run of the virtual machine: the requests it makes, and how it ends. The
gas of a leaf is what is left of the gas of the frame. A nested call or creation
that is not made is answered with `none`. -/
inductive Prog where
  | returned (gas : U256) (output : Bytes)
  | reverted (gas : U256) (output : Bytes)
  | failed (e : VMException)
  | internalError
  | query (query : Query) (next : U256 → Prog)
  | codeAt (a : Address) (next : Bytes → Prog)
  | setStore (key value : U256) (next : Prog)
  | log (topics : List H256) (data : Bytes) (next : Prog)
  | refund (amount : Int) (next : Prog)
  | suicide (beneficiary : Address) (next : Prog)
  | call (kind : CallKind) (codeAddress : Address) (value gas : U256) (data : Bytes)
      (next : Option FrameResult → Prog)
  | create (salt : Option U256) (endowment gas : U256) (init : Bytes)
      (next : Option FrameResult → Prog)

/-- How a run of the virtual machine ended. -/
inductive Outcome where
  | returned (gas : U256) (output : Bytes)
  | reverted (gas : U256) (output : Bytes)
  | failed (e : VMException)
  deriving DecidableEq, Repr

/-- The virtual machine, the precompiled contracts and the recent block hashes.
`evmSchedule` is the choice of `ExtVM::initEvmSchedule` by account version. -/
structure Machine where
  exec : Ext → U256 → Prog
  evmSchedule : U256 → EVMSchedule
  isPrecompiled : Address → Nat → Bool
  precompiledExecutionAllowedFrom : Address → Address → Bool → Bool
  costOfPrecompiled : Address → Bytes → Nat → Nat
  executePrecompiled : State → Address → Bytes → Nat → Bool × Bytes
  lastHash : U256 → H256

/-- `SystemAddress`, the sender of calls the node makes itself. -/
def systemAddress : Address := BitVec.allOnes 160 - 1

def configControllerContractAddress : Address := 0xD2002000000000000000000000000000000000D2

def addressBytes (a : Address) : Bytes := BigEndian.encode 20 a.toNat

def isAddressWhitelistedCallData (deployer : Address) : Bytes :=
  [0x13, 0xf4, 0x4d, 0x10] ++ List.replicate 12 0 ++ addressBytes deployer

def isDeploymentAllowedCallData (origin deployer : Address) : Bytes :=
  [0xd0, 0xf5, 0x57, 0xf4] ++ List.replicate 12 0 ++ addressBytes origin ++
    List.replicate 12 0 ++ addressBytes deployer

/-- `right160`: the low bytes of a hash. -/
def right160 (hash : H256) : Address := hash.setWidth 160

variable [Keccak]

def createAddress (sender : Address) (nonce : U256) : Address :=
  let items := (0x94 :: addressBytes sender) ++ (Rlp.appendInt nonce.toNat).getD []
  right160 (sha3 ((Rlp.wrapList items).getD []))

def create2Address (sender : Address) (salt : U256) (init : Bytes) : Address :=
  right160 (sha3 ([0xff] ++ addressBytes sender ++ toBigEndian salt ++ toBigEndian (sha3 init)))

namespace Ext

open State (M)

/-- The parameters `caseCallSetup` makes for the four call instructions. -/
def callParameters (ext : Ext) (kind : CallKind) (codeAddress : Address) (value gas : U256)
    (data : Bytes) : CallParameters where
  senderAddress := if kind = .delegateCall then ext.caller else ext.myAddress
  codeAddress
  receiveAddress := if kind = .call ∨ kind = .staticCall then codeAddress else ext.myAddress
  valueTransfer := if kind = .call ∨ kind = .callCode then value else 0
  apparentValue :=
    if kind = .call ∨ kind = .callCode then value
    else if kind = .delegateCall then ext.value else 0
  gas
  data
  staticCall := kind = .staticCall || ext.staticCall

/-- The test of `caseCallSetup` and `caseCreate`. -/
def canTransfer (ext : Ext) (amount : U256) : M Bool := do
  let funds ← State.balance ext.myAddress
  pure (amount ≤ funds && ext.depth < 1024)

def accountExists (machine : Machine) (ext : Ext) (a : Address) : M Bool :=
  if (machine.evmSchedule ext.version).eip158Mode then State.accountNonemptyAndExisting a
  else State.addressInUse a

/-- `ExtVM::blockHash`. From the 256th block after the experimental fork on the
hash is asked from a contract; the transaction made for it has not been checked
for external gas, so that its execution throws. -/
def blockHash (env : EnvInfo) (machine : Machine) (ext : Ext) (number : U256) : M U256 :=
  if env.number ≤ number.toNat ∨ number.toNat < max 256 env.number - 256 then pure 0
  else if env.number < env.chainParams.experimentalForkBlock + 256 then
    pure (machine.lastHash number)
  else do
    let _ ← State.getNonce ext.caller
    throw .externalGasException

/-- The answers to the questions of one word. -/
def ask (env : EnvInfo) (machine : Machine) (ext : Ext) : Query → M U256
  | .balance a => State.balance a
  | .accountExists a => do pure (if ← ext.accountExists machine a then 1 else 0)
  | .codeSizeAt a => do pure (BitVec.ofNat 256 (← State.codeSize a))
  | .codeHashAt a => do
    if ← ext.accountExists machine a then State.codeHash a else pure 0
  | .store key => State.storage ext.myAddress key
  | .originalStorageValue key => State.originalStorageValue ext.myAddress key
  | .blockHash number => ext.blockHash env machine number

/-- `SSTORE`: whether the value was stored. An overflow of the storage limit
becomes an exception of the machine, after the slot was written. -/
def setStore (ext : Ext) (key value : U256) : M Bool :=
  tryCatch
    (do
      State.setStorage ext.myAddress key value
      pure true)
    fun e => if e = .storageOverflow then pure false else throw e

/-- `ExtVM::suicide`, apart from the entry in the substate. -/
def suicide (ext : Ext) (beneficiary : Address) : M Unit := do
  State.addBalance beneficiary (← State.balance ext.myAddress)
  State.setBalance ext.myAddress 0

end Ext

end Skaled
