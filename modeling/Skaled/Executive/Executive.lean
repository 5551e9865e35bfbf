import Skaled.Executive.Machine

/-! # Executing a transaction

`Executive`: a call or creation is set up by `call` or `executeCreate`, which
say whether there is code to run; `go` runs it, asking ConfigController first
when a contract is created, and takes everything back on failure; `finalize`
settles the fees and destroys accounts. `ExtVM::call` and `ExtVM::create` run
a new executive for a nested frame.

The exceptions of the virtual machine are outcomes, the other exceptions are
failures of the program. Frames are nested at most 1025 deep, so that the depth
left is the measure of the recursion. The results that are only reported to the
caller of the node are left out.
-/

namespace Skaled

open State (M)

/-- An executive. A frame that was not started by a transaction has none. -/
structure Executive where
  depth : Nat := 0
  readOnly : Bool := true
  systemGasPrice : U256 := 0
  t : Option Transaction := none
  baseGasRequired : Nat := 0
  gasCost : U256 := 0
  gas : U256 := 0
  excepted : TransactionException := .none
  output : Bytes := []
  ext : Option Ext := none
  isCreation : Bool := false
  newAddress : Address := 0
  savepoint : Nat := 0
  logs : List LogEntry := []
  deriving DecidableEq, Repr

/-- `if ( m_t )`: the executive runs a transaction. -/
def Executive.transaction? (e : Executive) : Option Transaction := e.t.filter (·.isValid)

/-- `ExtVM::call` and `ExtVM::create` for the frames of one depth. -/
structure Nested where
  call : Ext → CallParameters → M FrameResult
  create : Ext → Option U256 → U256 → U256 → Bytes → M FrameResult

/-- What a failure becomes in the catch clauses of `go` at a given depth. -/
def Failure.inGo (depth : Nat) : Failure → Failure
  | .assertionFailed => .assertionFailed
  | .exit deeper branch => .exit deeper branch
  | .internalVMError => .internalVMError
  | .rangeError | .runtimeError => .exit depth .stdException
  | _ => .exit depth .exception

/-- The failures that `catch ( Exception const& )` catches. -/
def Failure.isException : Failure → Bool
  | .assertionFailed | .exit _ _ | .rangeError | .runtimeError => false
  | _ => true

/-- The digits of a byte string in hexadecimal, as `toHex` writes them. -/
def hexDigits (bytes : Bytes) : List Nat :=
  bytes.flatMap fun byte => [byte.toNat / 16, byte.toNat % 16]

/-- `u256( std::string )` on hexadecimal digits without a prefix: a leading zero
means octal, otherwise the number is decimal, and a digit that does not fit
throws. Larger numbers wrap around. -/
def parseU256 : List Nat → Option U256
  | [] => some 0
  | digits@(first :: _) =>
    let radix := if first = 0 then 8 else 10
    if digits.all (· < radix) then
      some (BitVec.ofNat 256 (digits.foldl (fun value digit => value * radix + digit) 0))
    else none

namespace Executive

variable [Keccak] (env : EnvInfo) (machine : Machine) (e : Executive)

/-! ## Setting up a frame -/

def callNonce (sender : Address) : M Unit :=
  if e.transaction?.isSome ∧
      (sender ≠ maxAddress ∨ env.number < env.chainParams.constantinopleForkBlock) then
    State.incNonce sender
  else pure ()

/-- Since EIP 158 a precompiled contract is touched even when the gas does not
suffice, so that it is removed with the other empty accounts. -/
def touchPrecompiled (a : Address) : M Unit :=
  if env.chainParams.eip158ForkBlock ≤ env.number then State.addBalance a 0 else pure ()

/-- The end of the call of a precompiled contract that costs `g`. -/
def settlePrecompiled (p : CallParameters) (g : Nat) : Bool × Bytes → M (Executive × Bool)
  | (success, output) =>
    if success then do
      State.transferBalance p.senderAddress p.receiveAddress p.valueTransfer
      pure ({ e with gas := BitVec.ofNat 256 (p.gas.toNat - g), output }, e.ext.isNone)
    else pure ({ e with gas := 0, output, excepted := .outOfGas }, true)

/-- The call of a precompiled contract. With too little gas, or with a failure,
nothing is transferred. -/
def callPrecompiled (p : CallParameters) : M (Executive × Bool) := do
  let g := machine.costOfPrecompiled p.codeAddress p.data env.number
  if p.gas.toNat < g then do
    touchPrecompiled env p.codeAddress
    pure ({ e with excepted := .outOfGasBase }, true)
  else do
    let result := machine.executePrecompiled (← get) p.codeAddress p.data env.number
    e.settlePrecompiled p g result

/-- The frame for the code of an account, if it has code. -/
def callFrame (p : CallParameters) (gasPrice : U256) (origin : Address) : M (Option Ext) := do
  if ← State.addressHasCode p.codeAddress then do
    let code ← State.code p.codeAddress
    let codeHash ← State.codeHash p.codeAddress
    let version ← State.version p.codeAddress
    State.assert (← State.addressInUse p.receiveAddress)
    pure (some
      { myAddress := p.receiveAddress
        caller := p.senderAddress
        origin
        value := p.apparentValue
        gasPrice
        data := p.data
        code
        codeHash
        version
        depth := e.depth
        isCreate := false
        staticCall := p.staticCall
        readOnly := e.readOnly })
  else pure e.ext

/-- The part of `call` behind the nonce. -/
def enterCall (p : CallParameters) (gasPrice : U256) (origin : Address) : M (Executive × Bool) := do
  let savepoint ← State.savepoint
  if machine.isPrecompiled p.codeAddress env.number ∧
      machine.precompiledExecutionAllowedFrom p.codeAddress p.senderAddress e.readOnly then
    callPrecompiled env machine { e with savepoint } p
  else do
    let ext ← e.callFrame p gasPrice origin
    State.transferBalance p.senderAddress p.receiveAddress p.valueTransfer
    pure ({ e with savepoint, gas := p.gas, ext }, ext.isNone)

/-- `Executive::call`. The second result says that nothing is left to run. -/
def call (p : CallParameters) (gasPrice : U256) (origin : Address) : M (Executive × Bool) := do
  e.callNonce env p.senderAddress
  e.enterCall env machine p gasPrice origin

/-- The executive after `revert`: logs, refunds and self-destructions are gone. -/
def withoutEffects : Executive :=
  { e with newAddress := 0, ext := e.ext.map fun ext => { ext with sub := {} } }

def revert : M Executive := do
  State.rollback env.patches e.savepoint
  pure e.withoutEffects

def noteEvent (event : Event) : M Unit :=
  modify fun s => { s with history := event :: s.history }

def slotsRead (a : Address) (s : State) (key : U256) : U256 :=
  ((State.storage a key s).value?).getD 0

/-- The new account of a creation, with its endowment, its nonce and no slots. -/
def prepareAccount (sender : Address) (endowment : U256) : M Unit := do
  noteEvent (.create e.newAddress e.savepoint)
  State.transferBalance sender e.newAddress endowment
  let startNonce ← State.requireAccountStartNonce
  State.setNonce e.newAddress
    (if env.chainParams.eip158ForkBlock ≤ env.number then startNonce + 1 else startNonce)
  State.clearStorage e.newAddress
  noteEvent (.started e.newAddress (slotsRead e.newAddress (← get)))

def initFrame (sender : Address) (endowment gasPrice : U256) (init : Bytes)
    (origin : Address) (version : U256) : Ext where
  myAddress := e.newAddress
  caller := sender
  origin
  value := endowment
  gasPrice
  data := []
  code := init
  codeHash := sha3 init
  version
  depth := e.depth
  isCreate := true
  staticCall := false
  readOnly := true

/-- The part of `executeCreate` behind the check that the address is free. -/
def createAccount (sender : Address) (endowment gasPrice : U256) (init : Bytes)
    (origin : Address) (version : U256) : M (Executive × Bool) := do
  e.prepareAccount env sender endowment
  if init = [] then do
    State.setCode e.newAddress [] version
    pure (e, true)
  else do
    State.assert (← State.addressInUse e.newAddress)
    pure ({ e with ext := some (e.initFrame sender endowment gasPrice init origin version) }, false)

/-- The nonce of the creator, incremented before the savepoint. -/
def createNonce (sender : Address) : M Unit :=
  if sender ≠ maxAddress ∨ env.number < env.chainParams.experimentalForkBlock then
    State.incNonce sender
  else pure ()

/-- The part of `executeCreate` behind the nonce. -/
def enterCreate (sender : Address) (endowment gasPrice gas : U256)
    (init : Bytes) (origin : Address) (version : U256) : M (Executive × Bool) := do
  let savepoint ← State.savepoint
  let hasCode ← State.addressHasCode e.newAddress
  let nonce ← State.getNonce e.newAddress
  if hasCode ∨ 0 < nonce then do
    let e ← revert env
      { e with
        savepoint
        isCreation := true
        gas := 0
        excepted := .addressAlreadyUsed
        ext := none }
    pure (e, true)
  else
    createAccount env { e with savepoint, isCreation := true, gas } sender endowment gasPrice init
      origin version

def executeCreate (sender : Address) (endowment gasPrice gas : U256)
    (init : Bytes) (origin : Address) (version : U256) : M (Executive × Bool) := do
  createNonce env sender
  e.enterCreate env sender endowment gasPrice gas init origin version

/-- `createOpcode` and, with a salt, `create2Opcode`. -/
def create (salt : Option U256) (sender : Address) (endowment gasPrice gas : U256)
    (init : Bytes) (origin : Address) : M (Executive × Bool) := do
  let newAddress ← match salt with
    | none => do pure (createAddress sender (← State.getNonce sender))
    | some salt => pure (create2Address sender salt init)
  let version ← State.version sender
  executeCreate env { e with newAddress } sender endowment gasPrice gas init origin version

/-! ## Running a frame -/

section

variable (nested : Nested)

/-- The requests of the virtual machine, one after the other. -/
def runProg (ext : Ext) : Prog → SubState → M (Outcome × SubState)
  | .returned gas output, sub => pure (.returned gas output, sub)
  | .reverted gas output, sub => pure (.reverted gas output, sub)
  | .failed e, sub => pure (.failed e, sub)
  | .internalError, _ => throw .internalVMError
  | .query query next, sub => do
    let answer ← ext.ask env machine query
    runProg ext (next answer) sub
  | .codeAt a next, sub => do
    let answer ← State.code a
    runProg ext (next answer) sub
  | .setStore key value next, sub => do
    if ← ext.setStore key value then runProg ext next sub
    else pure (.failed .storageOverflow, sub)
  | .log topics data next, sub =>
    runProg ext next { sub with logs := sub.logs ++ [⟨ext.myAddress, topics, data⟩] }
  | .refund amount next, sub => runProg ext next { sub with refunds := sub.refunds + amount }
  | .suicide beneficiary next, sub => do
    ext.suicide beneficiary
    runProg ext next { sub with suicides := sub.suicides.insert ext.myAddress }
  | .call kind codeAddress value gas data next, sub => do
    let p := ext.callParameters kind codeAddress value gas data
    if ← ext.canTransfer p.valueTransfer then do
      let result ← nested.call ext p
      runProg ext (next (some result)) (sub.accrue result.sub)
    else runProg ext (next none) sub
  | .create salt endowment gas init next, sub => do
    if ← ext.canTransfer endowment then do
      let result ← nested.create ext salt endowment gas init
      runProg ext (next (some result)) (sub.accrue result.sub)
    else runProg ext (next none) sub

/-- The question to ConfigController. -/
def deploymentParameters (ext : Ext) (gas : U256) : CallParameters where
  senderAddress := systemAddress
  codeAddress := configControllerContractAddress
  receiveAddress := configControllerContractAddress
  valueTransfer := 0
  apparentValue := 0
  gas
  data :=
    if env.patches.flexibleDeployment then isDeploymentAllowedCallData ext.origin ext.caller
    else isAddressWhitelistedCallData ext.caller

/-- What the answer of ConfigController means. Only one that reads as zero denies
the deployment. -/
def deploymentAnswer (ext : Ext) (result : FrameResult) : M (Bool × SubState) :=
  match parseU256 (hexDigits result.output) with
  | none => throw .runtimeError
  | some answer => pure (hexDigits result.output = [] ∨ answer ≠ 0, ext.sub.accrue result.sub)

/-- The check in `go` whether a deployment is allowed. -/
def deploymentAllowed (ext : Ext) (gas : U256) : M (Bool × SubState) := do
  let result ← nested.call ext (deploymentParameters env ext gas)
  deploymentAnswer ext result

/-- The end of a creation in `go`: the code is paid for and stored. -/
def depositCode (ext : Ext) (gas : U256) (out : Bytes) : M Outcome := do
  let schedule := machine.evmSchedule ext.version
  let deposit := out.length * schedule.createDataGas
  if schedule.maxCodeSize < out.length then pure (.failed .outOfGas)
  else if deposit ≤ gas.toNat then do
    State.setCode ext.myAddress out ext.version
    pure (.returned (gas - BitVec.ofNat 256 deposit) [])
  else if schedule.exceptionalFailedCodeDeposit then pure (.failed .outOfGas)
  else do
    State.setCode ext.myAddress [] ext.version
    pure (.returned gas [])

/-- The body of `go` for a creation. -/
def runInit (ext : Ext) (gas : U256) : M (Outcome × SubState) := do
  let (allowed, sub) ← deploymentAllowed env nested ext gas
  if allowed then do
    let (outcome, sub) ← runProg env machine nested ext (machine.exec ext gas) sub
    match outcome with
    | .returned gas out => do pure (← depositCode machine ext gas out, sub)
    | outcome => pure (outcome, sub)
  else pure (.failed .invalidContractDeployer, sub)

/-- The body of `go`. -/
def runFrame (e : Executive) (ext : Ext) : M (Outcome × SubState) :=
  if e.isCreation then runInit env machine nested ext e.gas
  else runProg env machine nested ext (machine.exec ext e.gas) ext.sub

/-- The catch clauses of `go` for exceptions that are not outcomes. -/
def unexpected {α : Type} (failure : Failure) : M α :=
  if failure = .internalVMError then do
    State.rollback env.patches e.savepoint
    throw .internalVMError
  else throw (failure.inGo e.depth)

/-- How `go` ends: a revert keeps the gas that is left, another exception takes
it all. -/
def conclude : Outcome → M Executive
  | .returned gas output => pure { e with gas, output := if e.isCreation then e.output else output }
  | .reverted gas output => do
    let e ← revert env e
    pure { e with gas, output, excepted := .revertInstruction }
  | .failed exception => do
    let e ← revert env e
    pure { e with gas := 0, excepted := toTransactionException exception }

def go (e : Executive) : M Executive :=
  match e.ext with
  | none => pure e
  | some ext => do
    let (outcome, sub) ← tryCatch (runFrame env machine nested e ext) (e.unexpected env)
    conclude env { e with ext := some { ext with sub } } outcome

/-- Run what is left to run. -/
def goUnless (e : Executive) (done : Bool) : M Executive :=
  if done then pure e else go env machine nested e

/-- What `ExtVM::call` and `ExtVM::create` answer. -/
def answered (done : Bool) (e : Executive) : FrameResult where
  status := statusCode e.excepted
  output := e.output
  newAddress := e.newAddress
  gas := e.gas
  sub := if done then {} else (e.ext.map (·.sub)).getD {}

/-- The end of `ExtVM::call` and `ExtVM::create`. -/
def frameResult (e : Executive) (done : Bool) : M FrameResult := do
  let e' ← goUnless env machine nested e done
  pure (e'.answered done)

end

/-- `ExtVM::call` and `ExtVM::create` above `levels` nested frames. The depth
test of the machine keeps the lowest frames from being asked for more. -/
def nested : Nat → Nested
  | 0 => ⟨fun _ _ => throw .assertionFailed, fun _ _ _ _ _ => throw .assertionFailed⟩
  | levels + 1 =>
    { call := fun ext p => do
        let (e, done) ← call env machine { depth := ext.depth + 1, readOnly := ext.readOnly } p
          ext.gasPrice ext.origin
        frameResult env machine (nested levels) e done
      create := fun ext salt endowment gas init => do
        let (e, done) ← create env { depth := ext.depth + 1 } salt ext.myAddress endowment
          ext.gasPrice gas init ext.origin
        frameResult env machine (nested levels) e done }

/-- `goUnless` with the frames that can be nested below the executive. -/
def runGo (done : Bool) : M Executive :=
  goUnless env machine (nested env machine (1025 - e.depth)) e done

/-! ## Transactions -/

def initializeFor (t : Transaction) : M Executive := do
  verifyTransaction env t e.systemGasPrice false
  pure { e with
    t := some t
    baseGasRequired := t.baseGasRequired env.evmSchedule
    gasCost := BitVec.ofNat 256 (t.gas.toNat * t.gasPrice.toNat) }

/-- The first part of `execute`: pay for the gas. -/
def payForGas (t : Transaction) : M Unit :=
  match t.hasExternalGas with
  | .error failure => throw failure
  | .ok true => pure ()
  | .ok false => State.subBalance t.sender e.gasCost

/-- The call that a transaction asks for. -/
def messageCall (t : Transaction) (gas : U256) : CallParameters where
  senderAddress := t.sender
  codeAddress := t.receiveAddress
  receiveAddress := t.receiveAddress
  valueTransfer := t.value
  apparentValue := t.value
  gas
  data := t.data

def execute (t : Transaction) : M (Executive × Bool) := do
  e.payForGas t
  State.assert (e.baseGasRequired ≤ t.gas.toNat)
  let gas := t.gas - BitVec.ofNat 256 e.baseGasRequired
  if t.isCreation then create env e none t.sender t.value t.gasPrice gas t.data t.sender
  else call env machine e (messageCall t gas) t.gasPrice t.sender

/-- The conversion of a 256-bit number to `int64_t`, which saturates. -/
def toInt64 (word : U256) : Int := min word.toNat (2 ^ 63 - 1)

/-- The refunds at the start of `finalize`. -/
def refund (t : Transaction) : M Executive :=
  match e.ext with
  | none => pure e
  | some ext => do
    let refunds := ext.sub.refunds +
      (machine.evmSchedule ext.version).suicideRefundGas * ext.sub.suicides.length
    State.assert (0 ≤ refunds)
    let maxRefund := (toInt64 t.gas - toInt64 e.gas).tdiv 2
    pure { e with gas := e.gas + BitVec.ofInt 256 (min maxRefund refunds) }

/-- The fees in `finalize`: the gas that is left goes back to the sender, the
rest to the author of the block. -/
def payFees (t : Transaction) : M Unit := do
  State.addBalance t.sender (e.gas * t.gasPrice)
  State.addBalance env.author ((t.gas - e.gas) * t.gasPrice)

def finalize (t : Transaction) : M Executive := do
  let e ← e.refund machine t
  if e.transaction?.isSome then e.payFees env t
  let sub := (e.ext.map (·.sub)).getD {}
  sub.suicides.forM State.kill
  pure { e with logs := sub.logs }

def gasUsed (t : Transaction) : U256 := t.gas - e.gas

end Executive

namespace State

variable [Keccak] (env : EnvInfo) (machine : Machine)

/-- The body of `executeTransaction`. -/
def runTransaction (e : Executive) (t : Transaction) : M Executive := do
  let e ← e.initializeFor env t
  let (e, done) ← e.execute env machine t
  let e ← e.runGo env machine done
  e.finalize env machine t

/-- `State::executeTransaction`: an exception takes the transaction back. -/
def executeTransaction (e : Executive) (t : Transaction) : M Executive := do
  let savept ← savepoint
  tryCatch (runTransaction env machine e t) fun failure => do
    if failure.isException then rollback env.patches savept
    throw failure

/-- `txnsToSkipExecution`, with the gas these transactions are said to have
used. -/
def txnsToSkipExecution : List ((Nat × H256) × Nat) :=
  [((1020352220, 0x3464b9a165a29fde2ce644882e82d99edbff5f530413f6cc18b26bf97e6478fb), 40729),
    ((1482601649, 0xd3f25440b752f4ad048b618554f71cec08a73af7bf88b6a7d55581f3a792d823), 32151),
    ((974399131, 0xfcd7ecb7c359af0a93a02e5d84957e0c6f90da4584c058e9c5e988b27a237693), 23700),
    ((1482601649, 0x6f2074cfe73a258c049ac2222101b7020461c2d40dcd5ab9587d5bbdd13e4c68), 55293),
    ((21, 0x95fb5557db8cc6de0aff3a64c18a6d9378b0d312b24f5d77e8dbf5cc0612d74f), 23232)]

def gasUsedForSkippedTransaction (chainId : Nat) (hash : H256) : Option Nat :=
  txnsToSkipExecution.lookup (chainId, hash)

def ifShouldSkipExecution (chainId : Nat) (hash : H256) : Bool :=
  (gasUsedForSkippedTransaction chainId hash).isSome

inductive Permanence where
  | reverted
  | committed
  | committedWithoutState
  | uncommitted
  deriving DecidableEq, Repr

/-- The first part of `State::execute`. The transactions of the list are not
run: they pay for their gas, use their nonce and transfer their value. -/
def executeOrSkip (t : Transaction) (permanence : Permanence) : M (Executive × Bool) := do
  let e : Executive := { readOnly := permanence ≠ .committed }
  if permanence = .committed ∧ ifShouldSkipExecution env.chainParams.chainID t.hash then do
    let e ← e.initializeFor env t
    let (e, _) ← e.execute env machine t
    pure (e, false)
  else do
    let e ← executeTransaction env machine e t
    pure (e, e.excepted = .none)

/-- The receipt `State::execute` makes. -/
def receipt (t : Transaction) (e : Executive) (statusCode : Bool) : TransactionReceipt :=
  match gasUsedForSkippedTransaction env.chainParams.chainID t.hash with
  | some gasUsed =>
    { statusCodeOrStateRoot := .inl statusCode
      gasUsed := env.gasUsed + BitVec.ofNat 256 gasUsed
      log := e.logs }
  | none =>
    { statusCodeOrStateRoot :=
        if env.chainParams.byzantiumForkBlock ≤ env.number then .inl statusCode else .inr 0
      gasUsed := env.gasUsed + e.gasUsed t
      log := e.logs }

/-- The end of `State::execute` for a transaction that is committed. -/
def closeCommitted (t : Transaction) (e : Executive) (statusCode : Bool) : M Unit := do
  closeAccounts t.sender
  modify fun s => { s with
    db := (s.db.setLastExecutedTransactionHash t.hash).addReceiptToPartials
      (receipt env t e statusCode) }
  commit env.patches
    (if env.chainParams.eip158ForkBlock ≤ env.number then .removeEmptyAccounts
    else .keepEmptyAccounts)

def execute (t : Transaction) (permanence : Permanence) : M Executive := do
  let (e, statusCode) ← executeOrSkip env machine t permanence
  match permanence with
  | .reverted | .committedWithoutState => do
    resetStorageChanges
    modify fun s => { s with cache := ∅ }
  | .committed => closeCommitted env t e statusCode
  | .uncommitted => resetStorageChanges
  pure e

end State

end Skaled
