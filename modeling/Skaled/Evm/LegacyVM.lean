import Skaled.Evm.Instruction
import Skaled.Executive.Watched

/-! # The interpreter

`LegacyVM`. An instruction is taken in the phases that the cases of
`interpretCases` have in common: `fetchInstruction` checks the stack, `reject`
throws what does not depend on gas, `inquire` asks `ExtVM` for what the price
depends on, `meter` computes the price and charges it, and `perform` acts. The
cases that call out are `caseCreate` and `caseCall`.

Gas and sizes are `uint64_t` in the source; they are numbers here, and sums and
products of them are taken modulo 2 ^ 64. The stack is a list with its top first.
-/

namespace Skaled

/-- What the interpreter reads of the block it runs in. -/
structure BlockWords where
  number : Nat
  author : Address
  timestamp : U256
  difficulty : U256
  gasLimit : U256
  chainID : U256
  deriving DecidableEq, Repr

/-- The switches of `LegacyVMConfig.h`. -/
structure VMConfig where
  replaceConstJump : Bool := true
  useConstantPool : Bool := true
  deriving DecidableEq, Repr

/-- The interpreter. `callGas` is the gas in the parameters of the call that is
being made. -/
structure LegacyVM where
  ext : Ext
  block : BlockWords
  schedule : VMSchedule
  code : Bytes := []
  pool : List U256 := []
  jumpDests : List Nat := []
  pc : Nat := 0
  stack : List U256 := []
  mem : Bytes := []
  ioGas : Nat := 0
  runGas : Nat := 0
  newMemSize : Nat := 0
  copyMemSize : Nat := 0
  returnData : Bytes := []
  callGas : U256 := 0
  deriving DecidableEq, Repr

/-- Arithmetic of `uint64_t` and of `unsigned`. -/
def u64 (n : Nat) : Nat := n % 2 ^ 64
def u32 (n : Nat) : Nat := n % 2 ^ 32

def asAddress (word : U256) : Address := right160 word
def fromAddress (a : Address) : U256 := a.setWidth 256

def wordAt (bytes : Bytes) (offset : Nat) : U256 :=
  BitVec.ofNat 256 (BigEndian.decode ((bytes.drop offset).take 32))

def overwrite (bytes : Bytes) (offset : Nat) (new : Bytes) : Bytes :=
  bytes.take offset ++ new ++ bytes.drop (offset + new.length)

namespace LegacyVM

/-! ## Preparing the code -/

def verifyJumpDest (jumpDests : List Nat) (dest : U256) : Bool :=
  dest.toNat ≤ 2 ^ 63 - 1 ∧ dest.toNat ∈ jumpDests

/-- The first loop of `optimize`: collect the jump destinations, and take
synthetic instructions out of the code. -/
def findJumpDests (nBytes : Nat) : Nat → Nat → Bytes → List Nat → Bytes × List Nat
  | 0, _, code, jumpDests => (code, jumpDests)
  | fuel + 1, pc, code, jumpDests =>
    if pc < nBytes then
      let op := (code.getD pc 0).toNat
      let code := if op = 0xac ∨ op = 0xad ∨ op = 0xae then code.set pc 0xfe else code
      if op = 0x5b then findJumpDests nBytes fuel (pc + 1) code (jumpDests ++ [pc])
      else if 0x60 ≤ op ∧ op ≤ 0x7f then
        findJumpDests nBytes fuel (pc + (op - 0x5f) + 1) code jumpDests
      else findJumpDests nBytes fuel (pc + 1) code jumpDests
    else (code, jumpDests)

/-- Move a pushed constant into the pool. The offset has 16 bits. -/
def poolConstant (pc nPush : Nat) (value : U256) (code : Bytes) (pool : List U256) :
    Bytes × List U256 :=
  let offset := pool.length % 2 ^ 16
  ((((code.set pc 0xac).set (pc + 3) (UInt8.ofNat (nPush - 2))).set (pc + 2)
    (UInt8.ofNat (offset % 256))).set (pc + 1) (UInt8.ofNat (offset / 256)), pool ++ [value])

/-- Replace a jump to a constant that is a destination. -/
def constJump (jumpDests : List Nat) (i : Nat) (value : U256) (code : Bytes) : Bytes :=
  if verifyJumpDest jumpDests value then
    if code.getD i 0 = 0x56 then code.set i 0xad
    else if code.getD i 0 = 0x57 then code.set i 0xae
    else code
  else code

/-- The second loop of `optimize`. -/
def foldConstants (config : VMConfig) (jumpDests : List Nat) (nBytes : Nat) :
    Nat → Nat → Bytes → List U256 → Bytes × List U256
  | 0, _, code, pool => (code, pool)
  | fuel + 1, pc, code, pool =>
    if pc < nBytes then
      let op := (code.getD pc 0).toNat
      if 0x60 ≤ op ∧ op ≤ 0x7f then
        let nPush := op - 0x5f
        let value := BitVec.ofNat 256 (BigEndian.decode ((code.drop (pc + 1)).take nPush))
        let (code, pool) :=
          if config.useConstantPool ∧ 5 < nPush then poolConstant pc nPush value code pool
          else (code, pool)
        let code :=
          if config.replaceConstJump then constJump jumpDests (pc + nPush + 1) value code
          else code
        foldConstants config jumpDests nBytes fuel (pc + nPush + 1) code pool
      else foldConstants config jumpDests nBytes fuel (pc + 1) code pool
    else (code, pool)

def optimize (config : VMConfig) (vm : LegacyVM) : LegacyVM :=
  let nBytes := vm.ext.code.length
  let (code, jumpDests) :=
    findJumpDests nBytes nBytes 0 (vm.ext.code ++ List.replicate 33 0) []
  let (code, pool) := foldConstants config jumpDests nBytes nBytes 0 code []
  { vm with code, jumpDests, pool }

/-! ## Metering -/

section

variable (vm : LegacyVM)

def sp (i : Nat) : U256 := vm.stack.getD i 0

def replace (args : Nat) (results : List U256) : LegacyVM :=
  { vm with stack := results ++ vm.stack.drop args }

def toInt63 (v : Nat) : Except VMException Nat :=
  if 0x7FFFFFFFFFFFFFFF < v then .error .outOfGas else .ok v

def memNeed (offset size : U256) : Except VMException Nat :=
  toInt63 (if size ≠ 0 then offset.toNat + size.toNat else 0)

def gasForMem (schedule : VMSchedule) (size : Nat) : Except VMException Nat :=
  let s := size / 32
  toInt63 (schedule.memoryGas * s + s * s / schedule.quadCoeffDiv)

def updateIOGas : Except VMException LegacyVM :=
  if vm.ioGas < vm.runGas then .error .outOfGas
  else .ok { vm with ioGas := vm.ioGas - vm.runGas }

/-- The first addition in `updateGas`. -/
def addMemoryGas : Except VMException LegacyVM :=
  if vm.mem.length < vm.newMemSize then do
    let after ← gasForMem vm.schedule vm.newMemSize
    let before ← gasForMem vm.schedule vm.mem.length
    let more ← toInt63 (u64 (after + (2 ^ 64 - before)))
    pure { vm with runGas := u64 (vm.runGas + more) }
  else pure vm

/-- The second addition in `updateGas`. -/
def addCopyGas : LegacyVM :=
  { vm with
    runGas := u64 (vm.runGas + u64 (vm.schedule.copyGas * (u64 (vm.copyMemSize + 31) / 32))) }

def updateGas : Except VMException LegacyVM := do
  let vm ← vm.addMemoryGas
  let vm := vm.addCopyGas
  if vm.ioGas < vm.runGas then .error .outOfGas else pure vm

/-- The memory, at least as large as the new size. -/
def resized : Bytes :=
  vm.mem ++ List.replicate (vm.newMemSize - vm.mem.length) 0

def updateMem (newMem : Nat) : Except VMException LegacyVM := do
  let vm ← { vm with newMemSize := u64 (u64 (newMem + 31) / 32 * 32) }.updateGas
  pure { vm with mem := vm.resized }

/-- Charge for memory and pay. -/
def payMem (newMem : Nat) : Except VMException LegacyVM := do
  let vm ← vm.updateMem newMem
  vm.updateIOGas

/-- The price that is written into `m_runGas`. -/
def withRunGas (runGas : Nat) : LegacyVM := { vm with runGas }

def adjustStack (removed added : Nat) : Except VMException Unit :=
  if vm.stack.length < removed then .error .stackUnderflow
  else if 1024 < vm.stack.length - removed + added then .error .outOfStack
  else .ok ()

def fetchInstruction : Except VMException (Instruction × LegacyVM) := do
  let op := Instruction.ofOpcode (vm.code.getD vm.pc 0).toNat
  vm.adjustStack op.metric.args op.metric.ret
  let runGas ← toInt63 (vm.schedule.tierStepGas op.metric.gasPriceTier)
  pure (op, { vm with runGas, newMemSize := vm.mem.length, copyMemSize := 0 })

/-! ## What is refused -/

def haveWord (schedule : VMSchedule) : WordOp → Bool
  | .returnDataSize => schedule.haveReturnData
  | .chainId => schedule.haveChainID
  | .push0 => schedule.havePush0
  | _ => true

def haveBinary (schedule : VMSchedule) : BinaryOp → Bool
  | .shl | .shr | .sar => schedule.haveBitwiseShifting
  | _ => true

def haveInstruction (schedule : VMSchedule) : Instruction → Bool
  | .binary op => haveBinary schedule op
  | .word op => haveWord schedule op
  | .lookup .extCodeHash => schedule.haveExtcodehash
  | .selfBalance => schedule.haveSelfbalance
  | .copy .returnData => schedule.haveReturnData
  | .create salted => !salted || schedule.haveCreate2
  | .call .delegateCall => schedule.haveDelegateCall
  | .call .staticCall => schedule.haveStaticCall
  | .revert => schedule.haveRevert
  | .other _ => false
  | _ => true

/-- The instructions that a static call may not run. -/
def changesState : Instruction → Bool
  | .sstore | .log _ | .create _ | .suicide => true
  | .call kind => kind = .call ∧ vm.sp 2 ≠ 0
  | _ => false

/-- What an instruction throws before its price is looked at. -/
def reject (op : Instruction) : Option VMException :=
  if !haveInstruction vm.schedule op then some .badInstruction
  else if vm.ext.staticCall ∧ vm.changesState op then some .disallowedStateChange
  else if op = .copy .returnData ∧
      vm.returnData.length < (vm.sp 1).toNat + (vm.sp 2).toNat then some .bufferOverrun
  else none

/-! ## Prices -/

/-- What `ExtVM` told about the operands of an instruction: whether the account
that gets money exists, the own balance, and the value of a slot now and at the
start of the transaction. -/
structure Answers where
  accountExists : Bool := true
  ownBalance : U256 := 0
  current : U256 := 0
  original : U256 := 0
  deriving DecidableEq, Repr

/-- `m_SP[1]` of the call instructions. -/
def destination : Address := asAddress (vm.sp 1)

/-- Whether the price of a `CALL` depends on the existence of the account. -/
def chargesNewAccount : Bool :=
  0 < vm.sp 2 ∨ vm.schedule.zeroValueTransferChargesNewAccountGas

/-- The questions an instruction asks before it is metered. -/
def inquire (op : Instruction) (next : Answers → Script) : Script :=
  match op with
  | .call .call =>
    if vm.chargesNewAccount then
      .query (.accountExists vm.destination) fun answer =>
        next { accountExists := answer ≠ 0 }
    else next {}
  | .suicide =>
    if !vm.schedule.eip150Mode then next {}
    else if !vm.schedule.eip158Mode then
      .query (.accountExists (asAddress (vm.sp 0))) fun answer =>
        next { accountExists := answer ≠ 0 }
    else .query (.balance vm.ext.myAddress) fun ownBalance =>
      if 0 < ownBalance then
        .query (.accountExists (asAddress (vm.sp 0))) fun answer =>
          next { accountExists := answer ≠ 0, ownBalance }
      else next { ownBalance }
  | .sstore =>
    .query (.store (vm.sp 0)) fun current =>
      if vm.schedule.eip1283Mode ∧ current ≠ vm.sp 1 then
        .query (.originalStorageValue (vm.sp 0)) fun original => next { current, original }
      else next { current }
  | _ => next {}

/-- `updateSSGasPreEIP1283`: the price and the refund. -/
def ssGasPreEIP1283 (schedule : VMSchedule) (current new : U256) : Nat × Int :=
  if current = 0 ∧ new ≠ 0 then (schedule.sstoreSetGas, 0)
  else if current ≠ 0 ∧ new = 0 then (schedule.sstoreResetGas, schedule.sstoreRefundGas)
  else (schedule.sstoreResetGas, 0)

/-- The refunds of a slot that was written before in the transaction. -/
def refundEIP1283 (schedule : VMSchedule) (current original new : U256) : Int :=
  (if original ≠ 0 then
    (if current = 0 then -(schedule.sstoreRefundGas : Int) else 0) +
      if new = 0 then schedule.sstoreRefundGas else 0
  else 0) +
  if original = new then
    if original = 0 then ((schedule.sstoreRefundGas + schedule.sstoreRefundNonzeroGas : Nat) : Int)
    else schedule.sstoreRefundNonzeroGas
  else 0

def ssGasEIP1283 (schedule : VMSchedule) (current original new : U256) : Nat × Int :=
  if current = new then (schedule.sstoreUnchangedGas, 0)
  else if original = current then
    if original = 0 then (schedule.sstoreSetGas, 0)
    else (schedule.sstoreResetGas, if new = 0 then schedule.sstoreRefundGas else 0)
  else (schedule.sstoreUnchangedGas, refundEIP1283 schedule current original new)

def ssGas (answers : Answers) : Nat × Int :=
  if vm.schedule.eip1283Mode then
    ssGasEIP1283 vm.schedule answers.current answers.original (vm.sp 1)
  else ssGasPreEIP1283 vm.schedule answers.current (vm.sp 1)

def firstBitSet (word : U256) : Nat := if word = 0 then 256 else 255 - word.toNat.log2

def lookupGas (schedule : VMSchedule) : LookupOp → Nat
  | .balance => schedule.balanceGas
  | .extCodeSize => schedule.extcodesizeGas
  | .extCodeHash => schedule.extcodehashGas
  | .blockHash => schedule.blockhashGas
  | .sload => schedule.sloadGas

def paysNewAccount (answers : Answers) : Bool :=
  vm.schedule.eip150Mode ∧ (!vm.schedule.eip158Mode ∨ 0 < answers.ownBalance) ∧
    !answers.accountExists

/-- The price of a copy instruction before the memory and the bytes. -/
def copyVM (op : CopyOp) (size : Nat) : Except VMException LegacyVM := do
  let runGas ← if op = .extCode then toInt63 vm.schedule.extcodecopyGas else pure vm.runGas
  let copyMemSize ← toInt63 size
  pure { vm with runGas, copyMemSize }

def createHashGas (salted : Bool) : Except VMException Nat :=
  if salted then toInt63 (((vm.sp 2).toNat + 31) / 32 * vm.schedule.sha3WordGas) else pure 0

/-- The first part of `caseCreate`. -/
def meterCreate (salted : Bool) : Except VMException LegacyVM := do
  let createGas ← toInt63 vm.schedule.createGas
  let hashGas ← vm.createHashGas salted
  (vm.withRunGas (u64 (createGas + hashGas))).payMem (← memNeed (vm.sp 1) (vm.sp 2))

/-- The instructions with a value among their operands. -/
def haveValueArg (kind : CallKind) : Bool := kind = .call ∨ kind = .callCode

def transfersValue (kind : CallKind) : Bool := haveValueArg kind ∧ 0 < vm.sp 2

/-- Where the ranges of memory of a call start among the operands. -/
def sizesOffset (kind : CallKind) : Nat := if haveValueArg kind then 3 else 2

/-- The price of a call apart from the gas it gives away. -/
def callRunGas (kind : CallKind) (answers : Answers) : Except VMException Nat := do
  let callGas ← toInt63 vm.schedule.callGas
  let newAccountGas ← if kind = .call ∧ vm.chargesNewAccount ∧ !answers.accountExists then
      toInt63 vm.schedule.callNewAccountGas
    else pure 0
  let transferGas ← if vm.transfersValue kind then toInt63 vm.schedule.callValueTransferGas
    else pure 0
  pure (u64 (u64 (callGas + newAccountGas) + transferGas))

/-- The gas a call gives away, before the stipend. -/
def givenGas : Nat :=
  if vm.schedule.staticCallDepthLimit then (vm.sp 0).toNat
  else min (vm.sp 0).toNat (vm.ioGas - vm.ioGas / 64)

/-- The "static" costs of `caseCallSetup`. -/
def payCall (kind : CallKind) (answers : Answers) : Except VMException LegacyVM := do
  let runGas ← vm.callRunGas kind answers
  let i := sizesOffset kind
  let inputMemNeed ← memNeed (vm.sp i) (vm.sp (i + 1))
  let outputMemNeed ← memNeed (vm.sp (i + 2)) (vm.sp (i + 3))
  (vm.withRunGas runGas).payMem (max inputMemNeed outputMemNeed)

def stipend (kind : CallKind) : Nat :=
  if vm.transfersValue kind then vm.schedule.callStipend else 0

/-- The call gas of `caseCallSetup`, and the stipend on top of it. -/
def payCallGas (kind : CallKind) : Except VMException LegacyVM := do
  let given := vm.givenGas
  let vm ← (vm.withRunGas (← toInt63 given)).updateIOGas
  pure { vm with callGas := BitVec.ofNat 256 (given + vm.stipend kind) }

/-- The first part of `caseCallSetup`. -/
def meterCall (kind : CallKind) (answers : Answers) : Except VMException LegacyVM := do
  let vm ← vm.payCall kind answers
  vm.payCallGas kind

/-- Compute the price of an instruction and charge it. -/
def meter (op : Instruction) (answers : Answers) : Except VMException LegacyVM :=
  match op with
  | .mload | .mstore => do vm.payMem (u64 ((← toInt63 (vm.sp 0).toNat) + 32))
  | .mstore8 => do vm.payMem (u64 ((← toInt63 (vm.sp 0).toNat) + 1))
  | .sha3 => do
    let runGas ← toInt63
      (vm.schedule.sha3Gas + ((vm.sp 1).toNat + 31) / 32 * vm.schedule.sha3WordGas)
    (vm.withRunGas runGas).payMem (← memNeed (vm.sp 0) (vm.sp 1))
  | .log topics => do
    let runGas ← toInt63 (u32 (vm.schedule.logGas + vm.schedule.logTopicGas * topics) +
      vm.schedule.logDataGas * (vm.sp 1).toNat)
    (vm.withRunGas runGas).payMem (← memNeed (vm.sp 0) (vm.sp 1))
  | .exp => do
    let runGas ← toInt63 (u32 (vm.schedule.expGas +
      vm.schedule.expByteGas * (32 - firstBitSet (vm.sp 1) / 8)))
    (vm.withRunGas runGas).updateIOGas
  | .lookup op => do (vm.withRunGas (← toInt63 (lookupGas vm.schedule op))).updateIOGas
  | .copy .extCode => do
    let vm' ← vm.copyVM .extCode (vm.sp 3).toNat
    vm'.payMem (← memNeed (vm.sp 1) (vm.sp 3))
  | .copy op => do
    let vm' ← vm.copyVM op (vm.sp 2).toNat
    vm'.payMem (← memNeed (vm.sp 0) (vm.sp 2))
  | .sstore => do (vm.withRunGas (← toInt63 (vm.ssGas answers).1)).updateIOGas
  | .suicide => do
    let suicideGas ← toInt63 vm.schedule.suicideGas
    let newAccountGas := if vm.paysNewAccount answers then vm.schedule.callNewAccountGas else 0
    (vm.withRunGas (u64 (suicideGas + newAccountGas))).updateIOGas
  | .jumpDest => (vm.withRunGas 1).updateIOGas
  | .ret | .revert => do vm.payMem (← memNeed (vm.sp 0) (vm.sp 1))
  | .create salted => vm.meterCreate salted
  | .call kind => vm.meterCall kind answers
  | _ => vm.updateIOGas

/-! ## What instructions do -/

def unaryWord (op : UnaryOp) (a : U256) : U256 :=
  match op with
  | .isZero => if a = 0 then 1 else 0
  | .not => ~~~a

/-- A truth value on the stack. -/
def ofBool (b : Bool) : U256 := if b then 1 else 0

/-- `SIGNEXTEND` of the word `b` at its byte `a`. -/
def signExtend (a b : U256) : U256 :=
  if a < 31 then
    let testBit := a.toNat * 8 + 7
    let mask : U256 := (1#256 <<< testBit) - 1
    if b.getLsbD testBit then b ||| ~~~mask else b &&& mask
  else b

def sar (a b : U256) : U256 :=
  if 256 ≤ a.toNat then if b.msb then BitVec.allOnes 256 else 0
  else
    let shifted := b >>> a.toNat
    if b.msb then shifted ||| (BitVec.allOnes 256 <<< (256 - a.toNat)) else shifted

def binaryWord (op : BinaryOp) (a b : U256) : U256 :=
  match op with
  | .add => a + b
  | .mul => a * b
  | .sub => a - b
  | .div => if b = 0 then 0 else a / b
  | .sdiv => if b = 0 then 0 else a.sdiv b
  | .mod => if b = 0 then 0 else a % b
  | .smod => if b = 0 then 0 else a.srem b
  | .signExtend => signExtend a b
  | .lt => ofBool (a < b)
  | .gt => ofBool (b < a)
  | .slt => ofBool (a.slt b)
  | .sgt => ofBool (b.slt a)
  | .eq => ofBool (a = b)
  | .and => a &&& b
  | .or => a ||| b
  | .xor => a ^^^ b
  | .byte => if a < 32 then (b >>> (8 * (31 - a.toNat))) &&& 0xff else 0
  | .shl => if 256 ≤ a.toNat then 0 else b <<< a.toNat
  | .shr => if 256 ≤ a.toNat then 0 else b >>> a.toNat
  | .sar => sar a b

def ternaryWord (op : TernaryOp) (a b m : U256) : U256 :=
  if m = 0 then 0
  else match op with
    | .addmod => BitVec.ofNat 256 ((a.toNat + b.toNat) % m.toNat)
    | .mulmod => BitVec.ofNat 256 (a.toNat * b.toNat % m.toNat)

/-- `exp256`: at most 256 squarings. -/
def exp256 : Nat → U256 → U256 → U256 → U256
  | 0, _, _, result => result
  | bits + 1, base, exponent, result =>
    if exponent = 0 then result
    else exp256 bits (base * base) (exponent >>> 1)
      (if exponent.getLsbD 0 then result * base else result)

def wordValue : WordOp → U256
  | .address => fromAddress vm.ext.myAddress
  | .origin => fromAddress vm.ext.origin
  | .caller => fromAddress vm.ext.caller
  | .callValue => vm.ext.value
  | .callDataSize => BitVec.ofNat 256 vm.ext.data.length
  | .returnDataSize => BitVec.ofNat 256 vm.returnData.length
  | .codeSize => BitVec.ofNat 256 vm.ext.code.length
  | .gasPrice => vm.ext.gasPrice
  | .coinbase => fromAddress vm.block.author
  | .timestamp => vm.block.timestamp
  | .number => BitVec.ofNat 256 vm.block.number
  | .difficulty => vm.block.difficulty
  | .gasLimit => vm.block.gasLimit
  | .chainId => vm.block.chainID
  | .pc => BitVec.ofNat 256 vm.pc
  | .msize => BitVec.ofNat 256 vm.mem.length
  | .gas => BitVec.ofNat 256 vm.ioGas
  | .push0 => 0

def lookupQuery (op : LookupOp) (word : U256) : Query :=
  match op with
  | .balance => .balance (asAddress word)
  | .extCodeSize => .codeSizeAt (asAddress word)
  | .extCodeHash => .codeHashAt (asAddress word)
  | .blockHash => .blockHash word
  | .sload => .store word

/-- `CALLDATALOAD`. -/
def callDataLoad (data : Bytes) (offset : U256) : U256 :=
  if offset.toNat + 31 < data.length then wordAt data offset.toNat
  else if data.length ≤ offset.toNat then 0
  else wordAt (data ++ List.replicate 32 0) offset.toNat

/-- `copyDataToMemory`, for the operands at its stack pointer. The index is used
only where it lies in the data, so that its conversion to `size_t` is exact. -/
def copyDataToMemory (mem data : Bytes) (offset bigIndex size : U256) : Bytes :=
  let index := bigIndex.toNat
  let size := u64 size.toNat
  let sizeToBeCopied :=
    if data.length < index + size then if data.length < index then 0 else data.length - index
    else size
  overwrite mem (u64 offset.toNat)
    ((data.drop index).take sizeToBeCopied ++ List.replicate (size - sizeToBeCopied) 0)

def memRange (offset size : U256) : Bytes :=
  (vm.mem.drop (u64 offset.toNat)).take (u64 size.toNat)

/-- The gas that is left, as `exec` hands it back. -/
def gasLeft : U256 := BitVec.ofNat 256 vm.ioGas

/-- On to the next instruction, with results in the place of operands. -/
def next (args : Nat) (results : List U256) : LegacyVM :=
  { vm.replace args results with pc := vm.pc + 1 }

/-- Jump to a checked destination. -/
def jumpTo (dest : U256) (k : LegacyVM → Script) : Script :=
  if verifyJumpDest vm.jumpDests dest then k { vm with pc := dest.toNat }
  else .failed .badJumpDestination

/-- The gas that `caseCreate` gives away. -/
def createGas : Nat :=
  if vm.schedule.staticCallDepthLimit then vm.ioGas else vm.ioGas - vm.ioGas / 64

/-- The end of `caseCreate`: what is left of the gas comes back. A creation that
was not made leaves a zero. -/
def afterCreate (salted : Bool) : Option FrameResult → LegacyVM
  | none => { vm with returnData := [] }.next (if salted then 4 else 3) [0]
  | some result =>
    { vm with
      returnData := result.output
      ioGas := u64 (vm.gasLeft - (BitVec.ofNat 256 vm.createGas - result.gas)).toNat }.next
        (if salted then 4 else 3) [fromAddress result.newAddress]

/-- The second part of `caseCreate`. -/
def caseCreate (salted : Bool) (k : LegacyVM → Script) : Script :=
  .create (if salted then some (vm.sp 3) else none) (vm.sp 0) (BitVec.ofNat 256 vm.createGas)
    (vm.memRange (vm.sp 1) (vm.sp 2)) fun answer => k (vm.afterCreate salted answer)

/-- The end of `caseCall`: the output is copied to memory, and the gas comes
back, all of it if the call was not made. -/
def afterCall (kind : CallKind) : Option FrameResult → LegacyVM
  | none =>
    { vm with
      returnData := []
      ioGas := u64 (vm.ioGas + u64 vm.callGas.toNat) }.next (sizesOffset kind + 4) [0]
  | some result =>
    { vm with
      mem := overwrite vm.mem (u64 (vm.sp (sizesOffset kind + 2)).toNat)
        (result.output.take (u64 (vm.sp (sizesOffset kind + 3)).toNat))
      returnData := result.output
      ioGas := u64 (vm.ioGas + u64 result.gas.toNat) }.next (sizesOffset kind + 4)
        [ofBool (result.status = StatusCode.success)]

/-- `caseCall` behind the charge. -/
def caseCall (kind : CallKind) (k : LegacyVM → Script) : Script :=
  .call kind vm.destination (if haveValueArg kind then vm.sp 2 else 0) vm.callGas
    (vm.memRange (vm.sp (sizesOffset kind)) (vm.sp (sizesOffset kind + 1)))
    fun answer => k (vm.afterCall kind answer)

end

section

variable [Keccak]

/-- What an instruction does after it was paid for. -/
def perform (vm : LegacyVM) (op : Instruction) (k : LegacyVM → Script) : Script :=
  match op with
  | .stop => .returned vm.gasLeft []
  | .unary op => k (vm.next 1 [unaryWord op (vm.sp 0)])
  | .binary op => k (vm.next 2 [binaryWord op (vm.sp 0) (vm.sp 1)])
  | .ternary op => k (vm.next 3 [ternaryWord op (vm.sp 0) (vm.sp 1) (vm.sp 2)])
  | .exp => k (vm.next 2 [exp256 256 (vm.sp 0) (vm.sp 1) 1])
  | .sha3 => k (vm.next 2 [sha3 (vm.memRange (vm.sp 0) (vm.sp 1))])
  | .word op => k (vm.next 0 [vm.wordValue op])
  | .lookup op => .query (lookupQuery op (vm.sp 0)) fun word => k (vm.next 1 [word])
  | .selfBalance => .query (.balance vm.ext.myAddress) fun word => k (vm.next 0 [word])
  | .callDataLoad => k (vm.next 1 [callDataLoad vm.ext.data (vm.sp 0)])
  | .copy .callData =>
    k ({ vm with
      mem := copyDataToMemory vm.mem vm.ext.data (vm.sp 0) (vm.sp 1) (vm.sp 2) }.next 3 [])
  | .copy .code =>
    k ({ vm with
      mem := copyDataToMemory vm.mem vm.ext.code (vm.sp 0) (vm.sp 1) (vm.sp 2) }.next 3 [])
  | .copy .returnData =>
    k ({ vm with
      mem := copyDataToMemory vm.mem vm.returnData (vm.sp 0) (vm.sp 1) (vm.sp 2) }.next 3 [])
  | .copy .extCode =>
    .codeAt (asAddress (vm.sp 0)) fun code =>
      k ({ vm with
        mem := copyDataToMemory vm.mem code (vm.sp 1) (vm.sp 2) (vm.sp 3) }.next 4 [])
  | .pop => k (vm.next 1 [])
  | .mload => k (vm.next 1 [wordAt vm.mem (u32 (vm.sp 0).toNat)])
  | .mstore =>
    k ({ vm with
      mem := overwrite vm.mem (u32 (vm.sp 0).toNat) (toBigEndian (vm.sp 1)) }.next 2 [])
  | .mstore8 =>
    k ({ vm with
      mem := overwrite vm.mem (u32 (vm.sp 0).toNat) [UInt8.ofNat (vm.sp 1).toNat] }.next 2 [])
  | .sstore => .setStore (vm.sp 0) (vm.sp 1) (k (vm.next 2 []))
  | .jump => (vm.replace 1 []).jumpTo (vm.sp 0) k
  | .jumpi =>
    if vm.sp 1 ≠ 0 then (vm.replace 2 []).jumpTo (vm.sp 0) k else k (vm.next 2 [])
  | .jumpDest => k (vm.next 0 [])
  | .push bytes =>
    k { vm.replace 0
        [BitVec.ofNat 256 (BigEndian.decode ((vm.code.drop (vm.pc + 1)).take bytes))] with
      pc := vm.pc + bytes + 1 }
  | .dup n => k (vm.next 0 [vm.sp (n - 1)])
  | .swap n =>
    k (vm.next (n + 1) (vm.sp n :: (vm.stack.drop 1).take (n - 1) ++ [vm.sp 0]))
  | .log topics =>
    .log ((vm.stack.drop 2).take topics) (vm.memRange (vm.sp 0) (vm.sp 1))
      (k (vm.next (topics + 2) []))
  | .pushc =>
    let offset := (vm.code.getD (vm.pc + 1) 0).toNat * 256 + (vm.code.getD (vm.pc + 2) 0).toNat
    k { vm.replace 0 [vm.pool.getD offset 0] with
      pc := vm.pc + 3 + (vm.code.getD (vm.pc + 3) 0).toNat }
  | .jumpc => k { vm.replace 1 [] with pc := u64 (vm.sp 0).toNat }
  | .jumpci =>
    k { vm.replace 2 [] with
      pc := if vm.sp 1 ≠ 0 then u64 (vm.sp 0).toNat else vm.pc + 1 }
  | .create salted => vm.caseCreate salted k
  | .call kind => vm.caseCall kind k
  | .ret => .returned vm.gasLeft (vm.memRange (vm.sp 0) (vm.sp 1))
  | .revert => .reverted vm.gasLeft (vm.memRange (vm.sp 0) (vm.sp 1))
  | .suicide => .suicide (asAddress (vm.sp 0)) (.returned vm.gasLeft [])
  | .other _ => .failed .badInstruction

/-- An instruction that was fetched. The refund of `SSTORE` is made before it is
paid for. -/
def interpret (vm : LegacyVM) (op : Instruction) (k : LegacyVM → Script) : Script :=
  match vm.reject op with
  | some e => .failed e
  | none =>
    vm.inquire op fun answers =>
      let act := match vm.meter op answers with
        | .error e => .failed e
        | .ok vm' => vm'.perform op k
      if op = .sstore then .refund (vm.ssGas answers).2 act else act

/-- One round of `interpretCases`. -/
def step (vm : LegacyVM) (k : LegacyVM → Script) : Script :=
  .instruction (match vm.fetchInstruction with
    | .error e => .failed e
    | .ok (op, vm) => vm.interpret op k)

/-- `interpretCases`, for a number of instructions. -/
def interpretCases : Nat → LegacyVM → Script
  | 0, _ => .unfinished
  | rounds + 1, vm => vm.step (interpretCases rounds)

/-- The interpreter at the start of `exec`. -/
def start (config : VMConfig) (block : BlockWords) (schedule : VMSchedule) (ext : Ext)
    (gas : U256) : LegacyVM :=
  optimize config { ext, block, schedule, ioGas := u64 gas.toNat }

/-- `exec`. Every round but the last one costs gas. -/
def exec (config : VMConfig) (block : BlockWords) (schedule : U256 → VMSchedule) (ext : Ext)
    (gas : U256) : Script :=
  interpretCases (u64 gas.toNat + 1) (start config block (schedule ext.version) ext gas)

end

end LegacyVM

end Skaled
