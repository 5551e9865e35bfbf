import Skaled.Executive.Transaction

/-! # The prices of instructions

`EVMSchedule` with everything that `LegacyVM` looks at: which instructions there
are, and what they cost. The prices of the source are `unsigned`. The standard
schedules are those `makeEvmSchedule` chooses from by block number, with `PUSH0`
switched on by a patch.
-/

namespace Skaled

/-- `Tier`, the classes of instructions that have a price in common. -/
inductive Tier where
  | zero
  | base
  | veryLow
  | low
  | mid
  | high
  | ext
  | special
  | invalid
  deriving DecidableEq, Repr

/-- `EVMSchedule`, with the switches and prices of the virtual machine. -/
structure VMSchedule extends EVMSchedule where
  accountVersion : U256 := 0
  haveDelegateCall : Bool := true
  eip150Mode : Bool := false
  eip1283Mode : Bool := false
  haveBitwiseShifting : Bool := false
  haveRevert : Bool := false
  haveReturnData : Bool := false
  haveStaticCall : Bool := false
  haveCreate2 : Bool := false
  haveExtcodehash : Bool := false
  haveChainID : Bool := false
  haveSelfbalance : Bool := false
  havePush0 : Bool := false
  expGas : Nat := 10
  expByteGas : Nat := 10
  sha3Gas : Nat := 30
  sha3WordGas : Nat := 6
  sloadGas : Nat := 50
  sstoreSetGas : Nat := 20000
  sstoreResetGas : Nat := 5000
  sstoreUnchangedGas : Nat := 200
  sstoreRefundGas : Nat := 15000
  sstoreRefundNonzeroGas : Nat := 4800
  logGas : Nat := 375
  logDataGas : Nat := 8
  logTopicGas : Nat := 375
  createGas : Nat := 32000
  callGas : Nat := 40
  callStipend : Nat := 2300
  callValueTransferGas : Nat := 9000
  callNewAccountGas : Nat := 25000
  memoryGas : Nat := 3
  quadCoeffDiv : Nat := 512
  copyGas : Nat := 3
  extcodesizeGas : Nat := 20
  extcodecopyGas : Nat := 20
  extcodehashGas : Nat := 400
  balanceGas : Nat := 20
  suicideGas : Nat := 0
  blockhashGas : Nat := 20
  deriving DecidableEq, Repr

namespace VMSchedule

/-- `tierStepGas`, which is the same in all schedules. Its eight entries do not
reach to the tier of unknown instructions, whose price is never used. -/
def tierStepGas (_schedule : VMSchedule) : Tier → Nat
  | .zero => 0
  | .base => 2
  | .veryLow => 3
  | .low => 5
  | .mid => 8
  | .high => 10
  | .ext => 20
  | .special => 0
  | .invalid => 0

def staticCallDepthLimit (schedule : VMSchedule) : Bool := !schedule.eip150Mode

def zeroValueTransferChargesNewAccountGas (schedule : VMSchedule) : Bool := !schedule.eip158Mode

/-! ## Standard schedules -/

def default : VMSchedule := {}

def frontier : VMSchedule :=
  { exceptionalFailedCodeDeposit := false, haveDelegateCall := false, txCreateGas := 21000 }

def homestead : VMSchedule :=
  { exceptionalFailedCodeDeposit := true, haveDelegateCall := true, txCreateGas := 53000 }

def eip150 : VMSchedule :=
  { homestead with
    eip150Mode := true
    extcodesizeGas := 700
    extcodecopyGas := 700
    balanceGas := 400
    sloadGas := 200
    callGas := 700
    suicideGas := 5000 }

def eip158 : VMSchedule :=
  { eip150 with
    expByteGas := 50
    eip158Mode := true
    maxCodeSize := 1024 * 64 }

def byzantium : VMSchedule :=
  { eip158 with
    haveRevert := true
    haveReturnData := true
    haveStaticCall := true }

def constantinople : VMSchedule :=
  { byzantium with
    haveCreate2 := true
    haveBitwiseShifting := true
    haveExtcodehash := true
    eip1283Mode := true }

def constantinopleFix : VMSchedule :=
  { constantinople with
    eip1283Mode := false }

def istanbul : VMSchedule :=
  { constantinopleFix with
    txDataNonZeroGas := 16
    sloadGas := 800
    balanceGas := 700
    extcodehashGas := 700
    haveChainID := true
    haveSelfbalance := true
    sstoreUnchangedGas := 800 }

def berlin : VMSchedule := istanbul

def experimental : VMSchedule :=
  { berlin with
    accountVersion := 1
    blockhashGas := 800 }

/-- `PushZeroPatch::makeSchedule`. -/
def withPush0 (schedule : VMSchedule) : VMSchedule := { schedule with havePush0 := true }

def sinceEip150 : List VMSchedule :=
  [eip150, eip158, byzantium, constantinople, constantinopleFix, istanbul, berlin, experimental]

def standard : List VMSchedule :=
  [default, frontier, homestead] ++ sinceEip150 ++ sinceEip150.map withPush0

/-- `latestScheduleForAccountVersion`; an unknown version fails an assertion, and
without assertions the default is used. -/
def latestScheduleForAccountVersion (version : U256) : VMSchedule :=
  if version = 0 then istanbul
  else if version = experimental.accountVersion then experimental
  else default

/-- `ExtVM::initEvmSchedule`, for the schedule of the block. -/
def forVersion (current : VMSchedule) (version : U256) : VMSchedule :=
  if current.accountVersion = version then current else latestScheduleForAccountVersion version

end VMSchedule

end Skaled
