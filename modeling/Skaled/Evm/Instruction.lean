import Skaled.Evm.Schedule
import Skaled.Executive.Machine

/-! # Instructions

`Instruction` with `instructionInfo`: how many words an instruction takes from
the stack, how many it leaves there and in which tier its price is. Instructions
that differ only in a parameter or in the word they compute are one case with
that parameter. The instructions that are compiled out (static jumps and vector
operations) and the bytes that are no instruction are `other`.
-/

namespace Skaled

/-- The instructions that replace one word by another. -/
inductive UnaryOp where
  | isZero
  | not
  deriving DecidableEq, Repr

/-- The instructions that compute one word from two. -/
inductive BinaryOp where
  | add
  | mul
  | sub
  | div
  | sdiv
  | mod
  | smod
  | signExtend
  | lt
  | gt
  | slt
  | sgt
  | eq
  | and
  | or
  | xor
  | byte
  | shl
  | shr
  | sar
  deriving DecidableEq, Repr

/-- The instructions that compute one word from three. -/
inductive TernaryOp where
  | addmod
  | mulmod
  deriving DecidableEq, Repr

/-- The instructions that put a word on the stack which the interpreter knows. -/
inductive WordOp where
  | address
  | origin
  | caller
  | callValue
  | callDataSize
  | returnDataSize
  | codeSize
  | gasPrice
  | coinbase
  | timestamp
  | number
  | difficulty
  | gasLimit
  | chainId
  | pc
  | msize
  | gas
  | push0
  deriving DecidableEq, Repr

/-- The instructions that ask `ExtVM` for a word about an operand. -/
inductive LookupOp where
  | balance
  | extCodeSize
  | extCodeHash
  | blockHash
  | sload
  deriving DecidableEq, Repr

/-- The instructions that copy bytes into memory. -/
inductive CopyOp where
  | callData
  | code
  | returnData
  | extCode
  deriving DecidableEq, Repr

inductive Instruction where
  | stop
  | unary (op : UnaryOp)
  | binary (op : BinaryOp)
  | ternary (op : TernaryOp)
  | exp
  | sha3
  | word (op : WordOp)
  | lookup (op : LookupOp)
  | selfBalance
  | callDataLoad
  | copy (op : CopyOp)
  | pop
  | mload
  | mstore
  | mstore8
  | sstore
  | jump
  | jumpi
  | jumpDest
  | push (bytes : Nat)
  | dup (n : Nat)
  | swap (n : Nat)
  | log (topics : Nat)
  | pushc
  | jumpc
  | jumpci
  | create (salted : Bool)
  | call (kind : CallKind)
  | ret
  | revert
  | suicide
  | other (opcode : Nat)
  deriving DecidableEq, Repr

structure InstructionMetric where
  args : Nat
  ret : Nat
  gasPriceTier : Tier
  deriving DecidableEq, Repr

namespace Instruction

/-- The instruction of a byte of code. -/
def ofOpcode (opcode : Nat) : Instruction :=
  match opcode with
  | 0x00 => .stop
  | 0x01 => .binary .add
  | 0x02 => .binary .mul
  | 0x03 => .binary .sub
  | 0x04 => .binary .div
  | 0x05 => .binary .sdiv
  | 0x06 => .binary .mod
  | 0x07 => .binary .smod
  | 0x08 => .ternary .addmod
  | 0x09 => .ternary .mulmod
  | 0x0a => .exp
  | 0x0b => .binary .signExtend
  | 0x10 => .binary .lt
  | 0x11 => .binary .gt
  | 0x12 => .binary .slt
  | 0x13 => .binary .sgt
  | 0x14 => .binary .eq
  | 0x15 => .unary .isZero
  | 0x16 => .binary .and
  | 0x17 => .binary .or
  | 0x18 => .binary .xor
  | 0x19 => .unary .not
  | 0x1a => .binary .byte
  | 0x1b => .binary .shl
  | 0x1c => .binary .shr
  | 0x1d => .binary .sar
  | 0x20 => .sha3
  | 0x30 => .word .address
  | 0x31 => .lookup .balance
  | 0x32 => .word .origin
  | 0x33 => .word .caller
  | 0x34 => .word .callValue
  | 0x35 => .callDataLoad
  | 0x36 => .word .callDataSize
  | 0x37 => .copy .callData
  | 0x38 => .word .codeSize
  | 0x39 => .copy .code
  | 0x3a => .word .gasPrice
  | 0x3b => .lookup .extCodeSize
  | 0x3c => .copy .extCode
  | 0x3d => .word .returnDataSize
  | 0x3e => .copy .returnData
  | 0x3f => .lookup .extCodeHash
  | 0x40 => .lookup .blockHash
  | 0x41 => .word .coinbase
  | 0x42 => .word .timestamp
  | 0x43 => .word .number
  | 0x44 => .word .difficulty
  | 0x45 => .word .gasLimit
  | 0x46 => .word .chainId
  | 0x47 => .selfBalance
  | 0x50 => .pop
  | 0x51 => .mload
  | 0x52 => .mstore
  | 0x53 => .mstore8
  | 0x54 => .lookup .sload
  | 0x55 => .sstore
  | 0x56 => .jump
  | 0x57 => .jumpi
  | 0x58 => .word .pc
  | 0x59 => .word .msize
  | 0x5a => .word .gas
  | 0x5b => .jumpDest
  | 0x5f => .word .push0
  | 0xac => .pushc
  | 0xad => .jumpc
  | 0xae => .jumpci
  | 0xf0 => .create false
  | 0xf1 => .call .call
  | 0xf2 => .call .callCode
  | 0xf3 => .ret
  | 0xf4 => .call .delegateCall
  | 0xf5 => .create true
  | 0xfa => .call .staticCall
  | 0xfd => .revert
  | 0xff => .suicide
  | opcode =>
    if 0x60 ≤ opcode ∧ opcode ≤ 0x7f then .push (opcode - 0x5f)
    else if 0x80 ≤ opcode ∧ opcode ≤ 0x8f then .dup (opcode - 0x7f)
    else if 0x90 ≤ opcode ∧ opcode ≤ 0x9f then .swap (opcode - 0x8f)
    else if 0xa0 ≤ opcode ∧ opcode ≤ 0xa4 then .log (opcode - 0xa0)
    else .other opcode

def binaryTier : BinaryOp → Tier
  | .mul | .div | .sdiv | .mod | .smod | .signExtend => .low
  | .add | .sub | .lt | .gt | .slt | .sgt | .eq | .and | .or | .xor | .byte | .shl | .shr
  | .sar => .veryLow

def copyMetric : CopyOp → InstructionMetric
  | .callData | .code | .returnData => ⟨3, 0, .veryLow⟩
  | .extCode => ⟨4, 0, .special⟩

/-- The entries of `c_instructionInfo` for instructions that are compiled out. -/
def otherMetric (opcode : Nat) : InstructionMetric :=
  match opcode with
  | 0xb0 => ⟨1, 0, .veryLow⟩
  | 0xb1 => ⟨2, 0, .low⟩
  | 0xb2 => ⟨1, 0, .low⟩
  | 0xb3 => ⟨1, 0, .mid⟩
  | 0xb4 => ⟨1, 0, .mid⟩
  | 0xb5 => ⟨0, 0, .special⟩
  | 0xb6 => ⟨0, 0, .special⟩
  | 0xb7 => ⟨1, 0, .mid⟩
  | 0xb8 => ⟨1, 0, .veryLow⟩
  | 0xb9 => ⟨0, 1, .veryLow⟩
  | 0xc1 => ⟨0, 0, .special⟩
  | 0xd6 => ⟨1, 1, .special⟩
  | 0xe0 => ⟨1, 1, .veryLow⟩
  | 0xe1 => ⟨1, 1, .veryLow⟩
  | 0xe2 => ⟨2, 0, .veryLow⟩
  | 0xe4 => ⟨1, 1, .special⟩
  | 0xe5 => ⟨2, 0, .special⟩
  | 0xe6 => ⟨1, 1, .veryLow⟩
  | 0xe7 => ⟨1, 1, .veryLow⟩
  | 0xe8 => ⟨2, 1, .special⟩
  | 0xe9 => ⟨3, 1, .special⟩
  | 0xea => ⟨2, 1, .special⟩
  | 0xeb => ⟨3, 1, .special⟩
  | 0xfe => ⟨0, 0, .zero⟩
  | opcode =>
    if 0xc2 ≤ opcode ∧ opcode ≤ 0xc7 ∨ 0xd0 ≤ opcode ∧ opcode ≤ 0xd9 ∨
        0xdb ≤ opcode ∧ opcode ≤ 0xdf then ⟨2, 1, .special⟩
    else ⟨0, 0, .invalid⟩

/-- `c_metrics`. -/
def metric : Instruction → InstructionMetric
  | .stop => ⟨0, 0, .zero⟩
  | .unary _ => ⟨1, 1, .veryLow⟩
  | .binary op => ⟨2, 1, binaryTier op⟩
  | .ternary _ => ⟨3, 1, .mid⟩
  | .exp => ⟨2, 1, .special⟩
  | .sha3 => ⟨2, 1, .special⟩
  | .word _ => ⟨0, 1, .base⟩
  | .lookup _ => ⟨1, 1, .special⟩
  | .selfBalance => ⟨0, 1, .low⟩
  | .callDataLoad => ⟨1, 1, .veryLow⟩
  | .copy op => copyMetric op
  | .pop => ⟨1, 0, .base⟩
  | .mload => ⟨1, 1, .veryLow⟩
  | .mstore => ⟨2, 0, .veryLow⟩
  | .mstore8 => ⟨2, 0, .veryLow⟩
  | .sstore => ⟨2, 0, .special⟩
  | .jump => ⟨1, 0, .mid⟩
  | .jumpi => ⟨2, 0, .high⟩
  | .jumpDest => ⟨0, 0, .special⟩
  | .push _ => ⟨0, 1, .veryLow⟩
  | .dup n => ⟨n, n + 1, .veryLow⟩
  | .swap n => ⟨n + 1, n + 1, .veryLow⟩
  | .log topics => ⟨topics + 2, 0, .special⟩
  | .pushc => ⟨0, 1, .veryLow⟩
  | .jumpc => ⟨1, 0, .mid⟩
  | .jumpci => ⟨2, 0, .high⟩
  | .create salted => ⟨if salted then 4 else 3, 1, .special⟩
  | .call kind => ⟨if kind = .call ∨ kind = .callCode then 7 else 6, 1, .special⟩
  | .ret => ⟨2, 0, .zero⟩
  | .revert => ⟨2, 0, .special⟩
  | .suicide => ⟨1, 0, .special⟩
  | .other opcode => otherMetric opcode

end Instruction

end Skaled
