import Skaled.Basic

/-! # Recursive length prefix records

Writing with `RLPStream` and reading with `RLP`, as far as account records
need them: integers, one list around them, and random access to its items.
`none` stands for an exception (`BadRLP`, `BadCast`, `UndersizeRLP`,
`OversizeRLP` when reading, `std::range_error` when a negative number is
converted to a byte).
-/

namespace Skaled.Rlp

open BigEndian

/-! ## Writing -/

/-- `RLPStream::append( bigint )`. A negative number takes the single-byte
branch, where its conversion to an unsigned byte throws. -/
def appendInt (i : Int) : Option Bytes :=
  if i = 0 then some [0x80]
  else if i < 0x80 then
    if i < 0 then none else some [UInt8.ofNat i.toNat]
  else
    let br := bytesRequired i.toNat
    if br < 56 then some (UInt8.ofNat (br + 0x80) :: encode br i.toNat)
    else
      let brbr := bytesRequired br
      if 0xff < 0xb7 + brbr then none
      else some (UInt8.ofNat (0xb7 + brbr) :: encode brbr br ++ encode br i.toNat)

/-- The header `RLPStream::noteAppended` puts in front of a completed list. -/
def wrapList (items : Bytes) : Option Bytes :=
  let brs := bytesRequired items.length
  if items.length < 56 then some (UInt8.ofNat (0xc0 + items.length) :: items)
  else if 0xf7 + brs ≤ 0xff then
    some (UInt8.ofNat (0xf7 + brs) :: encode brs items.length ++ items)
  else none

/-! ## Reading -/

/-- `vector_ref::cropped`: empty when it goes out of bounds. -/
def cropped (data : Bytes) (begin count : Nat) : Bytes :=
  if begin + count ≤ data.length then (data.drop begin).take count else []

/-- `RLP::requireGood`: a single byte below `0x80` is not written in two. -/
def requireGood : Bytes → Option Unit
  | [] => none
  | n :: rest =>
    if n ≠ 0x81 then some ()
    else match rest with
      | [] => none
      | second :: _ => if second < 0x80 then none else some ()

/-- The length behind a prefix that announces `lengthSize` length bytes. -/
def longLength (data : Bytes) (lengthSize : Nat) : Option Nat :=
  let digits := (data.drop 1).take lengthSize
  let ret := decode digits
  if data.length ≤ lengthSize then none
  else if digits.head? = some 0 then none
  else if ret < 56 then none
  else if 2 ^ 64 - 1 - 0x100 ≤ ret then none
  else some ret

def length : Bytes → Option Nat
  | [] => some 0
  | n :: rest => do
    requireGood (n :: rest)
    if n < 0x80 then some 1
    else if n ≤ 0xb7 then some (n.toNat - 0x80)
    else if n < 0xc0 then longLength (n :: rest) (n.toNat - 0xb7)
    else if n ≤ 0xf7 then some (n.toNat - 0xc0)
    else longLength (n :: rest) (n.toNat - 0xf7)

def payloadOffset : Bytes → Nat
  | [] => 1
  | n :: _ =>
    if n < 0x80 then 0
    else if n ≤ 0xb7 then 1
    else if n < 0xc0 then 1 + (n.toNat - 0xb7)
    else if n ≤ 0xf7 then 1
    else 1 + (n.toNat - 0xf7)

def payload (data : Bytes) : Option Bytes := do
  let l ← length data
  if data.length < l then none else some (cropped data (payloadOffset data) l)

def actualSize : Bytes → Option Nat
  | [] => some 0
  | n :: rest =>
    if n < 0x80 then some 1
    else (length (n :: rest)).map (payloadOffset (n :: rest) + ·)

/-- `RLP::sizeAsEncoded`: the announced size, unless the data is shorter. -/
def sizeAsEncoded (data : Bytes) : Option Nat := do
  let size ← actualSize data
  if data.length < size then none else some size

/-- The constructor with `VeryStrict`: the data is exactly one item. -/
def parse (data : Bytes) : Option Bytes := do
  let size ← actualSize data
  if size = data.length then some data else none

/-- The loop of `RLP::operator[]` over the items of a list. -/
def itemLoop (items : Bytes) : Nat → (lastEnd : Nat) → (lastItem : Bytes) → Option Bytes
  | 0, _, lastItem => some lastItem
  | i + 1, lastEnd, lastItem =>
    if lastItem = [] then some lastItem
    else do
      let rest := items.drop lastEnd
      let size ← sizeAsEncoded rest
      let next := cropped rest 0 size
      itemLoop items i (lastEnd + next.length) next

/-- `RLP::operator[]`; a position past the end gives the null item. -/
def item (data : Bytes) (i : Nat) : Option Bytes := do
  let items ← payload data
  let first ← sizeAsEncoded items
  let found ← itemLoop items i first (cropped items 0 first)
  let size ← actualSize found
  if found.length < size then none else some found

/-- `RLP::isInt`: no leading zero byte. -/
def isInt : Bytes → Option Bool
  | [] => some false
  | n :: rest => do
    requireGood (n :: rest)
    if n < 0x80 then some (n ≠ 0)
    else if n = 0x80 then some true
    else if n ≤ 0xb7 then
      match rest with
      | [] => none
      | second :: _ => some (second ≠ 0)
    else if n < 0xc0 then
      match rest.drop (n.toNat - 0xb7) with
      | [] => none
      | first :: _ => some (first ≠ 0)
    else some false

/-- `RLP::toInt` with the flags `Strict`, for a type of `maxSize` bytes. -/
def toInt (maxSize : Nat) (data : Bytes) : Option Nat := do
  requireGood data
  let int ← isInt data
  if int = false then none
  else
    let p ← payload data
    if maxSize < p.length then none else some (decode p)

end Skaled.Rlp
