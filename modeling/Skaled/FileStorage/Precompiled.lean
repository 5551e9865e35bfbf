import Mathlib.Data.List.DropRight
import Skaled.Basic
import Skaled.Lib.Path
import Skaled.Lib.StateProg

/-! # The file storage precompiled contracts

Eight precompiled contracts give contracts a file system: a directory of the node
for each address. They take the address and a name from their input, look at the
files of the node and record operations, which `OverlayFS` executes at the end of
the transaction.

Strings are byte strings. The operating system sees them up to their first zero
byte, and it answers by the string it is asked about: what a path leads to is left
open. Paths are those of Boost's file system library.
-/

namespace Skaled.FileStorage

/-! ## Paths of the node -/

def ascii (text : String) : Bytes := text.toList.map fun c => UInt8.ofNat c.toNat

def separator : UInt8 := 47

def dot : Bytes := [46]

def dotDot : Bytes := [46, 46]

def hashExtension : Bytes := ascii "._hash"

/-- What a system call sees of a string. -/
def cString (path : Bytes) : Bytes := path.takeWhile (· ≠ 0)

/-- `path::operator/`. An absolute right side is appended as well. -/
def append (path more : Bytes) : Bytes :=
  if more = [] then path
  else if more.head? = some separator ∨ path = [] ∨ path.getLast? = some separator then path ++ more
  else path ++ separator :: more

/-- A path without the separators at its end. -/
def trimmed (path : Bytes) : Bytes := path.rdropWhile (· = separator)

/-- What stands behind the last separator. -/
def lastPart (path : Bytes) : Bytes := path.rtakeWhile (· ≠ separator)

def beforeLast (path : Bytes) : Bytes := path.rdropWhile (· ≠ separator)

/-- Two separators and a name: the name of a network. -/
def isNetwork (path : Bytes) : Bool :=
  beforeLast path = [separator, separator] ∧ lastPart path ≠ []

/-- `path::filename`. A separator at the end stands for the directory itself,
unless it is the root. -/
def filename (path : Bytes) : Bytes :=
  if path = [separator, separator] then path
  else if path.getLast? = some separator then
    if trimmed path = [] ∨ isNetwork (trimmed path) then [separator] else dot
  else if isNetwork path then cString path
  else cString (lastPart path)

/-- `path::parent_path`, without the separator that the library leaves behind the
name of a network. -/
def parentPath (path : Bytes) : Bytes :=
  if path.getLast? = some separator then trimmed path
  else if isNetwork path ∨ beforeLast path = [] then []
  else if trimmed (beforeLast path) = [] then [separator]
  else trimmed (beforeLast path)

def hexDigit (n : Nat) : UInt8 := UInt8.ofNat (if n < 10 then 48 + n else 87 + n)

def hex (a : Address) : Bytes :=
  (BigEndian.encode 20 a.toNat).flatMap fun byte =>
    [hexDigit (byte.toNat / 16), hexDigit (byte.toNat % 16)]

/-- `getDataDir`: a path from the configuration, which is a C string. -/
structure DataDir where
  path : Bytes
  noZero : 0 ∉ path

def sampleDataDir : DataDir := ⟨ascii "/data", by decide⟩

/-- The parent of the directories. -/
def storageRoot (dataDir : DataDir) : Bytes := append dataDir.path (ascii "filestorage")

def getFileStorageDir (dataDir : DataDir) (a : Address) : Bytes :=
  append (storageRoot dataDir) (hex a)

/-! ## What the operating system knows -/

/-- The content of a regular file. Offsets are signed words of 64 bits. -/
structure File where
  content : Bytes
  fits : content.length < 2 ^ 63

/-- A directory can be opened for reading too; where it ends is up to the system. -/
inductive Entry where
  | file (regular : File)
  | directory (size : Nat)

def Entry.size : Entry → Nat
  | .file regular => regular.content.length
  | .directory size => size

def Entry.content : Entry → Bytes
  | .file regular => regular.content
  | .directory _ => []

/-- The node's view of its files: where relative paths start, and what is at the
end of a path. -/
structure Os where
  workingDirectory : List Bytes
  entry : Bytes → Option Entry

namespace Os

variable (os : Os)

def lookup (path : Bytes) : Option Entry := os.entry (cString path)

def exists_ (path : Bytes) : Bool := (os.lookup path).isSome

def components (path : Bytes) : List Bytes :=
  let parts := Path.components separator (cString path)
  if path.head? = some separator then parts else os.workingDirectory ++ parts

/-- Where a path leads when there are no symbolic links. -/
def place (path : Bytes) : List Bytes := Path.resolve dot dotDot (os.components path)

/-- `fs::canonical` of a path that exists. -/
def canonical (path : Bytes) : Bytes :=
  if os.place path = [] then [separator]
  else (os.place path).flatMap fun part => separator :: part

/-- `fs::create_directories` makes this element on its way: it is not there. It makes
nothing of an element that leads to a directory it has passed. -/
def Makes (element : Bytes) : Prop :=
  lastPart element ≠ dot ∧ lastPart element ≠ dotDot ∧ os.exists_ element = false
  deriving Decidable

/-- The directories that `fs::create_directories` makes. -/
def createDirectories (path : Bytes) : List Bytes :=
  (Path.elements separator path).filter os.Makes

end Os

/-- What is at the end of a path when an operation is executed, after those that were
recorded before it. `filestorage` is a volume of its own that is there before the node
runs. -/
structure Volume (dataDir : DataDir) where
  entry : Bytes → Option Entry
  mounted : ∀ element ∈ Path.elements separator (storageRoot dataDir), (entry element).isSome

def Volume.files {dataDir : DataDir} (later : Volume dataDir) (os : Os) : Os :=
  { os with entry := later.entry }

/-! ## Operations -/

/-- The operations of `OverlayFS`. -/
inductive Op where
  | createFile (path : Bytes) (size : Nat)
  | createDirectory (path : Bytes)
  | deleteFile (path : Bytes)
  | deleteDirectory (path : Bytes)
  | writeChunk (path : Bytes) (position : Nat) (data : Bytes)
  | calculateFileHash (path : Bytes)
  deriving DecidableEq, Repr

/-- The paths that an operation creates, reads, writes or deletes. The hash of a
file is written to a file next to it. -/
def Op.paths (os : Os) : Op → List Bytes
  | .createDirectory path => os.createDirectories path
  | .createFile path _ | .deleteFile path | .deleteDirectory path | .writeChunk path _ _ => [path]
  | .calculateFileHash path => [path, path ++ hashExtension]

/-- What a precompiled contract did: the files it read and the operations it asked
for, in order. No contract looks at a file after it asked for an operation. -/
structure Effects where
  reads : List Bytes
  ops : List Op
  deriving DecidableEq, Repr

/-- A C++ exception is caught by the contract; a read through a null pointer ends
the node. -/
inductive Stop where
  | exception
  | crash
  deriving DecidableEq, Repr

abbrev FileM := EStateM Stop Effects

def record (op : Op) : FileM Unit := modify fun did => { did with ops := did.ops ++ [op] }

def readFile (path : Bytes) : FileM Unit :=
  modify fun did => { did with reads := did.reads ++ [path] }

/-! ## Reading the input -/

/-- A number converted to `size_t`, and sums of such numbers. -/
def toSize (n : Nat) : Nat := n % 2 ^ 64

def parseBigEndianRightPadded (input : Bytes) (start count : Nat) : Nat :=
  if input.length < start then 0
  else
    let cropped := (input.drop start).take count
    BigEndian.decode cropped * 2 ^ (8 * (count - cropped.length))

/-- `vector_ref::cropped`: a null reference when the range is not inside. Buffers
are so short that the sum does not wrap. -/
def cropped (input : Bytes) (start count : Nat) : Option Bytes :=
  if start + count ≤ input.length then some ((input.drop start).take count) else none

def addressOf (input : Bytes) : Address :=
  BitVec.ofNat 160 (BigEndian.decode ((input.drop 12).take 20))

/-- `convertBytesToString`. A string made of a null pointer throws as well. -/
def convertBytesToString (input : Bytes) (start : Nat) : FileM (Bytes × Nat) :=
  let stringLength := toSize (parseBigEndianRightPadded input start 32)
  if input.length < 32 then throw .exception
  else if input.length < toSize (start + 32 + stringLength) then throw .exception
  else
    match cropped input (start + 32) stringLength with
    | some text => pure (text, stringLength)
    | none => if stringLength = 0 then pure ([], 0) else throw .exception

def nameLength (input : Bytes) : Nat := toSize (parseBigEndianRightPadded input 32 32)

def fileName (input : Bytes) : Option Bytes :=
  if input.length < 32 ∨ input.length < toSize (64 + nameLength input) then none
  else if nameLength input = 0 then some []
  else cropped input 64 (nameLength input)

/-- Every contract reads the name first. -/
theorem convertBytesToString_eq (input : Bytes) :
    convertBytesToString input 32 =
      match fileName input with
      | some name => pure (name, nameLength input)
      | none => throw .exception := by
  unfold convertBytesToString fileName
  simp only [Nat.reduceAdd]
  rw [show toSize (parseBigEndianRightPadded input 32 32) = nameLength input from rfl]
  by_cases hshort : input.length < 32
  · rw [if_pos hshort, if_pos (.inl hshort)]
  · by_cases hrange : input.length < toSize (64 + nameLength input)
    · rw [if_neg hshort, if_pos hrange, if_pos (.inr hrange)]
    · rw [if_neg hshort, if_neg hrange, if_neg (not_or.mpr ⟨hshort, hrange⟩)]
      by_cases hempty : nameLength input = 0
      · simp only [hempty, if_pos, cropped, List.take_zero]
        by_cases hlength : 64 + 0 ≤ input.length
        · rw [if_pos hlength]
        · rw [if_neg hlength]
      · rw [if_neg hempty, if_neg hempty]

/-- How many words the name takes in the input. -/
def blocksCount (nameLength : Nat) : Nat := (nameLength + 31) / 32

def numberAt (input : Bytes) (offset nameLength : Nat) : Nat :=
  parseBigEndianRightPadded input (offset + blocksCount nameLength * 32) 32

/-! ## The contracts -/

section Contracts

variable (dataDir : DataDir) (os : Os) (input : Bytes)

def statComputeFileSize (path : Bytes) : FileM Nat := do
  readFile path
  match os.lookup path with
  | none => throw .exception
  | some entry => pure entry.size

def directory : Bytes := getFileStorageDir dataDir (addressOf input)

def createFile : FileM Bytes := do
  let (rawFilename, filenameLength) ← convertBytesToString input 32
  let fileSize := toSize (numberAt input 64 filenameLength)
  if os.exists_ (directory dataDir input) then pure ()
  else record (.createDirectory (directory dataDir input))
  if hashExtension <:+ filename rawFilename then throw .exception
  else do
    let fsFilePath := append (directory dataDir input) (parentPath rawFilename)
    record (.createFile (append fsFilePath (filename rawFilename)) fileSize)
    pure (toBigEndian 1)

/-- The operation copies the data. From a null reference nothing can be copied:
a length that no vector has throws, a shorter one reads address zero. -/
def writeChunk (path : Bytes) (position dataLength : Nat) : Option Bytes → FileM Unit
  | some data => record (.writeChunk path position data)
  | none =>
    if dataLength = 0 then record (.writeChunk path position [])
    else if 2 ^ 63 ≤ dataLength then throw .exception
    else throw .crash

def uploadChunk : FileM Bytes := do
  let (name, filenameLength) ← convertBytesToString input 32
  let position := toSize (numberAt input 64 filenameLength)
  let dataLength := toSize (numberAt input 96 filenameLength)
  let filePath := append (directory dataDir input) name
  let size ← statComputeFileSize os filePath
  if size < toSize (position + dataLength) then throw .exception
  else do
    writeChunk filePath position dataLength
      (cropped input (128 + blocksCount filenameLength * 32) dataLength)
    pure (toBigEndian 1)

/-- The check of `readChunk` and `getFileSize`: the canonical path has to begin
with the text of the directory. -/
def checkCanonical (filePath : Bytes) : FileM Unit :=
  if os.exists_ filePath ∧ directory dataDir input <+: os.canonical filePath then pure ()
  else throw .exception

def readChunk : FileM Bytes := do
  let (name, filenameLength) ← convertBytesToString input 32
  let position := toSize (numberAt input 64 filenameLength)
  let chunkLength := toSize (numberAt input 96 filenameLength)
  let filePath := append (directory dataDir input) name
  checkCanonical dataDir os input filePath
  let size ← statComputeFileSize os filePath
  if size < position then throw .exception
  else do
    let size ← statComputeFileSize os filePath
    if size < toSize (position + chunkLength) then throw .exception
    else do
      readFile filePath
      -- the buffer is allocated before anything is read into it
      if 2 ^ 63 ≤ chunkLength then throw .exception
      else
        let content := ((os.lookup filePath).elim [] Entry.content).drop position
        pure ((content.take chunkLength).rightpad chunkLength 0)

def getFileSize : FileM Bytes := do
  let (name, _) ← convertBytesToString input 32
  let filePath := append (directory dataDir input) name
  checkCanonical dataDir os input filePath
  let size ← statComputeFileSize os filePath
  pure (toBigEndian (BitVec.ofNat 256 size))

def deleteFile : FileM Bytes := do
  let (name, _) ← convertBytesToString input 32
  let filePath := append (directory dataDir input) name
  record (.deleteFile filePath)
  record (.deleteFile (filePath ++ hashExtension))
  pure (toBigEndian 1)

def createDirectory : FileM Bytes := do
  let (directoryPath, _) ← convertBytesToString input 32
  record (.createDirectory (append (directory dataDir input) directoryPath))
  pure (toBigEndian 1)

def deleteDirectory : FileM Bytes := do
  let (directoryPath, _) ← convertBytesToString input 32
  let absolutePath := append (directory dataDir input) directoryPath
  if os.exists_ absolutePath then do
    record (.deleteFile (absolutePath ++ hashExtension))
    record (.deleteDirectory absolutePath)
    pure (toBigEndian 1)
  else throw .exception

def calculateFileHash : FileM Bytes := do
  let (name, _) ← convertBytesToString input 32
  let filePath := append (directory dataDir input) name
  if os.exists_ filePath then do
    record (.calculateFileHash filePath)
    pure (toBigEndian 1)
  else throw .exception

end Contracts

inductive Contract where
  | createFile | uploadChunk | readChunk | getFileSize
  | deleteFile | createDirectory | deleteDirectory | calculateFileHash
  deriving DecidableEq, Repr

def Contract.body (dataDir : DataDir) (os : Os) (input : Bytes) : Contract → FileM Bytes
  | .createFile => FileStorage.createFile dataDir os input
  | .uploadChunk => FileStorage.uploadChunk dataDir os input
  | .readChunk => FileStorage.readChunk dataDir os input
  | .getFileSize => FileStorage.getFileSize dataDir os input
  | .deleteFile => FileStorage.deleteFile dataDir input
  | .createDirectory => FileStorage.createDirectory dataDir input
  | .deleteDirectory => FileStorage.deleteDirectory dataDir os input
  | .calculateFileHash => FileStorage.calculateFileHash dataDir os input

/-- A call of a contract: what it did, and what it returns unless the node ends. -/
def Contract.run (contract : Contract) (dataDir : DataDir) (os : Os) (input : Bytes) :
    Option (Bool × Bytes) × Effects :=
  match contract.body dataDir os input ⟨[], []⟩ with
  | .ok response did => (some (true, response), did)
  | .error .exception did => (some (false, toBigEndian 0), did)
  | .error .crash did => (none, did)

/-- Every path that a call reads, or that an operation it asks for touches. -/
def Contract.touched (contract : Contract) (dataDir : DataDir) (os : Os)
    (later : Volume dataDir) (input : Bytes) : List Bytes :=
  (contract.run dataDir os input).2.reads ++
    (contract.run dataDir os input).2.ops.flatMap (Op.paths (later.files os))

end Skaled.FileStorage
