import Skaled.Rlp
import Skaled.Storage.Rotation

/-! # Importing blocks into the rotating database

`BlockChain::open`, `insertBlockAndExtras` and `rotateDBIfNeeded` on five
rotating pieces, without archive. The block and what belongs to it go to the
current piece in one batch. When the piece would grow beyond its share of the
limit, the database is rotated first and the details of the genesis block are
copied to the new piece in a batch of their own.

The writes of an import depend on what was read, from caches or from the
database: the details of the parent and the blooms of the range of blocks.

Rotation by time, the archive, and the repairs that `open` makes for old
databases are left out.
-/

namespace Skaled

open Function (update)

structure BlockDetails where
  number : Nat
  totalDifficulty : Nat
  parent : H256
  children : List H256
  blockSizeBytes : Nat
  deriving DecidableEq

/-- The keys of the database. The extras are told apart by a suffix. -/
inductive ChainKey where
  | pieceUsageBytes
  | totalStorageUsed
  | best
  | block (hash : H256)
  | details (hash : H256)
  | logBlooms (hash : H256)
  | receipts (hash : H256)
  | transactionAddress (hash : H256)
  | blocksBlooms (level index : Nat)
  | blockHash (number : Nat)
  deriving DecidableEq

inductive ChainValue where
  | number (n : Nat)
  | hash (hash : H256)
  | details (details : BlockDetails)
  | blooms (blooms : List (BitVec 2048))
  | address (blockHash : H256) (index : Nat)
  | bytes (data : Bytes)
  deriving DecidableEq

abbrev ChainPiece := ChainKey → Option ChainValue

/-- The parameters of the chain that matter here. -/
structure ChainDb where
  genesisHash : H256
  genesisDetails : BlockDetails
  dbStorageLimit : Nat

/-- A block to be imported, with its receipts. `bloom` is the bloom of all
receipts and the author; `magicUnused` says whether `TotalStorageUsedPatch` still
counts. -/
structure ImportedBlock where
  hash : H256
  parentHash : H256
  number : Nat
  totalDifficulty : Nat
  data : Bytes
  receipts : Bytes
  logBlooms : Bytes
  transactions : List H256
  bloom : BitVec 2048
  magicUnused : Bool

/-! ## Sizes -/

def rlpListSize (payload : Nat) : Nat :=
  if payload < 56 then 1 + payload else 1 + BigEndian.bytesRequired payload + payload

def rlpIntSize (n : Nat) : Nat := ((Rlp.appendInt n).getD []).length

def BlockDetails.rlpSize (details : BlockDetails) : Nat :=
  rlpListSize (rlpIntSize details.number + rlpIntSize details.totalDifficulty + 33 +
    rlpListSize (33 * details.children.length) + rlpIntSize details.blockSizeBytes)

namespace ChainValue

/-- The number of bytes of a value. Sixteen blooms of 256 bytes are a list of
4147 bytes. -/
def size : ChainValue → Nat
  | .number n => (Nat.repr n).length
  | .hash _ => 33
  | .details d => d.rlpSize
  | .blooms _ => 4147
  | .address _ index => rlpListSize (33 + rlpIntSize index)
  | .bytes data => data.length

def isEmpty : ChainValue → Bool
  | .bytes data => data.isEmpty
  | _ => false

end ChainValue

/-- The number of bytes of a key, with the prefix of `db_splitter`. -/
def ChainKey.size : ChainKey → Nat
  | .pieceUsageBytes => 15
  | .totalStorageUsed => 17
  | .best => 5
  | _ => 34

/-! ## Reading -/

namespace ChainDb

section

variable (pieces : List ChainPiece) (cache : ChainPiece) (block : ImportedBlock)

/-- `ManuallyRotatingLevelDB::lookup`: the first value that is not empty. -/
def lookup (key : ChainKey) : Option ChainValue :=
  pieces.findSome? fun piece => (piece key).filter fun value => !value.isEmpty

/-- `ManuallyRotatingLevelDB::exists`. -/
def keyExists (key : ChainKey) : Bool :=
  pieces.any fun piece => (piece key).isSome

/-- `queryExtras`: the caches first. -/
def query (key : ChainKey) : Option ChainValue :=
  (cache key).or (lookup pieces key)

/-- `NullBlockDetails`, with `c_invalidNumber` and `Invalid256`. -/
def nullBlockDetails : BlockDetails :=
  { number := 2 ^ 32 - 1, totalDifficulty := 2 ^ 256 - 1, parent := 0, children := []
    blockSizeBytes := 0 }

def detailsOf (hash : H256) : BlockDetails :=
  match query pieces cache (.details hash) with
  | some (.details details) => details
  | _ => nullBlockDetails

/-- `blocksBlooms( chunkId )`. -/
def bloomsOf (level index : Nat) : List (BitVec 2048) :=
  match query pieces cache (.blocksBlooms level index) with
  | some (.blooms blooms) => blooms
  | _ => List.replicate 16 0

/-- The usage of the current piece, as it was stored last. -/
def usageOf : Nat :=
  match lookup pieces .pieceUsageBytes with
  | some (.number n) => n
  | _ => 0

/-! ## Writing -/

def parentDetails : BlockDetails :=
  { detailsOf pieces cache block.parentHash with children := [block.hash] }

def alteredBlooms (level : Nat) : ChainKey × ChainValue :=
  let index := block.number / 16 ^ level
  (.blocksBlooms level (index / 16),
    .blooms ((bloomsOf pieces cache level (index / 16)).modify (index % 16) (· ||| block.bloom)))

def prepareDbData : List (ChainKey × ChainValue) :=
  [(.block block.hash, .bytes block.data),
    (.details block.parentHash, .details (parentDetails pieces cache block)),
    (.details block.hash, .details
      { number := block.number, totalDifficulty := block.totalDifficulty
        parent := block.parentHash, children := [], blockSizeBytes := block.data.length }),
    (.logBlooms block.hash, .bytes block.logBlooms),
    (.receipts block.hash, .bytes block.receipts)] ++
  block.transactions.mapIdx (fun index hash =>
    (.transactionAddress hash, .address block.hash index)) ++
  [alteredBlooms pieces cache block 0, alteredBlooms pieces cache block 1,
    (.blockHash block.number, .hash block.hash)]

/-- The size that `prepareDbDataAndReturnSize` returns: the bytes of all writes,
with the blooms counted in part. -/
def writeSize (batch : List (ChainKey × ChainValue)) : Nat :=
  (batch.map fun entry => entry.1.size + entry.2.size).sum - (4147 + 34) * 2 +
    ((4147 + 34) / 16 + (4147 + 34) / 256 + 2)

/-- What `prepareDbDataAndReturnSize` leaves in the caches. -/
def prepareCache : ChainPiece :=
  let level0 := alteredBlooms pieces cache block 0
  let level1 := alteredBlooms pieces cache block 1
  update (update
    (update cache (.details block.parentHash)
      (some (.details (parentDetails pieces cache block))))
    level0.1 (some level0.2)) level1.1 (some level1.2)

/-- The batch of `insertBlockAndExtras`, with the counter of
`TotalStorageUsedPatch::onProgress`. -/
def finalBatch (batch : List (ChainKey × ChainValue)) (block : ImportedBlock) (usage : Nat) :
    List (ChainKey × Option ChainValue) :=
  batch.map (fun entry => (entry.1, some entry.2)) ++ [(.pieceUsageBytes, some (.number usage))] ++
  (if keyExists pieces .totalStorageUsed then
    [(.totalStorageUsed, if block.magicUnused then some (.number (block.number * 32)) else none)]
  else []) ++
  [(.best, some (.hash block.hash))]

end

/-! ## The chain on its files -/

structure Memory where
  db : RotatingDb 2
  cache : ChainPiece
  lastBlockHash : H256

abbrev Files := PieceFiles 2 ChainKey ChainValue

abbrev Op := FileOp 2 ChainKey ChainValue

variable (chain : ChainDb)

def genesisBatch (details : BlockDetails) : List (ChainKey × Option ChainValue) :=
  [(.details chain.genesisHash, some (.details details))]

/-- Insert the genesis block into a database that does not have it. -/
def insertGenesisOps (files : Files) (db : RotatingDb 2) : List Op :=
  match lookup (files.listed db) (.details chain.genesisHash) with
  | none => [.write db.currentPieceFileNo (chain.genesisBatch chain.genesisDetails)]
  | some _ => []

/-- Finish a rotation that did not come as far as the usage of the new piece. -/
def finishRotationOps (files : Files) (db : RotatingDb 2) : List Op :=
  if 0 < chain.dbStorageLimit ∧
      (files.contents db.currentPieceFileNo .pieceUsageBytes).isNone then
    [.write db.currentPieceFileNo (chain.genesisBatch
      (detailsOf (files.listed db) (fun _ => none) chain.genesisHash) ++
        [(.pieceUsageBytes, some (.number 0))])]
  else []

def openOps (files : Files) : List Op :=
  let opened := files.applyAll files.openOps
  let db := opened.openDb false
  let withGenesis := opened.applyAll (chain.insertGenesisOps opened db)
  files.openOps ++ chain.insertGenesisOps opened db ++ chain.finishRotationOps withGenesis db

def openMemory (files : Files) : Memory :=
  let db := files.openDb false
  let pieces := files.listed db
  { db
    cache := update (fun _ => none) (.details chain.genesisHash)
      (lookup pieces (.details chain.genesisHash))
    lastBlockHash := match lookup pieces .best with
      | some (.hash hash) => hash
      | _ => chain.genesisHash }

/-- `rotateDBIfNeeded`: whether the piece would grow beyond its share. -/
def needsRotation (usage : Nat) : Bool :=
  0 < chain.dbStorageLimit ∧ chain.dbStorageLimit / 5 < usage

/-- The operations of `rotateDBIfNeeded`, up to the copy of the genesis block. -/
def rotationOps (db : RotatingDb 2) (details : BlockDetails) : List Op :=
  db.rotateOps false ++ [.write (db.rotated false).currentPieceFileNo (chain.genesisBatch details)]

/-- How far an import has come when it prepares the writes that are committed:
the operations so far, and the memory they leave. -/
structure Prepared where
  ops : List Op
  db : RotatingDb 2
  cache : ChainPiece
  usage : Nat

/-- `insertBlockAndExtras` up to the last preparation of the writes. After a
rotation they are prepared again, with nothing but the genesis block cached. -/
def prepare (files : Files) (memory : Memory) (block : ImportedBlock) : Prepared :=
  let pieces := files.listed memory.db
  let usage := usageOf pieces + writeSize (prepareDbData pieces memory.cache block)
  if chain.needsRotation usage then
    let details := detailsOf pieces (prepareCache pieces memory.cache block) chain.genesisHash
    let ops := chain.rotationOps memory.db details
    let db := memory.db.rotated false
    let cache : ChainPiece := update (fun _ => none) (.details chain.genesisHash)
      (some (.details details))
    let rotatedPieces := (files.applyAll ops).listed db
    { ops, db, cache, usage := writeSize (prepareDbData rotatedPieces cache block) }
  else { ops := [], db := memory.db, cache := memory.cache, usage }

/-- The last operation of `insertBlockAndExtras`. -/
def commitOp (files : Files) (block : ImportedBlock) (prepared : Prepared) : Op :=
  let pieces := files.listed prepared.db
  .write prepared.db.currentPieceFileNo
    (finalBatch pieces (prepareDbData pieces prepared.cache block) block prepared.usage)

/-- The operations of `insertBlockAndExtras`. -/
def importOps (files : Files) (memory : Memory) (block : ImportedBlock) : List Op :=
  let prepared := chain.prepare files memory block
  prepared.ops ++ [commitOp (files.applyAll prepared.ops) block prepared]

def importMemory (files : Files) (memory : Memory) (block : ImportedBlock) : Memory :=
  let prepared := chain.prepare files memory block
  { db := prepared.db
    cache := prepareCache ((files.applyAll prepared.ops).listed prepared.db) prepared.cache block
    lastBlockHash := block.hash }

end ChainDb

end Skaled
