import Skaled.Basic
import Skaled.Lib.AssocMap

/-! # The flat state database

`skale::OverlayDB` over a batched key-value store. The store is keyed by byte
strings of different lengths for accounts (20), auxiliary data (21), storage
slots (52) and the three named records, so each kind is its own map here.
Writes wait in the overlay's caches, removals of accounts wait in the batch of
the store; `commit` writes both. Reading the store ignores the batch.
-/

namespace Skaled

structure LogEntry where
  address : Address
  topics : List H256
  data : Bytes
  deriving DecidableEq, Repr

/-- A receipt carries a status code, or a state root before Byzantium. -/
structure TransactionReceipt where
  statusCodeOrStateRoot : Bool ⊕ H256
  gasUsed : U256
  log : List LogEntry
  deriving DecidableEq

/-- The committed contents of the store. -/
structure Disk where
  accounts : Map Address Bytes := ∅
  auxiliary : Map Address Bytes := ∅
  storage : Map (Address × U256) U256 := ∅
  storageUsed : Int := 0
  lastExecutedTransactionHash : H256 := 0
  partialTransactionReceipts : List TransactionReceipt := []

/-- A removal that was issued to the store but not committed yet. -/
inductive BatchOp where
  | killAccount (address : Address)
  | killAuxiliary (address : Address)
  deriving DecidableEq

def BatchOp.apply (disk : Disk) : BatchOp → Disk
  | .killAccount address => { disk with accounts := disk.accounts.erase address }
  | .killAuxiliary address => { disk with auxiliary := disk.auxiliary.erase address }

structure OverlayDB where
  disk : Disk := {}
  batch : List BatchOp := []
  cache : Map Address Bytes := ∅
  auxiliaryCache : Map Address Bytes := ∅
  storageCache : Map (Address × U256) U256 := ∅
  storageUsed' : Int := 0
  lastExecutedTransactionHash : Option H256 := none
  lastExecutedTransactionReceipts : Option (List TransactionReceipt) := none

namespace OverlayDB

variable (db : OverlayDB)

/-- `lookup( h160 )`: an empty value in the cache falls through to the store. -/
def lookup (address : Address) : Bytes :=
  let ret := (db.cache.lookup address).getD []
  if ret ≠ [] then ret else (db.disk.accounts.lookup address).getD []

/-- `lookup( h160, h256 )`: a missing slot is zero. -/
def lookupStorage (address : Address) (key : U256) : U256 :=
  match db.storageCache.lookup (address, key) with
  | some value => value
  | none => (db.disk.storage.lookup (address, key)).getD 0

/-- `lookupAuxiliary`, for the only space in use, `CODE`. -/
def lookupAuxiliary (address : Address) : Bytes :=
  let value := (db.auxiliaryCache.lookup address).getD []
  if value ≠ [] then value else (db.disk.auxiliary.lookup address).getD []

/-- `storage( h160 )`: the slots of an address in the store, cached writes
not included. -/
def storage (address : Address) : List (U256 × U256) :=
  db.disk.storage.entries.filterMap fun entry =>
    if entry.1.1 = address then some (entry.1.2, entry.2) else none

def insert (address : Address) (value : Bytes) : OverlayDB :=
  { db with cache := db.cache.insert address value }

def insertStorage (address : Address) (key value : U256) : OverlayDB :=
  { db with storageCache := db.storageCache.insert (address, key) value }

def insertAuxiliary (address : Address) (value : Bytes) : OverlayDB :=
  { db with auxiliaryCache := db.auxiliaryCache.insert address value }

def kill (address : Address) : OverlayDB :=
  if (db.cache.lookup address).isSome then { db with cache := db.cache.erase address }
  else if (db.disk.accounts.lookup address).isSome then
    { db with batch := db.batch ++ [.killAccount address] }
  else db

def killAuxiliary (address : Address) : OverlayDB :=
  if (db.auxiliaryCache.lookup address).isSome then
    { db with auxiliaryCache := db.auxiliaryCache.erase address }
  else if (db.disk.auxiliary.lookup address).isSome then
    { db with batch := db.batch ++ [.killAuxiliary address] }
  else db

def storageUsed : Int := db.disk.storageUsed

def updateStorageUsage (storageUsed : Int) : OverlayDB :=
  { db with storageUsed' := storageUsed }

def getLastExecutedTransactionHash : H256 :=
  db.lastExecutedTransactionHash.getD db.disk.lastExecutedTransactionHash

def getPartialTransactionReceipts : List TransactionReceipt :=
  db.lastExecutedTransactionReceipts.getD db.disk.partialTransactionReceipts

def setLastExecutedTransactionHash (hash : H256) : OverlayDB :=
  { db with lastExecutedTransactionHash := some hash }

def setPartialTransactionReceipts (receipts : List TransactionReceipt) : OverlayDB :=
  { db with lastExecutedTransactionReceipts := some receipts }

def addReceiptToPartials (receipt : TransactionReceipt) : OverlayDB :=
  db.setPartialTransactionReceipts (db.getPartialTransactionReceipts ++ [receipt])

/-- `commitStorageValues`: with the zero-value patch a zero removes the slot. -/
def commitStorageValues (P : Patches) (disk : Disk) : Disk :=
  { disk with
    storage := db.storageCache.entries.foldl (fun storage entry =>
      if P.contractStorageZeroValue = true ∧ entry.2 = 0 then storage.erase entry.1
      else storage.insert entry.1 entry.2) disk.storage }

/-- `commit`, with a backend that accepts the batch at the first try. -/
def commit (P : Patches) : OverlayDB :=
  let disk := db.batch.foldl BatchOp.apply db.disk
  let disk := { disk with
    accounts := db.cache.entries.foldl (fun m e => m.insert e.1 e.2) disk.accounts
    auxiliary := db.auxiliaryCache.entries.foldl (fun m e => m.insert e.1 e.2) disk.auxiliary }
  let disk := db.commitStorageValues P disk
  { db with
    disk := { disk with
      storageUsed := db.storageUsed'
      lastExecutedTransactionHash := db.getLastExecutedTransactionHash
      partialTransactionReceipts := db.getPartialTransactionReceipts }
    batch := []
    cache := ∅
    auxiliaryCache := ∅
    storageCache := ∅
    lastExecutedTransactionHash := some db.getLastExecutedTransactionHash
    lastExecutedTransactionReceipts := some db.getPartialTransactionReceipts }

end OverlayDB

end Skaled
