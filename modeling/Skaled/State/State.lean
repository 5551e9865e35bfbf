import Skaled.State.OverlayDB
import Skaled.State.Account
import Skaled.Lib.StateProg

/-! # The flat state

`skale::State`: accounts are read through a cache that may evict unchanged
entries, every change is entered in a change log that `rollback` undoes, and
`commit` writes the changed accounts to the database.

The functions are programs over an explicit state. An exception keeps the
changes made before it, as in the source. A failed `assert` and the use of a
null account pointer end the program with `assertionFailed`.
-/

namespace Skaled

/-- The two catch clauses of `Executive::go` that end the process: for the
exceptions of the node and for those of the standard library. -/
inductive ExitBranch where
  | exception
  | stdException
  deriving DecidableEq, Repr

/-- The ways an operation can end without returning. `exit` is the end of the
process in the frame at the given depth and `assertionFailed` an abort;
`rangeError` and `runtimeError` are exceptions of the standard library, the
other cases exceptions of the node. -/
inductive Failure where
  | notEnoughCash
  | storageOverflow
  | attemptToReadFromStateInThePast
  | attemptToWriteToStateInThePast
  | attemptToWriteToNotLockedStateObject
  | invalidAccountStartNonceInState
  | badRlp
  | rangeError
  | runtimeError
  | gasPriceTooLow
  | invalidSignature
  | invalidZeroSignatureTransaction
  | invalidTransactionFormat
  | outOfGasIntrinsic
  | blockGasLimitReached
  | invalidNonce
  | externalGasException
  | internalVMError
  | assertionFailed
  | exit (depth : Nat) (branch : ExitBranch)
  deriving DecidableEq, Repr

/-- An entry of the change log. The kind `StorageRoot` of the source is never
logged by the flat state. -/
inductive Change where
  | storage (address : Address) (key value : U256)
  | balance (address : Address) (value : U256)
  | nonce (address : Address) (value : U256)
  | create (address : Address)
  | code (address : Address) (oldCode : Bytes)
  | touch (address : Address)
  deriving DecidableEq

@[simp] def Change.address : Change → Address
  | .storage a _ _ | .balance a _ | .nonce a _ | .create a | .code a _ | .touch a => a

/-- What happened in a run, for statements about whole runs. No function of
the model reads it. -/
inductive Event where
  /-- A creation at `address` passed the check that the address is free. -/
  | create (address : Address) (savepoint : Nat)
  /-- The init code of a creation is about to start on these slots. -/
  | started (address : Address) (slots : U256 → U256)
  /-- `clearStorage` found a non-zero counter and cleared slots. -/
  | cleared (address : Address)
  | rollback (savepoint : Nat)
  | commit (killed : List Address)

/-- A state object. The change log has its newest entry first; `engine` is the
random source of cache evictions; the database and the stored version are
shared between the copies of a state in the source. -/
structure State where
  cache : Map Address Account := ∅
  unchangedCacheEntries : List Address := []
  nonExistingAccountsCache : List Address := []
  accountStartNonce : U256 := invalid256
  changeLog : List Change := []
  initialFunds : U256 := 0
  contractStorageLimit : Int := 32
  storageUsage : Map Address Int := ∅
  totalStorageUsed : Int := 0
  currentStorageUsed : Int := 0
  db : OverlayDB := {}
  storedVersion : Nat := 0
  currentVersion : Nat := 0
  writeLock : Bool := false
  engine : Nat → Nat := fun _ => 0
  history : List Event := []

namespace State

/-- Programs over a state. -/
abbrev M := EStateM Failure State

/-- `storageUsage[a]`, which is zero for an absent entry. -/
def usage (s : State) (a : Address) : Int := (s.storageUsage.lookup a).getD 0

def checkVersion (s : State) : Bool := s.storedVersion = s.currentVersion

def assert (condition : Bool) : M Unit :=
  if condition then pure () else throw .assertionFailed

def requireCurrentVersion : M Unit := do
  if (← get).checkVersion then pure () else throw .attemptToReadFromStateInThePast

def setAccount (a : Address) (acc : Account) : M Unit :=
  modify fun s => { s with cache := s.cache.insert a acc }

def logChange (change : Change) : M Unit :=
  modify fun s => { s with changeLog := change :: s.changeLog }

/-- `storageUsage[a] += count * 32; currentStorageUsed_ += count * 32`. -/
def countSlots (a : Address) (count : Int) : M Unit :=
  modify fun s => { s with
    storageUsage := s.storageUsage.insert a (s.usage a + count * 32)
    currentStorageUsed := s.currentStorageUsed + count * 32 }

def resetStorageChanges : M Unit :=
  modify fun s => { s with storageUsage := ∅, currentStorageUsed := 0 }

/-! ## Accounts and the cache -/

def dropUnchanged (cache : Map Address Account) (a : Address) : Map Address Account :=
  match cache.lookup a with
  | some acc => if acc.isUnchanged then cache.erase a else cache
  | none => cache

/-- One round of the loop of `clearCacheIfTooLarge`: take a random entry out of
the list and drop its account. -/
def evictOne (s : State) : State :=
  let index := s.engine 0 % s.unchangedCacheEntries.length
  match s.unchangedCacheEntries[index]? with
  | none => s
  | some addr =>
    let last := s.unchangedCacheEntries.getLastD addr
    { s with
      unchangedCacheEntries := (s.unchangedCacheEntries.set index last).dropLast
      cache := dropUnchanged s.cache addr
      engine := fun n => s.engine (n + 1) }

def evictRounds : Nat → State → State
  | 0, s => s
  | rounds + 1, s => evictRounds rounds (evictOne s)

def clearCacheIfTooLarge (s : State) : State :=
  evictRounds (s.unchangedCacheEntries.length - 1000) s

variable [Keccak]

def account (a : Address) : M (Option Account) := do
  let s ← get
  match s.cache.lookup a with
  | some acc => pure (some acc)
  | none =>
    if a ∈ s.nonExistingAccountsCache then pure none
    else do
      requireCurrentVersion
      let stateBack := s.db.lookup a
      if stateBack = [] then do
        set { s with nonExistingAccountsCache := a :: s.nonExistingAccountsCache }
        pure none
      else do
        modify clearCacheIfTooLarge
        match Account.decode stateBack with
        | none => throw .badRlp
        | some acc => do
          modify fun s => { s with
            cache := s.cache.insert a acc
            unchangedCacheEntries := s.unchangedCacheEntries ++ [a] }
          pure (some acc)

def addressInUse (a : Address) : M Bool := do
  pure (← account a).isSome

def accountNonemptyAndExisting (a : Address) : M Bool := do
  match ← account a with
  | some acc => pure !acc.isEmpty
  | none => pure false

def addressHasCode (a : Address) : M Bool := do
  match ← account a with
  | some acc => pure (acc.codeHash ≠ emptySHA3)
  | none => pure false

def balance (a : Address) : M U256 := do
  match ← account a with
  | some acc => pure acc.balance
  | none => pure (← get).initialFunds

def getNonce (a : Address) : M U256 := do
  match ← account a with
  | some acc => pure acc.nonce
  | none => pure (← get).accountStartNonce

def codeHash (a : Address) : M H256 := do
  match ← account a with
  | some acc => pure acc.codeHash
  | none => pure emptySHA3

def version (a : Address) : M U256 := do
  match ← account a with
  | some acc => pure acc.version
  | none => pure 0

def storageUsed (a : Address) : M Int := do
  match ← account a with
  | some acc => pure acc.storageUsed
  | none => pure 0

/-- `code`: loaded from the database when it is not cached yet. -/
def code (a : Address) : M Bytes := do
  match ← account a with
  | none => pure []
  | some acc =>
    if acc.codeHash = emptySHA3 then pure []
    else if acc.codeCache ≠ [] then pure acc.codeCache
    else do
      requireCurrentVersion
      let loaded := (← get).db.lookupAuxiliary a
      assert (sha3 loaded = acc.codeHash)
      setAccount a (acc.noteCode loaded)
      pure loaded

/-- `codeSize`, without the process-wide cache of sizes by code hash. -/
def codeSize (a : Address) : M Nat := do
  match ← account a with
  | none => pure 0
  | some acc => if acc.hasNewCode then pure acc.codeCache.length else pure (← code a).length

/-! ## Changing accounts -/

def requireAccountStartNonce : M U256 := do
  let s ← get
  if s.accountStartNonce = invalid256 then throw .invalidAccountStartNonceInState
  else pure s.accountStartNonce

def createAccount (a : Address) (acc : Account) : M Unit := do
  assert (!(← addressInUse a))
  setAccount a acc
  modify fun s => { s with
    nonExistingAccountsCache := s.nonExistingAccountsCache.filter (· ≠ a) }
  logChange (.create a)

def incNonce (a : Address) : M Unit := do
  match ← account a with
  | some acc => do
    setAccount a acc.incNonce
    logChange (.nonce a acc.nonce)
  | none => createAccount a (.fresh ((← requireAccountStartNonce) + 1) (← get).initialFunds)

def setNonce (a : Address) (newNonce : U256) : M Unit := do
  match ← account a with
  | some acc => do
    setAccount a (acc.setNonce newNonce)
    logChange (.nonce a acc.nonce)
  | none => createAccount a (.fresh newNonce (← get).initialFunds)

/-- `addBalance`: the first touch of an empty account is logged, and an amount
of zero still marks the account as changed. -/
def addBalance (a : Address) (amount : U256) : M Unit := do
  match ← account a with
  | some acc => do
    if !acc.isDirty && acc.isEmpty then logChange (.touch a)
    setAccount a (acc.addBalance amount)
  | none =>
    createAccount a (.fresh (← requireAccountStartNonce) ((← get).initialFunds + amount))
  if amount ≠ 0 then logChange (.balance a amount)

def subBalance (a : Address) (value : U256) : M Unit := do
  if value = 0 then pure ()
  else
    match ← account a with
    | none => throw .notEnoughCash
    | some acc =>
      if acc.balance < value then throw .notEnoughCash else addBalance a (0 - value)

def setBalance (a : Address) (value : U256) : M Unit := do
  let original := match ← account a with
    | some acc => acc.balance
    | none => 0
  addBalance a (value - original)

def transferBalance (sender receiver : Address) (value : U256) : M Unit := do
  subBalance sender value
  addBalance receiver value

def createContract (a : Address) : M Unit := do
  createAccount a (.fresh (← requireAccountStartNonce) (← get).initialFunds)

def kill (a : Address) : M Unit := do
  match ← account a with
  | some acc => setAccount a acc.kill
  | none => pure ()

def cached (s : State) (a : Address) : Account := (s.cache.lookup a).getD .dead

/-- `setCode`. Code is never overwritten. -/
def setCode (a : Address) (newCode : Bytes) (version : U256) : M Unit := do
  assert (!(← addressHasCode a))
  logChange (.code a (← code a))
  setAccount a (((← get).cached a).setCode newCode version)

/-! ## Storage -/

/-- A slot as the database has it, which is cached in the account. -/
def originalSlot (a : Address) (acc : Account) (key : U256) : M U256 :=
  match acc.storageOriginal.lookup key with
  | some value => pure value
  | none => do
    requireCurrentVersion
    let value := (← get).db.lookupStorage a key
    setAccount a (acc.setStorageCache key value)
    pure value

def storage (a : Address) (key : U256) : M U256 := do
  match ← account a with
  | none => pure 0
  | some acc =>
    match acc.storageOverlay.lookup key with
    | some value => pure value
    | none => originalSlot a acc key

def originalStorageValue (a : Address) (key : U256) : M U256 := do
  match ← account a with
  | none => pure 0
  | some acc => originalSlot a acc key

/-- How a write from `old` to `new` changes the number of non-zero slots. -/
def slotCount (old new : U256) : Int :=
  if (new ≠ 0 ∧ old ≠ 0) ∨ (new = 0 ∧ old = 0) then 0 else if new = 0 then -1 else 1

def checkStorageLimit : M Unit := do
  let s ← get
  if s.contractStorageLimit < s.totalStorageUsed + s.currentStorageUsed then
    throw .storageOverflow

/-- `setStorage`. The limit is checked after the write was made and counted. -/
def setStorage (a : Address) (key value : U256) : M Unit := do
  let currentValue ← storage a key
  logChange (.storage a key currentValue)
  setAccount a (((← get).cached a).setStorage key value)
  countSlots a (slotCount currentValue value)
  checkStorageLimit

def clearStorageValue (a : Address) (key currentValue : U256) : M Unit := do
  logChange (.storage a key currentValue)
  setAccount a (((← get).cached a).setStorage key 0)
  countSlots a (if currentValue = 0 then 0 else -1)

/-- The slots of the database overlaid with those of the changed account, by the
hash of their keys. -/
def listed (s : State) (a : Address) : Map H256 (U256 × U256) :=
  let stored := (s.db.storage a).foldl
    (fun m slot => m.insert (sha3 (toBigEndian slot.1)) slot) (∅ : Map H256 (U256 × U256))
  match s.cache.lookup a with
  | some acc =>
    if acc.isDirty then
      acc.storageOverlay.entries.foldl
        (fun m slot => m.insert (sha3 (toBigEndian slot.1)) (slot.1, slot.2)) stored
    else stored
  | none => stored

/-- `storage_WITHOUT_LOCK`. -/
def storageWithoutLock (a : Address) : M (Map H256 (U256 × U256)) := do
  requireCurrentVersion
  pure ((← get).listed a)

/-- One round of the loop of `clearStorage`. The value handed on is the key:
the source reads both from the first component of the pair. -/
def clearSlot (a : Address) (slot : U256 × U256) : M Unit := do
  let key := slot.1
  let value := slot.1
  clearStorageValue a key value
  modify fun s => { s with
    cache := s.cache.insert a ((s.cached a).setStorageCache key 0)
    db := s.db.insertStorage a key 0 }

/-- `clearStorage`. Nothing is cleared when both counters of the contract are
zero; looking at the counter of the transaction leaves an entry for it. -/
def clearStorage (a : Address) : M Unit := do
  match ← account a with
  | none => throw .assertionFailed
  | some acc =>
    let accStorageUsed := acc.storageUsed
    countSlots a 0
    if accStorageUsed = 0 ∧ (← get).usage a = 0 then pure ()
    else do
      let slots ← storageWithoutLock a
      slots.entries.forM fun entry => clearSlot a entry.2
      modify fun s => { s with
        totalStorageUsed := s.totalStorageUsed - (accStorageUsed + s.usage a)
        cache := s.cache.insert a ((s.cached a).updateStorageUsage (-accStorageUsed))
        history := .cleared a :: s.history }

/-- `updateStorageUsage`: fold the counters of the transaction into the
accounts. -/
def updateStorageUsage : M Unit := do
  (← get).storageUsage.entries.forM fun entry => do
    match ← account entry.1 with
    | some acc => setAccount entry.1 (acc.updateStorageUsage entry.2)
    | none => pure ()
  resetStorageChanges

/-! ## The change log -/

def savepoint : M Nat := do
  pure (← get).changeLog.length

variable (P : Patches)

/-- `rollbackStorageChange`: undo the counters together with the value. -/
def rollbackStorageChange (a : Address) (key value : U256) : M Unit := do
  let currentValue ← storage a key
  countSlots a (slotCount currentValue value)
  setAccount a (((← get).cached a).setStorage key value)

/-- The cases of the loop of `rollback`, for the account of the entry. -/
def undoEntry (acc : Account) : Change → M Unit
  | .storage a key value =>
    if P.contractStorage then rollbackStorageChange a key value
    else setAccount a (acc.setStorage key value)
  | .balance a value => setAccount a (acc.addBalance (0 - value))
  | .nonce a value => setAccount a (acc.setNonce value)
  | .create a => modify fun s => { s with cache := s.cache.erase a }
  | .code a _ => setAccount a acc.resetCode
  | .touch a => modify fun s => { s with
      cache := s.cache.insert a acc.untouch
      unchangedCacheEntries := s.unchangedCacheEntries ++ [a] }

def undoChange (change : Change) : M Unit := do
  match ← account change.address with
  | none => throw .assertionFailed
  | some acc => undoEntry P acc change

/-- The loop of `rollback`, for a given number of entries. -/
def undoChanges : Nat → M Unit
  | 0 => pure ()
  | count + 1 => do
    match (← get).changeLog with
    | [] => throw .assertionFailed
    | change :: _ => do
      undoChange P change
      modify fun s => { s with changeLog := s.changeLog.tail }
      undoChanges count

/-- The end of `rollback`: without the patch all counters are dropped. -/
def dropCounters : M Unit :=
  if P.contractStorage = false then resetStorageChanges else pure ()

def rollback (savepoint : Nat) : M Unit := do
  let length := (← get).changeLog.length
  assert (savepoint ≤ length)
  undoChanges P (length - savepoint)
  dropCounters P
  modify fun s => { s with history := .rollback savepoint :: s.history }

/-! ## Committing and copying -/

inductive CommitBehaviour where
  | keepEmptyAccounts
  | removeEmptyAccounts
  deriving DecidableEq

def killIfEmpty (acc : Account) : Account :=
  if acc.isDirty && acc.isEmpty then acc.kill else acc

def removeEmptyAccounts (s : State) : State :=
  let cache := s.cache.entries.foldl
    (fun cache entry => cache.insert entry.1 (killIfEmpty entry.2)) s.cache
  { s with cache }

def commitAccount (a : Address) (acc : Account) : M Unit := do
  if acc.isDirty then
    if acc.isAlive = false then do
      modify fun s => { s with db := (s.db.kill a).killAuxiliary a }
      if P.storageDestruction then clearStorage a
    else
      match acc.encode with
      | none => throw .rangeError
      | some record =>
        modify fun s =>
          let db := s.db.insert a record
          let db := acc.storageOverlay.entries.foldl
            (fun db slot => db.insertStorage a slot.1 slot.2) db
          { s with db := if acc.hasNewCode then db.insertAuxiliary a acc.codeCache else db }

/-- The addresses whose accounts a commit removes. -/
def deadAccounts (s : State) : List Address :=
  s.cache.entries.filterMap fun entry =>
    if entry.2.isDirty && !entry.2.isAlive then some entry.1 else none

def commit (behaviour : CommitBehaviour) : M Unit := do
  if behaviour = .removeEmptyAccounts then modify removeEmptyAccounts
  if (← get).writeLock = false then throw .attemptToWriteToNotLockedStateObject
  if (← get).checkVersion = false then throw .attemptToWriteToStateInThePast
  let killed := (← get).deadAccounts
  let entries := (← get).cache.entries
  entries.forM fun entry => commitAccount P entry.1 entry.2
  modify fun s => { s with
    db := (s.db.updateStorageUsage s.totalStorageUsed).commit P
    storedVersion := s.storedVersion + 1
    currentVersion := s.storedVersion + 1
    history := .commit killed :: s.history
    changeLog := []
    cache := ∅
    unchangedCacheEntries := [] }

/-- The accounting of `State::execute` before a transaction is committed. The
counters are folded only for a sender whose account exists and has no code in
its cache. -/
def closeAccounts (sender : Address) : M Unit := do
  match ← account sender with
  | some acc =>
    if acc.codeCache = [] then do
      modify fun s => { s with totalStorageUsed := s.totalStorageUsed + s.currentStorageUsed }
      updateStorageUsage
  | none => pure ()

/-- The copy constructor: the counters of the running transaction are dropped
and the total is read from the database. -/
def copy (s : State) : State :=
  { s with
    storageUsage := ∅
    currentStorageUsed := 0
    totalStorageUsed := s.db.storageUsed
    writeLock := false }

def updateToLatestVersion (s : State) : State :=
  { s with
    changeLog := []
    cache := ∅
    unchangedCacheEntries := []
    nonExistingAccountsCache := []
    currentVersion := s.storedVersion }

def createStateModifyCopy (s : State) : State :=
  { s.copy.updateToLatestVersion with writeLock := true }

/-- `createStateModifyCopyAndPassLock`: a state that holds the write lock hands
it on together with its caches, another one makes a copy of the latest
version. -/
def createStateModifyCopyAndPassLock (s : State) : State :=
  if s.writeLock then { s.copy with writeLock := true } else s.createStateModifyCopy

end State

end Skaled
