import Skaled.Executive.Executive

/-! # Blocks of transactions

`Block::execute` runs one transaction of a block, `Block::syncEveryone` the list
that consensus approved, and `Client::importTransactionsAsBlock` starts a block
or goes on with one that was cut short by a crash. Transactions that cannot be
executed are left out of a block or kept with an empty receipt, depending on the
patch that skips them.

The hash of a transaction is a field of it. A list with a transaction whose hash
cannot be computed is not imported at all. Sealing the block and handing it to
the chain are not modelled, and neither is what is only logged.
-/

namespace Skaled

def Failure.endsProcess : Failure → Bool
  | .assertionFailed | .exit _ _ => true
  | _ => false

namespace State

def createNewCopyWithLocks (s : State) : State :=
  (if s.writeLock then s.createStateModifyCopyAndPassLock else s.copy).updateToLatestVersion

def releaseWriteLock (s : State) : State := { s with writeLock := false }

variable [Keccak] (env : EnvInfo)

def statusOf (t : Transaction) (e : Executive) : Bool :=
  !ifShouldSkipExecution env.chainParams.chainID t.hash && e.excepted = .none

def gasUsedBy (t : Transaction) (e : Executive) : U256 :=
  match gasUsedForSkippedTransaction env.chainParams.chainID t.hash with
  | some gasUsed => BitVec.ofNat 256 gasUsed
  | none => e.gasUsed t

end State

/-- The transactions of a block, with their receipts, and the state behind
them. -/
structure Block where
  state : State
  transactions : List Transaction := []
  receipts : List TransactionReceipt := []

/-- `SkipInvalidTransactionsPatch`, as it is asked for the working block and for
the time of the last block. -/
structure SkipInvalid where
  inWorkingBlock : Bool
  whenCommitted : Bool
  deriving DecidableEq, Repr

def SkipInvalid.all (active : Bool) : SkipInvalid := ⟨active, active⟩

def nullReceipt (env : EnvInfo) (gasUsed : U256) : TransactionReceipt :=
  { statusCodeOrStateRoot :=
      if env.chainParams.byzantiumForkBlock ≤ env.number then .inl false else .inr 0
    gasUsed
    log := [] }

/-- What the `try` block of `Block::execute` comes to. The state that is kept
has handed on the write lock; it shares the database with the one that failed. -/
inductive Attempt where
  | executed (receipt : TransactionReceipt) (gasUsed : U256) (state : State)
  | rejected (state : State)
  | ended

namespace Block

section

variable [Keccak] (env : EnvInfo) (machine : Machine)

def attempt (s : State) (t : Transaction) : Attempt :=
  if t.isInvalid then .rejected s.releaseWriteLock
  else
    match State.execute env machine t .committed s.createStateModifyCopyAndPassLock with
    | .ok e s' =>
      .executed (State.receipt env t e (State.statusOf env t e)) (State.gasUsedBy env t e)
        s'.createStateModifyCopyAndPassLock
    | .error failure s' =>
      if failure.endsProcess then .ended
      else .rejected
        { s.releaseWriteLock with
          db := s'.db
          storedVersion := s'.storedVersion
          history := s'.history }

def gasUsed (b : Block) : U256 := (b.receipts.getLast?.map (·.gasUsed)).getD 0

def add (b : Block) (t : Transaction) (receipt : TransactionReceipt) : Block :=
  { b with transactions := b.transactions ++ [t], receipts := b.receipts ++ [receipt] }

/-- `Block::execute`. The second result says that the transaction would not be
in the block. -/
def execute (skip : SkipInvalid) (b : Block) (t : Transaction) : Option (Block × Bool) :=
  match attempt { env with gasUsed := b.gasUsed } machine b.state t with
  | .executed receipt _ state => some ({ b with state }.add t receipt, false)
  | .rejected state =>
    let b' := { b with state }
    some (if skip.whenCommitted then b' else b'.add t (nullReceipt env b.gasUsed), true)
  | .ended => none

end

end Block

/-! ## Lists of transactions -/

/-- The loop of `syncEveryone`: the block, the receipts that are returned and
the number of bad ones among them. -/
structure Sync where
  block : Block
  receipts : List TransactionReceipt := []
  countBad : Nat := 0

/-- A well-formed transaction that pays less than the block asks for. -/
def Transaction.isTooCheap (gasPrice : U256) (t : Transaction) : Bool :=
  !t.isInvalid && (t.hasExternalGas.toOption == some false) && t.gasPrice < gasPrice

namespace Sync

section

variable [Keccak] (env : EnvInfo) (machine : Machine) (skip : SkipInvalid) (gasPrice : U256)

def add (sync : Sync) (t : Transaction) (receipt : TransactionReceipt) : Sync :=
  { sync with block := sync.block.add t receipt, receipts := sync.receipts ++ [receipt] }

/-- The branch for a transaction with a low price. The header of the block says
that no gas was used yet. -/
def refuse (sync : Sync) (t : Transaction) : Sync :=
  if skip.inWorkingBlock then
    { sync.add t (nullReceipt env 0) with countBad := sync.countBad + 1 }
  else sync

/-- The call of `execute`, and what is made of its result. -/
def execute (sync : Sync) (t : Transaction) : Option Sync := do
  let (block, rejected) ← sync.block.execute env machine skip t
  some (
    if !skip.inWorkingBlock || !rejected then
      { block
        receipts := sync.receipts ++ block.receipts.getLast?.toList
        countBad := if rejected then sync.countBad + 1 else sync.countBad }
    else { sync with block })

/-- A transaction that was not executed before. An exception is logged and the
transaction ignored. -/
def process (sync : Sync) (t : Transaction) : Option Sync :=
  if !t.isInvalid && t.externalGas.isNone then some sync
  else if t.isTooCheap gasPrice then some (sync.refuse env skip t)
  else sync.execute env machine skip t

/-- The loop; `index` counts the transactions. In a partial catch-up there are
transactions still missing, and the receipts of the others were saved. -/
def processAll (catchUp : Option (List Transaction × List TransactionReceipt)) :
    (index : Nat) → List Transaction → Sync → Option Sync
  | _, [], sync => some sync
  | index, t :: rest, sync => do
    let sync ← match catchUp with
      | some (missing, saved) =>
        if missing.any (·.hash = t.hash) then
          sync.process env machine skip gasPrice t
        else (saved[index]?).map (sync.add t)
      | none => sync.process env machine skip gasPrice t
    processAll catchUp (index + 1) rest sync

end

end Sync

section

variable [Keccak] (env : EnvInfo) (machine : Machine) (skip : SkipInvalid) (gasPrice : U256)

/-- The state with which `syncEveryone` starts its loop. -/
def syncState (s : State) : State := s.createNewCopyWithLocks.createStateModifyCopyAndPassLock

/-- `Block::syncEveryone`: the block, the receipts and the number of good ones.
Without a catch-up the saved receipts are dropped. -/
def syncEveryone (s : State) (transactions : List Transaction)
    (vecMissing : Option (List Transaction)) : Option (Block × List TransactionReceipt × Nat) := do
  let state := syncState s
  let saved := state.db.getPartialTransactionReceipts
  let (catchUp, state) ← match vecMissing with
    | some missing =>
      if saved.length = transactions.length - missing.length then
        some (some (missing, saved), state)
      else none
    | none => some (none, { state with db := state.db.setPartialTransactionReceipts [] })
  let sync ← Sync.processAll env machine skip gasPrice catchUp 0 transactions
    ⟨⟨state, [], []⟩, [], 0⟩
  some ({ sync.block with state := sync.block.state.releaseWriteLock }, sync.receipts,
    sync.receipts.length - sync.countBad)

/-- `Client::importTransactionsAsBlock`: the block and the number of transactions
that succeeded. `isKnownTransaction` says what the chain has already. -/
def importTransactionsAsBlock (isKnownTransaction : H256 → Bool) (s : State)
    (transactions : List Transaction) : Option (Block × Nat) :=
  let shaLastTx := s.db.getLastExecutedTransactionHash
  match transactions.findIdx? (·.hash = shaLastTx) with
  | some found =>
    if isKnownTransaction shaLastTx then do
      let (block, _, count) ← syncEveryone env machine skip gasPrice s transactions none
      some (block, count)
    else do
      let vecMissing := transactions.drop (found + 1)
      let (block, _, count) ←
        syncEveryone env machine skip gasPrice s transactions (some vecMissing)
      some (block, count + (found + 1))
  | none => do
    let (block, _, count) ← syncEveryone env machine skip gasPrice s transactions none
    some (block, count)

end

end Skaled
