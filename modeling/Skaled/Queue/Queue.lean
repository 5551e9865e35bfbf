import Skaled.Basic
import Skaled.Lib.NestedMap
import Skaled.Lib.StateProg

/-! # The transaction queue

`dev::eth::TransactionQueue`: pending transactions in `current`, in the order of
a multiset, with an index by hash and one by sender and nonce whose entries are
iterators into it; future transactions by sender and nonce. Iterators are the
numbers of the elements, and an iterator that points to nothing is `none`.

Where the containers of the source leave something open, `engine` decides: the
first element of a hash map, the place of a new element when the multiset is
not sorted, and where an iterator goes on from an element that was taken out.

Assertions are not checked, as in all builds but `Debug`: the address and the
nonce of an invalid transaction can be asked for.
-/

namespace Skaled

/-- What the queue looks at in a transaction. The sender is missing when the
signature does not recover or there is none; a valid transaction with a sender
has an encoding. -/
structure PooledTransaction where
  hash : H256
  sender : Option Address
  nonce : U256
  gasPrice : U256
  size : Nat
  hasZeroSignature : Bool := false
  isNull : Bool := false
  isInvalid : Bool := false
  size_pos : isInvalid = false → sender.isSome = true → 0 < size
  null_sender : isNull = true → sender = none
  deriving DecidableEq

/-- `from()`, which is `safeSender()`. -/
def PooledTransaction.origin (t : PooledTransaction) : Address := t.sender.getD 0

/-- `operator bool()`. -/
def PooledTransaction.isReal (t : PooledTransaction) : Bool := !t.isNull && !t.isInvalid

structure VerifiedTransaction where
  transaction : PooledTransaction
  category : Int := 0
  deriving DecidableEq

/-- An element of `m_current` and the iterator to it. -/
structure QueueNode where
  id : Nat
  value : VerifiedTransaction
  deriving DecidableEq

abbrev QueueNode.transaction (node : QueueNode) : PooledTransaction := node.value.transaction

def QueueNode.withCategory (node : QueueNode) (category : Int) : QueueNode :=
  { node with value := { node.value with category } }

inductive ImportResult where
  | success
  | malformed
  | sameNonceAlreadyInQueue
  | alreadyKnown
  | alreadyInChain
  | zeroSignature
  deriving DecidableEq, Repr

inductive IfDropped where
  | ignore
  | retry
  deriving DecidableEq, Repr

/-- The ways an operation can end without returning: the exception of `sender()`,
the use of an iterator that points to nothing, and a loop that goes on for
ever. -/
inductive QueueFailure where
  | invalidSignature
  | undefined
  | endless
  deriving DecidableEq, Repr

structure TransactionQueue where
  known : Finset H256 := ∅
  dropped : List H256 := []
  current : List QueueNode := []
  currentByHash : Map H256 Nat := ∅
  currentByAddressAndNonce : NestedMap Address U256 (Option Nat) := ∅
  future : NestedMap Address U256 VerifiedTransaction := ∅
  limit : UInt32
  futureLimit : UInt32
  futureSize : UInt32 := 0
  currentSizeBytesLimit : UInt32
  currentSizeBytes : UInt32 := 0
  futureSizeBytesLimit : UInt32
  futureSizeBytes : UInt32 := 0
  nextId : Nat := 0
  engine : Nat → Nat := fun _ => 0

/-- The entries of a `std::map`, in the order of their keys. -/
def orderedEntries {Value : Type} (m : Map U256 Value) : List (Σ _ : U256, Value) :=
  m.entries.insertionSort fun x y => x.1.toNat ≤ y.1.toNat

namespace TransactionQueue

abbrev M := EStateM QueueFailure TransactionQueue

/-! ## The order of the multiset -/

section Order

variable (q : TransactionQueue)

def firstNonce (a : Address) : U256 :=
  match q.currentByAddressAndNonce.lookup a with
  | some queue => ((orderedEntries queue).head?.map Sigma.fst).getD 0
  | none => 0

def height (t : PooledTransaction) : U256 := t.nonce - q.firstNonce t.origin

/-- `PriorityCompare`. -/
def less (x y : VerifiedTransaction) : Bool :=
  match x.transaction.isReal, y.transaction.isReal with
  | false, true => y.category ≤ x.category
  | true, false => y.category < x.category
  | false, false => x.category < y.category
  | true, true =>
    let height1 := (q.height x.transaction).toNat
    let height2 := (q.height y.transaction).toNat
    y.category < x.category || (x.category = y.category &&
      (height1 < height2 || (height1 = height2 &&
        y.transaction.gasPrice.toNat < x.transaction.gasPrice.toNat)))

/-- `sender()` is asked of both, and one of them has none. -/
def lessThrows (x y : VerifiedTransaction) : Bool :=
  x.transaction.isReal && y.transaction.isReal &&
    (x.transaction.sender.isNone || y.transaction.sender.isNone)

/-- No element is less than one in front of it. -/
def Sorted : Prop := q.current.Pairwise fun x y => q.less y.value x.value = false

instance : Decidable q.Sorted := inferInstanceAs (Decidable (List.Pairwise _ _))

def upperBound (v : VerifiedTransaction) : Nat :=
  (q.current.takeWhile fun node => !q.less v node.value).length

/-- The search for a place can end here: the elements on both sides were compared. -/
def fitsAt (v : VerifiedTransaction) (position : Nat) : Bool :=
  (q.current.take position).getLast?.all (fun node => !q.less v node.value) &&
    (q.current.drop position).head?.all fun node => q.less v node.value

/-- Where a new element goes: behind all that it is not less than, or, if the
multiset is not sorted, to any place where the search can end. -/
def place (v : VerifiedTransaction) : Nat :=
  if q.Sorted then q.upperBound v
  else
    let places := (List.range (q.current.length + 1)).filter (q.fitsAt v)
    places.getD (q.engine 1 % places.length) (q.upperBound v)

/-- The elements less than `v` come first. -/
def Partitioned (v : VerifiedTransaction) : Prop :=
  ∀ node ∈ q.current.dropWhile fun node => q.less node.value v, q.less node.value v = false

instance (v : VerifiedTransaction) : Decidable (q.Partitioned v) :=
  inferInstanceAs (Decidable (∀ _ ∈ _, _))

def lowerBound (v : VerifiedTransaction) : Nat :=
  if q.Partitioned v then (q.current.takeWhile fun node => q.less node.value v).length
  else q.engine 0 % (q.current.length + 1)

end Order

/-- `m_current.emplace`. The comparison throws for a transaction without sender, if
it comes to it. -/
def insertNode (node : QueueNode) : M Unit := do
  let q ← get
  let throwing := q.current.filter fun other => lessThrows node.value other.value
  if throwing ≠ [] ∧ (throwing.length = q.current.length ∨ q.engine 0 % 2 = 1) then
    throw .invalidSignature
  set { q with
    current := q.current.insertIdx (q.place node.value) node
    engine := fun n => q.engine (n + 2) }

def emplace (v : VerifiedTransaction) : M Nat := do
  let id := (← get).nextId
  insertNode ⟨id, v⟩
  modify fun q => { q with nextId := id + 1 }
  pure id

/-- The element an iterator points to. -/
def deref (id : Nat) : M QueueNode := do
  match (← get).current.find? (·.id = id) with
  | some node => pure node
  | none => throw .undefined

/-! ## Between current and future -/

/-- The entries from the given nonce on, as long as they follow each other. -/
def consecutive : U256 → List (Σ _ : U256, VerifiedTransaction) →
    List (Σ _ : U256, VerifiedTransaction)
  | _, [] => []
  | nonce, entry :: rest =>
    if entry.2.transaction.nonce = nonce then entry :: consecutive (nonce + 1) rest else []

def putCurrent (a : Address) (t : PooledTransaction) : M Unit := do
  modify fun q => { q with
    currentByAddressAndNonce := q.currentByAddressAndNonce.insertNew a t.nonce none }
  let handle ← emplace ⟨t, 0⟩
  modify fun q => { q with
    currentByAddressAndNonce := q.currentByAddressAndNonce.assign a t.nonce (some handle)
    currentByHash := q.currentByHash.insert t.hash handle
    currentSizeBytes := q.currentSizeBytes + UInt32.ofNat t.size }

/-- The loop of `makeCurrent_WITH_LOCK`, for one transaction. -/
def promote (a : Address) (v : VerifiedTransaction) : M Unit := do
  putCurrent a v.transaction
  modify fun q => { q with
    futureSizeBytes := q.futureSizeBytes - UInt32.ofNat v.transaction.size
    futureSize := q.futureSize - 1 }

def makeCurrent (t : PooledTransaction) : M Unit := do
  match (← get).future.lookup t.origin with
  | none => pure ()
  | some queue =>
    let nonce := t.nonce + 1
    if (queue.lookup nonce).isSome then do
      let moved := consecutive nonce ((orderedEntries queue).dropWhile (·.1 ≠ nonce))
      moved.forM fun entry => promote t.origin entry.2
      modify fun q => { q with
        future := NestedMap.dropEmpty
          (moved.foldl (fun m entry => m.eraseAt t.origin entry.1) q.future) t.origin }

def insertCurrent (h : H256) (t : PooledTransaction) : M Unit := do
  if ((← get).currentByHash.lookup h).isSome then pure ()
  else do
    putCurrent t.origin t
    makeCurrent t
    modify fun q => { q with known := insert h q.known }

def remove (h : H256) : M Bool := do
  match (← get).currentByHash.lookup h with
  | none => pure false
  | some id => do
    let t := (← deref id).transaction
    if ((← get).currentByAddressAndNonce.lookup t.origin).isNone then throw .undefined
    modify fun q => { q with
      currentByAddressAndNonce :=
        (q.currentByAddressAndNonce.eraseAt t.origin t.nonce).dropEmpty t.origin
      currentSizeBytes := q.currentSizeBytes - UInt32.ofNat t.size
      current := q.current.eraseP (·.id = id)
      currentByHash := q.currentByHash.erase h
      known := q.known.erase h }
    pure true

/-- The loop of `setFuture_WITH_LOCK`, for one iterator. -/
def demote (a : Address) : Option Nat → M Unit
  | none => throw .undefined
  | some id => do
    let t := (← deref id).transaction
    modify fun q => { q with
      currentByHash := q.currentByHash.erase t.hash
      currentSizeBytes := q.currentSizeBytes - UInt32.ofNat t.size
      futureSizeBytes := q.futureSizeBytes + UInt32.ofNat t.size
      future := q.future.insertNew a t.nonce ⟨t, 0⟩
      current := q.current.eraseP (·.id = id)
      futureSize := q.futureSize + 1 }

def currentTooLarge (q : TransactionQueue) : Bool :=
  q.limit.toNat < q.current.length || q.currentSizeBytesLimit < q.currentSizeBytes

def futureTooLarge (q : TransactionQueue) : Bool :=
  q.futureLimit < q.futureSize || q.futureSizeBytesLimit < q.futureSizeBytes

/-- One round of the loop that drops future transactions: the last one of the
first sender. -/
def dropFuture : M Unit := do
  let q ← get
  match q.future.entries[q.engine 0 % q.future.entries.length]? with
  | none => throw .undefined
  | some ⟨a, queue⟩ =>
    match (orderedEntries queue).getLast? with
    | none => throw .undefined
    | some ⟨nonce, v⟩ =>
      set { q with
        futureSize := q.futureSize - 1
        futureSizeBytes := q.futureSizeBytes - UInt32.ofNat v.transaction.size
        known := q.known.erase v.transaction.hash
        future := (q.future.eraseAt a nonce).dropEmpty a
        engine := fun n => q.engine (n + 1) }

/-- `while( condition ) body`, given up after so many rounds. -/
def loopWhile (condition : TransactionQueue → Bool) (body : M Unit) : Nat → M Unit
  | 0 => do if condition (← get) then throw .endless
  | rounds + 1 => do
    if condition (← get) then do
      body
      loopWhile condition body rounds

/-- The transaction at the end of `current` goes. -/
def dropCurrent : M Unit := do
  match (← get).current.getLast? with
  | none => throw .undefined
  | some node => do
    let _ ← remove node.transaction.hash

def setFuture (h : H256) : M Unit := do
  match (← get).currentByHash.lookup h with
  | none => pure ()
  | some id => do
    let t := (← deref id).transaction
    let queue := ((← get).currentByAddressAndNonce.lookup t.origin).getD ∅
    modify fun q => { q with
      future := q.future.insert t.origin ((q.future.lookup t.origin).getD ∅) }
    let moved := (orderedEntries queue).filter fun entry => t.nonce.toNat ≤ entry.1.toNat
    moved.forM fun entry => demote t.origin entry.2
    modify fun q => { q with
      currentByAddressAndNonce := NestedMap.dropEmpty
        (moved.foldl (fun m entry => m.eraseAt t.origin entry.1) q.currentByAddressAndNonce)
        t.origin }
    loopWhile futureTooLarge dropFuture ((← get).future.values.card + 1)

/-! ## Operations -/

/-- `c_maxDroppedTransactionCount`. -/
def maxDropped : Nat := 1024

/-- `m_dropped.insert`: the newest comes first, the oldest makes room. -/
def noteDropped (h : H256) (dropped : List H256) : List H256 :=
  if h ∈ dropped then h :: dropped.erase h
  else if dropped.length = maxDropped then h :: dropped.dropLast
  else h :: dropped

/-- `check_WITH_LOCK`. Asking for a dropped hash makes it the newest. -/
def check (h : H256) (ik : IfDropped) : M ImportResult := do
  let q ← get
  if h ∈ q.known then pure .alreadyKnown
  else if h ∈ q.dropped then do
    set { q with dropped := h :: q.dropped.erase h }
    pure (if ik = .ignore then .alreadyInChain else .success)
  else pure .success

/-- The part of `manageImport_WITH_LOCK` inside the `try`. -/
def tryImport (h : H256) (t : PooledTransaction) : M ImportResult := do
  let q ← get
  if (q.currentByAddressAndNonce.find t.origin t.nonce).isSome then
    pure .sameNonceAlreadyInQueue
  else if (q.future.find t.origin t.nonce).isSome then pure .sameNonceAlreadyInQueue
  else do
    insertCurrent h t
    loopWhile currentTooLarge dropCurrent ((← get).current.length + 1)
    pure .success

/-- `manageImport_WITH_LOCK`: an exception leaves what was done so far. -/
def manageImport (h : H256) (t : PooledTransaction) : M ImportResult :=
  tryCatch (tryImport h t) fun failure =>
    match failure with
    | .invalidSignature => pure .malformed
    | failure => throw failure

/-- The beginning of `import`: a future transaction of the same sender and nonce
is taken out. -/
def takeFuture (a : Address) (nonce : U256) : M Unit := do
  match (← get).future.find a nonce with
  | none => pure ()
  | some v =>
    modify fun q => { q with
      futureSize := q.futureSize - 1
      futureSizeBytes := q.futureSizeBytes - UInt32.ofNat v.transaction.size
      known := q.known.erase v.transaction.hash
      future := (q.future.eraseAt a v.transaction.nonce).dropEmpty a }

/-- `import`. -/
def importTransaction (t : PooledTransaction) (ik : IfDropped) (isFuture : Bool) :
    M ImportResult := do
  if t.hasZeroSignature then pure .zeroSignature
  else do
    takeFuture t.origin t.nonce
    match ← check t.hash ik with
    | .success => do
      let ret ← manageImport t.hash t
      if isFuture then setFuture t.hash
      pure ret
    | other => pure other

def drop (h : H256) : M Unit := do
  if h ∈ (← get).known then do
    modify fun q => { q with dropped := noteDropped h q.dropped }
    let _ ← remove h

def dropGood (t : PooledTransaction) : M Unit := do
  if !t.isInvalid then makeCurrent t
  if t.hash ∈ (← get).known then do
    let _ ← remove t.hash

def clear : M Unit :=
  modify fun q => { q with
    known := ∅
    current := []
    currentSizeBytes := 0
    dropped := []
    currentByAddressAndNonce := ∅
    currentByHash := ∅
    future := ∅
    futureSize := 0
    futureSizeBytes := 0 }

/-- The transaction that stands for the beginning of a category. -/
def dummy (category : Int) : VerifiedTransaction :=
  { transaction :=
      { hash := 0, sender := none, nonce := 0, gasPrice := 0, size := 0, isNull := true
        size_pos := fun _ => nofun, null_sender := fun _ => rfl }
    category }

/-- The first loop of `topTransactions_WITH_LOCK` when elements are taken out.
The iterator is moved on from an element that is no longer there: to the one
that followed it, or wherever `engine` says. -/
def extract : (count position : Nat) → M (List QueueNode)
  | 0, _ => pure []
  | count + 1, position => do
    let q ← get
    match q.current[position]? with
    | none => pure []
    | some node => do
      set { q with
        current := q.current.eraseIdx position
        engine := fun n => q.engine (n + 1) }
      let next := if q.engine 0 = 0 then position else q.engine 0 - 1
      return node :: (← extract count next)

/-- `topTransactions_WITH_LOCK` with categories, up to the sorting at its end. -/
def takeTop (limit : Nat) (maxCategory setCategory : Int) : M (List PooledTransaction) := do
  let q ← get
  let position := q.lowerBound (dummy maxCategory)
  set { q with engine := fun n => q.engine (n + 1) }
  if 0 ≤ setCategory then do
    let found ← extract limit position
    found.forM fun node => insertNode (node.withCategory setCategory)
    pure (found.map (·.transaction))
  else pure (((q.current.drop position).take limit).map (·.transaction))

/-- `std::stable_sort` with `PriorityCompare`; the category of a transaction on
its own is zero. -/
def stableSort (q : TransactionQueue) (ts : List PooledTransaction) : List PooledTransaction :=
  ts.mergeSort fun x y => !q.less ⟨y, 0⟩ ⟨x, 0⟩

/-- `topTransactions` with categories. The comparisons at the end may throw. -/
def topTransactions (limit : Nat) (maxCategory setCategory : Int) :
    M (List PooledTransaction) := do
  let top ← takeTop limit maxCategory setCategory
  let q ← get
  if 2 ≤ top.length ∧ (top.any fun x => top.any fun y => lessThrows ⟨x, 0⟩ ⟨y, 0⟩) ∧
      q.engine 0 % 2 = 1 then
    throw .invalidSignature
  pure (q.stableSort top)

def topTransactionsAvoiding (q : TransactionQueue) (limit : Nat) (avoid : Finset H256) :
    List PooledTransaction :=
  ((q.current.map (·.transaction)).filter (·.hash ∉ avoid)).take limit

end TransactionQueue

inductive QueueOp where
  | importTransaction (t : PooledTransaction) (ik : IfDropped) (isFuture : Bool)
  | setFuture (h : H256)
  | drop (h : H256)
  | dropGood (t : PooledTransaction)
  | topTransactions (limit : Nat) (maxCategory setCategory : Int)
  | clear

/-- An operation, and what `import` returned. -/
def QueueOp.run : QueueOp → TransactionQueue.M (Option ImportResult)
  | .importTransaction t ik isFuture => some <$> TransactionQueue.importTransaction t ik isFuture
  | .setFuture h => do TransactionQueue.setFuture h; pure none
  | .drop h => do TransactionQueue.drop h; pure none
  | .dropGood t => do TransactionQueue.dropGood t; pure none
  | .topTransactions limit maxCategory setCategory => do
    let _ ← TransactionQueue.topTransactions limit maxCategory setCategory
    pure none
  | .clear => do TransactionQueue.clear; pure none

end Skaled
