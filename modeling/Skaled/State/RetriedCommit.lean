import Skaled.Lib.BatchedStore
import Skaled.State.CommitLoop

/-! # Commits that are tried again

`OverlayDB::commit` hands its batch to the store up to ten times. Insertions are
written into the batch anew at each try, out of the caches. Removals of accounts
and of auxiliary data went into the batch when they were made, and a try that
fails takes them with it.

Here the store is one map. Its keys are byte strings that differ in length from
kind to kind, and the values are those the strings stand for.
-/

namespace Skaled

open BatchedStore (write_append write_entries write_map_of_ne write_of_notMem)

inductive StateKey where
  | account (address : Address)
  | auxiliary (address : Address) (space : BitVec 8)
  | storage (address : Address) (slot : U256)
  | storageUsed
  | safeLastExecutedTransactionHash
  | safeLastTransactionReceipts
  deriving DecidableEq

inductive StateValue where
  | record (bytes : Bytes)
  | slot (value : U256)
  | used (storageUsed : Int)
  | hash (hash : H256)
  | receipts (receipts : List TransactionReceipt)
  deriving DecidableEq

/-- `OverlayDB` in front of a store that may refuse a batch. -/
structure RetryingDB where
  db : BatchedStore StateKey StateValue
  cache : Map Address Bytes := ∅
  auxiliaryCache : Map (Address × BitVec 8) Bytes := ∅
  storageCache : Map (Address × U256) U256 := ∅
  storageUsed' : Int := 0
  lastExecutedTransactionHash : Option H256 := none
  lastExecutedTransactionReceipts : Option (List TransactionReceipt) := none

namespace RetryingDB

variable (s : RetryingDB)

def insert (address : Address) (value : Bytes) : RetryingDB :=
  { s with cache := s.cache.insert address value }

/-- `kill`: what is in the cache is removed there only. -/
def kill (address : Address) : RetryingDB :=
  if (s.cache.lookup address).isSome then { s with cache := s.cache.erase address }
  else if (s.db.disk (.account address)).isSome then { s with db := s.db.kill (.account address) }
  else s

def insertAuxiliary (address : Address) (value : Bytes) (space : BitVec 8) : RetryingDB :=
  { s with auxiliaryCache := s.auxiliaryCache.insert (address, space) value }

def killAuxiliary (address : Address) (space : BitVec 8) : RetryingDB :=
  if (s.auxiliaryCache.lookup (address, space)).isSome then
    { s with auxiliaryCache := s.auxiliaryCache.erase (address, space) }
  else if (s.db.disk (.auxiliary address space)).isSome then
    { s with db := s.db.kill (.auxiliary address space) }
  else s

def insertStorage (address : Address) (slot value : U256) : RetryingDB :=
  { s with storageCache := s.storageCache.insert (address, slot) value }

def getLastExecutedTransactionHash : H256 :=
  s.lastExecutedTransactionHash.getD <|
    match s.db.disk .safeLastExecutedTransactionHash with
    | some (.hash hash) => hash
    | _ => 0

def getPartialTransactionReceipts : List TransactionReceipt :=
  s.lastExecutedTransactionReceipts.getD <|
    match s.db.disk .safeLastTransactionReceipts with
    | some (.receipts receipts) => receipts
    | _ => []

def storedValue (P : Patches) (value : U256) : Option StateValue :=
  if P.contractStorageZeroValue = true ∧ value = 0 then none else some (.slot value)

/-- What a try adds to the batch. -/
def changes (P : Patches) : List (StateKey × Option StateValue) :=
  s.cache.entries.map (fun entry => (.account entry.1, some (.record entry.2))) ++
    s.auxiliaryCache.entries.map
      (fun entry => (.auxiliary entry.1.1 entry.1.2, some (.record entry.2))) ++
    s.storageCache.entries.map
      (fun entry => (.storage entry.1.1 entry.1.2, storedValue P entry.2)) ++
    [(.storageUsed, some (.used s.storageUsed')),
      (.safeLastExecutedTransactionHash, some (.hash s.getLastExecutedTransactionHash)),
      (.safeLastTransactionReceipts, some (.receipts s.getPartialTransactionReceipts))]

/-- One try. -/
def attempt (P : Patches) (accepts : Bool) : RetryingDB :=
  { s with db := BatchedStore.commit { s.db with batch := s.db.batch ++ s.changes P } accepts }

/-- The loop of `commit`, in which the store refuses the first `failures` tries;
without a try left the process ends. -/
def tries (P : Patches) : (left failures : Nat) → RetryingDB → Option RetryingDB
  | 0, _, _ => none
  | _ + 1, 0, s => some (s.attempt P true)
  | left + 1, failures + 1, s => tries P left failures (s.attempt P false)

/-- `commit`: ten tries, after which everything that waited is gone. -/
def commit (P : Patches) (failures : Nat) : Option RetryingDB :=
  (tries P 10 failures s).map fun s =>
    { s with
      db := { s.db with batch := [] }
      cache := ∅
      auxiliaryCache := ∅
      storageCache := ∅ }

end RetryingDB

/-! ## What operations are meant to do -/

/-- Operations between two commits. -/
inductive OverlayOp where
  | insert (address : Address) (value : Bytes)
  | kill (address : Address)
  | insertAuxiliary (address : Address) (value : Bytes) (space : BitVec 8)
  | killAuxiliary (address : Address) (space : BitVec 8)
  | insertStorage (address : Address) (slot value : U256)
  deriving DecidableEq

namespace OverlayOp

def run (s : RetryingDB) : OverlayOp → RetryingDB
  | .insert address value => s.insert address value
  | .kill address => s.kill address
  | .insertAuxiliary address value space => s.insertAuxiliary address value space
  | .killAuxiliary address space => s.killAuxiliary address space
  | .insertStorage address slot value => s.insertStorage address slot value

def key : OverlayOp → StateKey
  | .insert address _ | .kill address => .account address
  | .insertAuxiliary address _ space | .killAuxiliary address space => .auxiliary address space
  | .insertStorage address slot _ => .storage address slot

/-- What an operation is meant to leave at its key. -/
def value (P : Patches) : OverlayOp → Option StateValue
  | .insert _ value | .insertAuxiliary _ value _ => some (.record value)
  | .kill _ | .killAuxiliary _ _ => none
  | .insertStorage _ _ value => RetryingDB.storedValue P value

def isKill : OverlayOp → Bool
  | .kill _ | .killAuxiliary _ _ => true
  | _ => false

end OverlayOp

/-- How a key stands after some operations: whether its last insertion is still
to be written, whether its last operation was a removal, and whether some
removal found no insertion in front of it. -/
structure KeyFate where
  cached : Bool := false
  killed : Bool := false
  removed : Bool := false
  deriving DecidableEq

def KeyFate.step (key : StateKey) (fate : KeyFate) (op : OverlayOp) : KeyFate :=
  if op.key ≠ key then fate
  else if op.isKill then
    { cached := false, killed := true, removed := fate.removed || !fate.cached }
  else { fate with cached := true, killed := false }

def fateOf (ops : List OverlayOp) (key : StateKey) : KeyFate := ops.foldl (KeyFate.step key) {}

/-- The contents of the store that operations are meant to lead to. -/
def intended (P : Patches) (disk : StateKey → Option StateValue) (ops : List OverlayOp) :
    StateKey → Option StateValue :=
  BatchedStore.write disk (ops.map fun op => (op.key, op.value P))

/-- An overlay in which nothing waits, with what it remembers of the last
transaction. -/
def RetryingDB.start (disk : StateKey → Option StateValue) (used : Int) (hash : Option H256)
    (receipts : Option (List TransactionReceipt)) : RetryingDB :=
  { db := { disk }
    storageUsed' := used
    lastExecutedTransactionHash := hash
    lastExecutedTransactionReceipts := receipts }

/-- The three records that every commit writes. -/
def StateKey.isNamed : StateKey → Bool
  | .storageUsed | .safeLastExecutedTransactionHash | .safeLastTransactionReceipts => true
  | _ => false

/-- Nothing is lost: the commit returns, the store is as if the first try had
succeeded, every inserted value is there and every removed key is gone. -/
def LosesNothing (P : Patches) (disk : StateKey → Option StateValue) (s : RetryingDB)
    (ops : List OverlayOp) (failures : Nat) : Prop :=
  ∃ after first, s.commit P failures = some after ∧ s.commit P 0 = some first ∧
    after.db.disk = first.db.disk ∧
    ∀ key, key.isNamed = false → after.db.disk key = intended P disk ops key

/-! ## What waits -/

variable {P : Patches} {disk : StateKey → Option StateValue} {s : RetryingDB}
  {ops : List OverlayOp}

namespace RetryingDB

def waiting (P : Patches) (s : RetryingDB) : StateKey → Option (Option StateValue)
  | .account address => (s.cache.lookup address).map fun value => some (.record value)
  | .auxiliary address space =>
    (s.auxiliaryCache.lookup (address, space)).map fun value => some (.record value)
  | .storage address slot => (s.storageCache.lookup (address, slot)).map (storedValue P)
  | .storageUsed => some (some (.used s.storageUsed'))
  | .safeLastExecutedTransactionHash => some (some (.hash s.getLastExecutedTransactionHash))
  | .safeLastTransactionReceipts => some (some (.receipts s.getPartialTransactionReceipts))

theorem write_changes (disk : StateKey → Option StateValue) (key : StateKey) :
    BatchedStore.write disk (s.changes P) key = (s.waiting P key).getD (disk key) := by
  rw [changes, write_append, write_append, write_append]
  cases key with
  | account address =>
    have hcache := write_entries (fun _ _ h => StateKey.account.inj h)
      (fun value => some (StateValue.record value)) s.cache disk address
    rw [write_of_notMem (by simp), write_map_of_ne (by simp),
      write_map_of_ne (by simp), hcache, waiting]
    cases s.cache.lookup address <;> rfl
  | auxiliary address space =>
    have hembed : Function.Injective fun key : Address × BitVec 8 =>
        StateKey.auxiliary key.1 key.2 := by
      intro key key' h
      exact Prod.ext (StateKey.auxiliary.inj h).1 (StateKey.auxiliary.inj h).2
    rw [write_of_notMem (by simp), write_map_of_ne (by simp), waiting]
    refine (write_entries hembed (fun value => some (StateValue.record value))
      s.auxiliaryCache _ (address, space)).trans ?_
    rw [write_map_of_ne (by simp)]
    cases s.auxiliaryCache.lookup (address, space) <;> rfl
  | storage address slot =>
    have hembed : Function.Injective fun key : Address × U256 =>
        StateKey.storage key.1 key.2 := by
      intro key key' h
      exact Prod.ext (StateKey.storage.inj h).1 (StateKey.storage.inj h).2
    rw [write_of_notMem (by simp), waiting]
    refine (write_entries hembed (storedValue P) s.storageCache _
      (address, slot)).trans ?_
    rw [write_map_of_ne (by simp), write_map_of_ne (by simp)]
    cases s.storageCache.lookup (address, slot) <;> rfl
  | storageUsed | safeLastExecutedTransactionHash | safeLastTransactionReceipts =>
    simp [BatchedStore.write, waiting]

/-- A removal joins the batch when its key is in the store and in no cache. -/
theorem kill_eq (address : Address) : s.kill address = { s with
    cache := s.cache.erase address
    db := if s.cache.lookup address = none ∧ (s.db.disk (.account address)).isSome = true then
      s.db.kill (.account address) else s.db } := by
  rw [kill]
  cases hcached : s.cache.lookup address with
  | some value => simp
  | none =>
    rw [AList.erase_of_lookup_eq_none hcached]
    cases s.db.disk (.account address) <;> simp

theorem killAuxiliary_eq (address : Address) (space : BitVec 8) :
    s.killAuxiliary address space = { s with
      auxiliaryCache := s.auxiliaryCache.erase (address, space)
      db := if s.auxiliaryCache.lookup (address, space) = none ∧
          (s.db.disk (.auxiliary address space)).isSome = true then
        s.db.kill (.auxiliary address space) else s.db } := by
  rw [killAuxiliary]
  cases hcached : s.auxiliaryCache.lookup (address, space) with
  | some value => simp
  | none =>
    rw [AList.erase_of_lookup_eq_none hcached]
    cases s.db.disk (.auxiliary address space) <;> simp

/-- The store with its batch after an operation. -/
theorem db_run (P : Patches) (op : OverlayOp) : (op.run s).db =
    if op.isKill = true ∧ s.waiting P op.key = none ∧ (s.db.disk op.key).isSome = true
    then s.db.kill op.key else s.db := by
  cases op with
  | insert | insertAuxiliary | insertStorage => rfl
  | kill address => simp [OverlayOp.run, kill_eq, OverlayOp.isKill, OverlayOp.key, waiting]
  | killAuxiliary address space =>
    simp [OverlayOp.run, killAuxiliary_eq, OverlayOp.isKill, OverlayOp.key, waiting]

/-- An operation changes what waits at its own key only. -/
theorem waiting_run (op : OverlayOp) {key : StateKey} (hkey : key.isNamed = false) :
    (op.run s).waiting P key =
      if key = op.key then (if op.isKill then none else some (op.value P))
      else s.waiting P key := by
  cases op with
  | insert address value | kill address =>
    cases key with
    | account other =>
      simp only [OverlayOp.run, insert, kill_eq, waiting, AList.lookup_insert_eq_ite,
        AList.lookup_erase_eq_ite, OverlayOp.key, StateKey.account.injEq]
      split <;> rfl
    | auxiliary | storage => simp [OverlayOp.run, insert, kill_eq, waiting, OverlayOp.key]
    | _ => cases hkey
  | insertAuxiliary address value space | killAuxiliary address space =>
    cases key with
    | auxiliary other otherSpace =>
      simp only [OverlayOp.run, insertAuxiliary, killAuxiliary_eq, waiting,
        AList.lookup_insert_eq_ite, AList.lookup_erase_eq_ite, OverlayOp.key,
        StateKey.auxiliary.injEq, Prod.mk.injEq]
      split <;> rfl
    | account | storage =>
      simp [OverlayOp.run, insertAuxiliary, killAuxiliary_eq, waiting, OverlayOp.key]
    | _ => cases hkey
  | insertStorage address slot value =>
    cases key with
    | storage other otherSlot =>
      simp only [OverlayOp.run, insertStorage, waiting, AList.lookup_insert_eq_ite,
        OverlayOp.key, StateKey.storage.injEq, Prod.mk.injEq]
      split <;> rfl
    | account | auxiliary => rfl
    | _ => cases hkey

end RetryingDB

/-! ## What operations leave behind -/

section Operations

variable {op : OverlayOp} {key : StateKey}

theorem OverlayOp.key_isNamed (op : OverlayOp) : op.key.isNamed = false := by
  cases op <;> rfl

theorem OverlayOp.value_of_isKill (hkill : op.isKill = true) : op.value P = none := by
  cases op with
  | kill | killAuxiliary => rfl
  | _ => cases hkill

theorem fateOf_append : fateOf (ops ++ [op]) key = (fateOf ops key).step key op := by
  simp [fateOf]

theorem intended_append :
    intended P disk (ops ++ [op]) = Function.update (intended P disk ops) op.key (op.value P) := by
  simp [intended, BatchedStore.write]

/-- A key whose insertion waits was not removed after it; one that was ever
removed from the store is inserted again or stays removed. -/
structure KeyFate.Proper (fate : KeyFate) : Prop where
  not_killed : fate.cached = true → fate.killed = false
  of_removed : fate.removed = true → fate.cached = false → fate.killed = true

theorem KeyFate.Proper.step {fate : KeyFate} (h : fate.Proper) (key : StateKey) (op : OverlayOp) :
    (fate.step key op).Proper := by
  rw [KeyFate.step]
  split_ifs
  · exact h
  · exact ⟨nofun, fun _ _ => rfl⟩
  · exact ⟨fun _ => rfl, nofun⟩

theorem fateOf_proper (ops : List OverlayOp) (key : StateKey) : (fateOf ops key).Proper := by
  induction ops using List.reverseRecOn with
  | nil => exact ⟨nofun, nofun⟩
  | append_singleton ops op ih =>
    rw [fateOf_append]
    exact ih.step key op

/-- Only operations touch a key. -/
theorem fateOf_of_forall_ne (hkey : ∀ op ∈ ops, op.key ≠ key) : fateOf ops key = {} := by
  induction ops using List.reverseRecOn with
  | nil => rfl
  | append_singleton ops op ih =>
    have hne : op.key ≠ key := hkey op (by simp)
    rw [fateOf_append, ih fun other hother => hkey other (by simp [hother]), KeyFate.step,
      if_pos hne]

theorem fateOf_of_isNamed (hkey : key.isNamed = true) : fateOf ops key = {} := by
  apply fateOf_of_forall_ne
  rintro op - rfl
  rw [op.key_isNamed] at hkey
  cases hkey

/-- Without an insertion that waits, a key is as it was or removed. -/
theorem intended_of_uncached (hcached : (fateOf ops key).cached = false) :
    intended P disk ops key = if (fateOf ops key).killed then none else disk key := by
  induction ops using List.reverseRecOn with
  | nil => rfl
  | append_singleton ops op ih =>
    rw [fateOf_append, KeyFate.step] at hcached ⊢
    rw [intended_append]
    by_cases hne : op.key ≠ key
    · rw [if_pos hne] at hcached ⊢
      rw [Function.update_of_ne hne.symm, ih hcached]
    · obtain rfl : op.key = key := not_not.mp hne
      rw [if_neg hne] at hcached ⊢
      by_cases hkill : op.isKill = true
      · rw [if_pos hkill, Function.update_self, OverlayOp.value_of_isKill hkill]
        rfl
      · rw [if_neg hkill] at hcached
        cases hcached

/-- What the caches and the batch hold after some operations. -/
structure RetryingDB.Tracks (P : Patches) (disk : StateKey → Option StateValue)
    (ops : List OverlayOp) (s : RetryingDB) : Prop where
  disk_eq : s.db.disk = disk
  waiting_eq : ∀ key, key.isNamed = false → s.waiting P key =
    if (fateOf ops key).cached then some (intended P disk ops key) else none
  kills : ∀ change ∈ s.db.batch, change.2 = none
  mem_batch : ∀ key, key ∈ s.db.batch.map Prod.fst ↔
    (fateOf ops key).removed = true ∧ (disk key).isSome = true

namespace RetryingDB.Tracks

theorem waiting_step (h : Tracks P disk ops s) (op : OverlayOp) (key : StateKey)
    (hkey : key.isNamed = false) :
    (op.run s).waiting P key = if (fateOf (ops ++ [op]) key).cached then
      some (intended P disk (ops ++ [op]) key) else none := by
  rw [waiting_run op hkey, fateOf_append, intended_append, KeyFate.step]
  by_cases hop : key = op.key
  · subst hop
    rw [if_pos rfl, if_neg (not_not.mpr rfl), Function.update_self]
    cases op.isKill <;> rfl
  · rw [if_neg hop, if_pos (Ne.symm hop), Function.update_of_ne hop, h.waiting_eq key hkey]

theorem mem_batch_step (h : Tracks P disk ops s) (op : OverlayOp) (key : StateKey) :
    key ∈ (op.run s).db.batch.map Prod.fst ↔
      (fateOf (ops ++ [op]) key).removed = true ∧ (disk key).isSome = true := by
  have hwaiting : s.waiting P op.key = none ↔ (fateOf ops op.key).cached = false := by
    rw [h.waiting_eq op.key op.key_isNamed]
    cases (fateOf ops op.key).cached <;> simp
  simp only [db_run P, apply_ite BatchedStore.batch, BatchedStore.kill, hwaiting, h.disk_eq,
    fateOf_append, KeyFate.step]
  by_cases hop : op.key = key
  · subst hop
    rw [if_neg (not_not.mpr rfl)]
    have hmem := h.mem_batch op.key
    cases hkill : op.isKill <;> cases hcached : (fateOf ops op.key).cached <;>
      cases hdisk : (disk op.key).isSome <;> simp [hmem, hdisk]
  · have hne : key ≠ op.key := Ne.symm hop
    have hmem := h.mem_batch key
    rw [if_pos hop]
    split_ifs
    · simp [hne, hmem]
    · exact hmem

protected theorem step (h : Tracks P disk ops s) (op : OverlayOp) :
    Tracks P disk (ops ++ [op]) (op.run s) where
  disk_eq := by
    rw [db_run P]
    split <;> exact h.disk_eq
  waiting_eq := h.waiting_step op
  kills := by
    intro change hchange
    rw [db_run P] at hchange
    split_ifs at hchange
    · rcases List.mem_append.mp hchange with hold | hnew
      · exact h.kills change hold
      · rw [List.mem_singleton.mp hnew]
    · exact h.kills change hchange
  mem_batch := h.mem_batch_step op

theorem run (ops : List OverlayOp) (used : Int) (hash : Option H256)
    (receipts : Option (List TransactionReceipt)) :
    Tracks P disk ops (ops.foldl (fun s op => op.run s) (start disk used hash receipts)) := by
  induction ops using List.reverseRecOn with
  | nil =>
    refine ⟨rfl, ?_, nofun, fun key => ?_⟩
    · intro key hkey
      cases key with
      | account | auxiliary | storage => rfl
      | _ => cases hkey
    · simp [start, fateOf]
  | append_singleton ops op ih =>
    rw [List.foldl_append]
    exact ih.step op

end RetryingDB.Tracks

end Operations

/-! ## Commits -/

namespace RetryingDB

variable {failures : Nat}

/-- A try that fails costs the batch and nothing else. -/
theorem attempt_false : s.attempt P false = { s with db := { disk := s.db.disk } } := rfl

/-- Only the first try has the removals. -/
theorem tries_eq {left : Nat} (hleft : failures < left) :
    tries P left failures s = some (if failures = 0 then s.attempt P true
      else ({ s with db := { disk := s.db.disk } } : RetryingDB).attempt P true) := by
  induction failures generalizing left s with
  | zero =>
    obtain ⟨left, rfl⟩ := Nat.exists_eq_succ_of_ne_zero hleft.ne'
    rfl
  | succ failures ih =>
    obtain ⟨left, rfl⟩ := Nat.exists_eq_succ_of_ne_zero (Nat.zero_lt_of_lt hleft).ne'
    rw [tries, ih (Nat.lt_of_succ_lt_succ hleft), if_neg (Nat.succ_ne_zero failures),
      attempt_false]
    split <;> rfl

/-- The store after a commit, key by key. -/
theorem commit_eq (hfailures : failures < 10) (hkills : ∀ change ∈ s.db.batch, change.2 = none) :
    ∃ after, s.commit P failures = some after ∧ ∀ key, after.db.disk key =
      (s.waiting P key).getD
        (if failures = 0 ∧ key ∈ s.db.batch.map Prod.fst then none else s.db.disk key) := by
  rw [commit, tries_eq hfailures]
  refine ⟨_, rfl, fun key => ?_⟩
  split
  next hzero =>
      change BatchedStore.write s.db.disk (s.db.batch ++ s.changes P) key = _
      rw [write_append, write_changes, BatchedStore.write_kills hkills]
      simp only [hzero, true_and]
  next hsome =>
      change BatchedStore.write s.db.disk ([] ++ s.changes P) key = _
      rw [List.nil_append, write_changes, if_neg fun h => hsome h.1]

theorem Tracks.commit (h : Tracks P disk ops s) (hfailures : failures < 10) :
    ∃ after, s.commit P failures = some after ∧
      (∀ key, key.isNamed = true → some (after.db.disk key) = s.waiting P key) ∧
      ∀ key, key.isNamed = false → after.db.disk key =
        if (fateOf ops key).cached then intended P disk ops key
        else if failures = 0 ∧ (fateOf ops key).removed = true then none else disk key := by
  obtain ⟨after, hafter, hdisk⟩ := commit_eq (P := P) hfailures h.kills
  refine ⟨after, hafter, fun key hkey => ?_, fun key hkey => ?_⟩
  · rw [hdisk]
    cases key with
    | account | auxiliary | storage => cases hkey
    | _ => rfl
  · rw [hdisk, h.waiting_eq key hkey, h.disk_eq]
    cases (fateOf ops key).cached with
    | true => rfl
    | false =>
      simp only [Bool.false_eq_true, if_false, Option.getD_none, h.mem_batch]
      cases hfound : disk key <;> simp

end RetryingDB

/-! ## Nothing is lost -/

/-- A key that is removed where it has to be is as intended. -/
theorem eq_intended {key : StateKey} {failures : Nat} (hkilled : (fateOf ops key).killed = true →
      disk key = none ∨ failures = 0 ∧ (fateOf ops key).removed = true) :
    (if (fateOf ops key).cached then intended P disk ops key
      else if failures = 0 ∧ (fateOf ops key).removed = true then none else disk key) =
      intended P disk ops key := by
  cases hcached : (fateOf ops key).cached with
  | true => rfl
  | false =>
    rw [intended_of_uncached hcached, if_neg Bool.false_ne_true]
    cases hlast : (fateOf ops key).killed with
    | true =>
      rcases hkilled hlast with hnone | hremoved
      · rw [hnone, ite_self, if_pos rfl]
      · rw [if_pos hremoved, if_pos rfl]
    | false =>
      rw [if_neg Bool.false_ne_true, if_neg]
      rintro ⟨-, hremoved⟩
      rw [(fateOf_proper ops key).of_removed hremoved hcached] at hlast
      cases hlast

/-- A commit that is tried again loses nothing exactly when every key whose last
operation removes it was missing in the store, or was removed there and no try
fails. -/
theorem losesNothing_iff (P : Patches) (disk : StateKey → Option StateValue) (used : Int)
    (hash : Option H256) (receipts : Option (List TransactionReceipt)) (ops : List OverlayOp)
    (failures : Nat) (hfailures : failures < 10) :
    LosesNothing P disk (ops.foldl (fun s op => op.run s)
      (RetryingDB.start disk used hash receipts)) ops failures ↔
      ∀ key, (fateOf ops key).killed = true →
        disk key = none ∨ failures = 0 ∧ (fateOf ops key).removed = true := by
  have htracks : RetryingDB.Tracks P disk ops _ := .run ops used hash receipts
  generalize ops.foldl (fun s op => op.run s) (RetryingDB.start disk used hash receipts) = s
    at htracks ⊢
  obtain ⟨after, hafter, hnamed, hdisk⟩ := htracks.commit hfailures
  obtain ⟨first, hfirst, hfirstNamed, hfirstDisk⟩ := htracks.commit (by decide : 0 < 10)
  constructor
  · rintro ⟨after', first', hafter', -, -, hintended⟩ key hkilled
    obtain rfl : after = after' := Option.some.inj (hafter.symm.trans hafter')
    have hkey : key.isNamed = false := by
      cases hkey : key.isNamed with
      | false => rfl
      | true => rw [fateOf_of_isNamed hkey] at hkilled; cases hkilled
    have hcached : (fateOf ops key).cached = false := by
      cases hcached : (fateOf ops key).cached with
      | false => rfl
      | true => rw [(fateOf_proper ops key).not_killed hcached] at hkilled; cases hkilled
    have hvalue := hintended key hkey
    rw [hdisk key hkey, intended_of_uncached hcached, hcached, hkilled] at hvalue
    by_cases hremoved : failures = 0 ∧ (fateOf ops key).removed = true
    · exact .inr hremoved
    · exact .inl (by simpa [hremoved] using hvalue)
  · intro hcond
    have hsame : ∀ key, key.isNamed = false → after.db.disk key = intended P disk ops key := by
      intro key hkey
      rw [hdisk key hkey, eq_intended (hcond key)]
    refine ⟨after, first, hafter, hfirst, funext fun key => ?_, hsame⟩
    cases hkey : key.isNamed with
    | true => exact Option.some.inj ((hnamed key hkey).trans (hfirstNamed key hkey).symm)
    | false =>
      rw [hsame key hkey, hfirstDisk key hkey, eq_intended]
      exact fun hkilled => (hcond key hkilled).imp_right fun h => ⟨rfl, h.2⟩

/-- The one account of the store is removed and put back, another one is made and
removed; the store refuses the batch three times. -/
theorem losesNothing_iff_sample :
    let disk : StateKey → Option StateValue := fun key =>
      if key = .account 1 then some (.record [7]) else none
    let ops : List OverlayOp := [.kill 1, .insert 1 [8], .insert 2 [9], .kill 2]
    LosesNothing State.samplePatches disk
      (ops.foldl (fun s op => op.run s) (RetryingDB.start disk 0 none none)) ops 3 := by
  intro disk ops
  refine (losesNothing_iff _ disk _ _ _ ops 3 (by decide)).mpr fun key hkilled => .inl ?_
  by_cases hone : key = .account 1
  · rw [hone] at hkilled
    exact absurd hkilled (by decide)
  · exact if_neg hone

/-- The only account of the store is removed, and the store refuses the batch
once: the account is still there. -/
theorem retried_kill_is_lost :
    ∃ disk : StateKey → Option StateValue, ∃ after first,
      ((OverlayOp.kill 1).run (RetryingDB.start disk 0 none none)).commit State.samplePatches 1 =
        some after ∧
      ((OverlayOp.kill 1).run (RetryingDB.start disk 0 none none)).commit State.samplePatches 0 =
        some first ∧
      after.db.disk (.account 1) = some (.record [7]) ∧ first.db.disk (.account 1) = none :=
  ⟨fun key => if key = .account 1 then some (.record [7]) else none, _, _, rfl, rfl,
    by decide, by decide⟩

end Skaled
