import Skaled.State.Clear
import Skaled.State.Operations
import Skaled.State.Record

/-! # The loop of a commit

`commit` writes the changed accounts into the overlay of the database, one
address at a time, and then flushes the overlay. What becomes of an address
depends on nothing but its own cached account, its own counter and what the
database holds for it, so the loop is described address by address.
-/

namespace Skaled

/-! ## Flushing the overlay -/

def BatchOp.address : BatchOp → Address
  | .killAccount a | .killAuxiliary a => a

namespace OverlayDB

/-- No account and no code waits to be written or removed. -/
structure Flushed (db : OverlayDB) : Prop where
  batch : db.batch = []
  cache : db.cache = ∅
  auxiliaryCache : db.auxiliaryCache = ∅

def nextRecord (db : OverlayDB) (a : Address) : Bytes :=
  match db.cache.lookup a with
  | some record => record
  | none =>
    if .killAccount a ∈ db.batch then [] else (db.disk.accounts.lookup a).getD []

def nextAuxiliary (db : OverlayDB) (a : Address) : Bytes :=
  match db.auxiliaryCache.lookup a with
  | some code => code
  | none =>
    if .killAuxiliary a ∈ db.batch then [] else (db.disk.auxiliary.lookup a).getD []

theorem batch_accounts (batch : List BatchOp) (disk : Disk) (a : Address) :
    (batch.foldl BatchOp.apply disk).accounts.lookup a =
      if .killAccount a ∈ batch then none else disk.accounts.lookup a := by
  refine AList.lookup_foldl_kill Disk.accounts BatchOp.killAccount ?_ batch disk a
  intro disk op b
  cases op <;> simp [BatchOp.apply, AList.lookup_erase_eq_ite]

theorem batch_auxiliary (batch : List BatchOp) (disk : Disk) (a : Address) :
    (batch.foldl BatchOp.apply disk).auxiliary.lookup a =
      if .killAuxiliary a ∈ batch then none else disk.auxiliary.lookup a := by
  refine AList.lookup_foldl_kill Disk.auxiliary BatchOp.killAuxiliary ?_ batch disk a
  intro disk op b
  cases op <;> simp [BatchOp.apply, AList.lookup_erase_eq_ite]

theorem batch_storage (batch : List BatchOp) (disk : Disk) :
    (batch.foldl BatchOp.apply disk).storage = disk.storage := by
  induction batch generalizing disk with
  | nil => rfl
  | cons op rest ih =>
    rw [List.foldl_cons, ih]
    cases op <;> rfl

variable (db : OverlayDB) (P : Patches)

theorem kill_eq (a : Address) : db.kill a = { db with
    cache := db.cache.erase a
    batch := db.batch ++ if db.cache.lookup a = none ∧ (db.disk.accounts.lookup a).isSome then
      [.killAccount a] else [] } := by
  rw [kill]
  cases hcached : db.cache.lookup a with
  | some record => simp
  | none =>
    rw [AList.erase_of_lookup_eq_none hcached]
    cases db.disk.accounts.lookup a <;> simp

theorem killAuxiliary_eq (a : Address) : db.killAuxiliary a = { db with
    auxiliaryCache := db.auxiliaryCache.erase a
    batch := db.batch ++
      if db.auxiliaryCache.lookup a = none ∧ (db.disk.auxiliary.lookup a).isSome then
        [.killAuxiliary a] else [] } := by
  rw [killAuxiliary]
  cases hcached : db.auxiliaryCache.lookup a with
  | some code => simp
  | none =>
    rw [AList.erase_of_lookup_eq_none hcached]
    cases db.disk.auxiliary.lookup a <;> simp

theorem commit_flushed : (db.commit P).Flushed := ⟨rfl, rfl, rfl⟩

/-- The accounts in the store after a flush. -/
theorem accounts_commit (a : Address) :
    (db.commit P).disk.accounts.lookup a =
      (db.cache.lookup a).or (if .killAccount a ∈ db.batch then none
        else db.disk.accounts.lookup a) := by
  rw [← batch_accounts]
  exact AList.lookup_foldl_insert _ _ _

theorem auxiliary_commit (a : Address) :
    (db.commit P).disk.auxiliary.lookup a =
      (db.auxiliaryCache.lookup a).or (if .killAuxiliary a ∈ db.batch then none
        else db.disk.auxiliary.lookup a) := by
  rw [← batch_auxiliary]
  exact AList.lookup_foldl_insert _ _ _

theorem lookup_commit (a : Address) : (db.commit P).lookup a = db.nextRecord a := by
  have hcache : (db.commit P).lookup a = ((db.commit P).disk.accounts.lookup a).getD [] := rfl
  rw [hcache, accounts_commit, nextRecord]
  cases db.cache.lookup a with
  | some record => rfl
  | none => split <;> rfl

theorem lookupAuxiliary_commit (a : Address) :
    (db.commit P).lookupAuxiliary a = db.nextAuxiliary a := by
  have hcache : (db.commit P).lookupAuxiliary a =
      ((db.commit P).disk.auxiliary.lookup a).getD [] := rfl
  rw [hcache, auxiliary_commit, nextAuxiliary]
  cases db.auxiliaryCache.lookup a with
  | some code => rfl
  | none => split <;> rfl

/-- The slots in the store after a flush. -/
theorem storage_commit (slot : Address × U256) :
    (db.commit P).disk.storage.lookup slot =
      match db.storageCache.lookup slot with
      | some value =>
        if P.contractStorageZeroValue = true ∧ value = 0 then none else some value
      | none => db.disk.storage.lookup slot := by
  have hfold := AList.foldl_entries
    (fun entry (storage : Map (Address × U256) U256) =>
      if P.contractStorageZeroValue = true ∧ entry.2 = 0 then storage.erase entry.1
      else storage.insert entry.1 entry.2)
    (fun storage slot => storage.lookup slot)
    (fun value _ _ => if P.contractStorageZeroValue = true ∧ value = 0 then none else some value)
    (by
      intro entry storage slot
      split
      next hzero => rw [AList.lookup_erase_eq_ite]
      next hzero => rw [AList.lookup_insert_eq_ite])
    db.storageCache (db.batch.foldl BatchOp.apply db.disk).storage slot
  refine Eq.trans (Eq.trans rfl hfold) ?_
  rw [batch_storage]
  cases db.storageCache.lookup slot <;> rfl

theorem lookupStorage_commit (a : Address) (key : U256) :
    (db.commit P).lookupStorage a key = db.lookupStorage a key := by
  have hcache : (db.commit P).lookupStorage a key =
      ((db.commit P).disk.storage.lookup (a, key)).getD 0 := rfl
  rw [hcache, storage_commit, lookupStorage]
  cases db.storageCache.lookup (a, key) with
  | none => rfl
  | some value =>
    dsimp only
    split
    next hzero => rw [hzero.2, Option.getD_none]
    next => rfl

end OverlayDB

namespace State

/-! ## One address -/

section

variable {a : Address} {s s' : State} {acc : Account}

/-- All a commit looks at and changes for one address. -/
structure Slice where
  record : Option Bytes
  auxiliary : Option Bytes
  batch : List BatchOp
  slots : U256 → Option U256
  usage : Int
  account : Option Account

def slice (s : State) (a : Address) : Slice where
  record := s.db.cache.lookup a
  auxiliary := s.db.auxiliaryCache.lookup a
  batch := s.db.batch.filter (·.address = a)
  slots := fun key => s.db.storageCache.lookup (a, key)
  usage := s.usage a
  account := s.cache.lookup a

/-- What the loop of `commit` leaves alone. -/
def Writes (s s' : State) : Prop :=
  s' = { s with
    cache := s'.cache
    db := { s.db with
      batch := s'.db.batch, cache := s'.db.cache, auxiliaryCache := s'.db.auxiliaryCache
      storageCache := s'.db.storageCache }
    storageUsage := s'.storageUsage, currentStorageUsed := s'.currentStorageUsed
    totalStorageUsed := s'.totalStorageUsed, changeLog := s'.changeLog, history := s'.history }

theorem Writes.refl (s : State) : Writes s s := rfl

theorem Writes.trans {s'' : State} (h : Writes s s') (h' : Writes s' s'') : Writes s s'' := by
  unfold Writes at h h' ⊢
  rw [h', h]

theorem Writes.disk (h : Writes s s') : s'.db.disk = s.db.disk := by
  unfold Writes at h
  rw [h]

theorem mem_batch_of_slice (hslice : s'.slice a = s.slice a) (op : BatchOp)
    (hop : op.address = a) : op ∈ s'.db.batch ↔ op ∈ s.db.batch := by
  have hbatch := congrArg (op ∈ ·) (congrArg Slice.batch hslice)
  simpa [slice, hop] using hbatch

theorem nextRecord_of_slice (hslice : s'.slice a = s.slice a) (hdisk : s'.db.disk = s.db.disk) :
    s'.db.nextRecord a = s.db.nextRecord a := by
  have hrecord : s'.db.cache.lookup a = s.db.cache.lookup a := congrArg Slice.record hslice
  have hbatch := mem_batch_of_slice hslice (.killAccount a) rfl
  simp only [OverlayDB.nextRecord, hrecord, hdisk, hbatch]

theorem nextAuxiliary_of_slice (hslice : s'.slice a = s.slice a)
    (hdisk : s'.db.disk = s.db.disk) : s'.db.nextAuxiliary a = s.db.nextAuxiliary a := by
  have hcode : s'.db.auxiliaryCache.lookup a = s.db.auxiliaryCache.lookup a :=
    congrArg Slice.auxiliary hslice
  have hbatch := mem_batch_of_slice hslice (.killAuxiliary a) rfl
  simp only [OverlayDB.nextAuxiliary, hcode, hdisk, hbatch]

/-- The slots of the overlay of an account are written to its own address. -/
theorem insertSlots_eq (db : OverlayDB) (a : Address) (overlay : Map U256 U256) :
    ∃ storageCache, overlay.entries.foldl (fun db slot => db.insertStorage a slot.1 slot.2) db =
        { db with storageCache } ∧
      ∀ b key, storageCache.lookup (b, key) =
        if b = a then (overlay.lookup key).or (db.storageCache.lookup (b, key))
        else db.storageCache.lookup (b, key) := by
  have hframe : ∀ (entries : List (Σ _ : U256, U256)) (db : OverlayDB),
      ∃ storageCache, entries.foldl (fun db slot => db.insertStorage a slot.1 slot.2) db =
          { db with storageCache } ∧
        ∀ b key, b ≠ a → storageCache.lookup (b, key) = db.storageCache.lookup (b, key) := by
    intro entries
    induction entries with
    | nil => exact fun db => ⟨db.storageCache, rfl, fun _ _ _ => rfl⟩
    | cons entry rest ih =>
      intro db
      obtain ⟨storageCache, heq, hother⟩ := ih (db.insertStorage a entry.1 entry.2)
      refine ⟨storageCache, heq, fun b key hb => (hother b key hb).trans ?_⟩
      exact AList.lookup_insert_ne fun hpair => hb (congrArg Prod.fst hpair)
  have hown := AList.foldl_entries
    (fun (entry : Σ _ : U256, U256) (db : OverlayDB) => db.insertStorage a entry.1 entry.2)
    (fun db key => db.storageCache.lookup (a, key)) (fun value _ _ => some value)
    (by
      intro entry db key
      simp only [OverlayDB.insertStorage, AList.lookup_insert_eq_ite, Prod.mk.injEq, true_and])
    overlay db
  obtain ⟨storageCache, heq, hother⟩ := hframe overlay.entries db
  refine ⟨storageCache, heq, fun b key => ?_⟩
  split
  next hb =>
    have hlookup := hown key
    rw [heq] at hlookup
    rw [hb]
    refine hlookup.trans ?_
    cases overlay.lookup key <;> rfl
  next hb => exact hother b key hb

/-- Removing an account that waits in no cache. -/
theorem killed_slice (hrecord : s.db.cache.lookup a = none)
    (hcode : s.db.auxiliaryCache.lookup a = none) :
    ∃ s₁ : State, s₁ = { s with db := (s.db.kill a).killAuxiliary a } ∧
      s₁.db.nextRecord a = [] ∧ s₁.db.nextAuxiliary a = [] ∧
      s₁.db.storageCache = s.db.storageCache ∧ (∀ b, b ≠ a → s₁.slice b = s.slice b) ∧
      Writes s s₁ := by
  refine ⟨_, rfl, ?_⟩
  rw [OverlayDB.kill_eq, OverlayDB.killAuxiliary_eq, AList.erase_of_lookup_eq_none hrecord,
    AList.erase_of_lookup_eq_none hcode]
  refine ⟨?_, ?_, rfl, ?_, rfl⟩
  · cases hdisk : s.db.disk.accounts.lookup a <;>
      simp [OverlayDB.nextRecord, hrecord, hdisk]
  · cases hdisk : s.db.disk.auxiliary.lookup a <;>
      simp [OverlayDB.nextAuxiliary, hcode, hdisk]
  · intro b hb
    have hfilter : ∀ (found : Prop) [Decidable found] (op : BatchOp), op.address = a →
        (if found then [op] else []).filter (·.address = b) = [] := by
      intro found _ op hop
      split <;> simp [hop, Ne.symm hb]
    simp only [slice, List.filter_append, hfilter _ (.killAccount a) rfl,
      hfilter _ (.killAuxiliary a) rfl, List.append_nil]
    rfl

theorem Emptied.writes {keys : List U256} {acc acc' : Account}
    (h : Emptied a keys acc acc' (s.counted a 0) s') : Writes s s' := by
  unfold Writes
  rw [h.rest]
  rfl

/-- Clearing the storage of `a` does not touch another address. -/
theorem Emptied.slice_eq {keys : List U256} {acc acc' : Account}
    (h : Emptied a keys acc acc' (s.counted a 0) s') {b : Address} (hb : b ≠ a) :
    s'.slice b = s.slice b := by
  have hcache := h.cache b
  have husage := h.usage b
  rw [if_neg hb] at hcache husage
  have hslots : ∀ key, s'.db.storageCache.lookup (b, key) = s.db.storageCache.lookup (b, key) := by
    intro key
    rw [h.slots, if_neg fun hand => hb hand.1]
    rfl
  have hdb : s'.db = { s.db with storageCache := s'.db.storageCache } := by
    conv_lhs => rw [h.rest]
    rfl
  simp only [slice, hcache, husage, hslots, usage_counted_zero]
  rw [hdb]
  rfl

/-- A changed account that lives has a counter that fits its record. -/
def Writable (acc : Account) : Prop :=
  acc.isDirty = true → acc.isAlive = true → 0 ≤ acc.storageUsed ∧ acc.storageUsed < 2 ^ 256

theorem Writable.encode (h : Writable acc) (hdirty : acc.isDirty = true)
    (halive : acc.isAlive = true) : ∃ record, acc.encode = some record ∧ record ≠ [] ∧
      Account.decode record =
        some (.loaded acc.nonce acc.balance acc.codeHash 0 acc.storageUsed) := by
  obtain ⟨hnonneg, hfit⟩ := h hdirty halive
  refine Account.decode_encode (Int.toNat_of_nonneg hnonneg).symm ?_
  omega

variable [Keccak] (P : Patches)

/-- Whether `commit` clears slots for this cached account. -/
def ClearsAt (s : State) (a : Address) (acc : Account) : Prop :=
  (acc.isDirty = true ∧ acc.isAlive = false) ∧ P.storageDestruction = true ∧
    ¬ (acc.storageUsed = 0 ∧ s.usage a = 0)

instance (s : State) (a : Address) (acc : Account) : Decidable (ClearsAt P s a acc) :=
  inferInstanceAs (Decidable (_ ∧ _ ∧ _))

def visitedKeys (s : State) (a : Address) (acc : Account) : List U256 :=
  if ClearsAt P s a acc then s.listedKeys a else []

/-- What `commit` takes off the total for this cached account. -/
def released (s : State) (a : Address) (acc : Account) : Int :=
  if ClearsAt P s a acc then
    acc.storageUsed + (s.usage a - 32 * (s.listedKeys a).countP (· ≠ 0)) else 0

structure CommitsAt (a : Address) (acc : Account) (s s' : State) : Prop where
  record : s'.db.nextRecord a = if acc.isDirty = false then s.db.nextRecord a
    else if acc.isAlive then acc.encode.getD [] else []
  auxiliary : s'.db.nextAuxiliary a = if acc.isDirty = false then s.db.nextAuxiliary a
    else if acc.isAlive then (if acc.hasNewCode then acc.codeCache else s.db.nextAuxiliary a)
    else []
  slots : ∀ key, s'.db.storageCache.lookup (a, key) =
    if key ∈ visitedKeys P s a acc then some 0
    else if acc.isDirty = true ∧ acc.isAlive = true then
      (acc.storageOverlay.lookup key).or (s.db.storageCache.lookup (a, key))
    else s.db.storageCache.lookup (a, key)
  usage : s'.usage a = s.usage a - 32 * (visitedKeys P s a acc).countP (· ≠ 0)

variable {P}

/-- One round of the loop of `commit`. -/
structure CommitStep (P : Patches) (a : Address) (acc : Account) (s s' : State) : Prop where
  own : CommitsAt P a acc s s'
  others : ∀ b, b ≠ a → s'.slice b = s.slice b
  writes : Writes s s'
  total : s'.totalStorageUsed = s.totalStorageUsed - released P s a acc
  current : s'.currentStorageUsed =
    s.currentStorageUsed - 32 * (visitedKeys P s a acc).countP (· ≠ 0)

theorem visitedKeys_of_not (h : ¬ ClearsAt P s a acc) :
    visitedKeys P s a acc = [] ∧ released P s a acc = 0 :=
  ⟨if_neg h, if_neg h⟩

theorem commitAccount_clean (hclean : acc.isDirty = false) :
    commitAccount P a acc s = .ok () s ∧ CommitStep P a acc s s := by
  have hnot : ¬ ClearsAt P s a acc := by simp [ClearsAt, hclean]
  obtain ⟨hkeys, hreleased⟩ := visitedKeys_of_not hnot
  refine ⟨by simp [commitAccount, hclean, EStateM.pure_apply], ⟨?_, ?_, ?_, ?_⟩, fun _ _ => rfl,
    .refl s, ?_, ?_⟩
  · rw [if_pos hclean]
  · rw [if_pos hclean]
  · simp [hkeys, hclean]
  · simp [hkeys]
  · simp [hreleased]
  · simp [hkeys]

theorem commitAccount_alive (hdirty : acc.isDirty = true)
    (halive : acc.isAlive = true) {record : Bytes} (hrecord : acc.encode = some record) :
    ∃ s', commitAccount P a acc s = .ok () s' ∧ CommitStep P a acc s s' := by
  have hnot : ¬ ClearsAt P s a acc := by simp [ClearsAt, halive]
  obtain ⟨hkeys, hreleased⟩ := visitedKeys_of_not hnot
  obtain ⟨storageCache, heq, hslots⟩ := insertSlots_eq (s.db.insert a record) a acc.storageOverlay
  have hrun : commitAccount P a acc s = .ok () { s with
      db := if acc.hasNewCode then
          ({ s.db.insert a record with storageCache } : OverlayDB).insertAuxiliary a acc.codeCache
        else { s.db.insert a record with storageCache } } := by
    simp only [commitAccount, hdirty, if_true, halive, Bool.true_eq_false, if_false, hrecord,
      EStateM.modify_apply, heq]
  have hne : ∀ b, b ≠ a → ∀ key,
      storageCache.lookup (b, key) = s.db.storageCache.lookup (b, key) := by
    intro b hb key
    rw [hslots, if_neg hb]
    rfl
  have hown : ∀ key, storageCache.lookup (a, key) =
      (acc.storageOverlay.lookup key).or (s.db.storageCache.lookup (a, key)) := by
    intro key
    rw [hslots, if_pos rfl]
    rfl
  refine ⟨_, hrun, ⟨?_, ?_, ?_, ?_⟩, ?_, ?_, ?_, ?_⟩
  · cases hnew : acc.hasNewCode <;>
      simp [hdirty, halive, hrecord, OverlayDB.nextRecord, OverlayDB.insert,
        OverlayDB.insertAuxiliary]
  · cases hnew : acc.hasNewCode <;>
      simp [hdirty, halive, OverlayDB.nextAuxiliary, OverlayDB.insert, OverlayDB.insertAuxiliary]
  · intro key
    cases hnew : acc.hasNewCode <;>
      simp [hdirty, halive, hkeys, OverlayDB.insertAuxiliary, hown]
  · simp [hkeys, usage]
  · intro b hb
    cases hnew : acc.hasNewCode <;>
      simp [slice, OverlayDB.insert, OverlayDB.insertAuxiliary, hb, hne b hb, usage]
  · unfold Writes
    cases hnew : acc.hasNewCode <;>
      simp [OverlayDB.insert, OverlayDB.insertAuxiliary]
  · simp [hreleased]
  · simp [hkeys]

theorem listedKeys_congr (hdisk : s'.db.disk = s.db.disk)
    (hcache : s'.cache.lookup a = s.cache.lookup a) : s'.listedKeys a = s.listedKeys a := by
  have hstorage : s'.db.storage a = s.db.storage a := by
    unfold OverlayDB.storage
    rw [hdisk]
  unfold listedKeys listed
  rw [hstorage, hcache]

theorem commitAccount_dead (hversion : s.checkVersion = true) (hacc : s.cache.lookup a = some acc)
    (hrecord : s.db.cache.lookup a = none) (hcode : s.db.auxiliaryCache.lookup a = none)
    (hdirty : acc.isDirty = true) (hdead : acc.isAlive = false) :
    ∃ s', commitAccount P a acc s = .ok () s' ∧ CommitStep P a acc s s' := by
  obtain ⟨s₁, hs₁, hnextRecord, hnextCode, hslots, hothers, hwrites⟩ := killed_slice hrecord hcode
  have hrun : commitAccount P a acc s = (if P.storageDestruction = true then clearStorage a
      else pure () : M Unit) s₁ := by
    simp only [commitAccount, hdirty, if_true, hdead, hs₁]
    rfl
  have hcache : s₁.cache = s.cache := by rw [hs₁]
  have hacc₁ : s₁.cache.lookup a = some acc := by rw [hcache, hacc]
  have husage : s₁.usage a = s.usage a := by rw [hs₁]; rfl
  have htotal : s₁.totalStorageUsed = s.totalStorageUsed := by rw [hs₁]
  have hcurrent : s₁.currentStorageUsed = s.currentStorageUsed := by rw [hs₁]
  have hversion₁ : s₁.checkVersion = true := by rw [hs₁]; exact hversion
  have hkeys := listedKeys_congr hwrites.disk (congrArg (AList.lookup a) hcache)
  have hclear := clearStorage_run hversion₁ hacc₁
  rw [husage] at hclear
  rw [hrun]
  clear hrun hs₁
  by_cases hclears : ClearsAt P s a acc
  · rw [if_neg hclears.2.2, hkeys] at hclear
    obtain ⟨s₂, acc₂, hemptied, hclear⟩ := hclear
    have hvisited : visitedKeys P s a acc = s.listedKeys a := if_pos hclears
    have hown : s₂.usage a = s.usage a - 32 * (s.listedKeys a).countP (· ≠ 0) := by
      rw [hemptied.usage, if_pos rfl, usage_counted_zero, husage]
    have htotal₂ : s₂.totalStorageUsed = s.totalStorageUsed := by
      rw [hemptied.rest]
      exact htotal
    refine ⟨_, (congrFun (if_pos hclears.2.1) s₁).trans hclear, ⟨?_, ?_, ?_, ?_⟩, ?_, ?_, ?_, ?_⟩
    · rw [hdirty, hdead, hemptied.rest]
      exact hnextRecord
    · rw [hdirty, hdead, hemptied.rest]
      exact hnextCode
    · intro key
      rw [hvisited, hdead]
      refine (hemptied.slots a key).trans ?_
      rw [show (s₁.counted a 0).db.storageCache = s.db.storageCache from hslots]
      simp
    · rw [hvisited]
      exact hown
    · intro b hb
      rw [← hothers b hb, ← hemptied.slice_eq hb]
      simp only [slice, AList.lookup_insert_ne hb]
      rfl
    · exact hwrites.trans (hemptied.writes.trans rfl)
    · rw [released, if_pos hclears]
      simp only [hown, htotal₂]
    · rw [hvisited]
      refine hemptied.current.trans ?_
      rw [← hcurrent]
      simp [counted]
  · obtain ⟨hvisited, hreleased⟩ := visitedKeys_of_not hclears
    have hstep : ∀ s' : State, s'.db = s₁.db → (∀ b, s'.usage b = s₁.usage b) →
        s'.cache = s₁.cache → s'.totalStorageUsed = s₁.totalStorageUsed →
        s'.currentStorageUsed = s₁.currentStorageUsed → Writes s₁ s' → CommitStep P a acc s s' := by
      intro s' hdb husage' hcache' htotal' hcurrent' hwrites'
      refine ⟨⟨?_, ?_, ?_, ?_⟩, ?_, hwrites.trans hwrites', ?_, ?_⟩
      · rw [hdirty, hdead, hdb, hnextRecord]
        rfl
      · rw [hdirty, hdead, hdb, hnextCode]
        rfl
      · intro key
        rw [hvisited, hdead, hdb, hslots]
        simp
      · rw [hvisited, husage', husage]
        simp
      · intro b hb
        rw [← hothers b hb]
        simp only [slice, hdb, husage', hcache']
      · rw [htotal', htotal, hreleased, sub_zero]
      · rw [hcurrent', hcurrent, hvisited]
        simp
    by_cases hpatch : P.storageDestruction = true
    · have hzero : acc.storageUsed = 0 ∧ s.usage a = 0 := by
        by_contra hcounters
        exact hclears ⟨⟨hdirty, hdead⟩, hpatch, hcounters⟩
      rw [if_pos hzero] at hclear
      exact ⟨_, (congrFun (if_pos hpatch) s₁).trans hclear, hstep _ rfl
        (congrFun (usage_counted_zero s₁ a)) rfl rfl (by simp [counted]) rfl⟩
    · exact ⟨s₁, congrFun (if_neg hpatch) s₁, hstep s₁ rfl (fun _ => rfl) rfl rfl rfl rfl⟩

/-! ## All addresses -/

theorem visitedKeys_congr (hslice : s'.slice a = s.slice a) (hdisk : s'.db.disk = s.db.disk)
    (acc : Account) : visitedKeys P s' a acc = visitedKeys P s a acc ∧
      released P s' a acc = released P s a acc := by
  have husage : s'.usage a = s.usage a := congrArg Slice.usage hslice
  have hkeys := listedKeys_congr hdisk (congrArg Slice.account hslice)
  have hclears : ClearsAt P s' a acc ↔ ClearsAt P s a acc := by
    unfold ClearsAt
    rw [husage]
  simp only [visitedKeys, released, hclears, husage, hkeys, and_self]

/-- Nothing but the slice of the address matters in the state before. -/
theorem CommitsAt.left {s₁ : State} (h : CommitsAt P a acc s₁ s') (hslice : s₁.slice a = s.slice a)
    (hdisk : s₁.db.disk = s.db.disk) : CommitsAt P a acc s s' := by
  have hslots : ∀ key, s₁.db.storageCache.lookup (a, key) = s.db.storageCache.lookup (a, key) :=
    congrFun (congrArg Slice.slots hslice)
  have husage : s₁.usage a = s.usage a := congrArg Slice.usage hslice
  obtain ⟨hrecord, hauxiliary, hkeys, hcount⟩ := h
  rw [nextRecord_of_slice hslice hdisk] at hrecord
  rw [nextAuxiliary_of_slice hslice hdisk] at hauxiliary
  rw [husage, (visitedKeys_congr hslice hdisk acc).1] at hcount
  refine ⟨hrecord, hauxiliary, fun key => ?_, hcount⟩
  rw [hkeys, (visitedKeys_congr hslice hdisk acc).1, hslots]

theorem CommitsAt.right {s₁ : State} (h : CommitsAt P a acc s s₁) (hslice : s'.slice a = s₁.slice a)
    (hdisk : s'.db.disk = s₁.db.disk) : CommitsAt P a acc s s' := by
  have hslots : ∀ key, s'.db.storageCache.lookup (a, key) = s₁.db.storageCache.lookup (a, key) :=
    congrFun (congrArg Slice.slots hslice)
  have husage : s'.usage a = s₁.usage a := congrArg Slice.usage hslice
  refine ⟨?_, ?_, fun key => ?_, husage.trans h.usage⟩
  · rw [nextRecord_of_slice hslice hdisk, h.record]
  · rw [nextAuxiliary_of_slice hslice hdisk, h.auxiliary]
  · rw [hslots, h.slots]

/-- The addresses of the list are committed, the others are left alone. -/
structure CommitsAll (P : Patches) (entries : List (Σ _ : Address, Account)) (s s' : State) :
    Prop where
  writes : Writes s s'
  own : ∀ e ∈ entries, CommitsAt P e.1 e.2 s s'
  others : ∀ b, (∀ e ∈ entries, e.1 ≠ b) → s'.slice b = s.slice b
  total : s'.totalStorageUsed =
    s.totalStorageUsed - (entries.map fun e => released P s e.1 e.2).sum
  current : s'.currentStorageUsed = s.currentStorageUsed -
    32 * (entries.map fun e => ((visitedKeys P s e.1 e.2).countP (· ≠ 0) : Int)).sum

theorem commitAccounts_run {entries : List (Σ _ : Address, Account)} (hnodup : entries.NodupKeys)
    (hversion : s.checkVersion = true) (hentries : ∀ e ∈ entries, Writable e.2 ∧
      s.cache.lookup e.1 = some e.2 ∧ s.db.cache.lookup e.1 = none ∧
      s.db.auxiliaryCache.lookup e.1 = none) :
    ∃ s', entries.forM (fun e => commitAccount P e.1 e.2) s = .ok () s' ∧
      CommitsAll P entries s s' := by
  induction entries generalizing s with
  | nil => exact ⟨s, rfl, .refl s, by simp, fun _ _ => rfl, by simp, by simp⟩
  | cons entry rest ih =>
    obtain ⟨a, acc⟩ := entry
    obtain ⟨hfresh, hrest⟩ := List.nodupKeys_cons.mp hnodup
    have hne : ∀ e ∈ rest, e.1 ≠ a := by
      intro e he heq
      have hkey : e.1 ∈ rest.keys := List.mem_keys_of_mem he
      rw [heq] at hkey
      exact hfresh hkey
    obtain ⟨hwritable, hacc, hrecord, hcode⟩ := hentries ⟨a, acc⟩ List.mem_cons_self
    obtain ⟨s₁, hrun, hstep⟩ : ∃ s₁, commitAccount P a acc s = .ok () s₁ ∧
        CommitStep P a acc s s₁ := by
      by_cases hdirty : acc.isDirty = true
      · by_cases halive : acc.isAlive = true
        · obtain ⟨record, hencode, _⟩ := hwritable.encode hdirty halive
          exact commitAccount_alive hdirty halive hencode
        · exact commitAccount_dead hversion hacc hrecord hcode hdirty
            (Bool.eq_false_iff.mpr halive)
      · exact ⟨s, commitAccount_clean (Bool.eq_false_iff.mpr hdirty)⟩
    have hslice : ∀ e ∈ rest, s₁.slice e.1 = s.slice e.1 :=
      fun e he => hstep.others e.1 (hne e he)
    have hversion₁ : s₁.checkVersion = true := by
      have hwrites := hstep.writes
      unfold Writes at hwrites
      rw [hwrites]
      exact hversion
    obtain ⟨s', hrun', hall⟩ := ih hrest hversion₁ (by
      intro e he
      obtain ⟨hwritable, hacc, hrecord, hcode⟩ := hentries e (List.mem_cons_of_mem _ he)
      exact ⟨hwritable, (congrArg Slice.account (hslice e he)).trans hacc,
        (congrArg Slice.record (hslice e he)).trans hrecord,
        (congrArg Slice.auxiliary (hslice e he)).trans hcode⟩)
    have hdisk := hstep.writes.disk
    have hkeys : ∀ e ∈ rest, visitedKeys P s₁ e.1 e.2 = visitedKeys P s e.1 e.2 ∧
        released P s₁ e.1 e.2 = released P s e.1 e.2 :=
      fun e he => visitedKeys_congr (hslice e he) hdisk e.2
    have hreleased : rest.map (fun e => released P s₁ e.1 e.2) =
        rest.map fun e => released P s e.1 e.2 :=
      List.map_congr_left fun e he => (hkeys e he).2
    have hcounted : rest.map (fun e => ((visitedKeys P s₁ e.1 e.2).countP (· ≠ 0) : Int)) =
        rest.map fun e => ((visitedKeys P s e.1 e.2).countP (· ≠ 0) : Int) :=
      List.map_congr_left fun e he => by rw [(hkeys e he).1]
    refine ⟨s', ?_, hstep.writes.trans hall.writes, ?_, ?_, ?_, ?_⟩
    · change (commitAccount P a acc >>= fun _ =>
        rest.forM fun e => commitAccount P e.1 e.2) s = _
      rw [EStateM.bind_apply, hrun]
      exact hrun'
    · intro e he
      obtain rfl | he := List.mem_cons.mp he
      · exact hstep.own.right (hall.others a hne) hall.writes.disk
      · exact (hall.own e he).left (hslice e he) hdisk
    · intro b hb
      rw [hall.others b fun e he => hb e (List.mem_cons_of_mem _ he)]
      exact hstep.others b (Ne.symm (hb _ List.mem_cons_self))
    · rw [hall.total, hstep.total, hreleased, List.map_cons, List.sum_cons]
      ring
    · rw [hall.current, hstep.current, hcounted, List.map_cons, List.sum_cons]
      ring

end

end State

end Skaled
