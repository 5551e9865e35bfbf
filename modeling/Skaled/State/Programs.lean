import Skaled.State.Commit

/-! # Programs on a state

The operations of a state are made of a few steps: they look an account up, take
something from the state, look into the database behind the version check, and
change the state in memory. What these steps keep, the operations keep. `May` says
which places an operation may change, for properties that depend on them.
-/

namespace Skaled.State

open EStateM (Invariant bind_apply get_bind)

/-! ## The rules -/

variable [Keccak]

/-- What an operation changes: the account of an address, its code, or a slot. -/
inductive Place where
  | account (a : Address)
  | code (a : Address)
  | slot (a : Address) (key : U256)
  deriving DecidableEq

section

variable (May : Place → Prop)

/-- The entry of the log is about places that may change. -/
def Logged : Change → Prop
  | .storage a key _ => May (.account a) ∧ May (.slot a key)
  | .balance a _ | .nonce a _ | .create a | .code a _ | .touch a => May (.account a)

/-- A change of an account that stays in the places that may change. -/
structure Edits (a : Address) (acc acc' : Account) : Prop where
  may : May (.account a)
  code : acc'.codeHash = acc.codeHash ∨ acc'.codeHash = emptySHA3 ∨ May (.code a)
  originals : acc'.storageOriginal = acc.storageOriginal
  overlay : ∀ key, acc'.storageOverlay.lookup key = acc.storageOverlay.lookup key ∨
    acc'.storageOverlay.lookup key = none ∨ May (.slot a key)

/-- One change of the state. An account that is noted as missing does not come to
life. -/
structure Within (s s' : State) : Prop where
  shared : s'.shared = s.shared
  cached : ∀ a acc', s'.cache.lookup a = some acc' → s.cache.lookup a = some acc' ∨
    ∃ acc, (s.cache.lookup a = some acc ∨ acc = .dead) ∧ Edits May a acc acc'
  missing : ∀ a ∈ s'.nonExistingAccountsCache, a ∈ s.nonExistingAccountsCache ∧
    ∀ acc', s'.cache.lookup a = some acc' → acc'.isAlive = true →
      ∃ acc, s.cache.lookup a = some acc ∧ acc.isAlive = true
  logged : ∀ change ∈ s'.changeLog, change ∈ s.changeLog ∨ Logged May change

/-- What the steps of an operation keep, it keeps. -/
structure Kept (I : State → Prop) : Prop where
  within : ∀ {s s'}, I s → Within May s s' → I s'
  absent : ∀ {s a}, I s → s.checkVersion = true → s.cache.lookup a = none → s.db.lookup a = [] →
    I { s with nonExistingAccountsCache := a :: s.nonExistingAccountsCache }
  found : ∀ {s a acc}, I s → s.checkVersion = true → a ∉ s.nonExistingAccountsCache →
    stored s.db a = some acc → I { s with cache := s.cache.insert a acc }
  cachedSlot : ∀ {s a acc} (key : U256), I s → s.checkVersion = true →
    s.cache.lookup a = some acc →
    I { s with cache := s.cache.insert a (acc.setStorageCache key (s.db.lookupStorage a key)) }
  cachedCode : ∀ {s a acc}, I s → s.checkVersion = true → s.cache.lookup a = some acc →
    I { s with cache := s.cache.insert a (acc.noteCode (s.db.lookupAuxiliary a)) }
  logged : ∀ {s change}, I s → change ∈ s.changeLog → Logged May change

end

section

variable {May : Place → Prop} {a : Address} {acc acc' : Account} {s s' : State}

omit [Keccak] in
theorem logged_of (haccount : ∀ a, May (.account a)) (hslot : ∀ a key, May (.slot a key))
    (change : Change) : Logged May change := by
  cases change with
  | storage a key value => exact ⟨haccount a, hslot a key⟩
  | _ => exact haccount _

/-- A change of fields that are not about slots. -/
theorem Edits.record (hmay : May (.account a))
    (hcode : acc'.codeHash = acc.codeHash ∨ acc'.codeHash = emptySHA3 ∨ May (.code a))
    (horiginals : acc'.storageOriginal = acc.storageOriginal)
    (hoverlay : acc'.storageOverlay = acc.storageOverlay) : Edits May a acc acc' :=
  ⟨hmay, hcode, horiginals, fun _ => .inl (by rw [hoverlay])⟩

theorem Edits.setStorage {key : U256} (hmay : May (.account a)) (hslot : May (.slot a key))
    (value : U256) : Edits May a acc (acc.setStorage key value) := by
  refine ⟨hmay, .inl rfl, rfl, fun other => ?_⟩
  by_cases heq : other = key
  · exact .inr (.inr (heq ▸ hslot))
  · exact .inl (AList.lookup_insert_ne heq)

/-- A change outside the cache. -/
theorem Within.aside (hshared : s'.shared = s.shared) (hcache : s'.cache = s.cache)
    (hmissing : s'.nonExistingAccountsCache = s.nonExistingAccountsCache)
    (hlog : ∀ change ∈ s'.changeLog, change ∈ s.changeLog ∨ Logged May change) :
    Within May s s' := by
  refine ⟨hshared, fun _ _ hacc => .inl (hcache ▸ hacc), fun b hb => ⟨hmissing ▸ hb, ?_⟩, hlog⟩
  exact fun acc hacc halive => ⟨acc, hcache ▸ hacc, halive⟩

/-- A change of one account, which the cache has or which is dead. -/
theorem Within.insert (hacc : s.cache.lookup a = some acc ∨ acc = .dead)
    (hedits : Edits May a acc acc') (halive : acc'.isAlive = true → acc.isAlive = true)
    (unchanged : List Address) :
    Within May s { s with cache := s.cache.insert a acc', unchangedCacheEntries := unchanged } := by
  refine ⟨rfl, fun b found hfound => ?_, fun b hb => ⟨hb, fun found hfound hlive => ?_⟩,
    fun change hchange => .inl hchange⟩
  · rcases AList.lookup_insert_eq_some hfound with ⟨rfl, rfl⟩ | hold
    · exact .inr ⟨acc, hacc, hedits⟩
    · exact .inl hold
  · rcases AList.lookup_insert_eq_some hfound with ⟨rfl, rfl⟩ | hold
    · rcases hacc with hacc | rfl
      · exact ⟨acc, hacc, halive hlive⟩
      · cases halive hlive
    · exact ⟨found, hold, hlive⟩

/-- A new account is not missing any more. -/
theorem Within.create (hmay : May (.account a)) (s : State) (nonce balance : U256) :
    Within May s { s with
      cache := s.cache.insert a (.fresh nonce balance)
      nonExistingAccountsCache := s.nonExistingAccountsCache.filter (· ≠ a)
      changeLog := .create a :: s.changeLog } := by
  refine ⟨rfl, fun b found hfound => ?_, fun b hb => ?_, fun change hchange => ?_⟩
  · rcases AList.lookup_insert_eq_some hfound with ⟨rfl, rfl⟩ | hold
    · exact .inr ⟨.dead, .inr rfl, .record hmay (.inl rfl) rfl rfl⟩
    · exact .inl hold
  · obtain ⟨hmem, hne⟩ := List.mem_filter.mp hb
    refine ⟨hmem, fun found hfound hlive => ⟨found, ?_, hlive⟩⟩
    exact (AList.lookup_insert_ne (of_decide_eq_true hne)).symm.trans hfound
  · rcases List.mem_cons.mp hchange with rfl | hold
    · exact .inr hmay
    · exact .inl hold

theorem Within.erase (s : State) (a : Address) :
    Within May s { s with cache := s.cache.erase a } :=
  ⟨rfl, fun _ _ hfound => .inl (AList.lookup_of_erase hfound),
    fun _ hb => ⟨hb, fun found hfound hlive => ⟨found, AList.lookup_of_erase hfound, hlive⟩⟩,
    fun _ hchange => .inl hchange⟩

end

namespace Kept

variable {May : Place → Prop} {I : State → Prop} {a : Address} {acc acc' : Account}

/-- The program keeps the property where the cache has the account. -/
def At {α : Type} (I : State → Prop) (a : Address) (acc : Account) (x : M α) : Prop :=
  ∀ s, I s → s.cache.lookup a = some acc → I (x s).state

omit [Keccak] in
theorem anywhere {α : Type} {x : M α} (hx : Invariant I x) : At I a acc x :=
  fun _ hs _ => hx.state hs

omit [Keccak] in
theorem at_bind {α β : Type} {x : M α} {f : α → M β} (hx : At I a acc x)
    (hf : ∀ r, Invariant I (f r)) : At I a acc (x >>= f) := by
  intro s hs hacc
  have hfirst := hx s hs hacc
  rw [bind_apply]
  cases hrun : x s with
  | ok r s' =>
    rw [hrun] at hfirst
    exact (hf r).state hfirst
  | error e s' =>
    rw [hrun] at hfirst
    exact hfirst

theorem cached_bind {β : Type} {f : Account → M β} (hdead : Invariant I (f .dead))
    (hf : ∀ acc, At I a acc (f acc)) : Invariant I (get >>= fun s => f (s.cached a)) := by
  refine fun s hs => Invariant.of_state s ?_
  rw [get_bind, cached]
  cases hcached : s.cache.lookup a with
  | none => exact hdead.state hs
  | some acc => exact hf acc s hs hcached

omit [Keccak] in
/-- A program behind the version check runs in the latest version, or not at all. -/
theorem checked_state {α : Type} {f : State → M α} {s : State} (hs : I s)
    (hf : s.checkVersion = true → I (f s s).state) :
    I ((requireCurrentVersion >>= fun _ => get >>= f) s).state := by
  by_cases hversion : s.checkVersion = true
  · rw [bind_apply, requireCurrentVersion_run hversion]
    exact hf hversion
  · rw [bind_apply, requireCurrentVersion_of_stale hversion]
    exact hs

omit [Keccak] in
theorem assert (condition : Bool) : Invariant I (assert condition) := .ite (.pure _) (.throw _)

omit [Keccak] in
theorem requireAccountStartNonce : Invariant I requireAccountStartNonce :=
  .get_bind fun _ _ => .ite (.throw _) (.pure _)

omit [Keccak] in
theorem checkStorageLimit : Invariant I checkStorageLimit :=
  .get_bind fun _ _ => .ite (.throw _) (.pure _)

variable (h : Kept May I)

include h

/-! ## Steps -/

theorem account (a : Address) : Invariant I (account a) := by
  refine fun s hs => Invariant.of_state s ?_
  rw [account_apply]
  cases hcached : s.cache.lookup a with
  | some acc => exact hs
  | none =>
    dsimp only
    split_ifs with hmissing hversion hempty
    · exact hs
    · exact h.absent hs hversion hcached hempty
    · have hevicted := clearCacheIfTooLarge_evicted s
      generalize s.clearCacheIfTooLarge = cleared at hevicted
      have hcleared : I cleared := by
        refine h.within hs ⟨hevicted.shared, fun b acc hacc => .inl (hevicted.cache b acc hacc),
          fun b hb => ⟨hevicted.missing ▸ hb, fun acc hacc hlive => ?_⟩,
          fun change hchange => .inl (hevicted.log ▸ hchange)⟩
        exact ⟨acc, hevicted.cache b acc hacc, hlive⟩
      cases hdecode : Account.decode (s.db.lookup a) with
      | none => exact hcleared
      | some acc =>
        have hdb : cleared.db = s.db := congrArg Shared.db hevicted.shared
        have hstored : stored cleared.db a = some acc := by
          rw [hdb, stored, if_neg hempty, hdecode]
        refine h.within (h.found hcleared ?_ (hevicted.missing.symm ▸ hmissing) hstored) ?_
        · rw [checkVersion_of_shared hevicted.shared, hversion]
        · exact .aside rfl rfl rfl fun _ hchange => .inl hchange
    · exact hs

theorem account_bind {β : Type} {f : Option Account → M β} (hnone : Invariant I (f none))
    (hsome : ∀ acc, At I a acc (f (some acc))) : Invariant I (State.account a >>= f) := by
  intro s hs
  have hkept := (h.account a).state hs
  refine Invariant.of_state s ?_
  rw [bind_apply]
  cases hrun : State.account a s with
  | error e s' =>
    rw [hrun] at hkept
    exact hkept
  | ok found s' =>
    rw [hrun] at hkept
    cases found with
    | none => exact hnone.state hkept
    | some acc => exact hsome acc s' hkept (account_cached hrun)

/-- A look at one field of an account. -/
theorem field {β : Type} {f : Option Account → M β} (hnone : Invariant I (f none))
    (hsome : ∀ acc, Invariant I (f (some acc))) : Invariant I (State.account a >>= f) :=
  h.account_bind hnone fun acc => anywhere (hsome acc)

theorem step {g : State → State} (hg : ∀ s, Within May s (g s)) :
    Invariant I (modify g : M Unit) :=
  .modify fun s hs => h.within hs (hg s)

/-- A change outside the cache, the log and the database. -/
theorem aside {g : State → State} (hg : ∀ s, (g s).shared = s.shared ∧ (g s).cache = s.cache ∧
      (g s).nonExistingAccountsCache = s.nonExistingAccountsCache ∧
      (g s).changeLog = s.changeLog) : Invariant I (modify g : M Unit) :=
  h.step fun s => .aside (hg s).1 (hg s).2.1 (hg s).2.2.1 fun _ hchange =>
    .inl ((hg s).2.2.2 ▸ hchange)

theorem logChange {change : Change} (hmay : Logged May change) : Invariant I (logChange change) :=
  h.step fun _ => .aside rfl rfl rfl fun _ hmem =>
    (List.mem_cons.mp hmem).elim (fun heq => .inr (heq ▸ hmay)) .inl

theorem at_log_bind {α : Type} {change : Change} {x : M α} (hmay : Logged May change)
    (hx : At I a acc x) : At I a acc (State.logChange change >>= fun _ => x) :=
  fun _ hs hacc => hx _ ((h.logChange hmay).state hs) hacc

theorem countSlots (a : Address) (count : Int) : Invariant I (countSlots a count) :=
  h.aside fun _ => ⟨rfl, rfl, rfl, rfl⟩

theorem resetStorageChanges : Invariant I resetStorageChanges :=
  h.aside fun _ => ⟨rfl, rfl, rfl, rfl⟩

/-- A change of the account that the cache has. -/
theorem edit (hedits : Edits May a acc acc') (halive : acc'.isAlive = true → acc.isAlive = true) :
    At I a acc (setAccount a acc') :=
  fun s hs hacc => h.within hs (.insert (.inl hacc) hedits halive s.unchangedCacheEntries)

theorem record (hmay : May (.account a))
    (hcode : acc'.codeHash = acc.codeHash ∨ acc'.codeHash = emptySHA3)
    (horiginals : acc'.storageOriginal = acc.storageOriginal)
    (hoverlay : acc'.storageOverlay = acc.storageOverlay)
    (halive : acc'.isAlive = acc.isAlive) : At I a acc (setAccount a acc') :=
  h.edit (.record hmay (hcode.imp_right .inl) horiginals hoverlay) fun hlive => halive ▸ hlive

/-- A change of the cached account, or of a dead one. -/
theorem edit_bind {β : Type} (edit : Account → Account) {x : M β}
    (hedits : ∀ acc, Edits May a acc (edit acc) ∧ (edit acc).isAlive = acc.isAlive)
    (hx : Invariant I x) :
    Invariant I (get >>= fun s => setAccount a (edit (s.cached a)) >>= fun _ => x) := by
  refine cached_bind (f := fun acc => setAccount a (edit acc) >>= fun _ => x) ?_ fun acc => ?_
  · refine .bind (h.step fun s => ?_) fun _ => hx
    exact .insert (.inr rfl) (hedits _).1 (fun hlive => (hedits _).2 ▸ hlive) _
  · exact at_bind (h.edit (hedits acc).1 fun hlive => (hedits acc).2 ▸ hlive) fun _ => hx

/-! ## Reading -/

section

variable (a : Address)

theorem addressInUse : Invariant I (addressInUse a) := h.field (.pure _) fun _ => .pure _

theorem balance : Invariant I (balance a) :=
  h.field (.get_bind fun _ _ => .pure _) fun _ => .pure _

theorem getNonce : Invariant I (getNonce a) :=
  h.field (.get_bind fun _ _ => .pure _) fun _ => .pure _

theorem code : Invariant I (code a) := by
  refine h.account_bind (.pure _) fun acc => ?_
  dsimp only
  split
  next => exact anywhere (.pure _)
  next =>
    split
    next => exact anywhere (.pure _)
    next =>
      refine fun s hs hacc => checked_state hs fun hversion => ?_
      by_cases hhash : sha3 (s.db.lookupAuxiliary a) = acc.codeHash
      · rw [decide_eq_true hhash]
        exact h.cachedCode hs hversion hacc
      · rw [decide_eq_false hhash]
        exact hs

theorem codeSize : Invariant I (codeSize a) :=
  h.field (.pure _) fun _ => .ite (.pure _) (.bind (h.code a) fun _ => .pure _)

omit h in
theorem storageWithoutLock : Invariant I (storageWithoutLock a) :=
  fun s hs => Invariant.of_state s (checked_state hs fun _ => hs)

theorem originalSlot (key : U256) : At I a acc (originalSlot a acc key) := by
  unfold State.originalSlot
  cases acc.storageOriginal.lookup key with
  | some value => exact anywhere (.pure _)
  | none =>
    exact fun _ hs hacc => checked_state hs fun hversion => h.cachedSlot key hs hversion hacc

theorem storage (key : U256) : Invariant I (storage a key) := by
  refine h.account_bind (.pure _) fun acc => ?_
  dsimp only
  cases acc.storageOverlay.lookup key with
  | some value => exact anywhere (.pure _)
  | none => exact h.originalSlot a key

theorem originalStorageValue (key : U256) : Invariant I (originalStorageValue a key) :=
  h.account_bind (.pure _) fun _ => h.originalSlot a key

end

/-! ## Changing accounts -/

section

variable (hmay : May (.account a))

include hmay

theorem createAccount (nonce balance : U256) :
    Invariant I (createAccount a (.fresh nonce balance)) :=
  .bind (h.addressInUse a) fun _ => .bind (assert _) fun _ =>
    h.step fun s => .create hmay s nonce balance

theorem createFunded (nonce : U256) :
    Invariant I (get >>= fun s => State.createAccount a (.fresh nonce s.initialFunds)) :=
  .get_bind fun _ _ => h.createAccount hmay _ _

theorem incNonce : Invariant I (incNonce a) :=
  h.account_bind (.bind requireAccountStartNonce fun _ => h.createFunded hmay _) fun _ =>
    at_bind (h.record hmay (.inl rfl) rfl rfl rfl) fun _ => h.logChange hmay

theorem setNonce (nonce : U256) : Invariant I (setNonce a nonce) :=
  h.account_bind (h.createFunded hmay _) fun _ =>
    at_bind (h.record hmay (.inl rfl) rfl rfl rfl) fun _ => h.logChange hmay

theorem addBalance (amount : U256) : Invariant I (addBalance a amount) := by
  have hlog : Invariant I (if amount ≠ 0 then State.logChange (.balance a amount) else pure ()) :=
    .ite (h.logChange hmay) (.pure _)
  refine h.account_bind (.bind requireAccountStartNonce fun _ => .get_bind fun _ _ =>
    .bind (h.createAccount hmay _ _) fun _ => hlog) fun acc => ?_
  have hset : At I a acc (setAccount a (acc.addBalance amount)) :=
    h.record hmay (.inl rfl) rfl rfl rfl
  have htouch : Logged May (.touch a) := hmay
  dsimp only
  split
  next => exact h.at_log_bind htouch (at_bind hset fun _ => hlog)
  next => exact at_bind hset fun _ => hlog

theorem subBalance (value : U256) : Invariant I (subBalance a value) :=
  .ite (.pure _) (h.field (.throw _) fun _ => .ite (.throw _) (h.addBalance hmay _))

theorem setBalance (value : U256) : Invariant I (setBalance a value) :=
  h.field (h.addBalance hmay _) fun _ => h.addBalance hmay _

theorem createContract : Invariant I (createContract a) :=
  .bind requireAccountStartNonce fun _ => h.createFunded hmay _

theorem kill : Invariant I (kill a) := by
  refine h.account_bind (.pure _) fun acc => h.edit ⟨hmay, .inr (.inl rfl), rfl, fun key => ?_⟩ ?_
  · exact .inr (.inl (AList.lookup_empty key))
  · exact fun hlive => nomatch hlive

theorem setStorage {key : U256} (hslot : May (.slot a key)) (value : U256) :
    Invariant I (setStorage a key value) :=
  .bind (h.storage a key) fun _ => .bind (h.logChange ⟨hmay, hslot⟩) fun _ =>
    h.edit_bind (·.setStorage key value) (fun _ => ⟨.setStorage hmay hslot value, rfl⟩)
      (.bind (h.countSlots _ _) fun _ => checkStorageLimit)

theorem transferBalance {receiver : Address} (hreceiver : May (.account receiver)) (value : U256) :
    Invariant I (transferBalance a receiver value) :=
  .bind (h.subBalance hmay _) fun _ => h.addBalance hreceiver _

/-- New code is put at addresses that may have it. -/
theorem setCode (hcode : May (.code a)) (newCode : Bytes) (newVersion : U256) :
    Invariant I (setCode a newCode newVersion) := by
  refine .bind (h.field (.pure _) fun _ => .pure _) fun _ => .bind (assert _) fun _ =>
    .bind (h.code a) fun _ => .bind (h.logChange hmay) fun _ => ?_
  have hedits : ∀ acc : Account, Edits May a acc (acc.setCode newCode newVersion) ∧
      (acc.setCode newCode newVersion).isAlive = acc.isAlive := by
    intro acc
    unfold Account.setCode
    split
    · exact ⟨.record hmay (.inr (.inr hcode)) rfl rfl, rfl⟩
    · exact ⟨.record hmay (.inl rfl) rfl rfl, rfl⟩
  exact h.edit_bind (·.setCode newCode newVersion) hedits (.pure ())

end

/-- The counters of a transaction are added to the accounts that have one. -/
theorem updateEntries (entries : List (Σ _ : Address, Int))
    (hmay : ∀ entry ∈ entries, May (.account entry.1)) : Invariant I (do
    entries.forM fun entry => do
      match ← State.account entry.1 with
      | some acc => setAccount entry.1 (acc.updateStorageUsage entry.2)
      | none => pure ()
    State.resetStorageChanges) := by
  refine .bind (EStateM.Triple.forM fun entry hentry => ?_) fun _ => h.resetStorageChanges
  exact h.account_bind (.pure _) fun _ => h.record (hmay entry hentry) (.inl rfl) rfl rfl rfl

/-! ## Rollback -/

variable (P : Patches)

theorem undoEntry {change : Change} (hmay : Logged May change) :
    At I change.address acc (undoEntry P acc change) := by
  cases change with
  | storage a key value =>
    change At I a acc (if P.contractStorage then rollbackStorageChange a key value
      else setAccount a (acc.setStorage key value))
    split
    next =>
      refine anywhere (.bind (h.storage a key) fun _ => .bind (h.countSlots _ _) fun _ => ?_)
      exact h.edit_bind (·.setStorage key value)
        (fun _ => ⟨.setStorage hmay.1 hmay.2 value, rfl⟩) (.pure _)
    next => exact h.edit (.setStorage hmay.1 hmay.2 value) id
  | balance a value | nonce a value => exact h.record hmay (.inl rfl) rfl rfl rfl
  | code a old => exact h.record hmay (.inr rfl) rfl rfl rfl
  | create a => exact anywhere (h.step fun s => .erase s a)
  | touch a =>
    have hedits : Edits May a acc acc.untouch := .record hmay (.inl rfl) rfl rfl
    exact fun s hs hacc => h.within hs (.insert (.inl hacc) hedits id _)

theorem undoChanges (count : Nat) : Invariant I (undoChanges P count) := by
  induction count with
  | zero => exact .pure _
  | succ count ih =>
    refine .get_bind fun s hs => ?_
    have hmay : ∀ change ∈ s.changeLog, Logged May change := fun _ hchange => h.logged hs hchange
    generalize s.changeLog = log at hmay ⊢
    cases log with
    | nil => exact .throw _
    | cons change older =>
      refine .bind (h.account_bind (.throw _) fun _ => ?_) fun _ => .bind ?_ fun _ => ih
      · exact h.undoEntry P (hmay change List.mem_cons_self)
      · exact h.step fun _ => .aside rfl rfl rfl fun _ hchange =>
          .inl (List.mem_of_mem_tail hchange)

theorem rollback (savepoint : Nat) : Invariant I (rollback P savepoint) :=
  .get_bind fun _ _ => .bind (assert _) fun _ => .bind (h.undoChanges P _) fun _ =>
    .bind (.ite h.resetStorageChanges (.pure _)) fun _ => h.aside fun _ => ⟨rfl, rfl, rfl, rfl⟩

end Kept

end Skaled.State
