import Skaled.State.Rollback

/-! # Sequences of operations

The public operations that change accounts, sequences of them that stop at the
first failure, and the values a caller can read. Rolling back to the savepoint
at which a sequence started restores every value and both kinds of counters.

The preconditions are the caller's: storage is written and code is set only at
an address in use. Code does not mark the account as changed, so that it is
committed only if another change marks the account, as in contract creation.
-/

namespace Skaled.State

open EStateM (Result bind_apply get_apply pure_apply)

section

variable [Keccak] {P : Patches} {s s' : State}

/-! ## What can be read -/

/-- A program that looks at one account and changes nothing. -/
theorem account_read {β : Type} {f : Option Account → M β} {value : β} (h : Coherent s)
    (a : Address) (hf : ∀ s₁, Reloads s s₁ → f (s.find a) s₁ = .ok value s₁) :
    ∃ s', (account a >>= f) s = .ok value s' ∧ Reloads s s' := by
  obtain ⟨s₁, hrun, hreloads, _⟩ := account_bind h a f
  exact ⟨s₁, hrun.trans (hf s₁ hreloads), hreloads⟩

theorem balance_run (h : Coherent s) (a : Address) :
    ∃ s', balance a s = .ok (s.view.balance a) s' ∧ Reloads s s' := by
  refine account_read h a fun s₁ hreloads => ?_
  cases hfind : s.find a with
  | some acc => simp [World.balance, view, hfind, infoOf, pure_apply]
  | none =>
    have hfunds : s₁.initialFunds = s.view.funds := hreloads.forgets.rest.funds
    simp [World.balance, view, hfind, bind_apply, get_apply, pure_apply, hfunds]

theorem getNonce_run (h : Coherent s) (a : Address) :
    ∃ s', getNonce a s = .ok (s.view.nonce a) s' ∧ Reloads s s' := by
  refine account_read h a fun s₁ hreloads => ?_
  cases hfind : s.find a with
  | some acc => simp [World.nonce, view, hfind, infoOf, pure_apply]
  | none =>
    have hstart : s₁.accountStartNonce = s.view.startNonce := hreloads.forgets.rest.startNonce
    simp [World.nonce, view, hfind, bind_apply, get_apply, pure_apply, hstart]

theorem codeHash_run (h : Coherent s) (a : Address) :
    ∃ s', codeHash a s = .ok (s.view.codeHash a) s' ∧ Reloads s s' := by
  refine account_read h a fun _ _ => ?_
  cases hfind : s.find a <;> simp [World.codeHash, view, hfind, infoOf, pure_apply]

def SameReads (s s' : State) : Prop :=
  ∀ a, (balance a s').value? = (balance a s).value? ∧
    (getNonce a s').value? = (getNonce a s).value? ∧
    (code a s').value? = (code a s).value? ∧
    (codeHash a s').value? = (codeHash a s).value? ∧
    (addressInUse a s').value? = (addressInUse a s).value? ∧
    ∀ key, (storage a key s').value? = (storage a key s).value?

/-- What is read is determined by the accounts and the slots of the world. -/
theorem sameReads_of_view (h : Good s) (h' : Good s')
    (haccounts : s'.view.accounts = s.view.accounts)
    (hslots : s'.view.store.slots = s.view.store.slots) (hfunds : s'.view.funds = s.view.funds)
    (hstart : s'.view.startNonce = s.view.startNonce) : SameReads s s' := by
  intro a
  obtain ⟨_, hb, _⟩ := balance_run h.coherent a
  obtain ⟨_, hb', _⟩ := balance_run h'.coherent a
  obtain ⟨_, hn, _⟩ := getNonce_run h.coherent a
  obtain ⟨_, hn', _⟩ := getNonce_run h'.coherent a
  obtain ⟨_, hc, _⟩ := code_run h a
  obtain ⟨_, hc', _⟩ := code_run h' a
  obtain ⟨_, hh, _⟩ := codeHash_run h.coherent a
  obtain ⟨_, hh', _⟩ := codeHash_run h'.coherent a
  obtain ⟨_, hu, _⟩ := addressInUse_run h.coherent a
  obtain ⟨_, hu', _⟩ := addressInUse_run h'.coherent a
  have huse : (s'.find a).isSome = (s.find a).isSome := by
    have := congrArg Option.isSome (congrFun haccounts a)
    simpa [view] using this
  refine ⟨?_, ?_, ?_, ?_, ?_, ?_⟩
  · simp only [hb, hb', Result.value?_ok, World.balance, haccounts, hfunds]
  · simp only [hn, hn', Result.value?_ok, World.nonce, haccounts, hstart]
  · simp only [hc, hc', Result.value?_ok, World.code, haccounts]
  · simp only [hh, hh', Result.value?_ok, World.codeHash, haccounts]
  · simp only [hu, hu', Result.value?_ok, huse]
  · intro key
    obtain ⟨_, hs, _⟩ := storage_run h.coherent a key
    obtain ⟨_, hs', _⟩ := storage_run h'.coherent a key
    simp only [hs, hs', Result.value?_ok, World.slot, haccounts, hslots]

/-! ## Operations -/

inductive Op where
  | incNonce (a : Address)
  | setNonce (a : Address) (nonce : U256)
  | addBalance (a : Address) (amount : U256)
  | subBalance (a : Address) (value : U256)
  | setBalance (a : Address) (value : U256)
  | createContract (a : Address)
  | setCode (a : Address) (code : Bytes) (version : U256)
  | setStorage (a : Address) (key value : U256)

def Op.run : Op → M Unit
  | .incNonce a => State.incNonce a
  | .setNonce a nonce => State.setNonce a nonce
  | .addBalance a amount => State.addBalance a amount
  | .subBalance a value => State.subBalance a value
  | .setBalance a value => State.setBalance a value
  | .createContract a => State.createContract a
  | .setCode a code version => State.setCode a code version
  | .setStorage a key value => State.setStorage a key value

/-- What the caller has to see to before an operation. -/
def Op.Allowed (s : State) : Op → Prop
  | .createContract a => s.find a = none
  | .setCode a _ _ => ∃ acc, s.find a = some acc ∧ acc.codeHash = emptySHA3
  | .setStorage a _ _ => (s.find a).isSome
  | _ => True

def runOps : List Op → M Unit
  | [] => pure ()
  | op :: rest => do
    op.run
    runOps rest

/-- Every operation of the sequence is allowed when its turn comes. -/
def AllowedOps : List Op → State → Prop
  | [], _ => True
  | op :: rest, s => op.Allowed s ∧ ∀ s', op.run s = .ok () s' → AllowedOps rest s'

/-- What keeps a state good: storage and code are written to an account in use,
and code only after another change has marked the account. -/
def Op.Proper (s : State) : Op → Prop
  | .setCode a _ _ => ∃ acc, s.cache.lookup a = some acc ∧ acc.isDirty = true
  | .setStorage a _ _ => (s.find a).isSome
  | _ => True

theorem createContract_runs (h : Good s) (a : Address) : Runs P (createContract a) s :=
  .startNonce h fun _ => createAccount_runs h _ _

theorem Op.runs (h : Good s) {op : Op} (hproper : op.Proper s) : Runs P op.run s := by
  cases op with
  | incNonce a => exact incNonce_moves h
  | setNonce a nonce => exact setNonce_moves h nonce
  | addBalance a amount => exact addBalance_runs h amount
  | subBalance a value => exact subBalance_runs h value
  | setBalance a value => exact setBalance_runs h value
  | createContract a => exact createContract_runs h a
  | setCode a code version =>
    obtain ⟨acc, hacc, hdirty⟩ := hproper
    refine setCode_runs h code version ?_ ?_
    · rw [find_of_cached hacc]
      rfl
    · rw [(view_cached hacc).2.1, hdirty]
  | setStorage a key value => exact setStorage_runs h key value hproper

/-! ## Rolling a sequence back -/

/-- The invariant of a state object: the caches are coherent, clean accounts
are saved, and every entry of the log can be taken back. -/
structure Sound (s : State) : Prop where
  good : Good s
  saved : s.view.Saves []
  store : StoreOk s.view

theorem Sound.steps {floor : Nat} (h : Sound s) (hgood : Good s')
    (hsteps : Steps P floor s.view s'.view) : Sound s' :=
  ⟨hgood, h.saved.steps h.good.accounts hsteps, h.store.steps hsteps⟩

/-- The records of a database can be read, and code is stored under its hash. -/
structure DatabaseOk (db : OverlayDB) : Prop where
  decodes : ∀ a, db.lookup a ≠ [] → (Account.decode (db.lookup a)).isSome
  hashed : ∀ a acc, stored db a = some acc → (infoOf db a acc).Hashed

/-- A state that has just been opened on a database, or copied from another one
at its latest version, is sound. -/
theorem sound_of_empty (hdb : DatabaseOk s.db) (hversion : s.checkVersion = true)
    (hcache : s.cache = ∅) (habsent : ∀ a ∈ s.nonExistingAccountsCache, s.db.lookup a = [])
    (hlog : s.changeLog = []) : Sound s := by
  have hfind : s.find = stored s.db := by
    funext a
    rw [find, hcache]
    exact Option.none_or
  have haccounts : s.view.accounts = s.view.saved.accounts := by
    simp only [view, hfind]
  have hcoherent : Coherent s := by
    refine ⟨hversion, ?_, hdb.decodes, ?_, ?_⟩
    · exact fun a ha => ⟨habsent a ha, by rw [hcache]; rfl⟩
    · intro a acc key value hacc
      rw [hcache] at hacc
      cases hacc
    · intro a acc hacc
      rw [hcache] at hacc
      cases hacc
  have hhashed : ∀ a info, s.view.saved.accounts a = some info → info.Hashed := by
    intro a info hinfo
    obtain ⟨acc, hacc, rfl⟩ := Option.map_eq_some_iff.mp hinfo
    exact hdb.hashed a acc hacc
  have hnil : s.view.log = [] := hlog
  have hsaves : ∀ log, s.view.Saves log := fun _ a _ => .inl (congrFun haccounts a)
  refine ⟨⟨hcoherent, ⟨hsaves _, ?_, ?_, ?_, ?_, ?_, hhashed⟩⟩, hsaves [], ⟨?_, ?_, ?_⟩⟩
  · simp [hnil]
  · simp [hnil]
  · simp [hnil]
  · rw [hnil]
    trivial
  · rw [haccounts]
    exact hhashed
  · intro a _
    refine ⟨?_, ?_⟩
    · simp only [view, hcache]
      rfl
    · simp only [view, hfind]
  · rw [hnil]
    trivial
  · simp [hnil]

/-- `s'` was reached from `s` by operations that the log leads back from. -/
structure Follows (P : Patches) (s s' : State) : Prop where
  coherent : Coherent s'
  back : LeadsBack P s.view s'.view

theorem Follows.good (h : Follows P s s') : Good s' := ⟨h.coherent, h.back.accountsOk⟩

section

variable (hpatch : P.contractStorage = true)

include hpatch

theorem Follows.moves {s'' : State} (h : Follows P s s') (hmoves : Moves P s' s'') :
    Follows P s s'' :=
  ⟨hmoves.good.coherent, h.back.steps hpatch (Steps.mono h.back.floor_le hmoves.steps)⟩

/-- Every operation is a run of steps, but for code set at a clean account. -/
theorem Follows.op (h : Follows P s s') {op : Op} (hallowed : op.Allowed s') :
    Follows P s (op.run s').state := by
  cases op with
  | setCode a newCode version =>
    obtain ⟨acc, hfind, hfree⟩ := hallowed
    obtain ⟨s'', w, old, hrun, hcoherent, _, hforgets, hview, haccount⟩ :=
      setCode_run h.good hfind hfree newCode version
    rw [Op.run, hrun]
    refine ⟨hcoherent, ?_⟩
    rw [EStateM.Result.state_ok, hview]
    exact (h.back.steps hpatch hforgets.steps).setCode haccount hfree newCode old
  | setStorage a key value => exact h.moves hpatch (setStorage_runs h.good key value hallowed)
  | incNonce _ | setNonce _ _ | addBalance _ _ | subBalance _ _ | setBalance _ _
  | createContract _ => exact h.moves hpatch (Op.runs h.good trivial)

theorem Follows.runOps (h : Follows P s s') {ops : List Op} (hallowed : AllowedOps ops s') :
    Follows P s (runOps ops s').state := by
  induction ops generalizing s' with
  | nil => exact h
  | cons op rest ih =>
    have hop := h.op hpatch hallowed.1
    rw [State.runOps, bind_apply]
    cases hrun : op.run s' with
    | ok _ s₁ =>
      rw [hrun] at hop
      exact ih hop (hallowed.2 s₁ hrun)
    | error _ s₁ => rwa [hrun] at hop

end

/-- Rolling back to the savepoint before a sequence of operations, which may
have been cut short by a failure, restores every value that can be read, the
change log and the counters. -/
theorem rollback_runOps (h : Sound s) (hpatch : P.contractStorage = true) {ops : List Op}
    (hallowed : AllowedOps ops s) :
    ∃ s', rollback P s.changeLog.length (runOps ops s).state = .ok () s' ∧ SameReads s s' ∧
      s'.changeLog = s.changeLog ∧ s'.currentStorageUsed = s.currentStorageUsed ∧
      ∀ a, s'.usage a = s.usage a := by
  have hstart : Follows P s s :=
    ⟨h.good.coherent, .refl h.good.accounts h.saved h.store⟩
  have hops := hstart.runOps hpatch hallowed
  obtain ⟨s', hrun, hgood, _, hlength, hsteps⟩ := rollback_run P hops.good hops.back.floor_le
  have hback := hops.back.steps hpatch hsteps
  obtain ⟨hlog, haccounts, hstore⟩ := hback.eq hlength
  refine ⟨s', hrun, ?_, hlog, congrArg Store.current hstore, fun a => ?_⟩
  · exact sameReads_of_view h.good hgood haccounts (congrArg Store.slots hstore)
      hback.constants.2.1 hback.constants.2.2
  · exact congrFun (congrArg Store.usage hstore) a

end

/-! ## Concrete sequences -/

/-- A hash for concrete runs: the number the bytes stand for. -/
abbrev sampleKeccak : Keccak := ⟨fun bytes => BitVec.ofNat 256 (BigEndian.decode bytes)⟩

abbrev samplePatches : Patches :=
  { contractStorage := true, storageDestruction := true, contractStorageZeroValue := true
    flexibleDeployment := true, powCheck := true, skipInvalidTransactions := true }

/-- A new node with a start nonce of zero. -/
abbrev sampleState : State := { accountStartNonce := 0 }

theorem sampleState_sound : letI := sampleKeccak; Sound sampleState := by
  let _ := sampleKeccak
  refine sound_of_empty ⟨?_, ?_⟩ rfl rfl (fun a ha => nomatch ha) rfl
  · intro a ha
    exact absurd rfl ha
  · intro a acc hacc
    cases hacc

/-- A node whose database has one account. -/
abbrev sampleSaved : State :=
  letI := sampleKeccak
  { sampleState with db :=
      { disk := { accounts := AList.insert 1 ((Account.fresh 2 5).encode.getD []) ∅ } } }

set_option maxRecDepth 4000 in
theorem sampleSaved_find : sampleSaved.find 1 = some (.loaded 2 5 0 0 0) := rfl

theorem sampleSaved_sound (funds : U256) :
    letI := sampleKeccak; Sound { sampleSaved with initialFunds := funds } := by
  let _ := sampleKeccak
  have hlookup : ∀ a, a ≠ 1 → sampleSaved.db.lookup a = [] := by
    intro a ha
    have hnone : sampleSaved.db.disk.accounts.lookup a = none := AList.lookup_insert_ne ha
    simp only [OverlayDB.lookup, hnone]
    rfl
  refine sound_of_empty ⟨?_, ?_⟩ rfl rfl (fun a ha => nomatch ha) rfl
  · intro a ha
    obtain rfl : a = 1 := not_imp_comm.mp (hlookup a) ha
    change (Account.decode (sampleSaved.db.lookup 1)).isSome
    decide +kernel
  · intro a acc hacc
    by_cases ha : a = 1
    · subst ha
      obtain rfl : Account.loaded 2 5 0 0 0 = acc :=
        Option.some.inj (sampleSaved_find.symm.trans hacc)
      exact ⟨rfl, fun _ => rfl⟩
    · rw [stored, if_pos (hlookup a ha)] at hacc
      cases hacc

set_option maxRecDepth 4000 in
/-- The code of a clean account, of another one and a slot are set, and the
sequence fails at the end. -/
theorem rollback_runOps_sample :
    letI := sampleKeccak
    ∃ s', rollback samplePatches 0 (runOps [.setCode 1 [7] 0, .addBalance 2 5, .setCode 2 [8] 0,
        .setStorage 1 2 3, .subBalance 2 9] sampleSaved).state = .ok () s' ∧
      SameReads sampleSaved s' ∧ s'.changeLog = [] ∧ s'.currentStorageUsed = 0 ∧
      ∀ a, s'.usage a = 0 := by
  let _ := sampleKeccak
  refine rollback_runOps (sampleSaved_sound 0) rfl ⟨⟨_, sampleSaved_find, rfl⟩, fun s₁ h₁ => ?_⟩
  obtain rfl := (EStateM.Result.ok.inj h₁).2
  refine ⟨trivial, fun s₂ h₂ => ?_⟩
  obtain rfl := (EStateM.Result.ok.inj h₂).2
  refine ⟨⟨.fresh 0 5, rfl, rfl⟩, fun s₃ h₃ => ?_⟩
  obtain rfl := (EStateM.Result.ok.inj h₃).2
  refine ⟨rfl, fun s₄ h₄ => ?_⟩
  obtain rfl := (EStateM.Result.ok.inj h₄).2
  exact ⟨trivial, fun _ _ => trivial⟩

/-- At an address that is not in use `setCode` makes a dead account, which the
rollback leaves behind. -/
theorem rollback_setCode_unused :
    letI := sampleKeccak
    (addressInUse 1 sampleState).value? = some false ∧
      (addressHasCode 1 sampleState).value? = some false ∧
      ((do
        (Op.setCode 1 [7] 0).run
        rollback samplePatches 0
        addressInUse 1 : M Bool) sampleState).value? = some true := by
  let _ := sampleKeccak
  exact ⟨rfl, rfl, rfl⟩

end Skaled.State
