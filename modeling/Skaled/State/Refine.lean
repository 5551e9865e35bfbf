import Skaled.State.Lookup
import Skaled.State.WorldRuns

/-! # The state refines the world

The accounts and slots that can be read through the caches of a state form a
world. Reading an account may load it and evict others, which is invisible up
to forgetting clean accounts; every mutator is a run of steps.
-/

namespace Skaled

open Function (update update_eq_self)

theorem Account.decode_eq_loaded {record : Bytes} {acc : Account}
    (h : Account.decode record = some acc) :
    ∃ nonce balance codeHash version storageUsed,
      acc = .loaded nonce balance codeHash version storageUsed := by
  simp only [Account.decode, Option.bind_eq_bind, Option.bind_eq_some_iff] at h
  obtain ⟨_, _, _, _, _, _, _, _, _, _, _, _, _, _, _, _, _, _, _, _, hversion⟩ := h
  split at hversion
  · exact ⟨_, _, _, _, _, (Option.some.inj hversion).symm⟩
  · obtain ⟨_, _, hversion⟩ := Option.bind_eq_some_iff.mp hversion
    exact ⟨_, _, _, _, _, (Option.some.inj hversion).symm⟩

namespace State

variable [Keccak]

/-- The account that is saved in the database. -/
def stored (db : OverlayDB) (a : Address) : Option Account :=
  if db.lookup a = [] then none else Account.decode (db.lookup a)

def find (s : State) (a : Address) : Option Account := (s.cache.lookup a).or (stored s.db a)

def infoOf (db : OverlayDB) (a : Address) (acc : Account) : AccountInfo where
  isAlive := acc.isAlive
  nonce := acc.nonce
  balance := acc.balance
  codeHash := acc.codeHash
  code :=
    if acc.codeHash = emptySHA3 then []
    else if acc.codeCache ≠ [] then acc.codeCache
    else db.lookupAuxiliary a

def slotsOf (db : OverlayDB) (a : Address) (acc : Account) (key : U256) : U256 :=
  (acc.storageOverlay.lookup key).getD (db.lookupStorage a key)

/-- What can be read of a state. -/
def view (s : State) : World where
  accounts a := (s.find a).map (infoOf s.db a)
  dirty a := ((s.cache.lookup a).map (·.isDirty)).getD false
  store :=
    { slots := fun a => ((s.cache.lookup a).map (slotsOf s.db a)).getD (s.db.lookupStorage a)
      usage := s.usage
      current := s.currentStorageUsed }
  used a := ((s.find a).map (·.storageUsed)).getD 0
  saved :=
    { accounts := fun a => (stored s.db a).map (infoOf s.db a)
      slots := s.db.lookupStorage
      used := fun a => ((stored s.db a).map (·.storageUsed)).getD 0 }
  total := s.totalStorageUsed
  limit := s.contractStorageLimit
  log := s.changeLog
  funds := s.initialFunds
  startNonce := s.accountStartNonce
  history := s.history

structure CodeCached (db : OverlayDB) (a : Address) (acc : Account) : Prop where
  code : acc.codeHash ≠ emptySHA3 →
    if acc.hasNewCode then acc.codeCache ≠ []
    else acc.codeCache = [] ∨ acc.codeCache = db.lookupAuxiliary a
  none : acc.isAlive = true → acc.codeHash = emptySHA3 → acc.codeCache = []

/-- The caches agree with the database they stand in front of. -/
structure Coherent (s : State) : Prop where
  version : s.checkVersion = true
  absent : ∀ a ∈ s.nonExistingAccountsCache, s.db.lookup a = [] ∧ s.cache.lookup a = none
  decodes : ∀ a, s.db.lookup a ≠ [] → (Account.decode (s.db.lookup a)).isSome
  originals : ∀ a acc key value, s.cache.lookup a = some acc →
    acc.storageOriginal.lookup key = some value → value = s.db.lookupStorage a key
  codes : ∀ a acc, s.cache.lookup a = some acc → CodeCached s.db a acc

variable {s s' : State} {a : Address} {acc : Account} {w w' : World}

theorem Coherent.congr (h : Coherent s) (hcache : s'.cache = s.cache)
    (habsent : s'.nonExistingAccountsCache = s.nonExistingAccountsCache) (hdb : s'.db = s.db)
    (hversion : s'.checkVersion = s.checkVersion) : Coherent s' := by
  obtain ⟨h₁, h₂, h₃, h₄, h₅⟩ := h
  rw [← hversion] at h₁
  rw [← habsent, ← hdb, ← hcache] at h₂
  rw [← hdb] at h₃
  rw [← hcache, ← hdb] at h₄ h₅
  exact ⟨h₁, h₂, h₃, h₄, h₅⟩

theorem Coherent.present (h : Coherent s)
    (hacc : s.cache.lookup a = some acc) : a ∉ s.nonExistingAccountsCache := by
  intro hmem
  rw [(h.absent a hmem).2] at hacc
  cases hacc

/-! ## Replacing and dropping cached accounts -/

omit [Keccak] in
theorem find_of_cached (h : s.cache.lookup a = some acc) : s.find a = some acc := by
  rw [find, h, Option.some_or]

theorem view_insert (s : State) (a : Address) (acc : Account) :
    ({ s with cache := s.cache.insert a acc } : State).view =
      { s.view with
        accounts := update s.view.accounts a (some (infoOf s.db a acc))
        dirty := update s.view.dirty a acc.isDirty
        store := { s.view.store with
          slots := update s.view.store.slots a (slotsOf s.db a acc) }
        used := update s.view.used a acc.storageUsed } := by
  unfold view find
  simp only [AList.lookup_insert_eq_ite, World.mk.injEq, Store.mk.injEq, and_true]
  refine ⟨?_, ?_, ⟨?_, rfl⟩, ?_⟩ <;> funext b <;> by_cases hb : b = a
  all_goals first | (subst hb; simp) | simp [hb]

/-- Dropping a cached account makes it read as it is saved. -/
theorem view_erase (s : State) (a : Address) :
    ({ s with cache := s.cache.erase a } : State).view = (s.view.forget a).mark a false := by
  unfold view find World.forget World.mark
  simp only [AList.lookup_erase_eq_ite, World.mk.injEq, Store.mk.injEq, and_true]
  refine ⟨?_, ?_, ⟨?_, rfl⟩, ?_⟩ <;> funext b <;> by_cases hb : b = a
  all_goals first | (subst hb; simp) | simp [hb]

/-! ## Reading accounts -/

/-- Clean accounts are forgotten, in some order. -/
def Forgets : World → World → Prop :=
  Relation.ReflTransGen fun w w' => ∃ a, w.dirty a = false ∧ w' = w.forget a

theorem Forgets.steps {P : Patches} {floor : Nat} (h : Forgets w w') : Steps P floor w w' := by
  refine Relation.ReflTransGen.mono ?_ _ _ h
  rintro w _ ⟨a, hclean, rfl⟩
  exact .forget hclean

/-- Nothing but code that can be taken back is forgotten. -/
theorem Forgets.accounts_eq (h : Forgets w w') (hw : AccountsOk w) :
    AccountsOk w' ∧ ∀ a, (w'.accounts a).map AccountInfo.withoutCode =
      (w.accounts a).map AccountInfo.withoutCode := by
  induction h with
  | refl => exact ⟨hw, fun _ => rfl⟩
  | @tail middle last hforgets hstep ih =>
    obtain ⟨b, hclean, rfl⟩ := hstep
    refine ⟨ih.1.forget hclean, fun a => ?_⟩
    rw [← ih.2 a]
    obtain heq | ⟨_, heq⟩ := ih.1.forget_accounts hclean
    · rw [heq]
    · by_cases hne : a = b
      · rw [heq, hne, Function.update_self, map_withoutCode_idem]
      · rw [heq, Function.update_of_ne hne]

theorem Forgets.isSome_eq (h : Forgets w w') (hw : AccountsOk w) (a : Address) :
    (w'.accounts a).isSome = (w.accounts a).isSome := by
  simpa using congrArg Option.isSome ((h.accounts_eq hw).2 a)

/-- What forgetting leaves alone. -/
structure SameRest (w w' : World) : Prop where
  dirty : w'.dirty = w.dirty
  saved : w'.saved = w.saved
  usage : w'.store.usage = w.store.usage
  current : w'.store.current = w.store.current
  total : w'.total = w.total
  limit : w'.limit = w.limit
  log : w'.log = w.log
  funds : w'.funds = w.funds
  startNonce : w'.startNonce = w.startNonce
  history : w'.history = w.history

omit [Keccak] in
theorem Forgets.rest (h : Forgets w w') : SameRest w w' := by
  induction h with
  | refl => exact ⟨rfl, rfl, rfl, rfl, rfl, rfl, rfl, rfl, rfl, rfl⟩
  | tail _ hstep ih =>
    obtain ⟨a, _, rfl⟩ := hstep
    exact { ih with }

/-- Nothing outside the account caches differs. -/
structure SameDatabase (s s' : State) : Prop where
  db : s'.db = s.db
  log : s'.changeLog = s.changeLog
  versions : s'.storedVersion = s.storedVersion ∧ s'.currentVersion = s.currentVersion
  lock : s'.writeLock = s.writeLock
  counters : s'.storageUsage = s.storageUsage

/-- `s'` is `s` after some accounts were loaded or evicted. -/
structure Reloads (s s' : State) : Prop where
  same : SameDatabase s s'
  coherent : Coherent s'
  forgets : Forgets s.view s'.view

theorem Coherent.erase (h : Coherent s) (a : Address) :
    Coherent { s with cache := s.cache.erase a } := by
  refine ⟨h.version, ?_, h.decodes,
    fun b acc key value hb => h.originals b acc key value (AList.lookup_of_erase hb),
    fun b acc hb => h.codes b acc (AList.lookup_of_erase hb)⟩
  intro b hb
  refine ⟨(h.absent b hb).1, ?_⟩
  rw [AList.lookup_erase_eq_ite, (h.absent b hb).2, ite_self]

theorem Reloads.refl (h : Coherent s) : Reloads s s :=
  ⟨⟨rfl, rfl, ⟨rfl, rfl⟩, rfl, rfl⟩, h, .refl⟩

theorem Reloads.trans {s s' s'' : State} (h : Reloads s s') (h' : Reloads s' s'') :
    Reloads s s'' := by
  obtain ⟨⟨hdb, hlog, hversions, hlock, hcounters⟩, _, hforgets⟩ := h
  obtain ⟨⟨hdb', hlog', hversions', hlock', hcounters'⟩, hcoherent, hforgets'⟩ := h'
  exact ⟨⟨hdb'.trans hdb, hlog'.trans hlog, ⟨hversions'.1.trans hversions.1,
    hversions'.2.trans hversions.2⟩, hlock'.trans hlock, hcounters'.trans hcounters⟩, hcoherent,
    hforgets.trans hforgets'⟩

theorem Reloads.entries (h : Reloads s s') (entries : List Address) (engine : Nat → Nat) :
    Reloads s { s' with unchangedCacheEntries := entries, engine } := by
  exact ⟨{ h.same with }, h.coherent.congr rfl rfl rfl rfl, h.forgets⟩

theorem dropUnchanged_reloads (h : Coherent s) (a : Address) :
    Reloads s { s with cache := dropUnchanged s.cache a } := by
  unfold dropUnchanged
  cases hacc : s.cache.lookup a with
  | none => exact .refl h
  | some acc =>
    cases hunchanged : acc.isUnchanged with
    | false =>
      simp only [hunchanged, Bool.false_eq_true, if_false]
      exact .refl h
    | true =>
      have hclean : s.view.dirty a = false := by
        simp [view, hacc, Account.isDirty, hunchanged]
      have hmark : (s.view.forget a).mark a false = s.view.forget a := by
        rw [World.mark, ← hclean]
        exact congrArg (fun dirty => { s.view.forget a with dirty })
          (update_eq_self a s.view.dirty)
      simp only [hunchanged, if_true]
      exact ⟨⟨rfl, rfl, ⟨rfl, rfl⟩, rfl, rfl⟩, h.erase a,
        .single ⟨a, hclean, by rw [← hmark, ← view_erase]⟩⟩

theorem evictOne_reloads (h : Coherent s) : Reloads s s.evictOne := by
  unfold evictOne
  simp only
  split
  · exact .refl h
  · exact (dropUnchanged_reloads h _).entries _ _

theorem evictRounds_reloads (h : Coherent s) (rounds : Nat) : Reloads s (evictRounds rounds s) := by
  induction rounds generalizing s with
  | zero => exact .refl h
  | succ rounds ih =>
    have hfirst := evictOne_reloads h
    exact hfirst.trans (ih hfirst.coherent)

/-- Loading a saved account is invisible. -/
theorem view_load (hnone : s.cache.lookup a = none) (hstored : stored s.db a = some acc)
    (hacc : acc.isUnchanged = true) (hoverlay : acc.storageOverlay = ∅) :
    ({ s with cache := s.cache.insert a acc } : State).view = s.view := by
  have haccount : s.view.accounts a = some (infoOf s.db a acc) := by
    simp [view, find, hnone, hstored]
  have hdirty : s.view.dirty a = acc.isDirty := by
    simp [view, hnone, Account.isDirty, hacc]
  have hslots : s.view.store.slots a = slotsOf s.db a acc := by
    funext key
    simp [view, hnone, slotsOf, hoverlay]
  have hused : s.view.used a = acc.storageUsed := by
    simp [view, find, hnone, hstored]
  rw [view_insert, ← haccount, ← hdirty, ← hslots, ← hused, update_eq_self,
    update_eq_self, update_eq_self, update_eq_self]

theorem Coherent.insert (h : Coherent s) (hpresent : a ∉ s.nonExistingAccountsCache)
    (horiginals : ∀ key value, acc.storageOriginal.lookup key = some value →
      value = s.db.lookupStorage a key)
    (hcodes : CodeCached s.db a acc) : Coherent { s with cache := s.cache.insert a acc } := by
  refine ⟨h.version, ?_, h.decodes, ?_, ?_⟩
  · intro b hb
    refine ⟨(h.absent b hb).1, ?_⟩
    have hne : b ≠ a := fun heq => hpresent (heq ▸ hb)
    rw [AList.lookup_insert_eq_ite, if_neg hne, (h.absent b hb).2]
  · intro b acc' key value hb hvalue
    rcases AList.lookup_insert_eq_some hb with ⟨rfl, rfl⟩ | hold
    · exact horiginals key value hvalue
    · exact h.originals b acc' key value hold hvalue
  · intro b acc' hb
    rcases AList.lookup_insert_eq_some hb with ⟨rfl, rfl⟩ | hold
    · exact hcodes
    · exact h.codes b acc' hold

omit [Keccak] in
theorem stored_eq_loaded {db : OverlayDB} (h : stored db a = some acc) :
    ∃ nonce balance codeHash version storageUsed,
      acc = Account.loaded nonce balance codeHash version storageUsed := by
  unfold stored at h
  split at h
  · cases h
  · exact Account.decode_eq_loaded h

theorem load_reloads (h : Coherent s) (hpresent : a ∉ s.nonExistingAccountsCache)
    (hnone : s.cache.lookup a = none) (hstored : stored s.db a = some acc) :
    Reloads s { s with cache := s.cache.insert a acc } := by
  obtain ⟨nonce, balance, codeHash, version, storageUsed, rfl⟩ := stored_eq_loaded hstored
  refine ⟨⟨rfl, rfl, ⟨rfl, rfl⟩, rfl, rfl⟩, h.insert hpresent (fun _ _ hvalue => nomatch hvalue)
    ⟨fun _ => .inl rfl, fun _ _ => rfl⟩, ?_⟩
  rw [view_load hnone hstored rfl rfl]
  exact .refl

/-- `account` returns the account that is found, and only moves caches. -/
theorem account_run (h : Coherent s) (a : Address) :
    ∃ s', account a s = .ok (s.find a) s' ∧ Reloads s s' ∧ s'.cache.lookup a = s.find a := by
  rw [account_apply, find]
  cases hcached : s.cache.lookup a with
  | some acc => exact ⟨s, rfl, .refl h, hcached⟩
  | none =>
    dsimp only
    rw [if_pos h.version, Option.none_or]
    by_cases hmem : a ∈ s.nonExistingAccountsCache
    · rw [if_pos hmem, stored, if_pos (h.absent a hmem).1]
      exact ⟨s, rfl, .refl h, hcached⟩
    rw [if_neg hmem]
    by_cases hrecord : s.db.lookup a = []
    · -- the address is noted as absent
      rw [if_pos hrecord, stored, if_pos hrecord]
      refine ⟨_, rfl, ⟨⟨rfl, rfl, ⟨rfl, rfl⟩, rfl, rfl⟩, ?_, .refl⟩, hcached⟩
      refine ⟨h.version, ?_, h.decodes, h.originals, h.codes⟩
      intro b hb
      obtain rfl | hb := List.mem_cons.mp hb
      · exact ⟨hrecord, hcached⟩
      · exact h.absent b hb
    · obtain ⟨acc, hacc⟩ := Option.isSome_iff_exists.mp (h.decodes a hrecord)
      have hstored : stored s.db a = some acc := by rw [stored, if_neg hrecord, hacc]
      have hevict := evictRounds_reloads h (s.unchangedCacheEntries.length - 1000)
      have hevicted := clearCacheIfTooLarge_evicted s
      rw [if_neg hrecord, hacc, hstored]
      unfold clearCacheIfTooLarge at hevicted ⊢
      generalize evictRounds (s.unchangedCacheEntries.length - 1000) s = s₁ at hevict hevicted ⊢
      have hnone : s₁.cache.lookup a = none := Option.eq_none_iff_forall_ne_some.mpr
        fun found hfound => by
          rw [hevicted.cache a found hfound] at hcached
          cases hcached
      rw [← hevict.same.db] at hstored
      exact ⟨_, rfl, hevict.trans ((load_reloads hevict.coherent
        (hevicted.missing ▸ hmem) hnone hstored).entries _ _), AList.lookup_insert _⟩

theorem find_eq_of_reloads (hreloads : Reloads s s') (hcached : s'.cache.lookup a = s.find a) :
    s'.find a = s.find a := by
  rw [find, hcached]
  cases hfind : s.find a with
  | some acc => rfl
  | none =>
    rw [find, Option.or_eq_none_iff] at hfind
    rw [hreloads.same.db, hfind.2, Option.none_or]

/-- Reading an account does not change what is read at its address. -/
theorem view_at_of_reloads (hreloads : Reloads s s') (hcached : s'.cache.lookup a = s.find a) :
    s'.view.store.slots a = s.view.store.slots a ∧ s'.view.accounts a = s.view.accounts a := by
  refine ⟨?_, by simp only [view, find_eq_of_reloads hreloads hcached, hreloads.same.db]⟩
  cases hs : s.cache.lookup a with
  | some acc =>
    rw [find_of_cached hs] at hcached
    simp only [view, hs, hcached, hreloads.same.db]
  | none =>
    rw [find, hs, Option.none_or] at hcached
    simp only [view, hs, hcached, hreloads.same.db]
    cases hstored : stored s.db a with
    | none => rfl
    | some acc =>
      obtain ⟨_, _, _, _, _, rfl⟩ := stored_eq_loaded hstored
      rfl

end State

end Skaled
