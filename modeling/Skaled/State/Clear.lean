import Skaled.State.Rollback

/-! # Clearing the storage of a contract

What `clearStorage` does to a cached account, exactly: the keys it visits, the
values it leaves in the caches and in the database, and its arithmetic on the
counters, in which the key of a slot stands for its value.
-/

namespace Skaled.State

open EStateM (bind_apply get_bind)

/-- `s'` is `s` after the slots `keys` of the cached account `acc` were
cleared one after the other; the account is now `acc'`. -/
structure Emptied (a : Address) (keys : List U256) (acc acc' : Account) (s s' : State) : Prop where
  cache : ∀ b, s'.cache.lookup b = if b = a then some acc' else s.cache.lookup b
  account : acc' = { acc with
    storageOverlay := acc'.storageOverlay, storageOriginal := acc'.storageOriginal
    isUnchanged := acc.isUnchanged && keys.isEmpty }
  overlay : ∀ key, acc'.storageOverlay.lookup key =
    if key ∈ keys then some 0 else acc.storageOverlay.lookup key
  original : ∀ key, acc'.storageOriginal.lookup key =
    if key ∈ keys then some 0 else acc.storageOriginal.lookup key
  slots : ∀ b key, s'.db.storageCache.lookup (b, key) =
    if b = a ∧ key ∈ keys then some 0 else s.db.storageCache.lookup (b, key)
  usage : ∀ b, s'.usage b = if b = a then s.usage a - 32 * keys.countP (· ≠ 0) else s.usage b
  current : s'.currentStorageUsed = s.currentStorageUsed - 32 * keys.countP (· ≠ 0)
  log : s'.changeLog = (keys.map fun key => Change.storage a key key).reverse ++ s.changeLog
  rest : s' = { s with
    cache := s'.cache, db := { s.db with storageCache := s'.db.storageCache }
    storageUsage := s'.storageUsage, currentStorageUsed := s'.currentStorageUsed
    changeLog := s'.changeLog }

variable {acc : Account}

theorem Emptied.nil {a : Address} {s : State} (hacc : s.cache.lookup a = some acc) :
    Emptied a [] acc acc s s where
  cache b := by
    split
    next heq => rw [heq, hacc]
    next => rfl
  account := by simp
  overlay key := by simp
  original key := by simp
  slots b key := by simp
  usage b := by
    split
    next heq => simp [heq]
    next => rfl
  current := by simp
  log := rfl
  rest := rfl

/-- Clearing one slot and then the others. -/
theorem Emptied.cons {a : Address} {key : U256} {keys : List U256} {acc₁ acc' : Account}
    {s s₁ s' : State} (hfirst : Emptied a [key] acc acc₁ s s₁)
    (hrest : Emptied a keys acc₁ acc' s₁ s') : Emptied a (key :: keys) acc acc' s s' where
  cache b := by
    rw [hrest.cache, hfirst.cache]
    split <;> rfl
  account := by
    rw [hrest.account, hfirst.account]
    simp
  overlay k := by
    rw [hrest.overlay, hfirst.overlay]
    by_cases h₁ : k ∈ keys <;> by_cases h₂ : k = key <;> simp [h₁, h₂]
  original k := by
    rw [hrest.original, hfirst.original]
    by_cases h₁ : k ∈ keys <;> by_cases h₂ : k = key <;> simp [h₁, h₂]
  slots b k := by
    rw [hrest.slots, hfirst.slots]
    by_cases h₁ : k ∈ keys <;> by_cases h₂ : k = key <;> by_cases h₃ : b = a <;> simp [h₁, h₂, h₃]
  usage b := by
    rw [hrest.usage, hfirst.usage, hfirst.usage]
    by_cases hb : b = a
    · simp only [hb, if_true, List.countP_cons, List.countP_nil]
      push_cast
      ring
    · simp [hb]
  current := by
    rw [hrest.current, hfirst.current]
    simp only [List.countP_cons, List.countP_nil]
    push_cast
    ring
  log := by
    rw [hrest.log, hfirst.log]
    simp
  rest := by
    rw [hrest.rest, hfirst.rest]

theorem usage_counted_zero (s : State) (a : Address) : (s.counted a 0).usage = s.usage := by
  funext b
  by_cases hb : b = a
  · subst hb
    simp [usage, counted]
  · rw [usage, counted, AList.lookup_insert_ne hb]
    rfl

variable [Keccak] {a : Address} {s : State}

theorem clearSlot_run (hacc : s.cache.lookup a = some acc) (slot : U256 × U256) :
    ∃ s' acc', clearSlot a slot s = .ok () s' ∧ Emptied a [slot.1] acc acc' s s' := by
  obtain ⟨key, value⟩ := slot
  have hrun : clearSlot a (key, value) s = .ok () { s with
      cache := (s.cache.insert a ((s.cached a).setStorage key 0)).insert a
        (((s.cache.insert a ((s.cached a).setStorage key 0)).lookup a).getD .dead |>.setStorageCache
          key 0)
      db := s.db.insertStorage a key 0
      storageUsage := s.storageUsage.insert a (s.usage a + (if key = 0 then 0 else -1) * 32)
      currentStorageUsed := s.currentStorageUsed + (if key = 0 then 0 else -1) * 32
      changeLog := .storage a key key :: s.changeLog } := rfl
  rw [cached_eq hacc, AList.lookup_insert, Option.getD_some] at hrun
  have hcount : (if key = 0 then (0 : Int) else -1) * 32 = -(32 * [key].countP (· ≠ 0)) := by
    by_cases hkey : key = 0
    · simp [hkey]
    · rw [if_neg hkey, List.countP_cons_of_pos (by simpa using hkey)]
      rfl
  rw [hcount] at hrun
  refine ⟨_, (acc.setStorage key 0).setStorageCache key 0, hrun, ?_, ?_, ?_, ?_, ?_, ?_, ?_, ?_, ?_⟩
  · intro b
    by_cases hb : b = a <;> simp [AList.lookup_insert_eq_ite, hb]
  · simp [Account.setStorage, Account.setStorageCache]
  · intro k
    simp [Account.setStorage, Account.setStorageCache, AList.lookup_insert_eq_ite]
  · intro k
    simp [Account.setStorage, Account.setStorageCache, AList.lookup_insert_eq_ite]
  · intro b k
    simp [OverlayDB.insertStorage, AList.lookup_insert_eq_ite]
  · intro b
    by_cases hb : b = a
    · subst hb
      rw [if_pos rfl, sub_eq_add_neg]
      simp only [usage, AList.lookup_insert, Option.getD_some]
    · rw [if_neg hb]
      simp only [usage, AList.lookup_insert_ne hb]
  · exact (sub_eq_add_neg _ _).symm
  · rfl
  · rfl

theorem clearSlots_run (hacc : s.cache.lookup a = some acc)
    (slots : List (Σ _ : H256, U256 × U256)) :
    ∃ s' acc', slots.forM (fun entry => clearSlot a entry.2) s = .ok () s' ∧
      Emptied a (slots.map fun entry => entry.2.1) acc acc' s s' := by
  induction slots generalizing s acc with
  | nil => exact ⟨s, acc, rfl, .nil hacc⟩
  | cons slot rest ih =>
    obtain ⟨s₁, acc₁, hfirst, hemptied⟩ := clearSlot_run hacc slot.2
    have hacc₁ : s₁.cache.lookup a = some acc₁ := by rw [hemptied.cache, if_pos rfl]
    obtain ⟨s', acc', hrest, hemptied'⟩ := ih hacc₁
    refine ⟨s', acc', ?_, hemptied.cons hemptied'⟩
    change (clearSlot a slot.2 >>= fun _ => rest.forM fun entry => clearSlot a entry.2) s = _
    rw [bind_apply, hfirst]
    exact hrest

/-- The keys `clearStorage` visits. -/
def listedKeys (s : State) (a : Address) : List U256 :=
  (s.listed a).entries.map fun entry => entry.2.1

theorem storageWithoutLock_run (hversion : s.checkVersion = true) (a : Address) :
    storageWithoutLock a s = .ok (s.listed a) s := by
  unfold storageWithoutLock
  rw [bind_apply, requireCurrentVersion_run hversion]
  rfl

/-- `clearStorage` of a cached account. When a counter is not zero the listed
slots are cleared; the total loses the account's counter and what the counter
of the transaction has become. -/
theorem clearStorage_run (hversion : s.checkVersion = true) (hacc : s.cache.lookup a = some acc) :
    if acc.storageUsed = 0 ∧ s.usage a = 0 then clearStorage a s = .ok () (s.counted a 0)
    else ∃ s₁ acc₁, Emptied a (s.listedKeys a) acc acc₁ (s.counted a 0) s₁ ∧
      clearStorage a s = .ok () { s₁ with
        totalStorageUsed := s₁.totalStorageUsed - (acc.storageUsed + s₁.usage a)
        cache := s₁.cache.insert a (acc₁.updateStorageUsage (-acc.storageUsed))
        history := .cleared a :: s₁.history } := by
  have haccount : account a s = .ok (some acc) s := by rw [account_apply, hacc]
  have hcount : countSlots a 0 s = .ok () (s.counted a 0) := rfl
  rw [clearStorage, bind_apply, haccount]
  dsimp only
  rw [bind_apply, hcount]
  dsimp only
  rw [get_bind, usage_counted_zero]
  split
  next => rfl
  next =>
    have hcounted : (s.counted a 0).cache.lookup a = some acc := hacc
    obtain ⟨s₁, acc₁, hclear, hemptied⟩ :=
      clearSlots_run hcounted ((s.counted a 0).listed a).entries
    have hacc₁ : s₁.cache.lookup a = some acc₁ := by rw [hemptied.cache, if_pos rfl]
    refine ⟨s₁, acc₁, hemptied, ?_⟩
    rw [bind_apply, storageWithoutLock_run (s := s.counted a 0) hversion]
    dsimp only
    rw [bind_apply, hclear, ← cached_eq hacc₁]
    rfl

end Skaled.State
