import Skaled.Lib.AssocMap
import Skaled.State.State

/-! # Looking an account up

`account` answers from the caches, or reads the record behind the version check.
Before it caches what it read, it may evict accounts that were not changed.
-/

namespace Skaled.State

open EStateM (bind_apply get_apply get_bind modify_bind pure_apply)

variable {s : State} {a : Address} {acc : Account}

theorem requireCurrentVersion_run (h : s.checkVersion = true) :
    requireCurrentVersion s = .ok () s := by
  simp [requireCurrentVersion, bind_apply, get_apply, h, pure_apply]

theorem requireCurrentVersion_of_stale (h : ¬ s.checkVersion = true) :
    requireCurrentVersion s = .error .attemptToReadFromStateInThePast s := by
  simp only [requireCurrentVersion, bind_apply, get_apply, h]
  rfl

/-- What a copy shares with the others, and its own version. -/
structure Shared where
  db : OverlayDB
  storedVersion : Nat
  currentVersion : Nat

def shared (s : State) : Shared := ⟨s.db, s.storedVersion, s.currentVersion⟩

theorem checkVersion_of_shared {s s' : State} (h : s'.shared = s.shared) :
    s'.checkVersion = s.checkVersion :=
  congrArg (fun view : Shared => decide (view.storedVersion = view.currentVersion)) h

theorem lookup_dropUnchanged {cache : Map Address Account} {b : Address}
    (h : (dropUnchanged cache b).lookup a = some acc) : cache.lookup a = some acc := by
  unfold dropUnchanged at h
  cases hcached : cache.lookup b with
  | none => rwa [hcached] at h
  | some found =>
    rw [hcached] at h
    dsimp only at h
    split at h
    next => exact AList.lookup_of_erase h
    next => exact h

/-- Accounts were forgotten. -/
structure Evicted (s s' : State) : Prop where
  cache : ∀ a acc, s'.cache.lookup a = some acc → s.cache.lookup a = some acc
  shared : s'.shared = s.shared
  missing : s'.nonExistingAccountsCache = s.nonExistingAccountsCache
  log : s'.changeLog = s.changeLog

theorem evictOne_evicted (s : State) : Evicted s s.evictOne := by
  unfold evictOne
  dsimp only
  split
  next => exact ⟨fun _ _ hacc => hacc, rfl, rfl, rfl⟩
  next => exact ⟨fun _ _ => lookup_dropUnchanged, rfl, rfl, rfl⟩

theorem evictRounds_evicted (rounds : Nat) (s : State) : Evicted s (evictRounds rounds s) := by
  induction rounds generalizing s with
  | zero => exact ⟨fun _ _ hacc => hacc, rfl, rfl, rfl⟩
  | succ rounds ih =>
    have hone := evictOne_evicted s
    have hrest := ih s.evictOne
    exact ⟨fun a acc hacc => hone.cache a acc (hrest.cache a acc hacc),
      hrest.shared.trans hone.shared, hrest.missing.trans hone.missing, hrest.log.trans hone.log⟩

theorem clearCacheIfTooLarge_evicted (s : State) : Evicted s s.clearCacheIfTooLarge :=
  evictRounds_evicted _ s

/-- `account` on a given state. -/
theorem account_apply (a : Address) (s : State) :
    account a s = match s.cache.lookup a with
      | some acc => .ok (some acc) s
      | none =>
        if a ∈ s.nonExistingAccountsCache then .ok none s
        else if s.checkVersion then
          if s.db.lookup a = [] then
            .ok none { s with nonExistingAccountsCache := a :: s.nonExistingAccountsCache }
          else match Account.decode (s.db.lookup a) with
            | none => .error .badRlp s.clearCacheIfTooLarge
            | some acc => .ok (some acc)
                { s.clearCacheIfTooLarge with
                  cache := s.clearCacheIfTooLarge.cache.insert a acc
                  unchangedCacheEntries :=
                    s.clearCacheIfTooLarge.unchangedCacheEntries ++ [a] }
        else .error .attemptToReadFromStateInThePast s := by
  unfold account
  rw [get_bind]
  cases s.cache.lookup a with
  | some acc => rfl
  | none =>
    dsimp only
    by_cases hmissing : a ∈ s.nonExistingAccountsCache
    · rw [if_pos hmissing, if_pos hmissing]
      rfl
    rw [if_neg hmissing, if_neg hmissing, bind_apply]
    by_cases hversion : s.checkVersion = true
    · rw [if_pos hversion, requireCurrentVersion_run hversion]
      dsimp only
      by_cases hempty : s.db.lookup a = []
      · rw [if_pos hempty, if_pos hempty]
        rfl
      · rw [if_neg hempty, if_neg hempty, modify_bind]
        cases Account.decode (s.db.lookup a) <;> rfl
    · rw [if_neg hversion, requireCurrentVersion_of_stale hversion]

theorem account_cached {s' : State}
    (h : account a s = .ok (some acc) s') : s'.cache.lookup a = some acc := by
  rw [account_apply] at h
  cases hcached : s.cache.lookup a with
  | some found =>
    rw [hcached] at h
    cases h
    exact hcached
  | none =>
    rw [hcached] at h
    dsimp only at h
    split_ifs at h
    · cases h
    · cases h
    · cases hdecode : Account.decode (s.db.lookup a) with
      | none =>
        rw [hdecode] at h
        cases h
      | some found =>
        rw [hdecode] at h
        cases h
        exact AList.lookup_insert _

end Skaled.State
