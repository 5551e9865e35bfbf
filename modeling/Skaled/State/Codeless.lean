import Skaled.State.Programs

/-! # Addresses without code

An address that has no code, neither in the cache nor in the database, gets code
by `setCode` alone. Every other operation of the state keeps it without code.
-/

namespace Skaled.State

variable [Keccak]

structure Codeless (a : Address) (s : State) : Prop where
  cached : ∀ acc, s.cache.lookup a = some acc → acc.codeHash = emptySHA3
  stored : s.db.lookup a ≠ [] → ∀ acc, Account.decode (s.db.lookup a) = some acc →
    acc.codeHash = emptySHA3

variable {a b : Address} {s : State} {acc : Account}

/-- The program keeps an address without code. -/
def KeepsCodeless {α : Type} (a : Address) (x : M α) : Prop := EStateM.Invariant (Codeless a) x

theorem Codeless.insert (h : Codeless a s) {unchanged missing : List Address}
    (hacc : b = a → acc.codeHash = emptySHA3) :
    Codeless a { s with
      cache := s.cache.insert b acc
      unchangedCacheEntries := unchanged
      nonExistingAccountsCache := missing } := by
  refine ⟨fun found hfound => ?_, h.stored⟩
  rcases AList.lookup_insert_eq_some hfound with ⟨heq, rfl⟩ | hold
  · exact hacc heq.symm
  · exact h.cached found hold

theorem codeless_kept : Kept (· ≠ .code a) (Codeless a) where
  within := fun {s s'} h hwithin => by
    have hdb : s'.db = s.db := congrArg Shared.db hwithin.shared
    refine ⟨fun acc' hacc' => ?_, hdb ▸ h.stored⟩
    rcases hwithin.cached a acc' hacc' with hold | ⟨acc, hacc, hedits⟩
    · exact h.cached acc' hold
    · have hbefore : acc.codeHash = emptySHA3 := by
        rcases hacc with hacc | rfl
        · exact h.cached acc hacc
        · rfl
      rcases hedits.code with hsame | hempty | hmay
      · exact hsame.trans hbefore
      · exact hempty
      · exact absurd rfl hmay
  absent := fun h _ _ _ => ⟨h.cached, h.stored⟩
  found := fun {s b acc} h _ _ hstored => h.insert fun heq => by
    unfold stored at hstored
    split at hstored
    next => cases hstored
    next hrecord => exact h.stored (heq ▸ hrecord) acc (heq ▸ hstored)
  cachedSlot := fun {_ _ acc} _ h _ hacc => h.insert fun heq => h.cached acc (heq ▸ hacc)
  cachedCode := fun {_ _ acc} h _ hacc => h.insert fun heq => h.cached acc (heq ▸ hacc)
  logged := fun _ _ => logged_of (fun _ => nofun) (fun _ _ => nofun) _

/-- Code that is stored elsewhere. -/
theorem keepsCodeless_setCode (hne : b ≠ a) (newCode : Bytes) (version : U256) :
    KeepsCodeless a (setCode b newCode version) :=
  codeless_kept.setCode nofun (fun heq => hne (Place.code.inj heq)) newCode version

theorem Codeless.codeHash_cached (h : Codeless a s) (heq : b = a) :
    (s.cached b).codeHash = emptySHA3 := by
  rw [heq, State.cached]
  cases hcached : s.cache.lookup a with
  | none => rfl
  | some acc => exact h.cached acc hcached

theorem keepsCodeless_clearSlot (b : Address) (slot : U256 × U256) :
    KeepsCodeless a (clearSlot b slot) := by
  have hkept := codeless_kept (a := a)
  refine .bind (.bind (hkept.logChange ⟨nofun, nofun⟩) fun _ => ?_) fun _ => ?_
  · exact hkept.edit_bind (·.setStorage slot.1 0)
      (fun _ => ⟨.setStorage nofun nofun 0, rfl⟩) (hkept.countSlots _ _)
  · refine .modify fun s h => ?_
    have hinsert : Codeless a
        { s with cache := s.cache.insert b ((s.cached b).setStorageCache slot.1 0) } :=
      h.insert fun heq => h.codeHash_cached heq
    exact ⟨hinsert.cached, h.stored⟩

theorem keepsCodeless_clearStorage (b : Address) : KeepsCodeless a (clearStorage b) := by
  have hkept := codeless_kept (a := a)
  refine hkept.account_bind (.throw _) fun acc => Kept.anywhere ?_
  refine .bind (hkept.countSlots _ _) fun _ => .get_bind fun _ _ => .ite (.pure _) ?_
  refine .bind (Kept.storageWithoutLock b) fun slots => .bind ?_ fun _ => .modify fun s h => ?_
  · exact EStateM.Triple.forM fun entry _ => keepsCodeless_clearSlot b entry.2
  · have hinsert : Codeless a
        { s with
          cache := s.cache.insert b ((s.cached b).updateStorageUsage (-acc.storageUsed)) } :=
      h.insert fun heq => h.codeHash_cached heq
    exact ⟨hinsert.cached, h.stored⟩

/-- No code is found at an address without code. -/
theorem Codeless.addressHasCode_ne_true {s' : State} (h : Codeless a s) :
    addressHasCode a s ≠ .ok true s' := by
  intro hrun
  obtain ⟨found, s₁, haccount, hrun⟩ := EStateM.bind_eq_ok.mp hrun
  have hkept := (codeless_kept.account a).ok h haccount
  cases found with
  | none => cases EStateM.pure_eq_ok hrun
  | some acc =>
    have htrue := EStateM.pure_eq_ok hrun
    simp [hkept.cached acc (account_cached haccount)] at htrue

end Skaled.State
