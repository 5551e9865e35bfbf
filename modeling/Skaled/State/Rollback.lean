import Skaled.State.Contracts

/-! # Rollback as steps

`rollback` takes the newest entries of the log back one by one. In a good
state every entry finds its account, so it always gets to the savepoint.
-/

namespace Skaled.State

open Function (update_eq_self)
open World (put undo)

variable [Keccak] {P : Patches} {s s' : State} {a : Address}

/-- What taking back an entry establishes, before the entry is dropped. -/
def Undoes (P : Patches) (change : Change) (s s' : State) : Prop :=
  Coherent s' ∧ Frame s s' ∧ ∃ w, Forgets s.view w ∧ s'.view = w.undo P change

theorem rollbackStorageChange_run (h : Good s) {acc : Account}
    (hacc : s.cache.lookup a = some acc) (key value : U256) (hpatch : P.contractStorage = true) :
    ∃ s', rollbackStorageChange a key value s = .ok () s' ∧
      Undoes P (.storage a key value) s s' := by
  obtain ⟨s₁, hstorage, hreloads, hslots, _, hsome⟩ := storage_run h.coherent a key
  obtain ⟨acc₁, hcached⟩ := Option.isSome_iff_exists.mp (hsome (by rw [find_of_cached hacc]; rfl))
  have hvalue : s.view.slot a key = s₁.view.store.slots a key := by
    rw [hslots]
    simp [World.slot, view, find_of_cached hacc]
  obtain ⟨s', hs', hcoherent, hframe, hview⟩ := write_cached hreloads.coherent hcached key value
    (slotCount (s₁.view.store.slots a key) value)
  refine ⟨s', ?_, hcoherent, hreloads.same.frame.trans hframe, s₁.view, hreloads.forgets, ?_⟩
  · rw [rollbackStorageChange, EStateM.bind_apply, hstorage, hvalue, hs', ← cached_eq hcached]
    rfl
  · rw [hview]
    simp [put, undo, undoAccounts, undoStore, hpatch, Store.write,
      ← (view_cached hcached).1]

theorem undoEntry_run (P : Patches) (h : Good s) {change : Change} {acc : Account}
    (hacc : s.cache.lookup change.address = some acc) :
    ∃ s', undoEntry P acc change s = .ok () s' ∧ Undoes P change s s' := by
  have hframe : ∀ cache entries, Frame s { s with cache, unchangedCacheEntries := entries } :=
    fun _ _ => ⟨⟨_, rfl⟩, ⟨rfl, rfl⟩, rfl⟩
  have hcoherent := h.coherent
  cases change with
  | storage a key value =>
    replace hacc : s.cache.lookup a = some acc := hacc
    by_cases hpatch : P.contractStorage = true
    · simp only [undoEntry, if_pos hpatch]
      exact rollbackStorageChange_run h hacc key value hpatch
    · refine ⟨_, congrFun (if_neg hpatch) s, hcoherent.insert_like hacc
        (acc.setStorage key value) rfl rfl rfl rfl rfl, hframe _ _, s.view, .refl,
        (view_setStorage hacc key value).trans ?_⟩
      simp [put, undo, undoAccounts, undoStore, hpatch, ← (view_cached hacc).1]
  | balance a value =>
    replace hacc : s.cache.lookup a = some acc := hacc
    refine ⟨_, rfl, hcoherent.insert_like hacc (acc.addBalance (0 - value)) rfl rfl rfl rfl rfl,
      hframe _ _, s.view, .refl,
      (view_put hacc (acc.addBalance (0 - value)) rfl rfl rfl).trans ?_⟩
    simp only [put, undo, undoAccounts, (view_cached hacc).1]
    rfl
  | nonce a value =>
    replace hacc : s.cache.lookup a = some acc := hacc
    refine ⟨_, rfl, hcoherent.insert_like hacc (acc.setNonce value) rfl rfl rfl rfl rfl,
      hframe _ _, s.view, .refl, (view_put hacc (acc.setNonce value) rfl rfl rfl).trans ?_⟩
    simp only [put, undo, undoAccounts, (view_cached hacc).1]
    rfl
  | create a => exact ⟨_, rfl, hcoherent.erase a, hframe _ _, s.view, .refl, view_erase s a⟩
  | code a old =>
    replace hacc : s.cache.lookup a = some acc := hacc
    have hreset : Coherent { s with cache := s.cache.insert a acc.resetCode } :=
      hcoherent.insert (hcoherent.present hacc)
        (fun key value => hcoherent.originals a acc key value hacc)
        ⟨fun hhash => absurd rfl hhash, fun _ _ => rfl⟩
    refine ⟨_, rfl, hreset, hframe _ _, s.view, .refl,
      (view_replace hacc acc.resetCode rfl rfl rfl).trans ?_⟩
    simp [undo, undoAccounts, undoStore, undoSlots, (view_cached hacc).1, infoOf,
      Account.resetCode, AccountInfo.withoutCode]
  | touch a =>
    replace hacc : s.cache.lookup a = some acc := hacc
    obtain ⟨haccount, _, hslots, hused⟩ := view_cached hacc
    have huntouch := hcoherent.insert_like hacc acc.untouch rfl rfl rfl rfl rfl
    refine ⟨_, rfl, huntouch.congr rfl rfl rfl rfl, hframe _ _, s.view, .refl,
      (view_insert s a acc.untouch).trans ?_⟩
    rw [show infoOf s.db a acc.untouch = infoOf s.db a acc from rfl, ← haccount,
      show slotsOf s.db a acc.untouch = s.view.store.slots a from hslots.symm,
      show acc.untouch.storageUsed = s.view.used a from hused.symm, update_eq_self,
      update_eq_self, update_eq_self]
    rfl

/-- Taking back the newest entry of the log. -/
theorem undoChange_step (P : Patches) (h : Good s) {change : Change} {rest : List Change}
    (hlog : s.changeLog = change :: rest) {floor : Nat} (hfloor : floor ≤ rest.length) :
    ∃ s₁, undoChange P change s = .ok () s₁ ∧ Good { s₁ with changeLog := s₁.changeLog.tail } ∧
      s₁.changeLog = s.changeLog ∧ Frame s s₁ ∧
      Steps P floor s.view ({ s₁ with changeLog := s₁.changeLog.tail } : State).view := by
  have huse : (s.view.accounts change.address).isSome := by
    have hvalid := h.accounts.undoable
    rw [show s.view.log = change :: rest from hlog] at hvalid
    exact hvalid.1.1
  obtain ⟨acc, hfind⟩ : ∃ acc, s.find change.address = some acc := by
    simpa [view, Option.isSome_iff_exists] using huse
  obtain ⟨s₁, hrun, hreloads, hcached⟩ := account_run h.coherent change.address
  rw [hfind] at hcached hrun
  obtain ⟨s₂, hundo, hcoherent, hframe, w, hforgets, hview⟩ :=
    undoEntry_run P (h.reloads hreloads) hcached
  have hall : Forgets s.view w := hreloads.forgets.trans hforgets
  have hlogw : w.log = change :: rest := hall.rest.log.trans hlog
  have hlog₂ : s₂.changeLog = s.changeLog := by
    have : s₂.view.log = w.log := by rw [hview]; rfl
    exact this.trans hall.rest.log
  have hpop : ({ s₂ with changeLog := s₂.changeLog.tail } : State).view =
      { w.undo P change with log := rest } := by
    have htail : s₂.changeLog.tail = rest := by rw [hlog₂, hlog, List.tail_cons]
    rw [htail, ← hview]
    rfl
  have hstep : Step P floor w { w.undo P change with log := rest } :=
    .pop hlogw hfloor (by rw [hall.isSome_eq h.accounts]; exact huse)
  refine ⟨s₂, ?_, ⟨hcoherent.relog _, ?_⟩, hlog₂, hreloads.same.frame.trans hframe, ?_⟩
  · rw [undoChange, EStateM.bind_apply, hrun]
    exact hundo
  · rw [hpop]
    exact (hall.accounts_eq h.accounts).1.step hstep
  · rw [hpop]
    exact hall.steps.trans (.single hstep)

/-- The loop of `rollback` takes back as many entries as it is told. -/
theorem undoChanges_run (P : Patches) (h : Good s) {count : Nat}
    (hcount : count ≤ s.changeLog.length) :
    ∃ s', undoChanges P count s = .ok () s' ∧ Good s' ∧ Frame s s' ∧
      s'.changeLog.length = s.changeLog.length - count ∧
      Steps P (s.changeLog.length - count) s.view s'.view := by
  induction count generalizing s with
  | zero => exact ⟨s, rfl, h, .refl s, rfl, .refl⟩
  | succ count ih =>
    cases hlog : s.changeLog with
    | nil => simp [hlog] at hcount
    | cons change rest =>
      rw [hlog, List.length_cons] at hcount
      obtain ⟨s₁, hundo, hgood, hsame, hframe, hsteps⟩ := undoChange_step P h hlog
        (Nat.sub_le rest.length count)
      have htail : s₁.changeLog.tail = rest := by rw [hsame, hlog, List.tail_cons]
      obtain ⟨s', hrun, hgood', hframe', hlength, hsteps'⟩ := ih hgood (by
        simp only [htail]
        omega)
      simp only [htail] at hlength hsteps hsteps'
      refine ⟨s', ?_, hgood', ?_, ?_, ?_⟩
      · unfold undoChanges
        simp only [EStateM.bind_apply, EStateM.get_apply, hlog, hundo]
        exact hrun
      · exact hframe.trans ⟨hframe'.db, hframe'.versions, hframe'.lock⟩
      · rw [hlength, List.length_cons]
        omega
      · rw [List.length_cons, Nat.add_sub_add_right]
        exact hsteps.trans hsteps'

theorem Good.note (h : Good s) (event : Event) : Good { s with history := event :: s.history } :=
  ⟨h.coherent.congr rfl rfl rfl rfl, h.accounts.congr rfl rfl rfl rfl⟩

theorem view_resetStorageChanges (s : State) :
    ({ s with storageUsage := ∅, currentStorageUsed := 0 } : State).view =
      { s.view with store := s.view.store.resetCounters } := rfl

theorem dropCounters_run (P : Patches) (h : Good s) {floor : Nat} :
    ∃ s', dropCounters P s = .ok () s' ∧ Good s' ∧ Frame s s' ∧ s'.changeLog = s.changeLog ∧
      Steps P floor s.view s'.view := by
  by_cases hpatch : P.contractStorage = false
  · have hstep : Step P floor s.view { s.view with store := s.view.store.resetCounters } :=
      .reset hpatch
    refine ⟨{ s with storageUsage := ∅, currentStorageUsed := 0 }, congrFun (if_pos hpatch) s,
      ⟨h.coherent.congr rfl rfl rfl rfl, ?_⟩, ⟨⟨_, rfl⟩, ⟨rfl, rfl⟩, rfl⟩, rfl, .single hstep⟩
    exact h.accounts.step hstep
  · exact ⟨s, congrFun (if_neg hpatch) s, h, .refl s, rfl, .refl⟩

/-- `rollback` gets back to any savepoint of a good state. -/
theorem rollback_run (P : Patches) (h : Good s) {savepoint : Nat}
    (hsavepoint : savepoint ≤ s.changeLog.length) :
    ∃ s', rollback P savepoint s = .ok () s' ∧ Good s' ∧ Frame s s' ∧
      s'.changeLog.length = savepoint ∧ Steps P savepoint s.view s'.view := by
  obtain ⟨s₁, hundo, hgood₁, hframe₁, hlength₁, hsteps₁⟩ := undoChanges_run P h
    (Nat.sub_le s.changeLog.length savepoint)
  rw [Nat.sub_sub_self hsavepoint] at hlength₁ hsteps₁
  obtain ⟨s₂, hreset, hgood₂, hframe₂, hlog₂, hsteps₂⟩ := dropCounters_run P hgood₁
  have hlength₂ : s₂.changeLog.length = savepoint := by rw [hlog₂, hlength₁]
  refine ⟨_, ?_, hgood₂.note (.rollback savepoint), ?_, hlength₂, ?_⟩
  · unfold rollback
    simp only [EStateM.bind_apply, EStateM.get_apply, hsavepoint, decide_true, assert_true, hundo,
      hreset]
    rfl
  · exact hframe₁.trans (hframe₂.trans ⟨⟨_, rfl⟩, ⟨rfl, rfl⟩, rfl⟩)
  · refine hsteps₁.trans (hsteps₂.trans (.single ?_))
    have hnote : Step P savepoint s₂.view (s₂.view.note (.rollback s₂.view.log.length)) :=
      .rolledBack hlength₂.ge
    rwa [show s₂.view.log.length = savepoint from hlength₂] at hnote

end Skaled.State
