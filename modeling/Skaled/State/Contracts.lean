import Skaled.State.Mutators

/-! # Code, storage and rollback as steps

`setCode` and `setStorage` on an account in use, `clearStorage`, and
`rollback`, which takes the newest entries of the log back one by one.
-/

namespace Skaled.State

open Function (update update_eq_self)

variable [Keccak] {P : Patches} {s s' : State} {a : Address}

/-! ## Reading code and storage -/

/-- Replacing a cached account by one with the same storage and mark. -/
theorem view_replace {acc : Account} (hacc : s.cache.lookup a = some acc) (acc' : Account)
    (hdirty : acc'.isUnchanged = acc.isUnchanged)
    (hoverlay : acc'.storageOverlay = acc.storageOverlay)
    (hused : acc'.storageUsed = acc.storageUsed) :
    ({ s with cache := s.cache.insert a acc' } : State).view =
      { s.view with accounts := update s.view.accounts a (some (infoOf s.db a acc')) } := by
  obtain ⟨_, hdirtyView, hslotsView, husedView⟩ := view_cached hacc
  have hslots : slotsOf s.db a acc' = slotsOf s.db a acc := by
    unfold slotsOf
    rw [hoverlay]
  have hmark : acc'.isDirty = acc.isDirty := by
    unfold Account.isDirty
    rw [hdirty]
  rw [view_insert, hmark, hslots, hused, ← hdirtyView, ← hslotsView, ← husedView, update_eq_self,
    update_eq_self, update_eq_self]

/-- Replacing a cached account by one that reads the same. -/
theorem view_same {acc acc' : Account} (hacc : s.cache.lookup a = some acc)
    (hinfo : infoOf s.db a acc' = infoOf s.db a acc) (hdirty : acc'.isUnchanged = acc.isUnchanged)
    (hoverlay : acc'.storageOverlay = acc.storageOverlay)
    (hused : acc'.storageUsed = acc.storageUsed) :
    ({ s with cache := s.cache.insert a acc' } : State).view = s.view := by
  rw [view_replace hacc acc' hdirty hoverlay hused, hinfo, ← (view_cached hacc).1, update_eq_self]

theorem replace_reloads {acc' : Account}
    (hcoherent : Coherent { s with cache := s.cache.insert a acc' })
    (hview : ({ s with cache := s.cache.insert a acc' } : State).view = s.view) :
    Reloads s { s with cache := s.cache.insert a acc' } :=
  ⟨⟨rfl, rfl, ⟨rfl, rfl⟩, rfl, rfl⟩, hcoherent, by rw [hview]; exact .refl⟩

variable {acc : Account}

/-- Noting a slot of the database in the cache of originals is invisible. -/
theorem originalSlot_run (h : Coherent s) (hacc : s.cache.lookup a = some acc) (key : U256) :
    ∃ s', originalSlot a acc key s = .ok (s.db.lookupStorage a key) s' ∧ Reloads s s' ∧
      s'.view = s.view ∧ (s'.cache.lookup a).isSome := by
  unfold originalSlot
  cases horiginal : acc.storageOriginal.lookup key with
  | some value =>
    rw [← h.originals a acc key value hacc horiginal]
    exact ⟨s, rfl, .refl h, rfl, by simp [hacc]⟩
  | none =>
  generalize hacc' : acc.setStorageCache key (s.db.lookupStorage a key) = acc'
  have hcoherent : Coherent { s with cache := s.cache.insert a acc' } := by
    subst hacc'
    refine h.insert (h.present hacc) ?_ ⟨(h.codes a acc hacc).code, (h.codes a acc hacc).none⟩
    intro key' value' hvalue'
    rcases AList.lookup_insert_eq_some hvalue' with ⟨rfl, rfl⟩ | hold
    · rfl
    · exact h.originals a acc key' value' hacc hold
  have hview : ({ s with cache := s.cache.insert a acc' } : State).view = s.view := by
    subst hacc'
    exact view_same hacc rfl rfl rfl rfl
  refine ⟨{ s with cache := s.cache.insert a acc' }, ?_, replace_reloads hcoherent hview, hview,
    by simp⟩
  simp only [EStateM.bind_apply, requireCurrentVersion_run h.version, EStateM.get_apply, hacc']
  rfl

/-- `storage` returns the visible slot and may cache it. -/
theorem storage_run (h : Coherent s) (a : Address) (key : U256) :
    ∃ s', storage a key s = .ok (s.view.slot a key) s' ∧ Reloads s s' ∧
      s'.view.store.slots a = s.view.store.slots a ∧ s'.view.accounts a = s.view.accounts a ∧
      ((s.find a).isSome → (s'.cache.lookup a).isSome) := by
  unfold storage
  obtain ⟨s₁, hrun, hreloads, hcached⟩ := account_bind h a _
  rw [hrun]
  obtain ⟨hslots, haccount⟩ := view_at_of_reloads hreloads hcached
  cases hfind : s.find a with
  | none =>
    have hnone : s.view.slot a key = 0 := by simp [World.slot, view, hfind]
    rw [hnone]
    exact ⟨s₁, rfl, hreloads, hslots, haccount, by simp⟩
  | some acc =>
    rw [hfind] at hcached
    have hvalue : s.view.slot a key = slotsOf s₁.db a acc key := by
      rw [← (view_cached hcached).2.2.1, hslots]
      simp [World.slot, view, hfind]
    rw [hvalue]
    cases hoverlay : acc.storageOverlay.lookup key with
    | some value =>
      refine ⟨s₁, ?_, hreloads, hslots, haccount, by simp [hcached]⟩
      simp only [hoverlay, slotsOf, Option.getD_some]
      rfl
    | none =>
      simp only [slotsOf, hoverlay, Option.getD_none]
      obtain ⟨s₂, hrun₂, hreloads₂, hview, hsome⟩ :=
        originalSlot_run hreloads.coherent hcached key
      exact ⟨s₂, hrun₂, hreloads.trans hreloads₂, by rw [hview, hslots],
        by rw [hview, haccount], fun _ => hsome⟩

/-- `code` returns the visible code and may cache it. -/
theorem code_run (h : Good s) (a : Address) :
    ∃ s', code a s = .ok (s.view.code a) s' ∧ Reloads s s' ∧
      (∀ acc, s.find a = some acc → acc.codeHash = emptySHA3 → s'.cache.lookup a = some acc) := by
  unfold code
  obtain ⟨s₁, hrun, hreloads, hcached⟩ := account_bind h.coherent a _
  rw [hrun]
  cases hfind : s.find a with
  | none =>
    have hnone : s.view.code a = [] := by simp [World.code, view, hfind]
    rw [hnone]
    exact ⟨s₁, rfl, hreloads, fun acc heq => by cases heq⟩
  | some acc =>
    rw [hfind] at hcached
    have hvalue : s.view.code a = (infoOf s₁.db a acc).code := by
      rw [hreloads.same.db]
      simp [World.code, view, hfind]
    have hhashed : (infoOf s₁.db a acc).Hashed :=
      (h.reloads hreloads).accounts.hashed a _ (view_cached hcached).1
    rw [hvalue]
    by_cases hhash : acc.codeHash = emptySHA3
    · refine ⟨s₁, ?_, hreloads, fun acc' heq _ => Option.some.inj heq ▸ hcached⟩
      simp only [if_pos hhash, infoOf]
      rfl
    · by_cases hempty : acc.codeCache = []
      · -- the code is loaded, and its hash is the one of the account
        have hcode : (infoOf s₁.db a acc).code = s₁.db.lookupAuxiliary a := by
          simp [infoOf, hhash, hempty]
        have hsha : sha3 (s₁.db.lookupAuxiliary a) = acc.codeHash := hcode ▸ hhashed.1
        obtain ⟨acc', hacc'⟩ : ∃ acc', acc' = acc.noteCode (s₁.db.lookupAuxiliary a) := ⟨_, rfl⟩
        have hinfo : infoOf s₁.db a acc' = infoOf s₁.db a acc := by
          rw [hacc']
          by_cases haux : s₁.db.lookupAuxiliary a = [] <;>
            simp [infoOf, Account.noteCode, hhash, hempty, haux]
        have hcoherent : Coherent { s₁ with cache := s₁.cache.insert a acc' } := by
          rw [hacc']
          refine hreloads.coherent.insert (hreloads.coherent.present hcached)
            (fun key value => hreloads.coherent.originals a acc key value hcached) ?_
          refine ⟨fun _ => ?_, fun _ heq => absurd heq hhash⟩
          have hcached := (hreloads.coherent.codes a acc hcached).code hhash
          split
          next hnew =>
            rw [if_pos (show acc.hasNewCode = true from hnew)] at hcached
            exact absurd hempty hcached
          next => exact .inr rfl
        have hview : ({ s₁ with cache := s₁.cache.insert a acc' } : State).view = s₁.view := by
          refine view_same hcached hinfo ?_ ?_ ?_ <;> rw [hacc'] <;> rfl
        refine ⟨{ s₁ with cache := s₁.cache.insert a acc' }, ?_,
          hreloads.trans (replace_reloads hcoherent hview), fun acc' heq hhash' => ?_⟩
        · simp only [if_neg hhash, hempty, ne_eq, not_true_eq_false, if_false,
            EStateM.bind_apply, requireCurrentVersion_run hreloads.coherent.version,
            EStateM.get_apply, hsha, decide_true, assert_true, hcode, hacc']
          rfl
        · exact absurd (Option.some.inj heq ▸ hhash') hhash
      · refine ⟨s₁, ?_, hreloads, fun acc' heq hhash' => ?_⟩
        · simp only [if_neg hhash, ne_eq, hempty, not_false_eq_true, if_true, infoOf]
          rfl
        · exact absurd (Option.some.inj heq ▸ hhash') hhash

/-! ## Setting code -/

theorem infoOf_setCode (db : OverlayDB) (hfree : acc.codeHash = emptySHA3)
    (newCode : Bytes) (version : U256) :
    infoOf db a (acc.setCode newCode version) = (infoOf db a acc).setCode newCode := by
  unfold Account.setCode AccountInfo.setCode
  by_cases hsha : sha3 newCode = emptySHA3
  · simp [infoOf, hfree, hsha]
  · have hne : newCode ≠ [] := by
      rintro rfl
      exact hsha rfl
    simp [infoOf, hfree, hsha, hne]

omit [Keccak] in
theorem assert_false (s : State) : assert false s = .error .assertionFailed s := rfl

theorem addressHasCode_run (h : Coherent s) (hfind : s.find a = some acc) :
    ∃ s₁, addressHasCode a s = .ok (decide (acc.codeHash ≠ emptySHA3)) s₁ ∧ Reloads s s₁ ∧
      s₁.cache.lookup a = s.find a := by
  unfold addressHasCode
  obtain ⟨s₁, hrun, hreloads, hcached⟩ := account_bind h a _
  refine ⟨s₁, ?_, hreloads, hcached⟩
  rw [hrun, hfind]
  rfl

/-- `setCode` at an account in use that has no code. -/
theorem setCode_run (h : Good s) (hfind : s.find a = some acc) (hfree : acc.codeHash = emptySHA3)
    (newCode : Bytes) (version : U256) :
    ∃ s' w old, setCode a newCode version s = .ok () s' ∧ Coherent s' ∧ Frame s s' ∧
      Forgets s.view w ∧ s'.view = w.setCode a (infoOf s.db a acc) newCode old ∧
      w.accounts a = some (infoOf s.db a acc) := by
  obtain ⟨s₁, hhas, hreloads, hcached⟩ := addressHasCode_run h.coherent hfind
  have hgood := h.reloads hreloads
  obtain ⟨s₂, hcode, hreloads₂, hcached₂⟩ := code_run hgood a
  have hcached₂ := hcached₂ acc ((find_eq_of_reloads hreloads hcached).trans hfind) hfree
  have hboth := hreloads.trans hreloads₂
  obtain ⟨acc', hacc'⟩ : ∃ acc', acc' = acc.setCode newCode version := ⟨_, rfl⟩
  have hkeep : acc'.isUnchanged = acc.isUnchanged ∧ acc'.storageOverlay = acc.storageOverlay ∧
      acc'.storageUsed = acc.storageUsed ∧ acc'.storageOriginal = acc.storageOriginal := by
    rw [hacc']
    unfold Account.setCode
    split <;> exact ⟨rfl, rfl, rfl, rfl⟩
  have hcoherent : Coherent { s₂ with cache := s₂.cache.insert a acc' } := by
    refine hreloads₂.coherent.insert (hreloads₂.coherent.present hcached₂) ?_ ?_
    · rw [hkeep.2.2.2]
      exact fun key value => hreloads₂.coherent.originals a acc key value hcached₂
    · rw [hacc']
      unfold Account.setCode
      split
      next hsha =>
        refine ⟨fun _ => ?_, fun _ heq => absurd (heq.trans hfree.symm) hsha⟩
        simp only [if_true]
        rintro rfl
        exact hsha hfree.symm
      next => exact ⟨fun hne => absurd hfree hne, (hreloads₂.coherent.codes a acc hcached₂).none⟩
  have hinfo : infoOf s₂.db a acc' = (infoOf s.db a acc).setCode newCode := by
    rw [hacc', infoOf_setCode _ hfree, hboth.same.db]
  have hview := view_replace hcached₂ acc' hkeep.1 hkeep.2.1 hkeep.2.2.1
  rw [hinfo] at hview
  refine ⟨{ s₂ with
      cache := s₂.cache.insert a acc'
      changeLog := .code a (s₁.view.code a) :: s₂.changeLog }, s₂.view, s₁.view.code a, ?_,
    hcoherent.relog _, hboth.same.frame.trans ⟨⟨_, rfl⟩, ⟨rfl, rfl⟩, rfl⟩, hboth.forgets,
    congrArg (World.push · (.code a (s₁.view.code a))) hview, ?_⟩
  · unfold setCode
    simp only [EStateM.bind_apply, hhas, hfree, ne_eq, not_true_eq_false, decide_false,
      Bool.not_false, assert_true, hcode]
    rw [hacc', ← cached_eq hcached₂]
    rfl
  · rw [(view_cached hcached₂).1, hboth.same.db]

theorem setCode_runs (h : Good s) (newCode : Bytes) (version : U256)
    (huse : (s.find a).isSome) (hdirty : s.view.dirty a = true) :
    Runs P (setCode a newCode version) s := by
  obtain ⟨acc, hfind⟩ := Option.isSome_iff_exists.mp huse
  unfold Runs
  by_cases hfree : acc.codeHash = emptySHA3
  · obtain ⟨s', w, old, hrun, hcoherent, hframe, hforgets, hview, haccount⟩ :=
      setCode_run h hfind hfree newCode version
    rw [hrun, EStateM.Result.state_ok]
    refine .of_view h hcoherent hframe hforgets (.single ?_)
    rw [hview]
    exact .code newCode old haccount hfree (by rw [hforgets.rest.dirty, hdirty])
  · obtain ⟨s₁, hhas, hreloads, _⟩ := addressHasCode_run h.coherent hfind
    unfold setCode
    simp only [EStateM.bind_apply, hhas, ne_eq, hfree, not_false_eq_true, decide_true,
      Bool.not_true, assert_false]
    exact hreloads.moves h

/-! ## Writing storage -/

omit [Keccak] in
theorem slotsOf_setStorage (db : OverlayDB) (acc : Account) (key value : U256) :
    slotsOf db a (acc.setStorage key value) = update (slotsOf db a acc) key value := by
  funext k
  by_cases hk : k = key
  · subst hk
    simp [slotsOf, Account.setStorage]
  · simp [slotsOf, Account.setStorage, hk]

theorem view_setStorage (hacc : s.cache.lookup a = some acc) (key value : U256) :
    ({ s with cache := s.cache.insert a (acc.setStorage key value) } : State).view =
      { s.view.put a (infoOf s.db a acc) with store := s.view.store.setSlot a key value } := by
  obtain ⟨_, _, hslots, hused⟩ := view_cached hacc
  rw [view_insert, slotsOf_setStorage, ← hslots,
    show (acc.setStorage key value).storageUsed = s.view.used a from hused.symm,
    update_eq_self]
  rfl

def counted (s : State) (a : Address) (count : Int) : State :=
  { s with
    storageUsage := s.storageUsage.insert a (s.usage a + count * 32)
    currentStorageUsed := s.currentStorageUsed + count * 32 }

theorem view_counted (s : State) (a : Address) (count : Int) :
    (s.counted a count).view = { s.view with store := s.view.store.count a count } := by
  have husage : (s.counted a count).usage =
      update s.usage a (s.usage a + count * 32) := by
    funext b
    by_cases hb : b = a
    · subst hb
      simp [usage, counted]
    · simp [usage, counted, hb]
  unfold view
  rw [husage]
  rfl

theorem Coherent.counted (h : Coherent s) (a : Address) (count : Int) :
    Coherent (s.counted a count) := h.congr rfl rfl rfl rfl

/-- The state after a slot of a cached account was written and counted. -/
theorem write_cached (h : Coherent s) (hacc : s.cache.lookup a = some acc)
    (key value : U256) (count : Int) :
    ∃ s', s' = counted { s with cache := s.cache.insert a (acc.setStorage key value) } a count ∧
      Coherent s' ∧ Frame s s' ∧
      s'.view = { s.view.put a (infoOf s.db a acc) with
        store := (s.view.store.setSlot a key value).count a count } := by
  refine ⟨_, rfl,
    (h.insert_like hacc (acc.setStorage key value) rfl rfl rfl rfl rfl).counted a count,
    ⟨⟨_, rfl⟩, ⟨rfl, rfl⟩, rfl⟩, ?_⟩
  rw [view_counted, view_setStorage hacc]

/-- `setStorage` at an account in use writes, logs and counts, and then
compares the counters with the limit. -/
theorem setStorage_run (h : Good s) (hfind : s.find a = some acc) (key value : U256) :
    ∃ s' w, setStorage a key value s =
        (if s'.contractStorageLimit < s'.totalStorageUsed + s'.currentStorageUsed then
          .error .storageOverflow s' else .ok () s') ∧
      Coherent s' ∧ Frame s s' ∧ Forgets s.view w ∧
      s'.view = { (w.put a (infoOf s.db a acc)).push (.storage a key (w.store.slots a key)) with
        store := w.store.write a key value } ∧
      w.accounts a = some (infoOf s.db a acc) := by
  obtain ⟨s₁, hstorage, hreloads, hslots, hsame, hsome⟩ := storage_run h.coherent a key
  have hvalue : s.view.slot a key = s₁.view.store.slots a key := by
    rw [hslots]
    simp [World.slot, view, hfind]
  rw [hvalue] at hstorage
  obtain ⟨acc₁, hcached⟩ := Option.isSome_iff_exists.mp (hsome (by simp [hfind]))
  have hinfo : infoOf s₁.db a acc₁ = infoOf s.db a acc := by
    have haccount := (view_cached hcached).1
    rw [hsame] at haccount
    simpa [view, hfind] using haccount.symm
  have hlogged : Coherent { s₁ with
      changeLog := .storage a key (s₁.view.store.slots a key) :: s₁.changeLog } :=
    hreloads.coherent.relog _
  obtain ⟨s', hs', hcoherent, hframe, hview⟩ := write_cached hlogged hcached key value
    (slotCount (s₁.view.store.slots a key) value)
  refine ⟨s', s₁.view, ?_, hcoherent,
    hreloads.same.frame.trans ⟨hframe.db, hframe.versions, hframe.lock⟩, hreloads.forgets, ?_, ?_⟩
  · unfold setStorage
    rw [EStateM.bind_apply, hstorage]
    change checkStorageLimit
      (counted { s₁ with
        cache := s₁.cache.insert a ((s₁.cached a).setStorage key value)
        changeLog := .storage a key (s₁.view.store.slots a key) :: s₁.changeLog } a
        (slotCount (s₁.view.store.slots a key) value)) = _
    rw [cached_eq hcached, ← hs', checkStorageLimit, EStateM.get_bind]
    split <;> rfl
  · rw [hview, ← hinfo]
    rfl
  · rw [(view_cached hcached).1, hinfo]

theorem setStorage_runs (h : Good s) (key value : U256)
    (huse : (s.find a).isSome) : Runs P (setStorage a key value) s := by
  obtain ⟨acc, hfind⟩ := Option.isSome_iff_exists.mp huse
  obtain ⟨s', w, hrun, hcoherent, hframe, hforgets, hview, haccount⟩ :=
    setStorage_run h hfind key value
  have hmoves : Moves P s s' := by
    refine .of_view h hcoherent hframe hforgets (.single ?_)
    rw [hview]
    exact .storage key value haccount
  unfold Runs
  rw [hrun]
  split <;> exact hmoves

end Skaled.State
