import Skaled.State.CommitLoop
import Skaled.State.Closing

/-! # Committing

After a commit every address reads as it did before, except that accounts
which died are gone. The backend accepts the batch, and the overlay starts out
flushed: nothing is left in it from a commit that failed half way.

A transaction may end by destroying accounts, which the change log does not
know about. So a commit asks for less than the invariant of a running
transaction; it always ends in a state that satisfies the whole invariant.
-/

namespace Skaled

theorem OverlayDB.Flushed.next {db : OverlayDB} (h : db.Flushed) (a : Address) :
    db.nextRecord a = db.lookup a ∧ db.nextAuxiliary a = db.lookupAuxiliary a := by
  simp [OverlayDB.nextRecord, OverlayDB.nextAuxiliary, OverlayDB.lookup,
    OverlayDB.lookupAuxiliary, h.batch, h.cache, h.auxiliaryCache]

namespace State

section

variable [Keccak] {P : Patches} {a : Address} {s s₁ s' : State}

/-- The end of `commit`: flush the overlay and start over with empty caches. -/
def flush (P : Patches) (killed : List Address) (s : State) : State :=
  { s with
    db := (s.db.updateStorageUsage s.totalStorageUsed).commit P
    storedVersion := s.storedVersion + 1
    currentVersion := s.storedVersion + 1
    history := .commit killed :: s.history
    changeLog := []
    cache := ∅
    unchangedCacheEntries := [] }

theorem commit_removeEmptyAccounts (P : Patches) (s : State) :
    commit P .removeEmptyAccounts s = commit P .keepEmptyAccounts s.removeEmptyAccounts := rfl

/-- `commit` gets through when every living changed account can be written. -/
theorem commit_run (hlock : s.writeLock = true) (hversion : s.checkVersion = true)
    (hflushed : s.db.Flushed) (hwritable : ∀ a acc, s.cache.lookup a = some acc → Writable acc) :
    ∃ s₁, CommitsAll P s.cache.entries s s₁ ∧
      commit P .keepEmptyAccounts s = .ok () (flush P s.deadAccounts s₁) := by
  obtain ⟨s₁, hrun, hall⟩ := commitAccounts_run (P := P) s.cache.nodupKeys hversion (by
    intro e he
    have hacc := AList.lookup_eq_some_iff_mem.mpr he
    exact ⟨hwritable e.1 e.2 hacc, hacc, by rw [hflushed.cache]; rfl,
      by rw [hflushed.auxiliaryCache]; rfl⟩)
  refine ⟨s₁, hall, ?_⟩
  have hcommit : commit P .keepEmptyAccounts s = (do
      s.cache.entries.forM fun entry => commitAccount P entry.1 entry.2
      modify (flush P s.deadAccounts) : M Unit) s := by
    unfold commit
    simp only [EStateM.bind_apply, EStateM.get_apply, reduceCtorEq, if_false, hlock, hversion,
      Bool.true_eq_false]
    rfl
  rw [hcommit, EStateM.bind_apply, hrun]
  rfl

/-! ## What is saved afterwards -/

omit [Keccak] in
theorem not_mem_entries (hnone : s.cache.lookup a = none) : ∀ e ∈ s.cache.entries, e.1 ≠ a := by
  rintro ⟨b, acc⟩ he rfl
  rw [AList.lookup_eq_some_iff_mem.mpr he] at hnone
  cases hnone

section

variable (hall : CommitsAll P s.cache.entries s s₁) (hflushed : s.db.Flushed)
include hall

theorem CommitsAll.of_none (hnone : s.cache.lookup a = none) : s₁.slice a = s.slice a :=
  hall.others a (not_mem_entries hnone)

theorem CommitsAll.of_some {acc : Account} (hacc : s.cache.lookup a = some acc) :
    CommitsAt P a acc s s₁ :=
  hall.own ⟨a, acc⟩ (AList.lookup_eq_some_iff_mem.mp hacc)

include hflushed

theorem CommitsAll.lookup_none (hnone : s.cache.lookup a = none) (killed : List Address) :
    (flush P killed s₁).db.lookup a = s.db.lookup a ∧
      (flush P killed s₁).db.lookupAuxiliary a = s.db.lookupAuxiliary a ∧
      ∀ key, (flush P killed s₁).db.lookupStorage a key = s.db.lookupStorage a key := by
  have hslice := hall.of_none hnone
  have hslots : ∀ key, s₁.db.storageCache.lookup (a, key) = s.db.storageCache.lookup (a, key) :=
    congrFun (congrArg Slice.slots hslice)
  refine ⟨?_, ?_, fun key => ?_⟩
  · rw [← (hflushed.next a).1, ← nextRecord_of_slice hslice hall.writes.disk]
    exact OverlayDB.lookup_commit _ _ _
  · rw [← (hflushed.next a).2, ← nextAuxiliary_of_slice hslice hall.writes.disk]
    exact OverlayDB.lookupAuxiliary_commit _ _ _
  · refine (OverlayDB.lookupStorage_commit _ _ _ _).trans ?_
    change s₁.db.lookupStorage a key = _
    rw [OverlayDB.lookupStorage, hslots, hall.writes.disk, OverlayDB.lookupStorage]

theorem CommitsAll.lookup_some {acc : Account} (hacc : s.cache.lookup a = some acc)
    (killed : List Address) :
    (flush P killed s₁).db.lookup a = (if acc.isDirty = false then s.db.lookup a
        else if acc.isAlive then acc.encode.getD [] else []) ∧
      (flush P killed s₁).db.lookupAuxiliary a =
        (if acc.isDirty = false then s.db.lookupAuxiliary a
        else if acc.isAlive then
          (if acc.hasNewCode then acc.codeCache else s.db.lookupAuxiliary a) else []) ∧
      ∀ key, (flush P killed s₁).db.lookupStorage a key =
        if key ∈ visitedKeys P s a acc then 0
        else if acc.isDirty = true ∧ acc.isAlive = true then slotsOf s.db a acc key
        else s.db.lookupStorage a key := by
  have hown := hall.of_some hacc
  obtain ⟨hnext, hnextCode⟩ := hflushed.next a
  refine ⟨?_, ?_, fun key => ?_⟩
  · refine (OverlayDB.lookup_commit _ _ _).trans (hown.record.trans ?_)
    rw [hnext]
  · refine (OverlayDB.lookupAuxiliary_commit _ _ _).trans (hown.auxiliary.trans ?_)
    rw [hnextCode]
  · refine (OverlayDB.lookupStorage_commit _ _ _ _).trans ?_
    change s₁.db.lookupStorage a key = _
    rw [OverlayDB.lookupStorage, hown.slots, hall.writes.disk]
    by_cases hmem : key ∈ visitedKeys P s a acc
    · rw [if_pos hmem, if_pos hmem]
    · rw [if_neg hmem, if_neg hmem]
      by_cases hsaved : acc.isDirty = true ∧ acc.isAlive = true
      · rw [if_pos hsaved, if_pos hsaved, slotsOf]
        cases acc.storageOverlay.lookup key <;> rfl
      · rw [if_neg hsaved, if_neg hsaved, OverlayDB.lookupStorage]

end

/-! ## Accounts -/

omit [Keccak] in
theorem stored_isAlive {db : OverlayDB} {acc : Account} (h : stored db a = some acc) :
    acc.isAlive = true := by
  obtain ⟨_, _, _, _, _, rfl⟩ := stored_eq_loaded h
  rfl

theorem saved_isAlive (s : State) (a : Address) :
    (s.view.saved.accounts a).filter (·.isAlive) = s.view.saved.accounts a := by
  simp only [view]
  cases hstored : stored s.db a with
  | none => rfl
  | some acc => simp [infoOf, stored_isAlive hstored]

theorem view_of_uncached (hnone : s.cache.lookup a = none) :
    s.view.accounts a = s.view.saved.accounts a ∧ s.view.dirty a = false := by
  simp [view, find, hnone]

/-- What is saved for an address depends on its record and its code only. -/
theorem saved_congr (hrecord : s'.db.lookup a = s.db.lookup a)
    (hcode : s'.db.lookupAuxiliary a = s.db.lookupAuxiliary a) :
    s'.view.saved.accounts a = s.view.saved.accounts a := by
  have hinfo : infoOf s'.db a = infoOf s.db a := by
    funext acc
    simp only [infoOf, hcode]
  simp only [view, stored, hrecord, hinfo]

/-- The code that can be read of a coherent account is the code that is saved
for it. -/
theorem infoOf_saved (h : Coherent s) {acc : Account} (hacc : s.cache.lookup a = some acc)
    (halive : acc.isAlive = true) {db : OverlayDB} (hcode : db.lookupAuxiliary a =
      if acc.hasNewCode then acc.codeCache else s.db.lookupAuxiliary a) :
    infoOf db a (.loaded acc.nonce acc.balance acc.codeHash 0 acc.storageUsed) =
      infoOf s.db a acc := by
  simp only [infoOf, Account.loaded, halive, hcode, AccountInfo.mk.injEq, true_and, ne_eq,
    not_true_eq_false, if_false]
  split
  · rfl
  next hhash =>
    have hcodes := (h.codes a acc hacc).code hhash
    cases hnew : acc.hasNewCode with
    | true =>
      simp only [hnew, if_true] at hcodes ⊢
      rw [if_pos hcodes]
    | false =>
      simp only [hnew, Bool.false_eq_true, if_false] at hcodes ⊢
      split
      next hne => exact (hcodes.resolve_left hne).symm
      next => rfl

/-- The account that is saved for an address after a commit. -/
theorem flush_stored (hflushed : s.db.Flushed)
    (hwritable : ∀ a acc, s.cache.lookup a = some acc → Writable acc)
    (hall : CommitsAll P s.cache.entries s s₁) (killed : List Address) (a : Address) :
    stored (flush P killed s₁).db a =
      match s.cache.lookup a with
      | some acc =>
        if acc.isDirty = false then stored s.db a
        else if acc.isAlive then
          some (.loaded acc.nonce acc.balance acc.codeHash 0 acc.storageUsed)
        else none
      | none => stored s.db a := by
  cases hacc : s.cache.lookup a with
  | none =>
    have hrecord := (hall.lookup_none hflushed hacc killed).1
    simp only [stored, hrecord]
  | some acc =>
    have hrecord := (hall.lookup_some hflushed hacc killed).1
    simp only [stored, hrecord]
    by_cases hdirty : acc.isDirty = false
    · simp only [if_pos hdirty]
    · by_cases halive : acc.isAlive = true
      · obtain ⟨record, hencode, hne, hdecode⟩ := (hwritable a acc hacc).encode
          (Bool.not_eq_false _ ▸ hdirty) halive
        simp only [if_neg hdirty, if_pos halive, hencode, Option.getD_some, if_neg hne, hdecode]
      · simp only [if_neg hdirty, if_neg halive, if_true]

section

variable (h : Committable s) (hflushed : s.db.Flushed)
  (hwritable : ∀ a acc, s.cache.lookup a = some acc → Writable acc)
  (hall : CommitsAll P s.cache.entries s s₁)

include h hflushed hwritable hall

theorem flush_accounts (killed : List Address) (a : Address) :
    (flush P killed s₁).view.saved.accounts a = (s.view.accounts a).filter (·.isAlive) := by
  have hstored := flush_stored hflushed hwritable hall killed a
  cases hacc : s.cache.lookup a with
  | none =>
    obtain ⟨hrecord, hcode, _⟩ := hall.lookup_none hflushed hacc killed
    rw [saved_congr hrecord hcode, (view_of_uncached hacc).1, saved_isAlive]
  | some acc =>
    obtain ⟨hrecord, hcode, _⟩ := hall.lookup_some hflushed hacc killed
    obtain ⟨haccount, hdirtyView, _, _⟩ := view_cached hacc
    simp only [hacc] at hstored
    by_cases hdirty : acc.isDirty = false
    · rw [if_pos hdirty] at hrecord hcode
      rw [saved_congr hrecord hcode, h.settled a (hdirtyView.trans hdirty), saved_isAlive]
    · rw [if_neg hdirty] at hcode hstored
      rw [haccount]
      by_cases halive : acc.isAlive = true
      · rw [if_pos halive] at hcode hstored
        have hinfo := infoOf_saved h.coherent hacc halive hcode
        have hfilter : (some (infoOf s.db a acc)).filter (·.isAlive) = some (infoOf s.db a acc) :=
          Option.filter_some_pos halive
        rw [hfilter, ← hinfo]
        simp only [view, hstored, Option.map_some]
      · rw [if_neg halive] at hstored
        have hfilter : (some (infoOf s.db a acc)).filter (·.isAlive) = none :=
          Option.filter_some_neg (Bool.eq_false_iff.mpr halive)
        rw [hfilter]
        simp only [view, hstored, Option.map_none]

theorem flush_decodes (killed : List Address) (a : Address)
    (hne : (flush P killed s₁).db.lookup a ≠ []) :
    (Account.decode ((flush P killed s₁).db.lookup a)).isSome := by
  cases hacc : s.cache.lookup a with
  | none =>
    rw [(hall.lookup_none hflushed hacc killed).1] at hne ⊢
    exact h.coherent.decodes a hne
  | some acc =>
    rw [(hall.lookup_some hflushed hacc killed).1] at hne ⊢
    by_cases hdirty : acc.isDirty = false
    · rw [if_pos hdirty] at hne ⊢
      exact h.coherent.decodes a hne
    · rw [if_neg hdirty] at hne ⊢
      by_cases halive : acc.isAlive = true
      · obtain ⟨record, hencode, _, hdecode⟩ := (hwritable a acc hacc).encode
          (Bool.not_eq_false _ ▸ hdirty) halive
        rw [if_pos halive, hencode, Option.getD_some, hdecode]
        rfl
      · rw [if_neg halive] at hne
        exact absurd rfl hne

theorem flush_sound (killed : List Address) : Sound (flush P killed s₁) := by
  refine sound_of_empty ⟨flush_decodes h hflushed hwritable hall killed, ?_⟩ ?_ rfl ?_ rfl
  · intro a acc hstored
    have haccounts := flush_accounts h hflushed hwritable hall killed a
    have hsaved : (flush P killed s₁).view.saved.accounts a =
        some (infoOf (flush P killed s₁).db a acc) := by
      simp only [view, hstored, Option.map_some]
    rw [hsaved] at haccounts
    obtain ⟨haccount, _⟩ := Option.filter_eq_some_iff.mp haccounts.symm
    exact h.hashed a _ haccount
  · simp [checkVersion, flush]
  · intro a ha
    have habsent : s₁.nonExistingAccountsCache = s.nonExistingAccountsCache := by
      rw [hall.writes]
    obtain ⟨hrecord, hnone⟩ := h.coherent.absent a (habsent ▸ ha)
    rw [(hall.lookup_none hflushed hnone killed).1, hrecord]

end

/-- The slots and the counter that are read after a commit at an address whose
account does not die. -/
theorem flush_store (hs : StoreOk s.view) (hflushed : s.db.Flushed)
    (hwritable : ∀ a acc, s.cache.lookup a = some acc → Writable acc)
    (hall : CommitsAll P s.cache.entries s s₁) (killed : List Address) {a : Address}
    (halive : ∀ acc, s.cache.lookup a = some acc → acc.isDirty = true → acc.isAlive = true) :
    (flush P killed s₁).view.store.slots a = s.view.store.slots a ∧
      (flush P killed s₁).view.used a = s.view.used a := by
  have hslots : (flush P killed s₁).view.store.slots a =
      (flush P killed s₁).db.lookupStorage a := rfl
  have hused : (flush P killed s₁).view.used a =
      ((stored (flush P killed s₁).db a).map (·.storageUsed)).getD 0 := rfl
  have hstored := flush_stored hflushed hwritable hall killed a
  rw [hslots, hused, hstored]
  cases hacc : s.cache.lookup a with
  | none =>
    have hlookup := (hall.lookup_none hflushed hacc killed).2.2
    refine ⟨?_, by simp [view, find, hacc]⟩
    rw [funext hlookup]
    simp [view, hacc]
  | some acc =>
    have hlookup := (hall.lookup_some hflushed hacc killed).2.2
    obtain ⟨_, hdirtyView, hslotsView, husedView⟩ := view_cached hacc
    by_cases hdirty : acc.isDirty = false
    · have hnot : ¬ ClearsAt P s a acc := by simp [ClearsAt, hdirty]
      obtain ⟨hsame, hsameUsed⟩ := hs.settled a (hdirtyView.trans hdirty)
      rw [hsame, hsameUsed]
      refine ⟨?_, by simp [hdirty, view]⟩
      funext key
      rw [hlookup, (visitedKeys_of_not hnot).1, hdirty]
      simp [view]
    · have hdirty' : acc.isDirty = true := Bool.not_eq_false _ ▸ hdirty
      have halive' := halive acc hacc hdirty'
      have hnot : ¬ ClearsAt P s a acc := by simp [ClearsAt, halive']
      rw [hslotsView, husedView]
      refine ⟨?_, by simp [hdirty, halive', Account.loaded]⟩
      funext key
      rw [hlookup, (visitedKeys_of_not hnot).1]
      simp [hdirty', halive']

/-- What a successful commit establishes. -/
structure Committed (P : Patches) (s s' : State) : Prop where
  sound : Sound s'
  flushed : s'.db.Flushed
  accounts : ∀ a, s'.view.accounts a = (s.view.accounts a).filter (·.isAlive)
  loop : ∃ s₁, CommitsAll P s.cache.entries s s₁ ∧ s' = flush P s.deadAccounts s₁

theorem commit_committed (P : Patches) (h : Committable s) (hlock : s.writeLock = true)
    (hflushed : s.db.Flushed) (hwritable : ∀ a acc, s.cache.lookup a = some acc → Writable acc) :
    ∃ s', commit P .keepEmptyAccounts s = .ok () s' ∧ Committed P s s' := by
  obtain ⟨s₁, hall, hrun⟩ := commit_run (P := P) hlock h.coherent.version hflushed hwritable
  refine ⟨_, hrun, flush_sound h hflushed hwritable hall _, OverlayDB.commit_flushed _ _, ?_,
    s₁, hall, rfl⟩
  intro a
  rw [← flush_accounts h hflushed hwritable hall s.deadAccounts a]
  rfl

/-! ## Empty accounts -/

def Idle (w : World) (a : Address) : Prop :=
  w.dirty a = true ∧ ∃ info, w.accounts a = some info ∧ info.isEmpty = true

theorem killIfEmpty_unchanged (acc : Account) :
    (killIfEmpty acc).isUnchanged = acc.isUnchanged ∧
      (killIfEmpty acc).storageUsed = acc.storageUsed := by
  unfold killIfEmpty
  split
  next h =>
    rw [Bool.and_eq_true] at h
    refine ⟨?_, rfl⟩
    have hdirty : (!acc.isUnchanged) = true := h.1
    simp only [Account.kill]
    exact ((Bool.not_eq_true' _).mp hdirty).symm
  next => exact ⟨rfl, rfl⟩

theorem removeEmptyAccounts_lookup (s : State) (a : Address) :
    s.removeEmptyAccounts.cache.lookup a = (s.cache.lookup a).map killIfEmpty := by
  have hfold := AList.foldl_entries
    (fun (entry : Σ _ : Address, Account) (cache : Map Address Account) =>
      cache.insert entry.1 (killIfEmpty entry.2))
    (fun cache a => cache.lookup a) (fun acc _ _ => some (killIfEmpty acc))
    (fun entry cache a => AList.lookup_insert_eq_ite _ _ _ _) s.cache s.cache a
  refine (Eq.trans rfl hfold).trans ?_
  cases s.cache.lookup a <;> rfl

theorem removeEmptyAccounts_at (s : State) (a : Address) :
    (Idle s.view a ∧ s.removeEmptyAccounts.view.accounts a = some .killed ∧
        s.removeEmptyAccounts.view.store.slots a = s.view.saved.slots a ∨
      ¬ Idle s.view a ∧ s.removeEmptyAccounts.view.accounts a = s.view.accounts a ∧
        s.removeEmptyAccounts.view.store.slots a = s.view.store.slots a) ∧
      s.removeEmptyAccounts.view.dirty a = s.view.dirty a ∧
      s.removeEmptyAccounts.view.used a = s.view.used a := by
  have hlookup := removeEmptyAccounts_lookup s a
  cases hacc : s.cache.lookup a with
  | none =>
    rw [hacc, Option.map_none] at hlookup
    have hclean := (view_of_uncached hacc).2
    refine ⟨.inr ⟨fun hidle => ?_, ?_, ?_⟩, ?_, ?_⟩
    · rw [hidle.1] at hclean
      cases hclean
    all_goals
      simp only [view, find, hlookup, hacc]
      try rfl
  | some acc =>
    rw [hacc, Option.map_some] at hlookup
    obtain ⟨hunchanged, hused⟩ := killIfEmpty_unchanged acc
    obtain ⟨haccount, hdirty, hslots, husedView⟩ := view_cached hacc
    obtain ⟨haccount', hdirty', hslots', husedView'⟩ := view_cached hlookup
    refine ⟨?_, ?_, ?_⟩
    · by_cases hempty : (acc.isDirty && acc.isEmpty) = true
      · have hkill : killIfEmpty acc = acc.kill := if_pos hempty
        rw [Bool.and_eq_true] at hempty
        refine .inl ⟨⟨hdirty.trans hempty.1, _, haccount, hempty.2⟩, ?_, ?_⟩
        · rw [haccount', hkill]
          simp [infoOf, Account.kill, AccountInfo.killed]
        · rw [hslots', hkill]
          funext key
          simp [slotsOf, Account.kill, view, removeEmptyAccounts]
      · have hkeep : killIfEmpty acc = acc := if_neg hempty
        refine .inr ⟨?_, ?_, ?_⟩
        · rintro ⟨hdirtyView, info, hinfo, hisEmpty⟩
          rw [haccount] at hinfo
          cases hinfo
          rw [hdirty] at hdirtyView
          exact hempty (by rw [hdirtyView, Bool.true_and]; exact hisEmpty)
        · rw [haccount', haccount, hkeep]
          rfl
        · rw [hslots', hslots, hkeep]
          rfl
    · rw [hdirty', hdirty, Account.isDirty, Account.isDirty, hunchanged]
    · rw [husedView', husedView, hused]

theorem Committable.removeEmptyAccounts (h : Committable s) :
    Committable s.removeEmptyAccounts := by
  refine ⟨⟨h.coherent.version, ?_, h.coherent.decodes, ?_, ?_⟩, ?_, ?_, h.savedHashed⟩
  · intro b hb
    obtain ⟨hrecord, hnone⟩ := h.coherent.absent b hb
    refine ⟨hrecord, ?_⟩
    rw [removeEmptyAccounts_lookup, hnone, Option.map_none]
  · intro b acc key value hb hvalue
    rw [removeEmptyAccounts_lookup] at hb
    obtain ⟨acc₀, hacc₀, rfl⟩ := Option.map_eq_some_iff.mp hb
    apply h.coherent.originals b acc₀ key value hacc₀
    unfold killIfEmpty at hvalue
    split at hvalue <;> exact hvalue
  · intro b acc hb
    rw [removeEmptyAccounts_lookup] at hb
    obtain ⟨acc₀, hacc₀, rfl⟩ := Option.map_eq_some_iff.mp hb
    unfold killIfEmpty
    split
    · exact ⟨fun hhash => absurd rfl hhash, fun halive => nomatch halive⟩
    · exact h.coherent.codes b acc₀ hacc₀
  · intro b hclean
    rcases removeEmptyAccounts_at s b with ⟨⟨hidle, _, _⟩ | ⟨_, hsame, _⟩, hdirty, _⟩
    · rw [hdirty, hidle.1] at hclean
      cases hclean
    · rw [hsame]
      exact h.settled b (hdirty ▸ hclean)
  · intro b info hinfo
    rcases removeEmptyAccounts_at s b with ⟨⟨_, hkilled, _⟩ | ⟨_, hsame, _⟩, _, _⟩
    · rw [hkilled] at hinfo
      cases hinfo
      exact AccountInfo.killed_hashed
    · rw [hsame] at hinfo
      exact h.hashed b info hinfo

theorem Settled.removeEmptyAccounts (h : Settled s) : Settled s.removeEmptyAccounts := by
  refine { h.toCommittable.removeEmptyAccounts with stored := ?_ }
  intro b hclean
  rcases removeEmptyAccounts_at s b with ⟨⟨hidle, _, _⟩ | ⟨_, _, hsame⟩, hdirty, hused⟩
  · rw [hdirty, hidle.1] at hclean
    cases hclean
  · rw [hsame, hused]
    exact h.stored b (hdirty ▸ hclean)

theorem Buried.removeEmptyAccounts (h : Buried s) : Buried s.removeEmptyAccounts := by
  intro b acc hb hdead
  rw [removeEmptyAccounts_lookup] at hb
  obtain ⟨acc₀, hacc₀, rfl⟩ := Option.map_eq_some_iff.mp hb
  unfold killIfEmpty at hdead ⊢
  split at hdead
  next hempty => rw [if_pos hempty]; rfl
  next hempty => rw [if_neg hempty]; exact h b acc₀ hacc₀ hdead

end

end State

end Skaled
