import Skaled.State.Operations

/-! # The end of a transaction

A transaction ends by destroying the accounts that asked for it, folding the
counters of the transaction into the accounts, and committing. The first two
leave no trace in the change log, so what still holds of the state is less
than the invariant of a running transaction.

Every account that is visited is marked as changed. An address whose mark a
rollback would take back must not be given a new counter: the counter would be
lost with the mark.
-/

namespace Skaled

open EStateM (bind_apply get_apply modify_apply throw_apply)
open Function (update update_eq_self update_of_ne)

/-! ## Worlds -/

def World.foldCounter (w : World) (a : Address) (count : Int) : World :=
  if (w.accounts a).isSome then
    { w.mark a true with used := update w.used a (w.used a + count) }
  else w

def World.foldCounters (w : World) (counters : Map Address Int) : World :=
  { w with
    dirty := fun a => w.dirty a || ((w.accounts a).isSome && (counters.lookup a).isSome)
    used := fun a =>
      w.used a + if (w.accounts a).isSome then (counters.lookup a).getD 0 else 0 }

theorem World.foldCounter_rest (w : World) (a : Address) (count : Int) :
    ∃ dirty used, w.foldCounter a count = { w with dirty, used } := by
  unfold World.foldCounter
  split
  · exact ⟨_, _, rfl⟩
  · exact ⟨w.dirty, w.used, rfl⟩

theorem World.foldl_foldCounter (w : World) (counters : Map Address Int) :
    counters.entries.foldl (fun w entry => w.foldCounter entry.1 entry.2) w =
      w.foldCounters counters := by
  have hframe : ∀ (entries : List (Σ _ : Address, Int)) (w : World), ∃ dirty used,
      entries.foldl (fun w entry => w.foldCounter entry.1 entry.2) w = { w with dirty, used } := by
    intro entries
    induction entries with
    | nil => exact fun w => ⟨w.dirty, w.used, rfl⟩
    | cons entry rest ih =>
      intro w
      obtain ⟨dirty, used, heq⟩ := ih (w.foldCounter entry.1 entry.2)
      obtain ⟨_, _, hentry⟩ := w.foldCounter_rest entry.1 entry.2
      refine ⟨dirty, used, heq.trans ?_⟩
      rw [hentry]
  have hown := AList.foldl_entries
    (fun (entry : Σ _ : Address, Int) (w : World) => w.foldCounter entry.1 entry.2)
    (fun w a => (w.accounts a, w.dirty a, w.used a))
    (fun count _ look => if look.1.isSome then (look.1, true, look.2.2 + count) else look)
    (by
      intro entry w a
      unfold World.foldCounter
      by_cases ha : a = entry.1
      · subst ha
        split <;> simp_all [World.mark]
      · split <;> simp [World.mark, ha])
    counters w
  obtain ⟨dirty, used, heq⟩ := hframe counters.entries w
  rw [heq] at hown ⊢
  simp only [World.foldCounters, World.mk.injEq, true_and, and_true]
  refine ⟨funext fun a => ?_, funext fun a => ?_⟩
  · have ha := hown a
    cases hlookup : counters.lookup a <;> cases haccount : w.accounts a <;>
      simp_all
  · have ha := hown a
    cases hlookup : counters.lookup a <;> cases haccount : w.accounts a <;>
      simp_all

section

variable [Keccak]

/-- What is read of a destroyed account until the commit. -/
def AccountInfo.killed : AccountInfo := ⟨false, 0, 0, emptySHA3, []⟩

def World.kill (w : World) (a : Address) : World :=
  if (w.accounts a).isSome then
    { w.put a .killed with
      store := { w.store with slots := update w.store.slots a (w.saved.slots a) } }
  else w

end

namespace State

variable [Keccak] {P : Patches} {s s' : State} {a : Address}

/-- The part of the invariant that a commit needs. -/
structure Committable (s : State) : Prop where
  coherent : Coherent s
  settled : ∀ a, s.view.dirty a = false → s.view.accounts a = s.view.saved.accounts a
  hashed : ∀ a info, s.view.accounts a = some info → info.Hashed
  savedHashed : ∀ a info, s.view.saved.accounts a = some info → info.Hashed

theorem Sound.committable (h : Sound s) : Committable s :=
  ⟨h.good.coherent, fun _ => h.saved.eq, h.good.accounts.hashed, h.good.accounts.savedHashed⟩

/-- The storage of clean accounts is saved as well. -/
structure Settled (s : State) : Prop extends Committable s where
  stored : ∀ a, s.view.dirty a = false →
    s.view.store.slots a = s.view.saved.slots a ∧ s.view.used a = s.view.saved.used a

theorem Sound.settled (h : Sound s) : Settled s :=
  { h.committable with stored := h.store.settled }

variable {w w' : World} {count : Int}

omit [Keccak] in
theorem Forgets.eq_of_settled (h : Forgets w w')
    (hw : ∀ a, w.dirty a = false → w.accounts a = w.saved.accounts a ∧
      w.store.slots a = w.saved.slots a ∧ w.used a = w.saved.used a) : w' = w := by
  induction h with
  | refl => rfl
  | @tail middle last _ hstep ih =>
    obtain ⟨a, hclean, rfl⟩ := hstep
    rw [ih] at hclean ⊢
    obtain ⟨haccount, hslots, hused⟩ := hw a hclean
    rw [World.forget, ← haccount, ← hslots, ← hused, update_eq_self,
      update_eq_self, update_eq_self]

theorem Settled.reloads (h : Settled s) (hreloads : Reloads s s') :
    Settled s' ∧ s'.view = s.view := by
  have hview := hreloads.forgets.eq_of_settled fun a hclean =>
    ⟨h.settled a hclean, h.stored a hclean⟩
  refine ⟨⟨⟨hreloads.coherent, ?_, ?_, ?_⟩, ?_⟩, hview⟩ <;> rw [hview]
  · exact h.settled
  · exact h.hashed
  · exact h.savedHashed
  · exact h.stored

/-! ## Destroyed accounts in the cache -/

/-- Destroyed accounts have no slots of their own. -/
def Buried (s : State) : Prop :=
  ∀ a acc, s.cache.lookup a = some acc → acc.isAlive = false → acc.storageOverlay = ∅

omit [Keccak] in
/-- Reading an account does not bring dead ones into the cache. -/
theorem account_dead {found : Option Account} (hrun : account a s = .ok found s') {b : Address}
    {acc : Account} (hb : s'.cache.lookup b = some acc) (hdead : acc.isAlive = false) :
    s.cache.lookup b = some acc := by
  rw [account_apply] at hrun
  cases hcached : s.cache.lookup a with
  | some _ =>
    rw [hcached] at hrun
    cases hrun
    exact hb
  | none =>
    rw [hcached] at hrun
    dsimp only at hrun
    split_ifs at hrun
    · cases hrun
      exact hb
    · cases hrun
      exact hb
    · cases hdecode : Account.decode (s.db.lookup a) with
      | none =>
        rw [hdecode] at hrun
        cases hrun
      | some loaded =>
        rw [hdecode] at hrun
        cases hrun
        obtain ⟨_, _, _, _, _, rfl⟩ := Account.decode_eq_loaded hdecode
        rcases AList.lookup_insert_eq_some hb with ⟨-, rfl⟩ | hold
        · cases hdead
        · exact (clearCacheIfTooLarge_evicted s).cache b acc hold

omit [Keccak] in
theorem Buried.reloads {found : Option Account} (h : Buried s)
    (hrun : account a s = .ok found s') : Buried s' :=
  fun b acc hb hdead => h b acc (account_dead hrun hb hdead) hdead

/-! ## Editing one account without logging it -/

/-- One address is marked as changed, and nothing is changed elsewhere. -/
structure Marks (a : Address) (w w' : World) : Prop where
  saved : w'.saved = w.saved
  dirty : w'.dirty = update w.dirty a true
  others : ∀ b, b ≠ a → w'.accounts b = w.accounts b ∧
    w'.store.slots b = w.store.slots b ∧ w'.used b = w.used b
  hashed : ∀ info, w'.accounts a = some info → info.Hashed

theorem Settled.marks (h : Settled s) (hcoherent : Coherent s')
    (hmarks : Marks a s.view s'.view) : Settled s' := by
  have hclean : ∀ b, s'.view.dirty b = false → b ≠ a ∧ s.view.dirty b = false := by
    intro b hb
    rw [hmarks.dirty] at hb
    have hne : b ≠ a := by
      rintro rfl
      simp at hb
    exact ⟨hne, by rwa [update_of_ne hne] at hb⟩
  refine ⟨⟨hcoherent, fun b hb => ?_, fun b info hinfo => ?_, hmarks.saved ▸ h.savedHashed⟩,
    fun b hb => ?_⟩
  · obtain ⟨hne, hb⟩ := hclean b hb
    rw [(hmarks.others b hne).1, hmarks.saved]
    exact h.settled b hb
  · by_cases hb : b = a
    · subst hb
      exact hmarks.hashed info hinfo
    · rw [(hmarks.others b hb).1] at hinfo
      exact h.hashed b info hinfo
  · obtain ⟨hne, hb⟩ := hclean b hb
    rw [(hmarks.others b hne).2.1, (hmarks.others b hne).2.2, hmarks.saved]
    exact h.stored b hb

/-- Replace an account if it exists. -/
def editAccount (a : Address) (f : Account → Account) : M Unit := do
  match ← account a with
  | some acc => setAccount a (f acc)
  | none => pure ()

/-- What is read of `s` is edited; neither the database nor a counter of the
transaction is touched. -/
structure Amends (edit : World → World) (s s' : State) : Prop where
  settled : Settled s'
  frame : Frame s s'
  db : s'.db = s.db
  counters : s'.storageUsage = s.storageUsage
  view : s'.view = edit s.view
  buried : Buried s → Buried s'

theorem editAccount_run (h : Settled s) {f : Account → Account} {edit : World → World}
    (hsome : ∀ (s₁ : State) acc, Settled s₁ → s₁.cache.lookup a = some acc →
      Coherent { s₁ with cache := s₁.cache.insert a (f acc) } ∧
        ({ s₁ with cache := s₁.cache.insert a (f acc) } : State).view = edit s₁.view ∧
        Marks a s₁.view (edit s₁.view))
    (hnone : ∀ w : World, w.accounts a = none → edit w = w)
    (hburied : ∀ acc, (f acc).isAlive = false → (f acc).storageOverlay = ∅ ∨
      acc.isAlive = false ∧ (f acc).storageOverlay = acc.storageOverlay) :
    ∃ s', editAccount a f s = .ok () s' ∧ Amends edit s s' := by
  obtain ⟨s₁, hrun, hreloads, hcached⟩ := account_run h.coherent a
  obtain ⟨hsettled, hview⟩ := h.reloads hreloads
  unfold editAccount
  rw [bind_apply, hrun]
  cases hfind : s.find a with
  | none =>
    refine ⟨s₁, rfl, hsettled, hreloads.same.frame, hreloads.same.db, hreloads.same.counters, ?_,
      fun hb => hb.reloads hrun⟩
    rw [hview, hnone _ (by simp [State.view, hfind])]
  | some acc =>
    rw [hfind] at hcached
    obtain ⟨hcoherent, hedit, hmarks⟩ := hsome s₁ acc hsettled hcached
    refine ⟨_, rfl, hsettled.marks hcoherent (hedit ▸ hmarks),
      hreloads.same.frame.trans ⟨⟨_, rfl⟩, ⟨rfl, rfl⟩, rfl⟩, hreloads.same.db,
      hreloads.same.counters, hedit.trans (congrArg edit hview), fun hb b acc' hfound hdead => ?_⟩
    have hb := hb.reloads hrun
    rcases AList.lookup_insert_eq_some hfound with ⟨rfl, rfl⟩ | hold
    · rcases hburied acc hdead with hempty | ⟨hdead', hsame⟩
      · exact hempty
      · rw [hsame]
        exact hb b acc hcached hdead'
    · exact hb b acc' hold hdead

theorem AccountInfo.killed_hashed : AccountInfo.killed.Hashed := ⟨rfl, fun _ => rfl⟩

theorem kill_run (h : Settled s) (a : Address) :
    ∃ s', kill a s = .ok () s' ∧ Amends (·.kill a) s s' := by
  refine editAccount_run (f := Account.kill) h ?_ ?_ fun _ _ => .inl rfl
  · intro s₁ acc hsettled hcached
    have hcoherent := hsettled.coherent
    obtain ⟨haccount, _, hslots, hused⟩ := view_cached hcached
    have hsome : (s₁.view.accounts a).isSome := by rw [haccount]; rfl
    have hinfo : infoOf s₁.db a acc.kill = .killed := by
      simp [infoOf, Account.kill, AccountInfo.killed]
    have hsaved : slotsOf s₁.db a acc.kill = s₁.view.saved.slots a := by
      funext key
      simp [slotsOf, Account.kill, view]
    rw [World.kill, if_pos hsome]
    refine ⟨hcoherent.insert (hcoherent.present hcached)
      (fun key value => hcoherent.originals a acc key value hcached)
      ⟨fun hhash => absurd rfl hhash, fun halive => by cases halive⟩, ?_, rfl, rfl, ?_, ?_⟩
    · rw [view_insert, hinfo, hsaved, show acc.kill.storageUsed = s₁.view.used a from hused.symm,
        update_eq_self]
      rfl
    · intro b hb
      simp [World.put, hb]
    · intro info hkilled
      simp only [World.put, Function.update_self, Option.some.injEq] at hkilled
      exact hkilled ▸ AccountInfo.killed_hashed
  · intro w hnone
    simp [World.kill, hnone]

theorem foldCounter_run (h : Settled s) (a : Address) (count : Int) :
    ∃ s', editAccount a (·.updateStorageUsage count) s = .ok () s' ∧
      Amends (·.foldCounter a count) s s' := by
  refine editAccount_run h ?_ ?_ fun _ hdead => .inr ⟨hdead, rfl⟩
  · intro s₁ acc hsettled hcached
    obtain ⟨haccount, _, hslots, hused⟩ := view_cached hcached
    have hsome : (s₁.view.accounts a).isSome := by rw [haccount]; rfl
    rw [World.foldCounter, if_pos hsome]
    refine ⟨hsettled.coherent.insert_like hcached _ rfl rfl rfl rfl rfl, ?_, rfl, rfl, ?_,
      hsettled.hashed a⟩
    · rw [view_insert,
        show infoOf s₁.db a (acc.updateStorageUsage count) = infoOf s₁.db a acc from rfl,
        ← haccount, show slotsOf s₁.db a (acc.updateStorageUsage count) = slotsOf s₁.db a acc
          from rfl, ← hslots, update_eq_self, update_eq_self, hused]
      rfl
    · intro b hb
      simp [World.mark, hb]
  · intro w hnone
    simp [World.foldCounter, hnone]

/-- Edits one after the other. -/
theorem forM_amends {ι : Type} {body : ι → M Unit} {edit : World → ι → World}
    (hbody : ∀ item {s}, Settled s → ∃ s', body item s = .ok () s' ∧ Amends (edit · item) s s')
    (h : Settled s) (items : List ι) :
    ∃ s', items.forM body s = .ok () s' ∧ Amends (items.foldl edit) s s' := by
  induction items generalizing s with
  | nil => exact ⟨s, rfl, h, .refl s, rfl, rfl, rfl, id⟩
  | cons item rest ih =>
    obtain ⟨s₁, hrun, hfirst⟩ := hbody item h
    obtain ⟨s', hrun', hrest⟩ := ih hfirst.settled
    refine ⟨s', ?_, hrest.settled, hfirst.frame.trans hrest.frame, hrest.db.trans hfirst.db,
      hrest.counters.trans hfirst.counters, ?_, fun hb => hrest.buried (hfirst.buried hb)⟩
    · change (body item >>= fun _ => rest.forM body) s = _
      rw [bind_apply, hrun]
      exact hrun'
    · rw [hrest.view, hfirst.view]
      rfl

/-! ## Destroying accounts -/

/-- The accounts after those of `suicides` were destroyed. -/
def killedAccounts (suicides : List Address) (accounts : Address → Option AccountInfo) :
    Address → Option AccountInfo :=
  fun b => if b ∈ suicides ∧ (accounts b).isSome then some .killed else accounts b

/-- The last loop of `Executive::finalize` destroys accounts and marks them. -/
theorem foldl_kill (suicides : List Address) (w : World) :
    ∃ slots, suicides.foldl World.kill w = { w with
      accounts := killedAccounts suicides w.accounts
      dirty := fun b => w.dirty b || (decide (b ∈ suicides) && (w.accounts b).isSome)
      store := { w.store with slots } } := by
  induction suicides generalizing w with
  | nil =>
    have hnil : killedAccounts [] w.accounts = w.accounts := by
      funext b
      simp [killedAccounts]
    exact ⟨w.store.slots, by simp [hnil]⟩
  | cons a rest ih =>
    obtain ⟨slots, heq⟩ := ih (w.kill a)
    refine ⟨slots, heq.trans ?_⟩
    have hat : ∀ b, killedAccounts rest (w.kill a).accounts b =
          killedAccounts (a :: rest) w.accounts b ∧
        ((w.kill a).dirty b || (decide (b ∈ rest) && ((w.kill a).accounts b).isSome)) =
          (w.dirty b || (decide (b ∈ a :: rest) && (w.accounts b).isSome)) := by
      intro b
      unfold World.kill
      by_cases hb : b = a
      · subst hb
        cases haccount : w.accounts b <;> simp [World.put, killedAccounts, haccount]
      · split <;> simp [World.put, killedAccounts, hb]
    rw [funext fun b => (hat b).1, funext fun b => (hat b).2]
    unfold World.kill
    split <;> rfl

/-! ## Folding the counters -/

def closedWorld (s : State) : World :=
  { s.view.foldCounters s.storageUsage with store := s.view.store.resetCounters }

theorem updateStorageUsage_run (h : Settled s) :
    ∃ s', updateStorageUsage s = .ok () s' ∧ Settled s' ∧ Frame s s' ∧ s'.db = s.db ∧
      s'.view = s.closedWorld ∧ (Buried s → Buried s') := by
  obtain ⟨s₁, hrun, hamends⟩ := forM_amends
    (fun (entry : Σ _ : Address, Int) _ h => foldCounter_run h entry.1 entry.2) h
    s.storageUsage.entries
  have hsettled := hamends.settled
  refine ⟨{ s₁ with storageUsage := ∅, currentStorageUsed := 0 }, ?_,
    ⟨⟨hsettled.coherent.congr rfl rfl rfl rfl, hsettled.settled, hsettled.hashed,
      hsettled.savedHashed⟩, hsettled.stored⟩,
    hamends.frame.trans ⟨⟨_, rfl⟩, ⟨rfl, rfl⟩, rfl⟩, hamends.db, ?_, hamends.buried⟩
  · change (s.storageUsage.entries.forM
      (fun entry => editAccount entry.1 (·.updateStorageUsage entry.2)) >>=
      fun _ => resetStorageChanges) s = _
    rw [bind_apply, hrun]
    rfl
  · rw [view_resetStorageChanges, hamends.view, World.foldl_foldCounter]
    rfl

/-- While a transaction runs, the counters may be folded as long as no address
whose mark can be taken back has one. -/
theorem Sound.updateStorageUsage (h : Sound s)
    (htouch : ∀ a, Change.touch a ∈ s.changeLog → s.usage a = 0) :
    ∃ s', State.updateStorageUsage s = .ok () s' ∧ Sound s' ∧ Frame s s' ∧
      s'.view = s.closedWorld := by
  obtain ⟨s', hrun, hsettled', hframe, _, hview, _⟩ := updateStorageUsage_run h.settled
  have haccounts := h.good.accounts
  have hsaves : ∀ log, s'.view.Saves log := fun _ a hclean => .inl (hsettled'.settled a hclean)
  refine ⟨s', hrun, ⟨⟨hsettled'.coherent, ⟨hsaves _, ?_, ?_, ?_, ?_, hsettled'.hashed,
    hsettled'.savedHashed⟩⟩, hsaves [], ⟨hsettled'.stored, ?_, ?_⟩⟩, hframe, hview⟩
  · rw [hview]
    intro a old hold hclean
    exact haccounts.unsaved a old hold (Bool.or_eq_false_iff.mp hclean).1
  · rw [hview]
    intro e he
    refine (haccounts.logged e he).imp_left fun hdirty => ?_
    simp only [closedWorld, World.foldCounters, hdirty, Bool.true_or]
  · rw [hview]
    exact haccounts.first
  · rw [hview]
    exact haccounts.undoable
  · rw [hview]
    exact h.store.undoable
  · rw [hview]
    intro a ha
    have hzero : (s.storageUsage.lookup a).getD 0 = 0 := htouch a ha
    simp only [closedWorld, World.foldCounters, hzero, ite_self, add_zero]
    exact h.store.touched a ha

/-! ## Closing the accounts of a transaction -/

/-- For a living sender without code the counters are folded. -/
theorem closeAccounts_settled (h : Settled s) {sender : Address} {info : AccountInfo}
    (hsender : s.view.accounts sender = some info) (halive : info.isAlive = true)
    (hhash : info.codeHash = emptySHA3) :
    ∃ s', closeAccounts sender s = .ok () s' ∧ Settled s' ∧ Frame s s' ∧ s'.db = s.db ∧
      s'.view = { s.closedWorld with total := s.totalStorageUsed + s.currentStorageUsed } ∧
      (Buried s → Buried s') := by
  unfold closeAccounts
  obtain ⟨s₁, haccount, hreloads, hcached⟩ := account_run h.coherent sender
  obtain ⟨hsettled, hview⟩ := h.reloads hreloads
  obtain ⟨acc, hfind, rfl⟩ : ∃ acc, s.find sender = some acc ∧ infoOf s.db sender acc = info :=
    Option.map_eq_some_iff.mp hsender
  rw [hfind] at haccount hcached
  have hcode : acc.codeCache = [] := (hsettled.coherent.codes sender acc hcached).none halive hhash
  obtain ⟨s₂, hs₂⟩ : ∃ s₂ : State, s₂ = { s₁ with
    totalStorageUsed := s₁.totalStorageUsed + s₁.currentStorageUsed } := ⟨_, rfl⟩
  have htotal : Settled s₂ := by
    rw [hs₂]
    exact ⟨⟨hsettled.coherent.congr rfl rfl rfl rfl, hsettled.settled, hsettled.hashed,
      hsettled.savedHashed⟩, hsettled.stored⟩
  obtain ⟨s', hrun, hsettled', hframe, hdb, hview', hburied⟩ := updateStorageUsage_run htotal
  refine ⟨s', ?_, hsettled', ?_, ?_, ?_, ?_⟩
  · rw [bind_apply, haccount, ← hrun, hs₂]
    exact congrFun (if_pos hcode) s₁
  · refine hreloads.same.frame.trans ?_
    rw [hs₂] at hframe
    exact ⟨hframe.db, hframe.versions, hframe.lock⟩
  · rw [hdb, hs₂]
    exact hreloads.same.db
  · have hcounters : s₂.storageUsage = s.storageUsage := by
      rw [hs₂]
      exact hreloads.same.counters
    have hview₂ : s₂.view =
        { s.view with total := s.totalStorageUsed + s.currentStorageUsed } := by
      rw [hs₂, ← hview]
      exact congrArg (fun w : World => { s₁.view with total := w.total + w.store.current }) hview
    rw [hview', closedWorld, hcounters, hview₂]
    rfl
  · intro hb
    apply hburied
    rw [hs₂]
    exact (hb.reloads haccount :)

end State

end Skaled
