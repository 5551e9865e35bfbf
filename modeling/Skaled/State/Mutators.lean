import Skaled.State.Refine

/-! # The mutators are steps

Every function that changes accounts is a run of steps of the world, whether
it returns or fails, and keeps the caches coherent. For the functions whose
exact effect is needed later the world they end in is given as well.
-/

namespace Skaled

open EStateM (bind_apply get_apply pure_apply)

variable [Keccak]

def World.addBalance (w : World) (a : Address) (amount : U256) : World :=
  let w' := match w.accounts a with
    | some info =>
      let w := if w.dirty a = false ∧ info.isEmpty = true then w.push (.touch a) else w
      w.put a { info with balance := info.balance + amount }
    | none => (w.put a ⟨true, w.startNonce, w.funds + amount, emptySHA3, []⟩).push (.create a)
  if amount ≠ 0 then w'.push (.balance a amount) else w'

namespace State

/-- The invariant of states: coherent caches in front of a consistent world. -/
structure Good (s : State) : Prop where
  coherent : Coherent s
  accounts : AccountsOk s.view

/-- What the functions of this module leave alone. -/
structure Frame (s s' : State) : Prop where
  db : ∃ storageCache, s'.db = { s.db with storageCache }
  versions : s'.storedVersion = s.storedVersion ∧ s'.currentVersion = s.currentVersion
  lock : s'.writeLock = s.writeLock

omit [Keccak] in
theorem Frame.refl (s : State) : Frame s s := ⟨⟨_, rfl⟩, ⟨rfl, rfl⟩, rfl⟩

omit [Keccak] in
theorem Frame.trans {s s' s'' : State} (h : Frame s s') (h' : Frame s' s'') : Frame s s'' := by
  obtain ⟨⟨_, hdb⟩, hversions, hlock⟩ := h
  obtain ⟨⟨_, hdb'⟩, hversions', hlock'⟩ := h'
  exact ⟨⟨_, by rw [hdb', hdb]⟩, ⟨hversions'.1.trans hversions.1, hversions'.2.trans hversions.2⟩,
    hlock'.trans hlock⟩

omit [Keccak] in
theorem SameDatabase.frame {s s' : State} (h : SameDatabase s s') : Frame s s' :=
  ⟨⟨s.db.storageCache, h.db⟩, h.versions, h.lock⟩

/-- `s'` is reached from `s` by steps that keep the log of `s`. -/
structure Moves (P : Patches) (s s' : State) : Prop where
  good : Good s'
  steps : Steps P s.changeLog.length s.view s'.view
  frame : Frame s s'

variable {P : Patches} {s s' s'' : State} {a : Address}

theorem Moves.refl (h : Good s) : Moves P s s := ⟨h, .refl, .refl s⟩

theorem Moves.trans (h : Moves P s s') (h' : Moves P s' s'') : Moves P s s'' :=
  ⟨h'.good, h.steps.trans (Steps.mono (Steps.floor_le h.steps le_rfl) h'.steps),
    h.frame.trans h'.frame⟩

theorem Good.reloads (h : Good s) (hreloads : Reloads s s') : Good s' :=
  ⟨hreloads.coherent, (hreloads.forgets.accounts_eq h.accounts).1⟩

theorem Reloads.moves (h : Good s) (hreloads : Reloads s s') : Moves P s s' :=
  ⟨h.reloads hreloads, hreloads.forgets.steps, hreloads.same.frame⟩

/-! ## Writing one cached account -/

variable {acc : Account}

/-- An account whose code and originals are those of a cached one. -/
theorem Coherent.insert_like (h : Coherent s) (hacc : s.cache.lookup a = some acc) (acc' : Account)
    (horiginal : acc'.storageOriginal = acc.storageOriginal) (hhash : acc'.codeHash = acc.codeHash)
    (hnew : acc'.hasNewCode = acc.hasNewCode) (hcode : acc'.codeCache = acc.codeCache)
    (halive : acc'.isAlive = acc.isAlive) : Coherent { s with cache := s.cache.insert a acc' } := by
  refine h.insert (h.present hacc) ?_ ?_
  · rw [horiginal]
    exact fun key value => h.originals a acc key value hacc
  · obtain ⟨hcached, hnone⟩ := h.codes a acc hacc
    rw [← hhash, ← hnew, ← hcode] at hcached
    rw [← hhash, ← hcode, ← halive] at hnone
    exact ⟨hcached, hnone⟩

section

variable (hacc : s.cache.lookup a = some acc)

include hacc

theorem view_cached :
    s.view.accounts a = some (infoOf s.db a acc) ∧ s.view.dirty a = acc.isDirty ∧
      s.view.store.slots a = slotsOf s.db a acc ∧ s.view.used a = acc.storageUsed := by
  simp [view, find_of_cached hacc, hacc]

/-- Writing a changed account that has the same storage. -/
theorem view_put (acc' : Account)
    (hdirty : acc'.isUnchanged = false) (hoverlay : acc'.storageOverlay = acc.storageOverlay)
    (hused : acc'.storageUsed = acc.storageUsed) :
    ({ s with cache := s.cache.insert a acc' } : State).view =
      s.view.put a (infoOf s.db a acc') := by
  obtain ⟨_, _, hslots, husedView⟩ := view_cached hacc
  have hsame : slotsOf s.db a acc' = s.view.store.slots a := by
    rw [hslots]
    unfold slotsOf
    rw [hoverlay]
  rw [view_insert, hsame, hused, ← husedView, Function.update_eq_self, Function.update_eq_self,
    Account.isDirty, hdirty]
  rfl

theorem cached_eq : s.cached a = acc := by
  rw [cached, hacc, Option.getD_some]

end

theorem account_bind {β : Type} (h : Coherent s) (a : Address) (f : Option Account → M β) :
    ∃ s₁, (account a >>= f) s = f (s.find a) s₁ ∧ Reloads s s₁ ∧ s₁.cache.lookup a = s.find a := by
  obtain ⟨s₁, hrun, hreloads, hcached⟩ := account_run h a
  exact ⟨s₁, by rw [bind_apply, hrun], hreloads, hcached⟩

omit [Keccak] in
theorem assert_true (s : State) : assert true s = .ok () s := rfl

/-- A program that moves from `s`, whether it returns or fails. -/
abbrev Runs (P : Patches) {α : Type} (program : M α) (s : State) :
    Prop := Moves P s (program s).state

theorem Runs.bind {α β : Type} {x : M α} {f : α → M β} (hx : Runs P x s)
    (hf : ∀ v s', x s = .ok v s' → Moves P s s' → Runs P (f v) s') : Runs P (x >>= f) s := by
  unfold Runs at hx ⊢
  rw [bind_apply]
  cases hrun : x s with
  | ok v s' =>
    rw [hrun] at hx
    exact hx.trans (hf v s' hrun hx)
  | error e s' => rwa [hrun] at hx

theorem Runs.pure {α : Type} (h : Good s) (v : α) : Runs P (Pure.pure v) s := .refl h

theorem Runs.throw {α : Type} (h : Good s) (e : Failure) :
    Runs P (MonadExcept.throw e : M α) s := .refl h

theorem account_runs (h : Good s) (a : Address) : Runs P (account a) s := by
  obtain ⟨s₁, hrun, hreloads, _⟩ := account_run h.coherent a
  unfold Runs
  rw [hrun]
  exact hreloads.moves h

theorem Moves.of_view {w : World} (h : Good s) (hcoherent : Coherent s') (hframe : Frame s s')
    (hforgets : Forgets s.view w) (hsteps : Steps P s.changeLog.length w s'.view) : Moves P s s' :=
  ⟨⟨hcoherent, (hforgets.accounts_eq h.accounts).1.steps hsteps⟩, hforgets.steps.trans hsteps,
    hframe⟩

/-- Storing a changed account with the same storage and logging the change. -/
theorem edit_cached {acc acc' : Account} (hacc : s.cache.lookup a = some acc)
    (hcoherent : Coherent { s with cache := s.cache.insert a acc' })
    (hdirty : acc'.isUnchanged = false) (hoverlay : acc'.storageOverlay = acc.storageOverlay)
    (hused : acc'.storageUsed = acc.storageUsed) (change : Change) :
    ∃ s', s' = { s with cache := s.cache.insert a acc', changeLog := change :: s.changeLog } ∧
      Coherent s' ∧ Frame s s' ∧ s'.view = (s.view.put a (infoOf s.db a acc')).push change := by
  refine ⟨_, rfl, hcoherent.congr rfl rfl rfl rfl, ⟨⟨_, rfl⟩, ⟨rfl, rfl⟩, rfl⟩, ?_⟩
  rw [← view_put hacc acc' hdirty hoverlay hused]
  rfl

/-! ## Creating accounts -/

theorem addressInUse_run (h : Coherent s) (a : Address) :
    ∃ s₁, addressInUse a s = .ok (s.find a).isSome s₁ ∧ Reloads s s₁ ∧
      s₁.cache.lookup a = s.find a := account_bind h a _

/-- A new account at an address that is not in use. -/
theorem createAccount_run (h : Good s) (hnone : s.find a = none) (nonce balance : U256) :
    ∃ s' w, createAccount a (.fresh nonce balance) s = .ok () s' ∧ Coherent s' ∧ Frame s s' ∧
      Forgets s.view w ∧
      s'.view = (w.put a ⟨true, nonce, balance, emptySHA3, []⟩).push (.create a) ∧
      w.accounts a = none ∧ w.dirty a = false := by
  obtain ⟨s₁, hrun, hreloads, hcached⟩ := addressInUse_run h.coherent a
  have hfind : s₁.find a = none := (find_eq_of_reloads hreloads hcached).trans hnone
  rw [hnone] at hcached hrun
  have hslots : s₁.view.store.slots a = slotsOf s₁.db a (.fresh nonce balance) := by
    funext key
    simp [view, hcached, slotsOf, Account.fresh]
  have hused : s₁.view.used a = 0 := by simp [view, hfind]
  have hview := view_insert s₁ a (.fresh nonce balance)
  rw [← hslots, Function.update_eq_self,
    show (Account.fresh nonce balance).storageUsed = 0 from rfl,
    ← hused, Function.update_eq_self] at hview
  refine ⟨{ s₁ with
      cache := s₁.cache.insert a (.fresh nonce balance)
      nonExistingAccountsCache := s₁.nonExistingAccountsCache.filter (· ≠ a)
      changeLog := .create a :: s₁.changeLog },
    s₁.view, ?_, ?_, ?_, hreloads.forgets, ?_, by simp [view, hfind], by simp [view, hcached]⟩
  · unfold createAccount
    rw [bind_apply, hrun]
    rfl
  · -- the address is taken off the list of absent ones before it is cached
    have hfilter : Coherent { s₁ with
        nonExistingAccountsCache := s₁.nonExistingAccountsCache.filter (· ≠ a) } :=
      ⟨hreloads.coherent.version,
        fun b hb => hreloads.coherent.absent b (List.mem_of_mem_filter hb),
        hreloads.coherent.decodes, hreloads.coherent.originals, hreloads.coherent.codes⟩
    have hinsert : Coherent { s₁ with
        nonExistingAccountsCache := s₁.nonExistingAccountsCache.filter (· ≠ a)
        cache := s₁.cache.insert a (.fresh nonce balance) } :=
      hfilter.insert (by simp) (fun key value hvalue => by cases hvalue)
        ⟨fun hhash => absurd rfl hhash, fun _ _ => rfl⟩
    exact hinsert.congr rfl rfl rfl rfl
  · exact hreloads.same.frame.trans ⟨⟨_, rfl⟩, ⟨rfl, rfl⟩, rfl⟩
  · refine (congrArg (World.push · (.create a)) hview).trans ?_
    simp [World.put, World.push, infoOf, Account.fresh, Account.isDirty]

/-! ## Nonces -/

/-- The effect of `setNonce` on an account in use. -/
theorem setNonce_run (h : Good s) (hfind : s.find a = some acc) (nonce : U256) :
    ∃ s' w, setNonce a nonce s = .ok () s' ∧ Coherent s' ∧ Frame s s' ∧ Forgets s.view w ∧
      s'.view = (w.put a { infoOf s.db a acc with nonce }).push (.nonce a acc.nonce) ∧
      w.accounts a = some (infoOf s.db a acc) := by
  unfold setNonce
  obtain ⟨s₁, hrun, hreloads, hcached⟩ := account_bind h.coherent a _
  rw [hrun, hfind]
  rw [hfind] at hcached
  obtain ⟨s', rfl, hcoherent, hframe, hview⟩ := edit_cached hcached
    (hreloads.coherent.insert_like hcached (acc.setNonce nonce) rfl rfl rfl rfl rfl) rfl rfl rfl
    (.nonce a acc.nonce)
  refine ⟨_, s₁.view, rfl, hcoherent, hreloads.same.frame.trans hframe, hreloads.forgets, ?_, ?_⟩
  · rw [hview, hreloads.same.db]
    rfl
  · rw [(view_cached hcached).1, hreloads.same.db]

theorem createAccount_moves (h : Good s) (hnone : s.find a = none) (nonce balance : U256) :
    Moves P s (createAccount a (.fresh nonce balance) s).state := by
  obtain ⟨s', w, hrun, hcoherent, hframe, hforgets, hview, hnoneView, hclean⟩ :=
    createAccount_run h hnone nonce balance
  rw [hrun, EStateM.Result.state_ok]
  refine .of_view h hcoherent hframe hforgets (.single ?_)
  rw [hview]
  exact .create hnoneView hclean rfl rfl rfl

/-- At an address in use the assertion of `createAccount` fails. -/
theorem createAccount_runs (h : Good s) (nonce balance : U256) :
    Runs P (createAccount a (.fresh nonce balance)) s := by
  cases hfind : s.find a with
  | none => exact createAccount_moves h hfind nonce balance
  | some acc =>
    obtain ⟨s₁, hrun, hreloads, _⟩ := addressInUse_run h.coherent a
    rw [hfind] at hrun
    unfold Runs createAccount
    rw [bind_apply, hrun]
    exact hreloads.moves h

/-- Without a start nonce a program fails before anything is changed. -/
theorem Runs.startNonce {α : Type} {f : U256 → M α} (h : Good s)
    (hf : ∀ start, Runs P (f start) s) : Runs P (requireAccountStartNonce >>= f) s := by
  simp only [Runs, requireAccountStartNonce, bind_apply, get_apply]
  by_cases hstart : s.accountStartNonce = invalid256
  · rw [if_pos hstart]
    exact .refl h
  · rw [if_neg hstart]
    exact hf _

theorem Good.find_none (h : Good s) (hreloads : Reloads s s')
    (hcached : s'.cache.lookup a = s.find a) (hnone : s.find a = none) :
    Good s' ∧ s'.find a = none :=
  ⟨h.reloads hreloads, (find_eq_of_reloads hreloads hcached).trans hnone⟩

theorem setNonce_moves (h : Good s) (nonce : U256) : Moves P s (setNonce a nonce s).state := by
  cases hfind : s.find a with
  | some acc =>
    obtain ⟨s', w, hrun, hcoherent, hframe, hforgets, hview, huse⟩ := setNonce_run h hfind nonce
    rw [hrun, EStateM.Result.state_ok]
    refine .of_view h hcoherent hframe hforgets (.single ?_)
    rw [hview]
    exact .nonce nonce huse
  | none =>
    unfold setNonce
    obtain ⟨s₁, hrun, hreloads, hcached⟩ := account_bind h.coherent a _
    obtain ⟨hgood, hnone⟩ := h.find_none hreloads hcached hfind
    rw [hrun, hfind]
    exact (hreloads.moves h).trans (createAccount_moves hgood hnone _ _)

theorem incNonce_eq (h : Good s) (hfind : s.find a = some acc) :
    incNonce a s = setNonce a (acc.nonce + 1) s := by
  obtain ⟨s₁, hrun, _, _⟩ := account_run h.coherent a
  unfold incNonce setNonce
  rw [bind_apply, bind_apply, hrun, hfind]
  rfl

theorem incNonce_moves (h : Good s) : Moves P s (incNonce a s).state := by
  cases hfind : s.find a with
  | some acc =>
    rw [incNonce_eq h hfind]
    exact setNonce_moves h _
  | none =>
    unfold incNonce
    obtain ⟨s₁, hrun, hreloads, hcached⟩ := account_bind h.coherent a _
    obtain ⟨hgood, hnone⟩ := h.find_none hreloads hcached hfind
    rw [hrun, hfind]
    exact (hreloads.moves h).trans
      (Runs.startNonce hgood fun _ => createAccount_moves hgood hnone _ _)

/-! ## Balances -/

theorem Coherent.relog (h : Coherent s) (changeLog : List Change) :
    Coherent { s with changeLog } := h.congr rfl rfl rfl rfl

theorem addBalance_run_some (h : Good s) (hfind : s.find a = some acc) (amount : U256) :
    ∃ s' w, addBalance a amount s = .ok () s' ∧ Coherent s' ∧ Frame s s' ∧ Forgets s.view w ∧
      s'.view = w.addBalance a amount ∧ w.accounts a = some (infoOf s.db a acc) := by
  unfold addBalance
  obtain ⟨s₁, hrun, hreloads, hcached⟩ := account_bind h.coherent a _
  rw [hrun, hfind]
  rw [hfind] at hcached
  obtain ⟨haccount, hdirty, _, _⟩ := view_cached hcached
  have hframe : ∀ cache changeLog, Frame s { s₁ with cache, changeLog } := fun cache changeLog =>
    hreloads.same.frame.trans ⟨⟨_, rfl⟩, ⟨rfl, rfl⟩, rfl⟩
  have hinfo : s₁.view.accounts a = some (infoOf s.db a acc) := by
    rw [haccount, hreloads.same.db]
  -- the touch is logged before the account is stored, the amount after it
  have hstored : ∀ log, Coherent { s₁ with
        cache := s₁.cache.insert a (acc.addBalance amount), changeLog := log } ∧
      ({ s₁ with
          cache := s₁.cache.insert a (acc.addBalance amount)
          changeLog := log } : State).view =
        { s₁.view.put a { infoOf s₁.db a acc with balance := acc.balance + amount } with log } := by
    intro log
    refine ⟨(hreloads.coherent.insert_like hcached (acc.addBalance amount)
      rfl rfl rfl rfl rfl).relog log, ?_⟩
    have hview := view_put hcached (acc.addBalance amount) rfl rfl rfl
    exact congrArg (fun w => { w with log }) hview
  have htouch : (s₁.view.dirty a = false ∧ (infoOf s₁.db a acc).isEmpty = true) ↔
      (!acc.isDirty && acc.isEmpty) = true := by
    rw [hdirty, Bool.and_eq_true, Bool.not_eq_true']
    rfl
  have hend : ∀ log, (if amount ≠ 0 then logChange (.balance a amount) else pure () : M Unit)
      { s₁ with cache := s₁.cache.insert a (acc.addBalance amount), changeLog := log } =
        .ok () { s₁ with
          cache := s₁.cache.insert a (acc.addBalance amount)
          changeLog := if amount ≠ 0 then .balance a amount :: log else log } := by
    intro log
    split <;> rfl
  by_cases hc : (!acc.isDirty && acc.isEmpty) = true
  · refine ⟨_, s₁.view, (congrFun (if_pos hc) s₁).trans (hend (.touch a :: s₁.changeLog)),
      (hstored _).1, hframe _ _, hreloads.forgets, (hstored _).2.trans ?_, hinfo⟩
    simp only [World.addBalance, haccount, if_pos (htouch.mpr hc)]
    split <;> rfl
  · refine ⟨_, s₁.view, (congrFun (if_neg hc) s₁).trans (hend s₁.changeLog),
      (hstored _).1, hframe _ _, hreloads.forgets, (hstored _).2.trans ?_, hinfo⟩
    simp only [World.addBalance, haccount, if_neg (htouch.not.mpr hc)]
    split <;> rfl

omit [Keccak] in
theorem requireAccountStartNonce_run (h : s.accountStartNonce ≠ invalid256) :
    requireAccountStartNonce s = .ok s.accountStartNonce s := by
  simp [requireAccountStartNonce, bind_apply, get_apply, h, pure_apply]

theorem addBalance_run_none (h : Good s) (hnone : s.find a = none)
    (hstart : s.accountStartNonce ≠ invalid256) (amount : U256) :
    ∃ s' w, addBalance a amount s = .ok () s' ∧ Coherent s' ∧ Frame s s' ∧ Forgets s.view w ∧
      s'.view = w.addBalance a amount ∧ w.accounts a = none ∧ w.dirty a = false := by
  obtain ⟨s₁, hrun, hreloads, hcached⟩ := account_run h.coherent a
  obtain ⟨hgood, hnone₁⟩ := h.find_none hreloads hcached hnone
  have hrest := hreloads.forgets.rest
  have hstart₁ : requireAccountStartNonce s₁ = .ok s₁.accountStartNonce s₁ :=
    requireAccountStartNonce_run (by rwa [show s₁.accountStartNonce = s.accountStartNonce from
      hrest.startNonce])
  obtain ⟨s₂, w, hcreate, hcoherent, hframe, hforgets, hview, haccounts, hclean⟩ :=
    createAccount_run hgood hnone₁ s₁.accountStartNonce (s₁.initialFunds + amount)
  have hall : addBalance a amount s = .ok () { s₂ with
      changeLog := if amount ≠ 0 then .balance a amount :: s₂.changeLog else s₂.changeLog } := by
    unfold addBalance
    rw [bind_apply, hrun, hnone]
    simp only [bind_apply, hstart₁, get_apply, hcreate]
    split <;> rfl
  refine ⟨_, w, hall, hcoherent.relog _, hreloads.same.frame.trans (hframe.trans
    ⟨⟨_, rfl⟩, ⟨rfl, rfl⟩, rfl⟩), hreloads.forgets.trans hforgets, ?_, haccounts, hclean⟩
  have hnonce : w.startNonce = s₁.accountStartNonce := hforgets.rest.startNonce
  have hfunds : w.funds = s₁.initialFunds := hforgets.rest.funds
  have hlog : ({ s₂ with changeLog := if amount ≠ 0 then .balance a amount :: s₂.changeLog
      else s₂.changeLog } : State).view =
      if amount ≠ 0 then s₂.view.push (.balance a amount) else s₂.view := by
    split <;> rfl
  rw [hlog, hview]
  simp only [World.addBalance, haccounts, hnonce, hfunds]

/-- `addBalance` as steps: a first touch or a creation, then the amount. -/
theorem addBalance_steps {w : World} {floor : Nat} (amount : U256)
    (hnone : w.accounts a = none → w.dirty a = false) :
    Steps P floor w (w.addBalance a amount) := by
  -- once the account is in use and marked, only the amount is left
  have hamount : ∀ (w : World) info, w.accounts a = some info → w.dirty a = true →
      Steps P floor w
        (if amount ≠ 0 then (w.put a { info with balance := info.balance + amount }).push
          (.balance a amount) else w.put a { info with balance := info.balance + amount }) := by
    intro w info huse hdirty
    split
    next hne => exact .single (.balance amount huse)
    next hzero =>
      obtain rfl : amount = 0 := not_not.mp hzero
      have hsame : w.put a { info with balance := info.balance + 0 } = w := by
        simp [World.put, ← huse, ← hdirty]
      rw [hsame]
  cases huse : w.accounts a with
  | none =>
    have hcreate : Step P floor w
        ((w.put a ⟨true, w.startNonce, w.funds, emptySHA3, []⟩).push (.create a)) :=
      .create huse (hnone huse) rfl rfl rfl
    have hrest := hamount
      ((w.put a ⟨true, w.startNonce, w.funds, emptySHA3, []⟩).push (.create a))
      ⟨true, w.startNonce, w.funds, emptySHA3, []⟩ (by simp [World.put, World.push])
      (by simp [World.put, World.push])
    refine Relation.ReflTransGen.head hcreate (Eq.mp ?_ hrest)
    simp only [World.addBalance, huse]
    simp [World.put, World.push]
  | some info =>
    by_cases htouch : w.dirty a = false ∧ info.isEmpty = true
    · have hrest := hamount ((w.mark a true).push (.touch a)) info huse
        (by simp [World.mark, World.push])
      refine Relation.ReflTransGen.head (.touch huse htouch.2 htouch.1) (Eq.mp ?_ hrest)
      simp only [World.addBalance, huse, if_pos htouch]
      simp [World.put, World.push, World.mark]
    · have hrest := hamount (w.mark a true) info huse (by simp [World.mark])
      refine Relation.ReflTransGen.head (.mark (a := a) (by simp [huse])) (Eq.mp ?_ hrest)
      simp only [World.addBalance, huse, if_neg htouch]
      simp [World.put, World.push, World.mark]

theorem addBalance_runs (h : Good s) (amount : U256) : Runs P (addBalance a amount) s := by
  unfold Runs
  cases hfind : s.find a with
  | some acc =>
    obtain ⟨s', w, hrun, hcoherent, hframe, hforgets, hview, huse⟩ :=
      addBalance_run_some h hfind amount
    rw [hrun, EStateM.Result.state_ok]
    refine .of_view h hcoherent hframe hforgets (hview ▸ addBalance_steps amount ?_)
    intro hnone
    rw [huse] at hnone
    cases hnone
  | none =>
    by_cases hstart : s.accountStartNonce = invalid256
    · -- without a start nonce the creation fails before anything is changed
      obtain ⟨s₁, hrun, hreloads, hcached⟩ := account_run h.coherent a
      have hstart₁ : s₁.accountStartNonce = invalid256 :=
        hreloads.forgets.rest.startNonce.trans hstart
      unfold addBalance
      rw [bind_apply, hrun, hfind]
      simp only [bind_apply, requireAccountStartNonce, get_apply, hstart₁,
        if_true]
      exact hreloads.moves h
    · obtain ⟨s', w, hrun, hcoherent, hframe, hforgets, hview, _, hclean⟩ :=
        addBalance_run_none h hfind hstart amount
      rw [hrun, EStateM.Result.state_ok]
      exact .of_view h hcoherent hframe hforgets
        (hview ▸ addBalance_steps amount fun _ => hclean)

theorem subBalance_runs (h : Good s) (value : U256) : Runs P (subBalance a value) s := by
  unfold subBalance
  split
  · exact .pure h _
  · refine .bind (account_runs h a) ?_
    intro found s₁ _ hmoves
    cases found with
    | none => exact .throw hmoves.good _
    | some acc =>
      dsimp only
      split
      · exact .throw hmoves.good _
      · exact addBalance_runs hmoves.good _

theorem setBalance_runs (h : Good s) (value : U256) : Runs P (setBalance a value) s :=
  .bind (account_runs h a) fun _ _ _ hmoves => addBalance_runs hmoves.good _

end State

end Skaled
