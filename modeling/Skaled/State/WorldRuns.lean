import Skaled.State.WorldLaws

/-! # Runs of steps

A run of steps above a floor can be taken back: undoing the entries it left in
the log gives the accounts and the storage that it started from. This is so
too when the code of clean accounts is set in between, whether it is forgotten
before it is taken back or not.
-/

namespace Skaled

open UndoLog (Advances Reverts undoAll)

theorem alive_update {accounts : Address → Option AccountInfo} {a : Address}
    {account : Option AccountInfo} (h : ∀ b info, accounts b = some info → info.isAlive = true)
    (haccount : ∀ info, account = some info → info.isAlive = true) (b : Address)
    (info : AccountInfo) (hb : Function.update accounts a account b = some info) :
    info.isAlive = true := by
  by_cases heq : b = a
  · subst heq
    rw [Function.update_self] at hb
    exact haccount info hb
  · rw [Function.update_of_ne heq] at hb
    exact h b info hb

variable [Keccak] {P : Patches} {floor : Nat} {w w' : World}

/-- A step forgets a clean account, extends the log by entries that lead back,
or takes back its newest entry. -/
theorem Step.accounts_cases (h : AccountsOk w) (hstep : Step P floor w w') :
    (∃ a, w.dirty a = false ∧ w' = w.forget a) ∨
      Advances (undoAccounts w.saved.accounts) floor w.log w.accounts w'.log w'.accounts := by
  cases hstep with
  | forget hclean => exact .inl ⟨_, hclean, rfl⟩
  | nonce _ huse => exact .inr (.inl ⟨[_], rfl, update_map_update huse rfl⟩)
  | touch _ _ _ => exact .inr (.inl ⟨[_], rfl, rfl⟩)
  | balance _ huse => exact .inr (.inl ⟨[_], rfl, update_map_update huse (by simp)⟩)
  | @create a info hnone hclean _ _ _ =>
    refine .inr (.inl ⟨[_], rfl, ?_⟩)
    simp [undoAll, undoAccounts, World.put, World.push, h.none_saved hnone hclean, ← hnone]
  | code code old huse hfree _ => exact .inr (.inl ⟨[_], rfl, h.undo_setCode huse hfree code old⟩)
  | storage _ _ huse =>
    refine .inr (.inl ⟨[_], rfl, ?_⟩)
    simp [undoAll, undoAccounts, World.put, World.push, ← huse]
  | pop hlog hfloor _ => exact .inr (.inr ⟨_, hlog, hfloor, rfl⟩)
  | mark _ | reset _ | rolledBack _ => exact .inr (.inl .refl)

/-- What no step changes. -/
theorem Step.constants (hstep : Step P floor w w') :
    w'.saved = w.saved ∧ w'.funds = w.funds ∧ w'.startNonce = w.startNonce ∧
      w'.limit = w.limit ∧ w'.total = w.total := by
  cases hstep <;> exact ⟨rfl, rfl, rfl, rfl, rfl⟩

/-- No account is dead, neither in the world nor among the saved ones. -/
structure AllAlive (w : World) : Prop where
  accounts : ∀ a info, w.accounts a = some info → info.isAlive = true
  saved : ∀ a info, w.saved.accounts a = some info → info.isAlive = true

theorem AccountInfo.setCode_isAlive (info : AccountInfo) (code : Bytes) :
    (info.setCode code).isAlive = info.isAlive := by
  unfold AccountInfo.setCode
  split <;> rfl

theorem AllAlive.step (h : AllAlive w) (hstep : Step P floor w w') : AllAlive w' := by
  obtain ⟨haccounts, hsaved⟩ := h
  refine ⟨?_, hstep.constants.1 ▸ hsaved⟩
  have hsome : ∀ {account info : AccountInfo}, account.isAlive = true → some account = some info →
      info.isAlive = true := by
    intro account info halive heq
    exact Option.some.inj heq ▸ halive
  cases hstep with
  | @forget a _ => exact alive_update haccounts (hsaved a)
  | nonce _ huse | balance _ huse | storage _ _ huse =>
    have halive := haccounts _ _ huse
    exact alive_update haccounts fun _ => hsome halive
  | create _ _ _ _ halive => exact alive_update haccounts fun _ => hsome halive
  | code code old huse _ _ =>
    exact alive_update haccounts fun _ =>
      hsome ((AccountInfo.setCode_isAlive _ code).trans (haccounts _ _ huse))
  | @pop change rest _ _ _ =>
    have hedit : ∀ a (f : AccountInfo → AccountInfo), (∀ info, (f info).isAlive = info.isAlive) →
        ∀ info, (w.accounts a).map f = some info → info.isAlive = true := by
      intro a f hf info hinfo
      obtain ⟨before, hbefore, rfl⟩ := Option.map_eq_some_iff.mp hinfo
      rw [hf]
      exact haccounts a before hbefore
    cases change with
    | balance a _ | nonce a _ | code a _ => exact alive_update haccounts (hedit a _ fun _ => rfl)
    | create a => exact alive_update haccounts (hsaved a)
    | storage _ _ _ | touch _ => exact haccounts
  | mark _ | touch _ _ _ | reset _ | rolledBack _ => exact haccounts

theorem AllAlive.steps (h : AllAlive w) (hsteps : Steps P floor w w') : AllAlive w' := by
  induction hsteps with
  | refl => exact h
  | tail _ hstep ih => exact ih.step hstep

/-- Counters are part of this only when the patch is active. -/
theorem Step.store_cases (h : StoreOk w) (hpatch : P.contractStorage = true)
    (hstep : Step P floor w w') :
    Advances (undoStore P w.saved.slots) floor w.log w.store w'.log w'.store := by
  cases hstep with
  | @forget a hclean =>
    refine .inl ⟨[], rfl, ?_⟩
    simp only [undoAll, World.forget]
    rw [← (h.settled a hclean).1, Function.update_eq_self]
  | nonce _ _ | touch _ _ _ | balance _ _ | code _ _ _ _ _ => exact .inl ⟨[_], rfl, rfl⟩
  | @create a info hnone hclean _ _ _ =>
    refine .inl ⟨[_], rfl, ?_⟩
    simp only [undoAll, undoStore, undoSlots, World.put, World.push]
    rw [← (h.settled a hclean).1, Function.update_eq_self]
  | storage _ _ _ =>
    refine .inl ⟨[_], rfl, ?_⟩
    simp only [undoAll, undoStore, hpatch, if_true, Store.write_write]
  | pop hlog hfloor _ => exact .inr ⟨_, hlog, hfloor, rfl⟩
  | reset hoff => rw [hpatch] at hoff; cases hoff
  | mark _ | rolledBack _ => exact .inl .refl

/-- `w` was reached from `w₀` by changes of the accounts and slots that the log
leads back from. Clean accounts are saved, up to code that was set since. -/
structure LeadsBack (P : Patches) (w₀ w : World) : Prop where
  accountsOk : AccountsOk w
  storeOk : StoreOk w
  constants : w.saved = w₀.saved ∧ w.funds = w₀.funds ∧ w.startNonce = w₀.startNonce
  accounts : Reverts (undoAccounts w₀.saved.accounts) w₀.log w₀.accounts w.log w.accounts
  store : Reverts (undoStore P w₀.saved.slots) w₀.log w₀.store w.log w.store
  saves : ∀ recent, w.log = recent ++ w₀.log → w.Saves recent

theorem LeadsBack.refl (h : AccountsOk w) (hsaves : w.Saves []) (hstore : StoreOk w) :
    LeadsBack P w w := by
  refine ⟨h, hstore, ⟨rfl, rfl, rfl⟩, .refl, .refl, fun recent hlog => ?_⟩
  rwa [List.self_eq_append_left.mp hlog]

section

variable {w₀ : World} (h : LeadsBack P w₀ w)

include h

/-- Code that a clean account loses would have been taken back. -/
theorem LeadsBack.forget_accounts {a : Address} (hclean : w.dirty a = false) :
    Reverts (undoAccounts w₀.saved.accounts) w₀.log w₀.accounts w.log (w.forget a).accounts := by
  obtain ⟨recent, hlog, hback⟩ := h.accounts
  have hmem : ∀ e ∈ recent, e ∈ w.log := fun e he => hlog ▸ List.mem_append_left _ he
  refine ⟨recent, hlog, ?_⟩
  obtain heq | ⟨old, hold⟩ := h.saves recent hlog a hclean
  · rwa [World.forget, ← heq, Function.update_eq_self]
  · rw [World.forget, ← h.accountsOk.unsaved a old (hmem _ hold) hclean, ← hback]
    exact (undoAll_withoutCode fun e he => h.accountsOk.isCode hclean (hmem e he)).2 ⟨old, hold⟩

/-- Setting code leads back as well when the account is clean. -/
theorem LeadsBack.setCode {a : Address} {info : AccountInfo} (huse : w.accounts a = some info)
    (hfree : info.codeHash = emptySHA3) (code old : Bytes) :
    LeadsBack P w₀ (w.setCode a info code old) := by
  have hundo := h.accountsOk.undo_setCode huse hfree code old
  rw [h.constants.1] at hundo
  refine ⟨h.accountsOk.setCode huse hfree code old, h.storeOk.setCode a info code old,
    h.constants, h.accounts.append [_] hundo, h.store.append [_] rfl, ?_⟩
  intro recent hlog b hb
  obtain ⟨older, holder, _⟩ := h.accounts
  obtain rfl : recent = .code a old :: older := by
    rw [show (w.setCode a info code old).log = .code a old :: w.log from rfl, holder,
      ← List.cons_append] at hlog
    exact (List.append_cancel_right hlog).symm
  by_cases hne : b = a
  · exact .inr ⟨old, hne ▸ .head _⟩
  · simp only [World.setCode, Function.update_of_ne hne]
    exact (h.saves older holder b hb).imp_right (Exists.imp fun _ => List.mem_cons_of_mem _)

theorem LeadsBack.step (hpatch : P.contractStorage = true)
    (hstep : Step P w₀.log.length w w') : LeadsBack P w₀ w' := by
  obtain ⟨hsaved, hfunds, hstart, _, _⟩ := hstep.constants
  have hstore := hstep.store_cases h.storeOk hpatch
  rw [h.constants.1] at hstore
  obtain ⟨hforget, hkeep⟩ : Reverts (undoAccounts w₀.saved.accounts) w₀.log w₀.accounts
      w'.log w'.accounts ∧ ∀ recent older, w'.log = recent ++ w₀.log → w.log = older ++ w₀.log →
        ∀ e ∈ older, w.log = e :: w'.log ∨ e ∈ recent := by
    obtain ⟨a, hclean, rfl⟩ | hadvances := hstep.accounts_cases h.accountsOk
    · refine ⟨h.forget_accounts hclean, fun recent older hrecent holder e he => .inr ?_⟩
      rwa [List.append_cancel_right (hrecent.symm.trans holder)]
    · rw [h.constants.1] at hadvances
      refine ⟨h.accounts.advances hadvances, fun recent older hrecent holder e he => ?_⟩
      obtain ⟨more, hmore, _⟩ | ⟨newest, hnewest, _, _⟩ := hadvances
      · rw [hrecent, holder, ← List.append_assoc] at hmore
        exact .inr (List.append_cancel_right hmore ▸ List.mem_append_right more he)
      · rw [hrecent, holder, ← List.cons_append] at hnewest
        obtain rfl | he := List.mem_cons.mp (List.append_cancel_right hnewest ▸ he)
        · exact .inl (by rw [holder, hrecent, hnewest, List.cons_append])
        · exact .inr he
  refine ⟨h.accountsOk.step hstep, h.storeOk.step hstep,
    ⟨hsaved.trans h.constants.1, hfunds.trans h.constants.2.1, hstart.trans h.constants.2.2⟩,
    hforget, h.store.advances hstore, fun recent hrecent => ?_⟩
  obtain ⟨older, holder, _⟩ := h.accounts
  exact (h.saves older holder).step h.accountsOk hstep (hkeep recent older hrecent holder)

theorem LeadsBack.steps (hpatch : P.contractStorage = true)
    (hsteps : Steps P w₀.log.length w w') : LeadsBack P w₀ w' := by
  induction hsteps with
  | refl => exact h
  | tail _ hstep ih => exact ih.step hpatch hstep

theorem LeadsBack.floor_le : w₀.log.length ≤ w.log.length := by
  obtain ⟨recent, hlog, _⟩ := h.accounts
  rw [hlog, List.length_append]
  exact Nat.le_add_left _ _

/-- With a log of the length it started from, a world reads as the one it
started from. -/
theorem LeadsBack.eq (hlength : w.log.length = w₀.log.length) :
    w.log = w₀.log ∧ w.accounts = w₀.accounts ∧ w.store = w₀.store :=
  ⟨(h.accounts.eq hlength).1, (h.accounts.eq hlength).2, (h.store.eq hlength).2⟩

end

theorem Step.floor_le (hstep : Step P floor w w') (hfloor : floor ≤ w.log.length) :
    floor ≤ w'.log.length := by
  cases hstep with
  | pop hlog hrest _ => exact hrest
  | _ => first | exact hfloor | exact Nat.le_succ_of_le hfloor

theorem Steps.floor_le (hsteps : Steps P floor w w') (hfloor : floor ≤ w.log.length) :
    floor ≤ w'.log.length := by
  induction hsteps with
  | refl => exact hfloor
  | tail _ hstep ih => exact hstep.floor_le ih

theorem Step.mono {floor' : Nat} (hfloor : floor' ≤ floor) (hstep : Step P floor w w') :
    Step P floor' w w' := by
  cases hstep with
  | forget hclean => exact .forget hclean
  | mark huse => exact .mark huse
  | nonce value huse => exact .nonce value huse
  | touch huse hempty hclean => exact .touch huse hempty hclean
  | balance amount huse => exact .balance amount huse
  | create hnone hclean hhash hcode halive => exact .create hnone hclean hhash hcode halive
  | code code old huse hfree hdirty => exact .code code old huse hfree hdirty
  | storage key value huse => exact .storage key value huse
  | pop hlog hrest huse => exact .pop hlog (hfloor.trans hrest) huse
  | reset hpatch => exact .reset hpatch
  | rolledBack hrest => exact .rolledBack (hfloor.trans hrest)

theorem Steps.mono {floor' : Nat} (hfloor : floor' ≤ floor) (hsteps : Steps P floor w w') :
    Steps P floor' w w' :=
  Relation.ReflTransGen.mono (fun _ _ hstep => Step.mono hfloor hstep) _ _ hsteps

end Skaled
