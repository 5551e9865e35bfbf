import Skaled.State.Operations

/-! # Payments

The exact effect of `addBalance` and `subBalance` on balances: one balance
changes, and accounts that do not exist read as new ones, so that creating one is
not seen.
-/

namespace Skaled

open Function (update)

variable [Keccak]

namespace World

omit [Keccak] in
/-- One update of the accounts, seen through a default for absent ones. -/
theorem getD_map_update {α : Type} {a : Address} {accounts : Address → Option AccountInfo}
    {info : AccountInfo} (f : AccountInfo → α) (default : α) :
    (fun b => ((update accounts a (some info) b).map f).getD default) =
      update (fun b => ((accounts b).map f).getD default) a (f info) := by
  funext b
  by_cases hb : b = a
  · subst hb
    simp
  · simp [Function.update_of_ne hb]

variable (w : World) (a : Address) (amount : U256)

theorem addBalance_rest :
    (w.addBalance a amount).funds = w.funds ∧
      (w.addBalance a amount).startNonce = w.startNonce := by
  unfold addBalance
  cases w.accounts a with
  | none =>
    dsimp only
    split <;> exact ⟨rfl, rfl⟩
  | some info =>
    dsimp only
    split <;> split <;> exact ⟨rfl, rfl⟩

/-- The account after `addBalance`: a new one if there was none. -/
def credited : AccountInfo :=
  match w.accounts a with
  | some info => { info with balance := info.balance + amount }
  | none => ⟨true, w.startNonce, w.funds + amount, emptySHA3, []⟩

theorem addBalance_accounts :
    (w.addBalance a amount).accounts =
      update w.accounts a (some (w.credited a amount)) := by
  unfold addBalance credited
  cases w.accounts a with
  | none =>
    dsimp only
    split <;> rfl
  | some info =>
    dsimp only
    split <;> split <;> rfl

/-- Crediting an account changes its balance. -/
theorem addBalance_balance :
    (w.addBalance a amount).balance = update w.balance a (w.balance a + amount) := by
  unfold balance
  rw [w.addBalance_accounts a amount, (w.addBalance_rest a amount).1, getD_map_update]
  unfold credited
  cases w.accounts a <;> simp

end World

namespace State

variable {P : Patches} {s s' s'' : State} {a : Address}

/-- What a payment to or from an address leaves alone. -/
structure Keeps (a : Address) (s s' : State) : Prop where
  good : Good s'
  inUse : ∀ b, (s.view.accounts b).isSome → (s'.view.accounts b).isSome
  others : ∀ b, b ≠ a → (s'.view.accounts b).isSome = (s.view.accounts b).isSome
  startNonce : s'.accountStartNonce = s.accountStartNonce

theorem Keeps.refl (h : Good s) : Keeps a s s := ⟨h, fun _ hb => hb, fun _ _ => rfl, rfl⟩

theorem Keeps.trans (h : Keeps a s s') (h' : Keeps a s' s'') : Keeps a s s'' :=
  ⟨h'.good, fun b hb => h'.inUse b (h.inUse b hb),
    fun b hb => (h'.others b hb).trans (h.others b hb), h'.startNonce.trans h.startNonce⟩

theorem Forgets.balance_eq {w w' : World} (h : Forgets w w') (hw : AccountsOk w) :
    w'.balance = w.balance := by
  funext a
  have hbalance := congrArg (Option.map (·.balance)) ((h.accounts_eq hw).2 a)
  simp only [Option.map_map] at hbalance
  unfold World.balance
  rw [h.rest.funds]
  exact congrArg (·.getD w.funds) hbalance

theorem Reloads.keeps (h : Good s) (hreloads : Reloads s s') (a : Address) :
    Keeps a s s' ∧ s'.view.balance = s.view.balance := by
  have hsome := hreloads.forgets.isSome_eq h.accounts
  exact ⟨⟨h.reloads hreloads, fun b hb => (hsome b).trans hb, fun b _ => hsome b,
    hreloads.forgets.rest.startNonce⟩, hreloads.forgets.balance_eq h.accounts⟩

theorem addBalance_run (h : Good s) (a : Address)
    (hstart : s.find a = none → s.accountStartNonce ≠ invalid256) (amount : U256) :
    ∃ s' w, addBalance a amount s = .ok () s' ∧ Forgets s.view w ∧
      s'.view = w.addBalance a amount := by
  cases hfind : s.find a with
  | some acc =>
    obtain ⟨s', w, hrun, _, _, hforgets, hview, _⟩ := addBalance_run_some h hfind amount
    exact ⟨s', w, hrun, hforgets, hview⟩
  | none =>
    obtain ⟨s', w, hrun, _, _, hforgets, hview, _⟩ :=
      addBalance_run_none h hfind (hstart hfind) amount
    exact ⟨s', w, hrun, hforgets, hview⟩

/-- `addBalance` returns and changes one balance. A new account needs a start nonce. -/
theorem addBalance_pays (h : Good s) (a : Address)
    (hstart : s.find a = none → s.accountStartNonce ≠ invalid256) (amount : U256) :
    ∃ s', addBalance a amount s = .ok () s' ∧ Keeps a s s' ∧
      s'.view.balance = update s.view.balance a (s.view.balance a + amount) := by
  obtain ⟨s', w, hrun, hforgets, hview⟩ := addBalance_run h a hstart amount
  have hgood : Good s' := by
    have hmoves := addBalance_runs (P := samplePatches) (a := a) h amount
    rw [Runs, hrun] at hmoves
    exact hmoves.good
  have hstart' := (w.addBalance_rest a amount).2
  rw [← hview] at hstart'
  have hothers : ∀ b, b ≠ a → (s'.view.accounts b).isSome = (s.view.accounts b).isSome := by
    intro b hne
    rw [hview, w.addBalance_accounts, Function.update_of_ne hne, hforgets.isSome_eq h.accounts]
  refine ⟨s', hrun, ⟨hgood, fun b hb => ?_, hothers, hstart'.trans hforgets.rest.startNonce⟩, ?_⟩
  · by_cases heq : b = a
    · simp [hview, w.addBalance_accounts, heq]
    · exact (hothers b heq).trans hb
  · rw [hview, w.addBalance_balance, hforgets.balance_eq h.accounts]

theorem view_isSome (s : State) (a : Address) :
    (s.view.accounts a).isSome = (s.find a).isSome := Option.isSome_map

/-- `subBalance` returns when the account exists and can pay. -/
theorem subBalance_pays (h : Good s) {value : U256}
    (huse : value = 0 ∨ (s.view.accounts a).isSome) (hle : value ≤ s.view.balance a) :
    ∃ s', subBalance a value s = .ok () s' ∧ Keeps a s s' ∧
      s'.view.balance = update s.view.balance a (s.view.balance a - value) := by
  unfold subBalance
  by_cases hzero : value = 0
  · refine ⟨s, by rw [if_pos hzero]; rfl, .refl h, ?_⟩
    rw [hzero, sub_zero, Function.update_eq_self]
  · rw [if_neg hzero]
    obtain ⟨acc, hfind⟩ : ∃ acc, s.find a = some acc := by
      rw [← Option.isSome_iff_exists, ← view_isSome]
      exact huse.resolve_left hzero
    obtain ⟨s₁, hrun, hreloads, hcached⟩ := account_bind h.coherent a _
    obtain ⟨hkeeps, hbalance⟩ := hreloads.keeps h a
    have hfind₁ := find_eq_of_reloads hreloads hcached
    have hacc : s.view.balance a = acc.balance := by
      simp [World.balance, view, hfind, infoOf]
    rw [hacc] at hle
    obtain ⟨s₂, hrun₂, hkeeps₂, hbalance₂⟩ :=
      addBalance_pays hkeeps.good a (fun hnone => by cases hfind ▸ hfind₁ ▸ hnone) (0 - value)
    refine ⟨s₂, ?_, hkeeps.trans hkeeps₂, ?_⟩
    · rw [hrun, hfind]
      dsimp only
      rw [if_neg (BitVec.not_lt.mpr hle), hrun₂]
    · rw [hbalance₂, hbalance, zero_sub, ← sub_eq_add_neg]

/-- Otherwise it fails before anything is changed. -/
theorem subBalance_fails (h : Good s) {value : U256} (hvalue : value ≠ 0)
    (hpoor : s.view.accounts a = none ∨ s.view.balance a < value) :
    ∃ s', subBalance a value s = .error .notEnoughCash s' ∧ Reloads s s' := by
  unfold subBalance
  rw [if_neg hvalue]
  obtain ⟨s₁, hrun, hreloads, _⟩ := account_bind h.coherent a _
  refine ⟨s₁, ?_, hreloads⟩
  rw [hrun]
  cases hfind : s.find a with
  | none => rfl
  | some acc =>
    have hacc : s.view.balance a = acc.balance := by
      simp [World.balance, view, hfind, infoOf]
    have hlt : acc.balance < value := by
      obtain hnone | hlt := hpoor
      · simp [view, hfind] at hnone
      · rwa [hacc] at hlt
    dsimp only
    rw [if_pos hlt]
    rfl

end State

end Skaled
