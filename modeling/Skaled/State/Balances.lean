import Skaled.State.Payments

/-! # Balances and initial funds

An account that is not in use has the initial funds: `balance` reads them, and a creation
puts them into the new account. `setBalance` and `subBalance` look at the account itself
and take a missing one to have nothing.
-/

namespace Skaled.State

open EStateM (bind_apply get_apply)
open Function (update update_of_ne update_self)

variable [Keccak] {s : State} {a b : Address} {v : U256}

def readBalance (s : State) (a : Address) : Option U256 := (balance a s).value?

/-- The operations agree with `balance`: one sets it, one takes from it or refuses, and
one moves an amount to another address. -/
structure RespectsFunds (s : State) (a b : Address) (v : U256) : Prop where
  set : ∃ s', setBalance a v s = .ok () s' ∧ s'.readBalance a = some v
  sub : ∀ funds, s.readBalance a = some funds →
    ((∃ s', subBalance a v s = .error .notEnoughCash s') ↔ funds < v) ∧
      (v ≤ funds → ∃ s', subBalance a v s = .ok () s' ∧ s'.readBalance a = some (funds - v))
  transfer : a ≠ b → ∀ funds funds', s.readBalance a = some funds →
    s.readBalance b = some funds' → v ≤ funds → funds'.toNat + v.toNat < 2 ^ 256 →
    ∃ s', transferBalance a b v s = .ok () s' ∧ s'.readBalance a = some (funds - v) ∧
      s'.readBalance b = some (funds' + v) ∧
      ∀ c, c ≠ a → c ≠ b → s'.readBalance c = s.readBalance c

theorem readBalance_eq (h : Good s) (a : Address) : s.readBalance a = some (s.view.balance a) := by
  obtain ⟨s', hrun, -⟩ := balance_run h.coherent a
  rw [readBalance, hrun]
  rfl

theorem balance_of_find_none (hfind : s.find a = none) : s.view.balance a = s.initialFunds := by
  simp [World.balance, view, hfind]

theorem balance_of_find_some {acc : Account} (hfind : s.find a = some acc) :
    s.view.balance a = acc.balance := by
  simp [World.balance, view, hfind, infoOf]

theorem find_of_keeps {s' : State} (h : Keeps b s s') (hfind : s'.find a = none) :
    s.find a = none := by
  rw [← Option.not_isSome_iff_eq_none, ← view_isSome] at hfind ⊢
  exact fun huse => hfind (h.inUse a huse)

/-- `setBalance` adds what is missing to the balance of the account itself. -/
theorem setBalance_bind (h : Good s) (a : Address) (v : U256) :
    ∃ s₁, setBalance a v s = addBalance a (v - (s.find a).elim 0 Account.balance) s₁ ∧
      Reloads s s₁ ∧ s₁.cache.lookup a = s.find a := by
  obtain ⟨s₁, hrun, hreloads, hcached⟩ := account_bind h.coherent a _
  refine ⟨s₁, hrun.trans ?_, hreloads, hcached⟩
  cases s.find a with
  | none | some acc => rfl

theorem setBalance_pays (h : Good s) (hstart : s.find a = none → s.accountStartNonce ≠ invalid256)
    (v : U256) :
    ∃ s', setBalance a v s = .ok () s' ∧ Keeps a s s' ∧
      s'.view.balance a = if (s.find a).isSome then v else s.initialFunds + v := by
  obtain ⟨s₁, hrun, hreloads, -⟩ := setBalance_bind h a v
  obtain ⟨hkeeps, hbalance⟩ := hreloads.keeps h a
  obtain ⟨s₂, hrun₂, hkeeps₂, hbalance₂⟩ := addBalance_pays hkeeps.good a
    (fun hnone => hkeeps.startNonce ▸ hstart (find_of_keeps hkeeps hnone)) _
  refine ⟨s₂, hrun.trans hrun₂, hkeeps.trans hkeeps₂, ?_⟩
  rw [hbalance₂, hbalance, update_self]
  cases hfind : s.find a with
  | some acc => simp [balance_of_find_some hfind]
  | none => simp [balance_of_find_none hfind]

/-- Without a start nonce no account can be created. -/
theorem addBalance_fails (h : Good s) (hfind : s.find a = none)
    (hstart : s.accountStartNonce = invalid256) (amount : U256) :
    ∃ s', addBalance a amount s = .error .invalidAccountStartNonceInState s' := by
  obtain ⟨s₁, hrun, hreloads, -⟩ := account_run h.coherent a
  have hstart₁ : s₁.accountStartNonce = invalid256 :=
    hreloads.forgets.rest.startNonce.trans hstart
  refine ⟨s₁, ?_⟩
  unfold addBalance
  rw [bind_apply, hrun, hfind]
  simp only [bind_apply, requireAccountStartNonce, get_apply, hstart₁, if_true]
  rfl

theorem setBalance_fails (h : Good s) (hfind : s.find a = none)
    (hstart : s.accountStartNonce = invalid256) (v : U256) :
    ∃ s', setBalance a v s = .error .invalidAccountStartNonceInState s' := by
  obtain ⟨s₁, hrun, hreloads, hcached⟩ := setBalance_bind h a v
  rw [hrun]
  exact addBalance_fails (h.reloads hreloads) ((find_eq_of_reloads hreloads hcached).trans hfind)
    (hreloads.forgets.rest.startNonce.trans hstart) _

/-- A payment moves the amount if the receiver is in use or can be created. -/
theorem transferBalance_pays (h : Good s) (hne : a ≠ b) (huse : v = 0 ∨ (s.find a).isSome)
    (hle : v ≤ s.view.balance a) (hstart : s.find b = none → s.accountStartNonce ≠ invalid256) :
    ∃ s', transferBalance a b v s = .ok () s' ∧ Good s' ∧
      s'.view.balance = update (update s.view.balance a (s.view.balance a - v))
        b (s.view.balance b + v) := by
  rw [← view_isSome] at huse
  obtain ⟨s₁, hrun, hkeeps, hbalance⟩ := subBalance_pays h huse hle
  obtain ⟨s₂, hrun₂, hkeeps₂, hbalance₂⟩ := addBalance_pays hkeeps.good b
    (fun hnone => hkeeps.startNonce ▸ hstart (find_of_keeps hkeeps hnone)) v
  refine ⟨s₂, ?_, hkeeps₂.good, ?_⟩
  · rw [transferBalance, bind_apply, hrun]
    exact hrun₂
  · rw [hbalance₂, hbalance, update_of_ne hne.symm]

theorem setBalance_respects_iff (h : Good s) :
    (∃ s', setBalance a v s = .ok () s' ∧ s'.readBalance a = some v) ↔
      (s.find a).isSome ∨ s.initialFunds = 0 ∧ s.accountStartNonce ≠ invalid256 := by
  constructor
  · rintro ⟨s', hrun, hvalue⟩
    cases hfind : s.find a with
    | some acc => exact .inl rfl
    | none =>
      have hstart : s.accountStartNonce ≠ invalid256 := fun hinvalid => by
        obtain ⟨s'', hfails⟩ := setBalance_fails h hfind hinvalid v
        exact nomatch hfails.symm.trans hrun
      obtain ⟨s'', hrun', hkeeps, hbalance⟩ := setBalance_pays h (fun _ => hstart) v
      obtain rfl : s'' = s' := (EStateM.Result.ok.inj (hrun'.symm.trans hrun)).2
      rw [readBalance_eq hkeeps.good, hbalance, hfind] at hvalue
      exact .inr ⟨add_eq_right.mp (Option.some.inj hvalue), hstart⟩
  · intro hset
    obtain ⟨s', hrun, hkeeps, hvalue⟩ := @setBalance_pays _ s a h
      (fun hnone => (hset.resolve_left (by simp [hnone])).2) v
    refine ⟨s', hrun, ?_⟩
    rw [readBalance_eq hkeeps.good, hvalue]
    split
    next => rfl
    next hnone => rw [(hset.resolve_left hnone).1, zero_add]

theorem subBalance_respects (h : Good s)
    (huse : v ≤ s.view.balance a → v = 0 ∨ (s.find a).isSome) :
    ((∃ s', subBalance a v s = .error .notEnoughCash s') ↔ s.view.balance a < v) ∧
      (v ≤ s.view.balance a → ∃ s', subBalance a v s = .ok () s' ∧
        s'.readBalance a = some (s.view.balance a - v)) := by
  have hpays : v ≤ s.view.balance a → ∃ s', subBalance a v s = .ok () s' ∧
      s'.readBalance a = some (s.view.balance a - v) := by
    intro hle
    obtain ⟨s', hrun, hkeeps, hvalue⟩ := subBalance_pays h (view_isSome s a ▸ huse hle) hle
    refine ⟨s', hrun, ?_⟩
    rw [readBalance_eq hkeeps.good, hvalue, update_self]
  refine ⟨⟨fun ⟨s', hrun⟩ => ?_, fun hlt => ?_⟩, hpays⟩
  · by_contra hnot
    obtain ⟨s'', hrun', -⟩ := hpays (BitVec.not_lt.mp hnot)
    exact nomatch hrun'.symm.trans hrun
  · have hvalue : v ≠ 0 := fun hzero => BitVec.not_lt_zero (hzero ▸ hlt)
    obtain ⟨s', hrun, -⟩ := subBalance_fails h hvalue (.inr hlt)
    exact ⟨s', hrun⟩

theorem transferBalance_respects (h : Good s) (hne : a ≠ b) (huse : v = 0 ∨ (s.find a).isSome)
    (hle : v ≤ s.view.balance a) (hstart : s.find b = none → s.accountStartNonce ≠ invalid256) :
    ∃ s', transferBalance a b v s = .ok () s' ∧
      s'.readBalance a = some (s.view.balance a - v) ∧
      s'.readBalance b = some (s.view.balance b + v) ∧
      ∀ c, c ≠ a → c ≠ b → s'.readBalance c = s.readBalance c := by
  obtain ⟨s', hrun, hgood, hvalue⟩ := transferBalance_pays h hne huse hle hstart
  refine ⟨s', hrun, ?_, ?_, fun c hca hcb => ?_⟩
  · rw [readBalance_eq hgood, hvalue, update_of_ne hne, update_self]
  · rw [readBalance_eq hgood, hvalue, update_self]
  · rw [readBalance_eq hgood, readBalance_eq h, hvalue, update_of_ne hcb, update_of_ne hca]

/-- A payment cannot create its receiver without a start nonce. -/
theorem transferBalance_fails (h : Good s) (hsome : (s.find a).isSome)
    (hle : v ≤ s.view.balance a) (hnone : s.find b = none)
    (hstart : s.accountStartNonce = invalid256) :
    ∃ s', transferBalance a b v s = .error .invalidAccountStartNonceInState s' := by
  have hne : b ≠ a := fun heq => by simp [← heq, hnone] at hsome
  obtain ⟨s₁, hsub, hkeeps, -⟩ := subBalance_pays h (.inr (view_isSome s a ▸ hsome)) hle
  have hnone₁ : s₁.find b = none := by
    rw [← Option.not_isSome_iff_eq_none, ← view_isSome] at hnone ⊢
    rwa [hkeeps.others b hne]
  obtain ⟨s₂, hadd⟩ := addBalance_fails hkeeps.good hnone₁ (hkeeps.startNonce.trans hstart) v
  refine ⟨s₂, ?_⟩
  rw [transferBalance, bind_apply, hsub]
  exact hadd

/-- An account that is not in use breaks the operations, unless the initial funds are
zero. Creating an account needs a start nonce on top. -/
theorem respectsFunds_iff (h : Good s) :
    RespectsFunds s a b v ↔
      ((s.find a).isSome ∨ s.initialFunds = 0 ∧ s.accountStartNonce ≠ invalid256) ∧
        ((s.find b).isSome ∨ s.accountStartNonce ≠ invalid256 ∨ s.view.balance a < v ∨
          2 ^ 256 ≤ (s.view.balance b).toNat + v.toNat) := by
  have hread := readBalance_eq h
  constructor
  · intro hrespects
    have hset := (setBalance_respects_iff h).mp hrespects.set
    refine ⟨hset, ?_⟩
    by_contra hcontra
    obtain ⟨hnone, hstart, hle, hsum⟩ : s.find b = none ∧ s.accountStartNonce = invalid256 ∧
        v ≤ s.view.balance a ∧ (s.view.balance b).toNat + v.toNat < 2 ^ 256 := by
      simpa [not_or] using hcontra
    have hsome : (s.find a).isSome := hset.resolve_right fun hzero => hzero.2 hstart
    have hne : a ≠ b := fun heq => by simp [heq, hnone] at hsome
    obtain ⟨s', hrun, -⟩ := hrespects.transfer hne _ _ (hread a) (hread b) hle hsum
    obtain ⟨s'', hfails⟩ := transferBalance_fails h hsome hle hnone hstart
    exact nomatch hfails.symm.trans hrun
  · rintro ⟨hset, htransfer⟩
    have huse : v ≤ s.view.balance a → v = 0 ∨ (s.find a).isSome := by
      intro hle
      by_cases hsome : (s.find a).isSome
      · exact .inr hsome
      · rw [balance_of_find_none (Option.not_isSome_iff_eq_none.mp hsome),
          (hset.resolve_left hsome).1] at hle
        exact .inl (BitVec.le_zero_iff.mp hle)
    refine ⟨(setBalance_respects_iff h).mpr hset, fun funds hfunds => ?_,
      fun hne funds funds' hfunds hfunds' hle hsum => ?_⟩
    · obtain rfl : s.view.balance a = funds := Option.some.inj ((hread a).symm.trans hfunds)
      exact subBalance_respects h huse
    · obtain rfl : s.view.balance a = funds := Option.some.inj ((hread a).symm.trans hfunds)
      obtain rfl : s.view.balance b = funds' := Option.some.inj ((hread b).symm.trans hfunds')
      refine transferBalance_respects h hne (huse hle) hle fun hnone => ?_
      rcases htransfer with hsome | hstart | hlt | hover
      · simp [hnone] at hsome
      · exact hstart
      · exact absurd hle (BitVec.not_le.mpr hlt)
      · exact absurd hsum (Nat.not_lt.mpr hover)

omit [Keccak] in
/-- An account of the database has 5 and pays 3 to an address that is not in use and has
the initial funds of 7. -/
theorem respectsFunds_sample :
    letI := sampleKeccak
    let s : State := { sampleSaved with initialFunds := 7 }
    s.readBalance 1 = some 5 ∧ s.readBalance 2 = some 7 ∧ RespectsFunds s 1 2 3 := by
  let _ := sampleKeccak
  exact ⟨rfl, rfl, (respectsFunds_iff (sampleSaved_sound 7).good).mpr
    ⟨.inl rfl, .inr (.inl (by decide))⟩⟩

omit [Keccak] in
/-- With initial funds of 5 at an address that is not in use, a balance that is set to 7
becomes 12, and 3 cannot be taken. -/
theorem not_respectsFunds :
    letI := sampleKeccak
    let s : State := { sampleState with initialFunds := 5 }
    s.readBalance 1 = some 5 ∧
      ((do setBalance 1 7; balance 1 : M U256) s).value? = some 12 ∧
      (subBalance 1 3 s).value? = none ∧ ¬RespectsFunds s 1 2 7 := by
  let _ := sampleKeccak
  refine ⟨rfl, rfl, rfl, fun h => ?_⟩
  obtain ⟨s', hrun, hvalue⟩ := h.set
  cases hrun
  exact absurd hvalue (by decide)

end Skaled.State
