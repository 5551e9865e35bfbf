import Skaled.Executive.Verify
import Skaled.Lib.Ledger

/-! # Buying gas

A transaction pays for all its gas when it starts; at its end the gas that is
left is paid back and the rest goes to the author of the block. Balances are
added up over all addresses as natural numbers, an address without an account
counting with the funds a new account would have.

The check that the sender can pay multiplies before it widens, so it promises
what it should only while the price of the gas is below 2 ^ 256.
-/

namespace Skaled

namespace State

variable [Keccak] {s s' : State}

noncomputable def totalBalance (s : State) : Nat :=
  Ledger.total fun a => (s.view.balance a).toNat

theorem totalBalance_congr (h : s'.view.balance = s.view.balance) :
    s'.totalBalance = s.totalBalance := by
  rw [totalBalance, totalBalance, h]

theorem balance_le_total (s : State) (a : Address) : (s.view.balance a).toNat ≤ s.totalBalance :=
  Ledger.le_total (fun a => (s.view.balance a).toNat) a

theorem totalBalance_update {a : Address} {amount : U256}
    (h : s'.view.balance = Function.update s.view.balance a amount) :
    s'.totalBalance + (s.view.balance a).toNat = s.totalBalance + amount.toNat := by
  have hupdate : (fun b => (s'.view.balance b).toNat) =
      Function.update (fun b => (s.view.balance b).toNat) a amount.toNat := by
    funext b
    rw [h]
    by_cases hb : b = a
    · simp [hb]
    · simp [Function.update_of_ne hb]
  rw [totalBalance, hupdate]
  exact Ledger.total_update _ a amount.toNat

/-- Paying an amount that fits raises the sum of all balances by it. -/
theorem totalBalance_pay {a : Address} {amount : U256}
    (h : s'.view.balance = Function.update s.view.balance a (s.view.balance a + amount))
    (hfits : s.totalBalance + amount.toNat < 2 ^ 256) :
    s'.totalBalance = s.totalBalance + amount.toNat ∧
      (s'.view.balance a).toNat = (s.view.balance a).toNat + amount.toNat := by
  have hle := s.balance_le_total a
  have hadd : (s.view.balance a + amount).toNat = (s.view.balance a).toNat + amount.toNat :=
    BitVec.toNat_add_of_lt (by omega)
  have htotal := totalBalance_update h
  rw [hadd] at htotal
  refine ⟨by omega, ?_⟩
  rw [h, Function.update_self, hadd]

end State

namespace Executive

open State

section

variable [Keccak] {env : EnvInfo} {e : Executive} {t : Transaction} {s s' : State} {gasLeft : U256}

/-- The payments of a transaction that ends with `gasLeft`: those of `execute`
and of `finalize`, behind the verification. -/
def buyGas (env : EnvInfo) (e : Executive) (t : Transaction) (gasLeft : U256) : M Unit := do
  let e ← e.initializeFor env t
  e.payForGas t
  ({ e with gas := gasLeft } : Executive).payFees env t

/-- The two payments at the end, after the price of all gas was taken. -/
theorem payFees_total (env : EnvInfo) (h : Good s) (hstart : s.accountStartNonce ≠ invalid256)
    (hleft : e.gas ≤ t.gas) (hprice : t.gas.toNat * t.gasPrice.toNat < 2 ^ 256)
    (hfunds : s.totalBalance + t.gas.toNat * t.gasPrice.toNat < 2 ^ 256) :
    ∃ s', e.payFees env t s = .ok () s' ∧
      s'.totalBalance = s.totalBalance + t.gas.toNat * t.gasPrice.toNat ∧
      (s'.view.balance t.sender).toNat ≤
        (s.view.balance t.sender).toNat + t.gas.toNat * t.gasPrice.toNat := by
  -- both products are at most the price of all gas
  have hle : e.gas.toNat ≤ t.gas.toNat := hleft
  have hback : (e.gas * t.gasPrice).toNat = e.gas.toNat * t.gasPrice.toNat := by
    rw [BitVec.toNat_mul, Nat.mod_eq_of_lt]
    exact lt_of_le_of_lt (Nat.mul_le_mul_right _ hle) hprice
  have hfee : ((t.gas - e.gas) * t.gasPrice).toNat =
      (t.gas.toNat - e.gas.toNat) * t.gasPrice.toNat := by
    rw [BitVec.toNat_mul, BitVec.toNat_sub_of_le hleft, Nat.mod_eq_of_lt]
    exact lt_of_le_of_lt (Nat.mul_le_mul_right _ (Nat.sub_le _ _)) hprice
  have hsum : e.gas.toNat * t.gasPrice.toNat + (t.gas.toNat - e.gas.toNat) * t.gasPrice.toNat =
      t.gas.toNat * t.gasPrice.toNat := by
    rw [← Nat.add_mul, Nat.add_sub_cancel' hle]
  obtain ⟨s₁, hrun₁, hkeeps₁, hbalance₁⟩ :=
    addBalance_pays h t.sender (fun _ => hstart) (e.gas * t.gasPrice)
  obtain ⟨htotal₁, hsender₁⟩ := totalBalance_pay hbalance₁ (by omega)
  obtain ⟨s₂, hrun₂, _, hbalance₂⟩ := addBalance_pays hkeeps₁.good env.author
    (fun _ => hkeeps₁.startNonce ▸ hstart) ((t.gas - e.gas) * t.gasPrice)
  obtain ⟨htotal₂, hauthor₂⟩ := totalBalance_pay hbalance₂ (by omega)
  refine ⟨s₂, ?_, by omega, ?_⟩
  · unfold payFees
    rw [EStateM.bind_apply, hrun₁]
    exact hrun₂
  · by_cases heq : t.sender = env.author
    · rw [← heq] at hauthor₂
      omega
    · have hsender₂ : s₂.view.balance t.sender = s₁.view.balance t.sender := by
        rw [hbalance₂, Function.update_of_ne heq]
      rw [hsender₂]
      omega

/-- The payment at the start. A sender without an account is asked to pay from
its funds only when something has to be paid, and then cannot. -/
theorem payForGas_total (h : Good s) (hgas : t.hasExternalGas = .ok false)
    (hcost : e.gasCost ≤ s.view.balance t.sender) :
    (∃ s', e.payForGas t s = .error .notEnoughCash s' ∧ Reloads s s') ∨
      ∃ s', e.payForGas t s = .ok () s' ∧ State.Keeps t.sender s s' ∧
        s'.totalBalance + e.gasCost.toNat = s.totalBalance ∧
        (s'.view.balance t.sender).toNat + e.gasCost.toNat =
          (s.view.balance t.sender).toNat := by
  unfold payForGas
  rw [hgas]
  by_cases huse : e.gasCost = 0 ∨ (s.view.accounts t.sender).isSome
  · obtain ⟨s', hrun, hkeeps, hbalance⟩ := subBalance_pays h huse hcost
    have hle : e.gasCost.toNat ≤ (s.view.balance t.sender).toNat := hcost
    have hsub := BitVec.toNat_sub_of_le hcost
    have htotal := totalBalance_update hbalance
    have hall := s.balance_le_total t.sender
    refine .inr ⟨s', hrun, hkeeps, by omega, ?_⟩
    rw [hbalance, Function.update_self]
    omega
  · obtain ⟨hne, hnone⟩ := not_or.mp huse
    exact .inl (subBalance_fails h hne (.inl (Option.not_isSome_iff_eq_none.mp hnone)))

/-- What the check of the balance promises, as long as the price of the gas is
below 2 ^ 256. -/
theorem affordable (hgas : t.hasExternalGas = .ok false) (hverified : Verified env t false false s)
    (hprice : t.gas.toNat * t.gasPrice.toNat < 2 ^ 256) :
    t.value.toNat + t.gas.toNat * t.gasPrice.toNat ≤ (s.view.balance t.sender).toNat := by
  by_cases hzero : t.hasZeroSignature = true
  · obtain ⟨_, hvalue, hown, _⟩ := hverified.zeroSignature hzero
    have hgasPrice : t.gasPrice = t.ownGasPrice := by
      unfold Transaction.hasExternalGas at hgas
      unfold Transaction.gasPrice
      cases hexternal : t.externalGas with
      | none => rfl
      | some mined =>
        rw [hexternal] at hgas
        cases mined with
        | none => rfl
        | some _ => cases hgas
    rw [hgasPrice, hown, hvalue]
    simp
  · have hcash := hverified.cash (Bool.eq_false_iff.mpr hzero)
    rwa [if_neg Bool.false_ne_true, BitVec.toNat_mul, Nat.mod_eq_of_lt hprice] at hcash

theorem buyGas_conserves (h : Good s) (hstart : s.accountStartNonce ≠ invalid256)
    (hgas : t.hasExternalGas = .ok false)
    (hverify : verifyTransaction env t e.systemGasPrice false s = .ok () s')
    (hcash : t.value.toNat + t.gas.toNat * t.gasPrice.toNat ≤ (s.view.balance t.sender).toNat)
    (hfunds : s.totalBalance < 2 ^ 256) (hleft : gasLeft ≤ t.gas) :
    (e.buyGas env t gasLeft s).state.totalBalance = s.totalBalance ∧
      ((e.buyGas env t gasLeft s).state.view.balance t.sender).toNat ≤
        (s.view.balance t.sender).toNat := by
  obtain ⟨hreloads, _⟩ := verifyTransaction_ok h hverify
  obtain ⟨hkeeps, hbalance⟩ := hreloads.keeps h t.sender
  have hbound := (s.view.balance t.sender).isLt
  have hprice : t.gas.toNat * t.gasPrice.toNat < 2 ^ 256 := by omega
  have htotal := totalBalance_congr hbalance
  have hstart' := hkeeps.startNonce ▸ hstart
  generalize he : ({ e with
    t := some t
    baseGasRequired := t.baseGasRequired env.evmSchedule
    gasCost := BitVec.ofNat 256 (t.gas.toNat * t.gasPrice.toNat) } : Executive) = e'
  have hcost : e'.gasCost.toNat = t.gas.toNat * t.gasPrice.toNat := by
    rw [← he]
    exact Nat.mod_eq_of_lt hprice
  have hbuy : e.buyGas env t gasLeft s = (do
      e'.payForGas t
      ({ e' with gas := gasLeft } : Executive).payFees env t : M Unit) s' := by
    unfold buyGas initializeFor
    rw [EStateM.bind_apply, EStateM.bind_apply, hverify, ← he]
    rfl
  rw [hbuy, EStateM.bind_apply]
  have hpay : e'.gasCost ≤ s'.view.balance t.sender := by
    rw [BitVec.le_def, hcost, hbalance]
    omega
  obtain ⟨s₁, hrun, hreloads₁⟩ | ⟨s₁, hrun, hkeeps₁, htotal₁, hsender₁⟩ :=
    payForGas_total (e := e') hkeeps.good hgas hpay
  · have hbalance₁ := (hreloads₁.keeps hkeeps.good t.sender).2
    have hsame := hbalance₁.trans hbalance
    rw [hrun]
    exact ⟨totalBalance_congr hsame, (congrArg BitVec.toNat (congrFun hsame t.sender)).le⟩
  · obtain ⟨s₂, hrun₂, htotal₂, hsender₂⟩ := payFees_total
      (e := { e' with gas := gasLeft }) env hkeeps₁.good (hkeeps₁.startNonce ▸ hstart') hleft hprice
      (by omega)
    rw [hbalance] at hsender₁
    rw [hrun]
    dsimp only
    rw [hrun₂]
    exact ⟨by rw [EStateM.Result.state_ok]; omega, by rw [EStateM.Result.state_ok]; omega⟩

/-- Buying gas conserves money, and acceptance means what it should, exactly
when the price of the gas is below 2 ^ 256. -/
theorem buyGas_conserves_iff (h : Good s) (hstart : s.accountStartNonce ≠ invalid256)
    (hgas : t.hasExternalGas = .ok false)
    (hverify : verifyTransaction env t e.systemGasPrice false s = .ok () s')
    (hfunds : s.totalBalance < 2 ^ 256) (hleft : gasLeft ≤ t.gas) :
    (t.value.toNat + t.gas.toNat * t.gasPrice.toNat ≤ (s.view.balance t.sender).toNat ∧
      (e.buyGas env t gasLeft s).state.totalBalance = s.totalBalance ∧
      ((e.buyGas env t gasLeft s).state.view.balance t.sender).toNat ≤
        (s.view.balance t.sender).toNat) ↔
      t.gas.toNat * t.gasPrice.toNat < 2 ^ 256 := by
  constructor
  · rintro ⟨hcash, _, _⟩
    have hbound := (s.view.balance t.sender).isLt
    omega
  · intro hprice
    obtain ⟨_, external, hverified⟩ := verifyTransaction_ok h hverify
    obtain rfl : external = false := by
      have heq := hverified.gasChecked.symm.trans hgas
      exact Except.ok.inj heq
    have hcash := affordable hgas hverified hprice
    exact ⟨hcash, buyGas_conserves h hstart hgas hverify hcash hfunds hleft⟩

end

/-! ## Concrete purchases -/

/-- A state in which address 9 has some money and nobody else has any. -/
abbrev fundedState (amount : U256) : State :=
  letI := sampleKeccak
  (State.addBalance 9 amount sampleState).state

theorem fundedState_good (amount : U256) : letI := sampleKeccak; Good (fundedState amount) := by
  let _ := sampleKeccak
  exact (addBalance_runs (P := samplePatches) sampleState_sound.good amount).good

theorem fundedState_total (amount : U256) :
    letI := sampleKeccak; (fundedState amount).totalBalance = amount.toNat := by
  let _ := sampleKeccak
  have hzero : sampleState.totalBalance = 0 := finsum_zero
  obtain ⟨s', hrun, _, hbalance⟩ :=
    addBalance_pays sampleState_sound.good 9 (fun _ => by decide) amount
  have htotal := (totalBalance_pay hbalance (by rw [hzero, zero_add]; exact amount.isLt)).1
  rw [fundedState, hrun, EStateM.Result.state_ok, htotal, hzero, zero_add]

abbrev sampleEnv : EnvInfo :=
  { number := 1, author := 8, gasLimit := 1000000, patches := samplePatches
    chainParams := { experimentalForkBlock := 100 } }

/-- A message call of address 9, signed for the chain of the sample block. -/
abbrev sampleTransaction (gas gasPrice : U256) : Transaction :=
  { sender := 9, receiveAddress := 7, nonPowGas := gas, ownGasPrice := gasPrice,
    signature := some ⟨1, 1⟩, chainId := some 0 }

theorem buyGas_conserves_sample :
    letI := sampleKeccak
    let t := sampleTransaction 21000 2
    let s := fundedState 100000
    (t.value.toNat + t.gas.toNat * t.gasPrice.toNat ≤ (s.view.balance t.sender).toNat ∧
      (({} : Executive).buyGas sampleEnv t 1000 s).state.totalBalance = s.totalBalance ∧
      ((({} : Executive).buyGas sampleEnv t 1000 s).state.view.balance t.sender).toNat ≤
        (s.view.balance t.sender).toNat) ↔
      t.gas.toNat * t.gasPrice.toNat < 2 ^ 256 := by
  let _ := sampleKeccak
  have hverify : (verifyTransaction sampleEnv (sampleTransaction 21000 2) 0 false
      (fundedState 100000)).value? = some () := by decide +kernel
  obtain ⟨s', hrun⟩ := EStateM.Result.value?_eq_some.mp hverify
  refine buyGas_conserves_iff (fundedState_good 100000) (by decide +kernel) rfl hrun ?_ (by decide)
  rw [fundedState_total]
  decide

/-- With 2 ^ 16 gas at a price of 2 ^ 240 the check of the balance multiplies to
zero. The sender pays nothing and is paid back for the gas that is left. -/
theorem buyGas_mints :
    letI := sampleKeccak
    let t := sampleTransaction (2 ^ 16) (2 ^ 240)
    let s := fundedState 5
    let s' := (({} : Executive).buyGas sampleEnv t 44536 s).state
    Good s ∧ s.totalBalance < 2 ^ 256 ∧ t.hasExternalGas = .ok false ∧ 44536 ≤ t.gas ∧
      t.gas ≤ sampleEnv.gasLimit ∧ t.baseGasRequired sampleEnv.evmSchedule ≤ t.gas.toNat ∧
      (verifyTransaction sampleEnv t 0 false s).value? = some () ∧
      (({} : Executive).buyGas sampleEnv t 44536 s).value? = some () ∧
      (s.view.balance t.sender).toNat < t.value.toNat + t.gas.toNat * t.gasPrice.toNat ∧
      s.totalBalance < s'.totalBalance ∧
      (s.view.balance t.sender).toNat < (s'.view.balance t.sender).toNat := by
  let _ := sampleKeccak
  have hpaid : ((({} : Executive).buyGas sampleEnv (sampleTransaction (2 ^ 16) (2 ^ 240)) 44536
      (fundedState 5)).state.view.balance 9).toNat = 5 + 44536 * 2 ^ 240 := by decide +kernel
  refine ⟨fundedState_good 5, ?_, rfl, by decide, by decide, by decide +kernel,
    by decide +kernel, by decide +kernel, by decide +kernel, ?_, by decide +kernel⟩
  · rw [fundedState_total]
    decide
  · have hle := balance_le_total (({} : Executive).buyGas sampleEnv
      (sampleTransaction (2 ^ 16) (2 ^ 240)) 44536 (fundedState 5)).state 9
    rw [hpaid] at hle
    rw [fundedState_total]
    exact lt_of_lt_of_le (by decide) hle

end Executive

end Skaled
