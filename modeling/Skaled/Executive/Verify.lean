import Skaled.Executive.Executive
import Skaled.State.Payments

/-! # What verification promises

A transaction that passed `Executive::verifyTransaction` has the right nonce,
its sender can pay for it as far as the check computes the price, and a zero
signature comes without value, gas price and nonce. Verification leaves the
state as it is, up to cached accounts.
-/

namespace Skaled

open State

variable {u : Unit}

theorem require_eq_ok {condition : Bool} {e : Failure} {s s' : State} :
    require condition e s = .ok u s' ↔ condition = true ∧ s' = s := by
  unfold require
  cases condition
  · simp [EStateM.throw_apply]
  · simp [EStateM.pure_apply, eq_comm]

variable {env : EnvInfo} {t : Transaction} {s s' : State}

theorem assert_eq_ok {condition : Bool} :
    State.assert condition s = .ok u s' ↔ condition = true ∧ s' = s := by
  unfold State.assert
  cases condition
  · simp [EStateM.throw_apply]
  · simp [EStateM.pure_apply, eq_comm]

/-- A zero signature is accepted only after the experimental fork, and only on
a transaction that costs nothing. -/
def ZeroSignatureOk (env : EnvInfo) (t : Transaction) : Prop :=
  t.hasZeroSignature = true → env.chainParams.experimentalForkBlock ≤ env.number ∧
    t.value = 0 ∧ t.ownGasPrice = 0 ∧ t.nonce = 0

theorem sealVerifyTransaction_ok (h : sealVerifyTransaction env t s = .ok u s') :
    s' = s ∧ ZeroSignatureOk env t := by
  unfold sealVerifyTransaction checkChainId at h
  simp only [EStateM.bind_eq_ok, require_eq_ok] at h
  obtain ⟨_, _, ⟨_, rfl⟩, _, _, ⟨hearly, rfl⟩, _, _, ⟨hzero, rfl⟩, _, _, ⟨_, rfl⟩, _, _, ⟨_, rfl⟩,
    _, _, ⟨_, rfl⟩, _, _, ⟨_, rfl⟩, _, hs⟩ := h
  refine ⟨hs, fun hsignature => ?_⟩
  have hfork : env.chainParams.experimentalForkBlock ≤ env.number := by
    simpa [hsignature] using hearly
  refine ⟨hfork, ?_⟩
  simpa [hsignature, hfork, and_assoc] using hzero

variable [Keccak]

/-- What a transaction that passed the checks satisfies. -/
structure Verified (env : EnvInfo) (t : Transaction) (allowFuture external : Bool) (s : State) :
    Prop where
  gasChecked : t.hasExternalGas = .ok external
  notInvalid : t.isInvalid = false
  zeroSignature : ZeroSignatureOk env t
  nonce : t.hasSignature = true → t.hasZeroSignature = false → allowFuture = false →
    t.nonce = s.view.nonce t.sender
  cash : t.hasZeroSignature = false →
    t.value.toNat + (if external then 0 else (t.gas * t.gasPrice).toNat) ≤
      (s.view.balance t.sender).toNat

theorem verifyNonce_ok {allowFuture : Bool} (h : Good s)
    (hrun : verifyNonce t allowFuture s = .ok u s') :
    Reloads s s' ∧
      (t.hasSignature = true → allowFuture = false → t.nonce = s.view.nonce t.sender) := by
  unfold verifyNonce at hrun
  split at hrun
  next hsignature =>
    obtain ⟨s₁, hnonce, hreloads⟩ := getNonce_run h.coherent t.sender
    rw [EStateM.bind_apply, hnonce] at hrun
    obtain ⟨hcheck, rfl⟩ := require_eq_ok.mp hrun
    refine ⟨hreloads, fun _ hfuture => ?_⟩
    simpa [hfuture] using hcheck
  next hsignature =>
    cases hrun
    exact ⟨.refl h.coherent, fun hs => absurd hs hsignature⟩

theorem verifyCash_ok {external : Bool} (h : Good s) (hrun : verifyCash t external s = .ok u s') :
    Reloads s s' ∧ t.value.toNat + (if external then 0 else (t.gas * t.gasPrice).toNat) ≤
      (s.view.balance t.sender).toNat := by
  unfold verifyCash at hrun
  obtain ⟨s₁, hbalance, hreloads⟩ := balance_run h.coherent t.sender
  rw [EStateM.bind_apply, hbalance] at hrun
  obtain ⟨hcheck, rfl⟩ := require_eq_ok.mp hrun
  exact ⟨hreloads, of_decide_eq_true hcheck⟩

theorem verifyTransaction_ok {gasPrice : U256} {allowFuture : Bool} (h : Good s)
    (hrun : verifyTransaction env t gasPrice allowFuture s = .ok u s') :
    Reloads s s' ∧ ∃ external, Verified env t allowFuture external s := by
  unfold verifyTransaction at hrun
  cases hexternal : t.hasExternalGas with
  | error e =>
    rw [hexternal] at hrun
    cases hrun
  | ok external =>
    simp only [hexternal, pure_bind, EStateM.bind_eq_ok, require_eq_ok, assert_eq_ok] at hrun
    obtain ⟨_, _, ⟨hvalid, rfl⟩, _, _, ⟨_, rfl⟩, _, s₁, hseal, hrun⟩ := hrun
    obtain ⟨rfl, hzero⟩ := sealVerifyTransaction_ok hseal
    have hinvalid : t.isInvalid = false := by simpa using hvalid
    by_cases hsignature : t.hasZeroSignature = true
    · rw [if_pos hsignature] at hrun
      cases hrun
      exact ⟨.refl h.coherent, external, hexternal, hinvalid, hzero,
        fun _ hfalse => absurd (hsignature.symm.trans hfalse) (by decide),
        fun hfalse => absurd (hsignature.symm.trans hfalse) (by decide)⟩
    · rw [if_neg hsignature, EStateM.bind_eq_ok] at hrun
      obtain ⟨_, s₂, hnonce, hcash⟩ := hrun
      obtain ⟨hreloads, hnonce⟩ := verifyNonce_ok h hnonce
      obtain ⟨hreloads', hcash⟩ := verifyCash_ok (h.reloads hreloads) hcash
      rw [(hreloads.keeps h t.sender).2] at hcash
      exact ⟨hreloads.trans hreloads', external, hexternal, hinvalid, hzero,
        fun hs _ => hnonce hs, fun _ => hcash⟩

end Skaled
