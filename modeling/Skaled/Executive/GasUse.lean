import Skaled.Executive.Verify

/-! # Execution uses gas

A frame hands back at most the gas it was given, if the virtual machine does.
What a transaction has to pay in any case is gone before its first frame, and
refunds are at most half of what was used. So a transaction that is executed
uses some gas.
-/

namespace Skaled

open EStateM (Returns bind_eq_ok)
open BitVec (le_def le_refl le_trans lt_def toNat_ofNat toNat_sub)

/-- A run of the machine ends with at most `limit` gas, if the frames it starts
hand back no more than it gives them. -/
def Prog.GasAtMost (limit : U256) : Prog → Prop
  | .returned gas _ | .reverted gas _ => gas ≤ limit
  | .failed _ | .internalError => True
  | .query _ next => ∀ answer, (next answer).GasAtMost limit
  | .codeAt _ next => ∀ answer, (next answer).GasAtMost limit
  | .setStore _ _ next | .log _ _ next | .refund _ next | .suicide _ next => next.GasAtMost limit
  | .call _ _ _ gas _ next | .create _ _ gas _ next =>
    (next none).GasAtMost limit ∧
      ∀ result : FrameResult, result.gas ≤ gas → (next (some result)).GasAtMost limit

def Machine.Frugal (machine : Machine) : Prop :=
  ∀ ext gas, (machine.exec ext gas).GasAtMost gas

def Outcome.GasAtMost (limit : U256) : Outcome → Prop
  | .returned gas _ | .reverted gas _ => gas ≤ limit
  | .failed _ => True

theorem Outcome.GasAtMost.mono {outcome : Outcome} {limit limit' : U256}
    (h : outcome.GasAtMost limit) (hle : limit ≤ limit') : outcome.GasAtMost limit' := by
  cases outcome with
  | returned gas output | reverted gas output => exact le_trans h hle
  | failed exception => trivial

/-- The frames below do not make gas. -/
structure Nested.Frugal (nested : Nested) : Prop where
  call : ∀ {ext p s result s'}, nested.call ext p s = .ok result s' → result.gas ≤ p.gas
  create : ∀ {ext salt endowment gas init s result s'},
    nested.create ext salt endowment gas init s = .ok result s' → result.gas ≤ gas

variable [Keccak] {env : EnvInfo} {machine : Machine} {e : Executive} {t : Transaction}

namespace Executive

variable {nested : Nested} {ext : Ext}

theorem runProg_gas (hnested : nested.Frugal) {limit : U256} {prog : Prog}
    (hprog : prog.GasAtMost limit) (sub : SubState) :
    Returns (·.1.GasAtMost limit) (runProg env machine nested ext prog sub) := by
  induction prog generalizing sub with
  | returned gas output | reverted gas output => exact .pure hprog
  | failed exception => exact .pure trivial
  | internalError => exact .throw _
  | query question next ih | codeAt a next ih =>
    exact .of_bind fun answer => ih answer (hprog answer) sub
  | setStore key value next ih =>
    exact .of_bind fun _ => .ite (fun _ => ih hprog sub) fun _ => .pure trivial
  | log topics data next ih | refund amount next ih => exact ih hprog _
  | suicide beneficiary next ih => exact .of_bind fun _ => ih hprog _
  | call kind codeAddress value gas data next ih =>
    refine .of_bind fun _ => .ite (fun _ => ?_) fun _ => ih none hprog.1 sub
    exact .bind (fun _ _ _ => hnested.call) fun result hgas =>
      ih (some result) (hprog.2 result hgas) _
  | create salt endowment gas init next ih =>
    refine .of_bind fun _ => .ite (fun _ => ?_) fun _ => ih none hprog.1 sub
    exact .bind (fun _ _ _ => hnested.create) fun result hgas =>
      ih (some result) (hprog.2 result hgas) _

variable {gas gasPrice endowment : U256} {origin sender : Address} {init : Bytes}

theorem depositCode_gas (out : Bytes) :
    Returns (·.GasAtMost gas) (depositCode machine ext gas out) := by
  refine .ite (fun _ => .pure trivial) fun _ => .ite (fun hpaid => .of_bind fun _ => .pure ?_)
    fun _ => .ite (fun _ => .pure trivial) fun _ => .of_bind fun _ => .pure (le_refl gas)
  rw [Outcome.GasAtMost, le_def, toNat_sub, toNat_ofNat]
  have hgas := gas.isLt
  omega

theorem conclude_gas {outcome : Outcome} {limit : U256} (hgas : outcome.GasAtMost limit) :
    Returns (·.gas ≤ limit) (conclude env e outcome) := by
  cases outcome with
  | returned gas output => exact .pure hgas
  | reverted gas output => exact .of_bind fun _ => .pure hgas
  | failed exception => exact .of_bind fun _ => .pure (le_def.mpr (Nat.zero_le _))

theorem unexpected_returns {α : Type} (post : α → Prop) (failure : Failure) :
    Returns post (e.unexpected env failure) :=
  .ite (fun _ => .of_bind fun _ => .throw _) fun _ => .throw _

section

variable (hmachine : machine.Frugal) (hnested : nested.Frugal)

include hmachine hnested

theorem runInit_gas : Returns (·.1.GasAtMost gas) (runInit env machine nested ext gas) := by
  refine .of_bind fun answer => ?_
  obtain ⟨allowed, sub⟩ := answer
  refine .ite (fun _ => ?_) fun _ => .pure trivial
  refine .bind (runProg_gas hnested (hmachine ext gas) sub) fun result hgas => ?_
  obtain ⟨outcome, sub⟩ := result
  cases outcome with
  | returned left out =>
    exact .bind (depositCode_gas out) fun outcome hdeposit => .pure (hdeposit.mono hgas)
  | reverted left out => exact .pure hgas
  | failed exception => exact .pure trivial

theorem go_gas : Returns (·.gas ≤ e.gas) (go env machine nested e) := by
  unfold go
  cases e.ext with
  | none => exact .pure (le_refl _)
  | some ext =>
    have hframe : Returns (·.1.GasAtMost e.gas) (runFrame env machine nested e ext) :=
      .ite (fun _ => runInit_gas hmachine hnested)
        fun _ => runProg_gas hnested (hmachine ext e.gas) _
    exact .bind (.tryCatch hframe (unexpected_returns _)) fun result hgas => conclude_gas hgas

theorem goUnless_gas {done : Bool} : Returns (·.gas ≤ e.gas) (goUnless env machine nested e done) :=
  .ite (fun _ => .pure (le_refl _)) fun _ => go_gas hmachine hnested

theorem frameResult_gas {done : Bool} :
    Returns (·.gas ≤ e.gas) (frameResult env machine nested e done) :=
  .bind (goUnless_gas hmachine hnested) fun _ hgas => .pure hgas

end

/-! ## Setting up a frame -/

theorem call_gas {p : CallParameters} (hgas : e.gas = 0) :
    Returns (·.1.gas ≤ p.gas) (call env machine e p gasPrice origin) := by
  have hzero : (0 : U256) ≤ p.gas := le_def.mpr (Nat.zero_le _)
  refine .of_bind fun _ => .of_bind fun savepoint => .ite (fun _ => ?_) fun _ =>
    .of_bind fun _ => .of_bind fun _ => .pure (le_refl _)
  refine .ite (fun _ => .of_bind fun _ => .pure (hgas ▸ hzero)) fun hpaid => .of_bind fun s => ?_
  refine .ite (fun _ => .of_bind fun _ => .pure ?_) fun _ => .pure hzero
  rw [le_def, toNat_ofNat]
  have hfit := p.gas.isLt
  omega

theorem createAccount_gas {version : U256} :
    Returns (·.1.gas = e.gas) (createAccount env e sender endowment gasPrice init origin version) :=
  .of_bind fun _ => .ite (fun _ => .of_bind fun _ => .pure rfl)
    fun _ => .of_bind fun _ => .of_bind fun _ => .pure rfl

theorem executeCreate_gas {version : U256} :
    Returns (·.1.gas ≤ gas)
      (executeCreate env e sender endowment gasPrice gas init origin version) := by
  refine .of_bind fun _ => .of_bind fun savepoint => .of_bind fun _ => .of_bind fun _ => ?_
  refine .ite (fun _ => ?_) fun _ => ?_
  · have hrevert : Returns (·.gas = (0 : U256)) (revert env { e with
        savepoint, isCreation := true, gas := 0, excepted := .addressAlreadyUsed, ext := none }) :=
      .of_bind fun _ => .pure rfl
    exact .bind hrevert fun e' hzero => .pure (le_def.mpr (by simp [hzero]))
  · intro s result s' hrun
    rw [createAccount_gas hrun]
    exact le_refl gas

theorem create_gas (salt : Option U256) :
    Returns (·.1.gas ≤ gas) (create env e salt sender endowment gasPrice gas init origin) := by
  cases salt with
  | none => exact .of_bind fun _ => .of_bind fun _ => .of_bind fun _ => executeCreate_gas
  | some salt => exact .of_bind fun _ => .of_bind fun _ => executeCreate_gas

theorem nested_frugal (hmachine : machine.Frugal) (levels : Nat) :
    (Executive.nested env machine levels).Frugal := by
  induction levels with
  | zero => exact ⟨nofun, nofun⟩
  | succ levels ih =>
    constructor
    · intro ext p s result s' hrun
      obtain ⟨⟨e, done⟩, _, hcall, hrun⟩ := bind_eq_ok.mp hrun
      exact le_trans (frameResult_gas hmachine ih hrun) (call_gas rfl hcall)
    · intro ext salt endowment gas init s result s' hrun
      obtain ⟨⟨e, done⟩, _, hcreate, hrun⟩ := bind_eq_ok.mp hrun
      exact le_trans (frameResult_gas hmachine ih hrun) (create_gas salt hcreate)

/-! ## Transactions -/

omit [Keccak] in
theorem assert_returns (condition : Bool) :
    Returns (fun _ => condition = true) (State.assert condition) :=
  fun _ _ _ hrun => (assert_eq_ok.mp hrun).1

theorem execute_gas (hgas : e.gas = 0) :
    Returns (fun entered => entered.1.gas.toNat + e.baseGasRequired ≤ t.gas.toNat)
      (e.execute env machine t) := by
  refine .of_bind fun _ => .bind (assert_returns _) fun _ hbase => ?_
  have hbase := of_decide_eq_true hbase
  have hrest : ∀ {gas : U256}, gas ≤ t.gas - BitVec.ofNat 256 e.baseGasRequired →
      gas.toNat + e.baseGasRequired ≤ t.gas.toNat := by
    intro gas hle
    rw [le_def, toNat_sub, toNat_ofNat] at hle
    have hfit := t.gas.isLt
    omega
  exact .ite (fun _ _ _ _ hrun => hrest (create_gas none hrun))
    fun _ _ _ _ hrun => hrest (call_gas hgas hrun)

omit [Keccak] in
/-- A refund is at most half of what was used. -/
theorem refund_gas (hgas : e.gas < t.gas) : Returns (·.gas < t.gas) (e.refund machine t) := by
  unfold refund
  cases e.ext with
  | none => exact .pure hgas
  | some ext =>
    refine .bind (assert_returns _) fun _ hrefunds => .pure ?_
    have hrefunds := of_decide_eq_true hrefunds
    have hfit := t.gas.isLt
    rw [lt_def] at hgas
    have hmax : 0 ≤ toInt64 t.gas - toInt64 e.gas ∧
        toInt64 t.gas - toInt64 e.gas ≤ t.gas.toNat - e.gas.toNat := by
      unfold toInt64
      omega
    rw [lt_def, Int.tdiv_eq_ediv_of_nonneg hmax.1, BitVec.toNat_add, BitVec.toNat_ofInt]
    omega

theorem finalize_gas (hgas : e.gas < t.gas) : Returns (·.gas < t.gas) (e.finalize env machine t) :=
  .bind (refund_gas hgas) fun _ hless => .ite
    (fun _ => .of_bind fun _ => .of_bind fun _ => .pure hless)
    fun _ => .of_bind fun _ => .pure hless

end Executive

namespace State

theorem runTransaction_gas (hmachine : machine.Frugal)
    (hbase : 0 < t.baseGasRequired env.evmSchedule) (hgas : e.gas = 0) :
    Returns (·.gas < t.gas) (runTransaction env machine e t) := by
  have hinitialize : Returns (fun e₁ => e₁.gas = 0 ∧
      e₁.baseGasRequired = t.baseGasRequired env.evmSchedule) (e.initializeFor env t) :=
    .of_bind fun _ => .pure ⟨hgas, rfl⟩
  refine .bind hinitialize fun e₁ hfields => .bind (Executive.execute_gas hfields.1) ?_
  intro entered hspent
  refine .bind (Executive.goUnless_gas hmachine (Executive.nested_frugal hmachine _)) ?_
  intro e₃ hle
  refine Executive.finalize_gas ?_
  rw [le_def] at hle
  rw [lt_def]
  omega

/-- A transaction that is executed, and not skipped, uses gas. -/
theorem execute_gas (hmachine : machine.Frugal) (hbase : 0 < t.baseGasRequired env.evmSchedule)
    (hskip : ifShouldSkipExecution env.chainParams.chainID t.hash = false) :
    Returns (·.gas < t.gas) (execute env machine t .committed) := by
  have hexecute : Returns (·.1.gas < t.gas) (executeOrSkip env machine t .committed) := by
    refine .ite (fun h => absurd h.2 (by simp [hskip])) fun _ => .bind (.of_bind fun savept => ?_)
      fun _ hless => .pure hless
    -- the handler raises the exception again
    exact .tryCatch (runTransaction_gas hmachine hbase rfl) fun failure =>
      .ite (fun _ => .of_bind fun _ => .throw _) fun _ => .throw _
  exact .bind hexecute fun result hless => .of_bind fun _ => .pure hless

end State

end Skaled
