import Skaled.Executive.Entered
import Skaled.Executive.GasPurchase
import Skaled.Executive.Watched

/-! # Who may run a restricted precompiled contract

The genesis configuration can name the addresses from which a precompiled
contract may be executed. `Executive::call` compares them with the sender in the
parameters of the call, which for `DELEGATECALL` is the caller of the frame that
issues it. The log of a transaction holds its calls and those of them that
started an executor. An executor of a restricted contract was started for an
address outside its list exactly when a frame used the permission of its caller
in this way.
-/

namespace Skaled

open EStateM (Invariant aside bind_eq_ok aside_eq_ok pure_eq_ok)

def executionAllowedFrom (allowed : List Address) (sender : Address) (readOnly : Bool) : Bool :=
  allowed = [] ∨ sender ∈ allowed ∧ readOnly = false

/-- `ChainOperationParams::precompiledExecutionAllowedFrom`, for the addresses
that the configuration allows for each precompiled contract. -/
def Machine.restrictedBy (machine : Machine) (allowed : Address → List Address) : Machine :=
  { machine with precompiledExecutionAllowedFrom := fun a => executionAllowedFrom (allowed a) }

/-- The calls of an execution and those that started an executor, the last ones
first. -/
structure CallLog where
  issues : List Issue := []
  runs : List Issue := []
  deriving DecidableEq, Repr

/-- The observer that keeps the log. An executor is started for the last call. -/
def callLog (machine : Machine) : Watch CallLog where
  instruction := id
  frame _ := id
  issue issue log := { log with issues := issue :: log.issues }
  execute s a data number log :=
    (machine.executePrecompiled s a data number,
      { log with runs := log.issues.head?.toList ++ log.runs })
  rollback := id

theorem callLog_faithful (machine : Machine) : (callLog machine).Faithful machine :=
  fun _ _ _ _ _ => rfl

def transactionLog [Keccak] (env : EnvInfo) (machine : Machine) (script : Ext → U256 → Script)
    (t : Transaction) (permanence : State.Permanence) (s : State) : CallLog :=
  (Watched.executeOrSkip env machine (callLog machine) script t permanence (s, {})).state.2

/-- Restricted executors ran only for allowed addresses, and only in an execution
that is committed. -/
def CallLog.OnlyForAllowed (allowed : Address → List Address) (permanence : State.Permanence)
    (log : CallLog) : Prop :=
  ∀ run ∈ log.runs, allowed run.p.codeAddress ≠ [] →
    run.issuer.address ∈ allowed run.p.codeAddress ∧ permanence = .committed

/-- A `DELEGATECALL` of a frame outside the list whose caller is on it, to a
precompiled contract that its gas pays for, in an execution that is not read
only. -/
def Issue.Borrows (env : EnvInfo) (machine : Machine) (allowed : Address → List Address)
    (issue : Issue) : Prop :=
  ∃ ext, issue.issuer = .frame ext .delegateCall ∧
    machine.isPrecompiled issue.p.codeAddress env.number ∧
    machine.costOfPrecompiled issue.p.codeAddress issue.p.data env.number ≤ issue.p.gas.toNat ∧
    issue.readOnly = false ∧ ext.caller ∈ allowed issue.p.codeAddress ∧
    ext.myAddress ∉ allowed issue.p.codeAddress

/-- What is known of a call of a transaction: it is read only unless the
transaction is committed, and the question to ConfigController always is. -/
structure Issue.Proper (permanence : State.Permanence) (issue : Issue) : Prop where
  committed : issue.readOnly = false → permanence = .committed
  sender : issue.p.senderAddress = issue.issuer.sender
  deployment : ∀ ext, issue.issuer = .deployment ext → issue.readOnly = true

namespace Watched

section

variable {env : EnvInfo} {machine : Machine} {script : Ext → U256 → Script}
  {permanence : State.Permanence}

/-- The log goes on with calls of which the given fact holds. -/
def Logs (env : EnvInfo) (machine : Machine) (permanence : State.Permanence)
    (log log' : CallLog) : Prop :=
  ∃ more : List Issue, log'.issues = more ++ log.issues ∧
    log'.runs = more.filter (fun issue => Executes env machine issue.readOnly issue.p) ++
      log.runs ∧
    ∀ issue ∈ more, issue.Proper permanence

instance : Std.Refl (Logs env machine permanence) where
  refl _ := ⟨[], rfl, rfl, fun _ h => nomatch h⟩

instance : IsTrans CallLog (Logs env machine permanence) where
  trans log₁ log₂ log₃ h h' := by
    obtain ⟨more, hissues, hruns, hproper⟩ := h
    obtain ⟨more', hissues', hruns', hproper'⟩ := h'
    refine ⟨more' ++ more, ?_, ?_, fun issue hissue => ?_⟩
    · rw [hissues', hissues, List.append_assoc]
    · rw [hruns', hruns, List.filter_append, List.append_assoc]
    · exact (List.mem_append.mp hissue).elim (hproper' issue) (hproper issue)

theorem Logs.single (log : CallLog) {issue : Issue} (hproper : issue.Proper permanence) :
    Logs env machine permanence log
      { issues := issue :: log.issues
        runs := if Executes env machine issue.readOnly issue.p then issue :: log.runs
          else log.runs } := by
  refine ⟨[issue], rfl, ?_, fun _ h => List.mem_singleton.mp h ▸ hproper⟩
  by_cases hexecutes : Executes env machine issue.readOnly issue.p
  · simp [hexecutes]
  · simp [hexecutes]

variable {e : Executive} {p : CallParameters} {salt : Option U256} {endowment gasPrice gas : U256}
  {origin sender : Address} {issuer : Issuer} {s s' : State} {entered : Executive × Bool}
  {init : Bytes} {ext : Ext} {log log' log₀ : CallLog} {t : Transaction}

/-- What is added to a log are proper calls. -/
abbrev KeepsLog (env : EnvInfo) (machine : Machine) (permanence : State.Permanence)
    (log₀ : CallLog) {α : Type} (x : W CallLog α) : Prop :=
  Invariant (fun sw => Logs env machine permanence log₀ sw.2) x

/-- The nested frames write proper calls into the log. -/
structure NestedLogs (env : EnvInfo) (machine : Machine) (permanence : State.Permanence)
    (log₀ : CallLog) (nested : Nested CallLog) : Prop where
  call : ∀ issuer ext p, Issue.Proper permanence ⟨issuer, p, ext.readOnly⟩ →
    KeepsLog env machine permanence log₀ (nested.call issuer ext p)
  create : ∀ ext salt endowment gas init,
    KeepsLog env machine permanence log₀ (nested.create ext salt endowment gas init)

theorem callParameters_proper {kind : CallKind} {codeAddress : Address} {value : U256}
    {data : Bytes} (hext : ext.readOnly = false → permanence = .committed) : Issue.Proper permanence
      ⟨.frame ext kind, ext.callParameters kind codeAddress value gas data, ext.readOnly⟩ :=
  ⟨hext, rfl, fun _ h => nomatch h⟩

theorem closed_keepsLog : Closed fun _ x => KeepsLog env machine permanence log₀ x :=
  ⟨.pure, .throw, .bind, .of_aside⟩

theorem initializeFor_frame {e e' : Executive} {s s' : State × CallLog}
    (hrun : aside (e.initializeFor env t) s = .ok e' s') :
    e'.ext = e.ext ∧ e'.isCreation = e.isCreation ∧ e'.readOnly = e.readOnly := by
  obtain ⟨_, _, _, hrun⟩ := bind_eq_ok.mp (aside_eq_ok.mp hrun).1
  exact pure_eq_ok hrun ▸ ⟨rfl, rfl, rfl⟩

variable [Keccak]

theorem call_logs (hproper : Issue.Proper permanence ⟨issuer, p, e.readOnly⟩) :
    KeepsLog env machine permanence log₀
      (call env machine (callLog machine) issuer e p gasPrice origin) := by
  refine .bind (.of_aside _) fun _ ⟨s, log⟩ hlogs => Invariant.of_state _ ?_
  change Logs env machine permanence log₀
    (enterCall env machine (callLog machine) e p gasPrice origin
      (s, { log with issues := ⟨issuer, p, e.readOnly⟩ :: log.issues })).state.2
  rw [enterCall_watch]
  have hsingle : Logs env machine permanence log₀ _ :=
    IsTrans.trans _ _ _ hlogs (Logs.single log hproper)
  split
  next hexecutes =>
    rw [if_pos hexecutes] at hsingle
    exact hsingle
  next hexecutes =>
    rw [if_neg hexecutes] at hsingle
    exact hsingle

/-! ## Frames -/

/-- The frame of an executive is read only unless the transaction is committed,
and always in a creation. -/
def Framed (permanence : State.Permanence) (e : Executive) : Prop :=
  ∀ ext, e.ext = some ext → (ext.readOnly = false → permanence = .committed) ∧
    (e.isCreation = true → ext.readOnly = true)

theorem call_framed (hext : e.ext = none) (hcreation : e.isCreation = false)
    (hcommitted : e.readOnly = false → permanence = .committed)
    (hrun : call env machine (callLog machine) issuer e p gasPrice origin (s, log) =
      .ok entered (s', log')) : Framed permanence entered.1 := by
  obtain ⟨hsame, -, hframe⟩ := Executive.call_called hext
    ((call_erases (callLog_faithful machine)).ok hrun)
  intro ext hsome
  refine ⟨fun hreadOnly => hcommitted ((hframe ext hsome).readOnly ▸ hreadOnly), fun hcreates => ?_⟩
  rw [hsame, hcreation] at hcreates
  cases hcreates

theorem create_framed (hext : e.ext = none)
    (hrun : create env (callLog machine) e salt sender endowment gasPrice gas init origin (s, log) =
      .ok entered (s', log')) : Framed permanence entered.1 := by
  intro ext hsome
  have hreadOnly := (Executive.create_created hext salt
    (create_erases.ok hrun) ext hsome).2.2
  exact ⟨fun h => absurd h (by simp [hreadOnly]), fun _ => hreadOnly⟩

theorem create_logs :
    KeepsLog env machine permanence log₀
      (create env (callLog machine) e salt sender endowment gasPrice gas init origin) := by
  refine .bind (.of_aside _) fun result => .bind (.modify fun sw hlogs => ?_) fun _ => .pure _
  dsimp only
  split <;> exact hlogs

/-! ## Runs -/

variable {nested : Nested CallLog}

section

variable (hnested : NestedLogs env machine permanence log₀ nested)

include hnested

theorem runCode_logs (hext : ext.readOnly = false → permanence = .committed) (sub : SubState) :
    KeepsLog env machine permanence log₀
      (runCode env machine (callLog machine) script nested ext gas sub) := by
  refine .bind (.modify fun _ hlogs => hlogs) fun _ => ?_
  refine closed_keepsLog.runScript (Invariant.modify fun _ hlogs => hlogs) ?_
    (fun _ _ _ _ => hnested.create _ _ _ _ _) _ sub
  intro kind codeAddress value gas data
  exact hnested.call _ _ _ (callParameters_proper hext)

theorem runInit_logs (hext : ext.readOnly = true) :
    KeepsLog env machine permanence log₀
      (runInit env machine (callLog machine) script nested ext gas) := by
  have hcommitted : ext.readOnly = false → permanence = .committed :=
    fun h => absurd h (by simp [hext])
  have hproper : Issue.Proper permanence
      ⟨.deployment ext, Executive.deploymentParameters env ext gas, ext.readOnly⟩ :=
    ⟨hcommitted, rfl, fun _ _ => hext⟩
  exact closed_keepsLog.runInit (hnested.call _ _ _ hproper) (runCode_logs hnested hcommitted)

theorem go_logs (hframed : Framed permanence e) :
    KeepsLog env machine permanence log₀ (go env machine (callLog machine) script nested e) := by
  unfold go
  cases hext : e.ext with
  | none => exact .pure _
  | some ext =>
    obtain ⟨hcommitted, hcreation⟩ := hframed ext hext
    have hframe : KeepsLog env machine permanence log₀
        (runFrame env machine (callLog machine) script nested e ext) := by
      unfold runFrame
      split
      next hisCreation => exact runInit_logs hnested (hcreation hisCreation)
      next => exact runCode_logs hnested hcommitted ext.sub
    -- the observer does not note where a frame starts and ends
    refine .bind (.modify fun _ hlogs => hlogs) fun _ =>
      .bind (EStateM.Triple.tryCatch hframe fun failure => ?_) fun result => ?_
    · refine Invariant.bind (.modify fun _ hlogs => ?_) fun _ => .of_aside _
      dsimp only
      split <;> exact hlogs
    · refine .bind (.modify fun _ hlogs => hlogs) fun _ =>
        .bind (.modify fun _ hlogs => ?_) fun _ => .of_aside _
      obtain ⟨outcome, sub⟩ := result
      cases outcome <;> exact hlogs

theorem frameResult_logs (hframed : Framed permanence e) (done : Bool) :
    KeepsLog env machine permanence log₀
      (frameResult env machine (callLog machine) script nested e done) :=
  .bind (.ite (.pure _) (go_logs hnested hframed)) fun _ => .pure _

end

theorem nested_logs (levels : Nat) :
    NestedLogs env machine permanence log₀
      (Watched.nested env machine (callLog machine) script levels) := by
  induction levels with
  | zero => exact ⟨fun _ _ _ _ => .throw _, fun _ _ _ _ _ => .throw _⟩
  | succ levels ih =>
    constructor
    · intro issuer ext p hproper
      refine .bind_of_ok (call_logs hproper) fun entered _ _ hrun => ?_
      exact frameResult_logs ih (call_framed rfl rfl hproper.committed hrun) entered.2
    · intro ext salt endowment gas init
      refine .bind_of_ok create_logs fun entered _ _ hrun => ?_
      exact frameResult_logs ih (create_framed rfl hrun) entered.2

/-! ## Transactions -/

theorem execute_logs (hcommitted : e.readOnly = false → permanence = .committed) :
    KeepsLog env machine permanence log₀ (execute env machine (callLog machine) e t) := by
  refine .bind (.of_aside _) fun _ => .bind (.of_aside _) fun _ => .ite ?_ ?_
  · exact create_logs
  · exact call_logs ⟨hcommitted, rfl, fun _ h => by cases h⟩

theorem execute_framed (hext : e.ext = none) (hcreation : e.isCreation = false)
    (hcommitted : e.readOnly = false → permanence = .committed)
    (hrun : execute env machine (callLog machine) e t (s, log) = .ok entered (s', log')) :
    Framed permanence entered.1 := by
  obtain ⟨_, _, _, hrun⟩ := bind_eq_ok.mp hrun
  obtain ⟨_, _, _, hrun⟩ := bind_eq_ok.mp hrun
  split at hrun
  next => exact create_framed hext hrun
  next => exact call_framed hext hcreation hcommitted hrun

theorem executeTransaction_logs (hext : e.ext = none) (hcreation : e.isCreation = false)
    (hcommitted : e.readOnly = false → permanence = .committed) :
    KeepsLog env machine permanence log₀
      (executeTransaction env machine (callLog machine) script e t) := by
  refine .bind (.of_aside _) fun savept => EStateM.Triple.tryCatch (?_ : Invariant _ _)
    fun failure => (?_ : Invariant _ _)
  · refine .bind_of_ok (.of_aside _) fun e₁ _ _ hinitialize => ?_
    obtain ⟨hext₁, hcreation₁, hreadOnly₁⟩ := initializeFor_frame hinitialize
    have hcommitted₁ : e₁.readOnly = false → permanence = .committed := hreadOnly₁ ▸ hcommitted
    refine .bind_of_ok (execute_logs hcommitted₁) fun entered _ _ hexecute => ?_
    have hframed : Framed permanence entered.1 :=
      execute_framed (hext₁.trans hext) (hcreation₁.trans hcreation) hcommitted₁ hexecute
    exact .bind (.ite (.pure _) (go_logs (nested_logs _) hframed)) fun _ => .of_aside _
  · refine .bind (.modify fun _ hlogs => ?_) fun _ => .of_aside _
    dsimp only
    split <;> exact hlogs

theorem executeOrSkip_logs (t : Transaction) :
    KeepsLog env machine permanence log₀
      (executeOrSkip env machine (callLog machine) script t permanence) := by
  have hcommitted : (decide (permanence ≠ .committed)) = false → permanence = .committed := by
    simp
  refine .ite (.bind_of_ok (.of_aside _) fun e _ _ hinitialize => ?_) ?_
  · obtain ⟨_, _, hreadOnly⟩ := initializeFor_frame hinitialize
    refine .bind (execute_logs fun h => ?_) fun _ => .pure _
    exact hcommitted (hreadOnly.symm.trans h)
  · exact .bind (executeTransaction_logs rfl rfl hcommitted) fun _ => .pure _

end

end Watched

section

variable [Keccak] (env : EnvInfo) (machine : Machine) (allowed : Address → List Address)
  (script : Ext → U256 → Script) (t : Transaction) (permanence : State.Permanence) (s : State)

/-- The log of a transaction holds proper calls, and those whose executor was
started are the ones that `Executive::call` lets pass. -/
theorem transactionLog_proper :
    (∀ issue ∈ (transactionLog env machine script t permanence s).issues,
      issue.Proper permanence) ∧
    (transactionLog env machine script t permanence s).runs =
      (transactionLog env machine script t permanence s).issues.filter
        (fun issue => Watched.Executes env machine issue.readOnly issue.p) := by
  have hlogs : Watched.Logs env machine permanence {}
      (transactionLog env machine script t permanence s) :=
    (Watched.executeOrSkip_logs t).state (Std.Refl.refl _)
  obtain ⟨more, hissues, hruns, hproper⟩ := hlogs
  rw [List.append_nil] at hissues hruns
  exact ⟨fun issue hissue => hproper issue (hissues ▸ hissue), hissues ▸ hruns⟩

/-- Restricted precompiled contracts run only for allowed addresses, exactly when
no `DELEGATECALL` of the transaction uses the permission of its caller. -/
theorem onlyForAllowed_iff_no_borrows :
    (transactionLog env (machine.restrictedBy allowed) script t permanence s).OnlyForAllowed
        allowed permanence ↔
      ∀ issue ∈ (transactionLog env (machine.restrictedBy allowed) script t permanence s).issues,
        ¬ issue.Borrows env machine allowed := by
  obtain ⟨hproper, hruns⟩ :=
    transactionLog_proper env (machine.restrictedBy allowed) script t permanence s
  generalize transactionLog env (machine.restrictedBy allowed) script t permanence s = log at *
  constructor
  · rintro honly issue hissue ⟨ext, hissuer, hprecompiled, hgas, hreadOnly, hcaller, houtside⟩
    have hsender : issue.p.senderAddress = ext.caller := by
      rw [(hproper issue hissue).sender, hissuer]
      rfl
    have hallows : executionAllowedFrom (allowed issue.p.codeAddress) issue.p.senderAddress
        issue.readOnly = true := by
      rw [hsender, hreadOnly]
      exact decide_eq_true (.inr ⟨hcaller, rfl⟩)
    have hrun : issue ∈ log.runs := by
      rw [hruns, List.mem_filter]
      exact ⟨hissue, decide_eq_true ⟨hprecompiled, hallows, hgas⟩⟩
    have hinside := (honly issue hrun (List.ne_nil_of_mem hcaller)).1
    rw [hissuer] at hinside
    exact houtside hinside
  · intro hborrows run hrun hrestricted
    rw [hruns, List.mem_filter] at hrun
    obtain ⟨hissue, hexecutes⟩ := hrun
    obtain ⟨hprecompiled, hallows, hgas⟩ := of_decide_eq_true hexecutes
    obtain ⟨hsender, hreadOnly⟩ := (of_decide_eq_true hallows).resolve_left hrestricted
    have hissueProper := hproper run hissue
    rw [hissueProper.sender] at hsender
    refine ⟨?_, hissueProper.committed hreadOnly⟩
    cases hissuer : run.issuer with
    | transaction sender => rwa [hissuer] at hsender
    | deployment ext => simp [hissueProper.deployment ext hissuer] at hreadOnly
    | frame ext kind =>
      rw [hissuer] at hsender
      by_cases hkind : kind = .delegateCall
      · subst hkind
        by_contra houtside
        exact hborrows run hissue
          ⟨ext, hissuer, hprecompiled, hgas, hreadOnly, hsender, houtside⟩
      · rwa [Issuer.sender, if_neg hkind] at hsender

end

/-! ## A borrowed permission -/

/-- Contract 10 calls contract 7, which delegates to the precompiled contract 5. -/
def delegatingScript (ext : Ext) (gas : U256) : Script :=
  if ext.myAddress = 10 then .call .call 7 0 gas [] fun _ => .returned 0 []
  else .call .delegateCall 5 0 gas [] fun _ => .returned 0 []

/-- A machine on which contract 5 is precompiled and costs nothing. -/
def precompiledMachine : Machine where
  exec _ gas := .returned gas []
  evmSchedule _ := {}
  isPrecompiled a _ := a = 5
  precompiledExecutionAllowedFrom _ _ _ := true
  costOfPrecompiled _ _ _ := 0
  executePrecompiled _ _ _ _ := (true, [])
  lastHash _ := 0

/-- A state with code at the addresses 7 and 10. -/
def contractsState : State :=
  letI := State.sampleKeccak
  (do State.addBalance 7 1
      State.setCode 7 [1] 0
      State.addBalance 10 1
      State.setCode 10 [1] 0 : State.M Unit) State.sampleState |>.state

/-- Only contract 10 may execute contract 5, but the executor runs for contract 7
as well, when contract 10 calls it. -/
theorem delegating_not_onlyForAllowed :
    letI := State.sampleKeccak
    let allowed : Address → List Address := fun a => if a = 5 then [10] else []
    let t : Transaction :=
      { sender := 9, receiveAddress := 10, nonPowGas := 30000, signature := some ⟨1, 1⟩
        chainId := some 0 }
    let log := transactionLog Executive.sampleEnv (precompiledMachine.restrictedBy allowed)
      delegatingScript t .committed contractsState
    log.runs.map (fun run => (run.issuer.address, run.p.codeAddress)) = [(7, 5)] ∧
      ¬ log.OnlyForAllowed allowed .committed := by
  intro allowed t log
  have hruns : log.runs.map (fun run => (run.issuer.address, run.p.codeAddress)) = [(7, 5)] := by
    decide +kernel
  refine ⟨hruns, fun honly => ?_⟩
  obtain ⟨run, hrun, heq⟩ : ∃ run ∈ log.runs, (run.issuer.address, run.p.codeAddress) = (7, 5) := by
    rw [← List.mem_map, hruns]
    exact List.mem_cons_self
  obtain ⟨hissuer, hcode⟩ := Prod.mk.inj heq
  have hinside := (honly run hrun (by rw [hcode]; decide)).1
  rw [hissuer, hcode] at hinside
  exact absurd hinside (by decide)

end Skaled
