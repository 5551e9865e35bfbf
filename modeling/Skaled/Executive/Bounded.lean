import Skaled.Lib.Amortized
import Skaled.Evm.Rounds
import Skaled.Executive.Levels

/-! # Execution is bounded by gas

The instructions of all frames of a call tree are counted against the gas that
it was given: a frame brings in one unit of credit more than its gas, every
instruction takes one, and gas that is given to a nested frame takes its units
along. ConfigController must have no code, because the check of a deployment
would run it with the gas of the creation and without charging for it.
-/

namespace Skaled

open EStateM (aside Invariant bind_apply bind_eq_ok pure_eq_ok)

open State (Codeless KeepsCodeless codeless_kept)

/-- How many instructions and frames were run. -/
structure Tally where
  instructions : Nat := 0
  frames : Nat := 0
  deriving DecidableEq, Repr

/-- The instructions that were run beyond one for each frame. -/
def Tally.score (tally : Tally) : Int := tally.instructions - tally.frames

def tally (machine : Machine) : Watch Tally where
  instruction count := { count with instructions := count.instructions + 1 }
  frame _ count := { count with frames := count.frames + 1 }
  issue _ := id
  execute s a data number count := (machine.executePrecompiled s a data number, count)
  rollback := id

theorem tally_faithful (machine : Machine) : (tally machine).Faithful machine :=
  fun _ _ _ _ _ => rfl

/-- The gas that is left at the end of a run of the machine. -/
def Outcome.left : Outcome → U256
  | .returned gas _ | .reverted gas _ => gas
  | .failed _ => 0

theorem Outcome.gasAtMost_left (outcome : Outcome) : outcome.GasAtMost outcome.left := by
  cases outcome with
  | returned gas output | reverted gas output => exact BitVec.le_refl gas
  | failed e => trivial

theorem Outcome.GasAtMost.left_le {outcome : Outcome} {limit : U256}
    (h : outcome.GasAtMost limit) : outcome.left ≤ limit := by
  cases outcome with
  | returned gas output | reverted gas output => exact h
  | failed e => exact BitVec.le_def.mpr (Nat.zero_le _)

namespace Watched

variable [Keccak] {env : EnvInfo} {machine : Machine} {script : Ext → U256 → Script}

/-- Programs that pay for the instructions they run, while ConfigController has no
code. -/
abbrev Pays {α : Type} (credit : Nat) (left : α → Nat) (x : W Tally α) : Prop :=
  EStateM.Spends (Codeless configControllerContractAddress) Tally.score credit left x

variable {credit : Nat} {origin : Address} {s s' : State} {w w' : Tally}
  {entered : Executive × Bool}

/-- A program on the state alone. -/
theorem pays_aside {α : Type} {x : State.M α} {left : α → Nat}
    (hx : KeepsCodeless configControllerContractAddress x)
    (hleft : ∀ a s s', x s = .ok a s' → left a ≤ credit) : Pays credit left (aside x : W Tally α) :=
  .of_aside fun s hs a s' hrun => ⟨hx.ok hs hrun, hleft a s s' hrun⟩

/-- The nested frames pay for their instructions with the gas that they are given,
and the question to ConfigController runs none. -/
structure NestedPays (env : EnvInfo) (nested : Nested Tally) : Prop where
  call : ∀ issuer ext p, Pays p.gas.toNat (·.gas.toNat) (nested.call issuer ext p)
  create : ∀ ext salt endowment gas init,
    Pays gas.toNat (·.gas.toNat) (nested.create ext salt endowment gas init)
  deployment : ∀ ext gas credit, Pays credit (fun _ => credit)
    (nested.call (.deployment ext) ext (Executive.deploymentParameters env ext gas))
  callGas : ∀ {issuer ext p s w result s'}, nested.call issuer ext p (s, w) = .ok result s' →
    result.gas ≤ p.gas
  createGas : ∀ {ext salt endowment gas init s w result s'},
    nested.create ext salt endowment gas init (s, w) = .ok result s' → result.gas ≤ gas

variable {nested : Nested Tally} {ext : Ext}

/-- The requests of a script are paid for by a credit that it affords. -/
theorem runScript_pays (hnested : NestedPays env nested) {run : Script}
    (hrun : run.Affords credit) (sub : SubState) :
    Pays credit (·.1.left.toNat) (runScript env machine (tally machine) nested ext run sub) := by
  induction run generalizing credit sub with
  | returned gas output | reverted gas output => exact .pure hrun
  | failed e => exact .pure (Nat.zero_le _)
  | internalError | unfinished => exact .throw _
  | instruction next ih =>
    obtain ⟨rest, rfl, hnext⟩ := hrun
    refine .bind (.of_note rest fun count => ?_) fun _ => ih hnext sub
    simp only [tally, Tally.score]
    push_cast
    omega
  | query question next ih =>
    exact .bind (pays_aside (Ext.keepsCodeless_ask question) fun _ _ _ _ => le_rfl)
      fun answer => ih answer (hrun answer) sub
  | codeAt a next ih =>
    exact .bind (pays_aside (codeless_kept.code a) fun _ _ _ _ => le_rfl)
      fun answer => ih answer (hrun answer) sub
  | setStore key value next ih =>
    refine .bind (pays_aside (Ext.keepsCodeless_setStore key value) fun _ _ _ _ => le_rfl)
      fun stored => .ite (fun _ => ih hrun sub) fun _ => .pure (Nat.zero_le _)
  | log topics data next ih | refund amount next ih => exact ih hrun _
  | suicide beneficiary next ih =>
    exact .bind (pays_aside (Ext.keepsCodeless_suicide beneficiary) fun _ _ _ _ => le_rfl)
      fun _ => ih hrun _
  | call kind a value gas data next ih =>
    obtain ⟨hgiven, hnone, hsome⟩ := hrun
    refine .bind (pays_aside (Ext.keepsCodeless_canTransfer _) fun _ _ _ _ => le_rfl)
      fun can => .ite (fun _ => ?_) fun _ => ih none hnone sub
    have hcall := (hnested.call (.frame ext kind) ext
      (ext.callParameters kind a value gas data)).frame (credit - gas.toNat)
    change Pays (gas.toNat + (credit - gas.toNat)) _ _ at hcall
    rw [Nat.add_sub_cancel' hgiven] at hcall
    refine .bind_of_ok hcall fun result _ _ _ _ _ hresult => ?_
    rw [Nat.add_comm]
    exact ih (some result) (hsome result (hnested.callGas hresult)) _
  | create salt endowment gas init next ih =>
    obtain ⟨hgiven, hnone, hsome⟩ := hrun
    refine .bind (pays_aside (Ext.keepsCodeless_canTransfer _) fun _ _ _ _ => le_rfl)
      fun can => .ite (fun _ => ?_) fun _ => ih none hnone sub
    have hcreate := (hnested.create ext salt endowment gas init).frame (credit - gas.toNat)
    rw [Nat.add_sub_cancel' hgiven] at hcreate
    refine .bind_of_ok hcreate fun result _ _ _ _ _ hresult => ?_
    rw [Nat.add_comm]
    exact ih (some result) (hsome result (hnested.createGas hresult)) _

/-! ## Frames -/

/-- A frame brings in one unit of credit. -/
theorem runCode_pays (hscript : ∀ ext gas, (script ext gas).Affords (gas.toNat + 1))
    (hnested : NestedPays env nested) (gas : U256) (sub : SubState) :
    Pays gas.toNat (·.1.left.toNat)
      (runCode env machine (tally machine) script nested ext gas sub) := by
  refine .bind (.of_note (gas.toNat + 1) fun count => ?_) fun _ =>
    runScript_pays hnested (hscript ext gas) sub
  simp only [tally, Tally.score]
  push_cast
  omega

theorem deploymentAllowed_pays (hnested : NestedPays env nested) (gas : U256) (credit : Nat) :
    Pays credit (fun _ => credit) (deploymentAllowed env nested ext gas) := by
  refine .bind (hnested.deployment ext gas credit) fun result => ?_
  refine pays_aside ?_ fun _ _ _ _ => le_rfl
  unfold Executive.deploymentAnswer
  cases parseU256 (hexDigits result.output) with
  | none => exact .throw _
  | some answer => exact .pure _

section

variable (hscript : ∀ ext gas, (script ext gas).Affords (gas.toNat + 1))
  (hnested : NestedPays env nested)

include hscript hnested

theorem runInit_pays (hne : ext.myAddress ≠ configControllerContractAddress) (gas : U256) :
    Pays gas.toNat (·.1.left.toNat)
      (runInit env machine (tally machine) script nested ext gas) := by
  refine .bind (deploymentAllowed_pays hnested gas gas.toNat) fun answer => ?_
  obtain ⟨allowed, sub⟩ := answer
  refine .ite (fun _ => .bind (runCode_pays hscript hnested gas sub) ?_)
    fun _ => .pure (Nat.zero_le _)
  intro result
  obtain ⟨outcome, sub⟩ := result
  cases outcome with
  | returned left out =>
    refine .bind (pays_aside (Executive.keepsCodeless_depositCode hne out)
      fun outcome _ _ hrun => ?_) fun outcome => .pure le_rfl
    exact (Executive.depositCode_gas out hrun).left_le
  | reverted left out | failed e => exact .pure le_rfl

/-- A creation is not at the address of ConfigController. -/
def Placed (e : Executive) : Prop :=
  ∀ ext, e.ext = some ext → e.isCreation = true →
    ext.myAddress ≠ configControllerContractAddress

variable {e : Executive}

theorem go_pays (hplaced : Placed e) :
    Pays e.gas.toNat (·.gas.toNat) (go env machine (tally machine) script nested e) := by
  unfold go
  cases hext : e.ext with
  | none => exact .pure le_rfl
  | some ext =>
    have hframe : Pays e.gas.toNat (·.1.left.toNat)
        (runFrame env machine (tally machine) script nested e ext) :=
      .ite (fun hcreation => runInit_pays hscript hnested (hplaced ext hext hcreation) e.gas)
        fun _ => runCode_pays hscript hnested e.gas ext.sub
    refine .bind (.of_note e.gas.toNat fun count => le_rfl) fun _ => ?_
    refine .bind (.tryCatch hframe fun failure s w => ?_) fun result => ?_
    · -- the failure is raised again, and nothing was counted
      have hid : (if failure = .internalVMError then (tally machine).rollback else id) w = w := by
        split <;> rfl
      unfold unexpected
      rw [bind_apply]
      change ∃ e' s' w', aside (e.unexpected env failure) (s, _) = .error e' (s', w') ∧ _
      rw [hid]
      cases hrun : e.unexpected (α := Outcome × SubState) env failure s with
      | ok a s' => exact (Executive.unexpected_returns (fun _ => False) failure hrun).elim
      | error e' s' => exact ⟨e', s', w, by unfold aside; rw [hrun], rfl⟩
    · obtain ⟨outcome, sub⟩ := result
      refine .bind (.of_note outcome.left.toNat fun count => le_rfl) fun _ => ?_
      refine .bind (.of_note outcome.left.toNat fun count => ?_) fun _ => ?_
      · cases outcome <;> exact le_rfl
      · refine pays_aside (Executive.keepsCodeless_conclude outcome) fun e' _ _ hrun => ?_
        exact Executive.conclude_gas outcome.gasAtMost_left hrun

theorem goUnless_pays (hplaced : Placed e) (done : Bool) :
    Pays e.gas.toNat (·.gas.toNat) (goUnless env machine (tally machine) script nested e done) :=
  .ite (fun _ => .pure le_rfl) fun _ => go_pays hscript hnested hplaced

theorem frameResult_pays (hplaced : Placed e) (done : Bool) :
    Pays e.gas.toNat (·.gas.toNat) (frameResult env machine (tally machine) script nested e done) :=
  .bind (goUnless_pays hscript hnested hplaced done) fun _ => .pure le_rfl

end

/-! ## Calls and creations -/

variable {issuer : Issuer} {p : CallParameters} {salt : Option U256} {sender : Address}
  {init : Bytes} {endowment gasPrice gas : U256}

/-- Setting up a call runs no instruction. -/
theorem call_pays {left : Executive × Bool → Nat}
    (hleft : ∀ entered s s', e.call env machine p gasPrice origin s = .ok entered s' →
      left entered ≤ credit) :
    Pays credit left (call env machine (tally machine) issuer e p gasPrice origin) := by
  refine .of_erases (call_erases (tally_faithful machine)) ?_ ?_
  · intro s w
    refine congrArg Tally.score (aside_bind_watch (fun _ s' _ => ?_) fun _ _ _ => rfl)
    change (enterCall env machine (tally machine) e p gasPrice origin (s', w)).state.2 = w
    rw [enterCall_watch]
    split <;> rfl
  · intro s hs entered s' hrun
    exact ⟨Executive.keepsCodeless_call.ok hs hrun, hleft entered s s' hrun⟩

theorem create_pays (hnew : ¬ Executive.IsNewAddress configControllerContractAddress) :
    Pays gas.toNat (·.1.gas.toNat)
      (create env (tally machine) e salt sender endowment gasPrice gas init origin) := by
  refine .of_erases create_erases ?_ ?_
  · intro s w
    refine congrArg Tally.score (aside_bind_watch (fun entered s' _ => ?_) fun _ _ _ => rfl)
    change (if entered.1.excepted = .addressAlreadyUsed then (tally machine).rollback else id) w = w
    split <;> rfl
  · intro s hs entered s' hrun
    exact ⟨(Executive.keepsCodeless_create hnew salt).ok hs hrun, Executive.create_gas salt hrun⟩

/-- A call of ConfigController finds no code to run. -/
theorem call_done (hext : e.ext = none) (hp : p.codeAddress = configControllerContractAddress)
    (hs : Codeless configControllerContractAddress s)
    (hrun : call env machine (tally machine) issuer e p gasPrice origin (s, w) =
      .ok entered (s', w')) : entered.2 = true := by
  have hplain := (call_erases (tally_faithful machine)).ok hrun
  obtain ⟨_, s₁, hnonce, hplain⟩ := bind_eq_ok.mp hplain
  have hs₁ : Codeless configControllerContractAddress s₁ :=
    (Invariant.ite (codeless_kept.incNonce nofun) (.pure _)).ok hs hnonce
  obtain ⟨savepoint, _, hsavepoint, hplain⟩ := bind_eq_ok.mp hplain
  obtain ⟨rfl, rfl⟩ := EStateM.Result.ok.inj hsavepoint
  split at hplain
  next =>
    exact (@Executive.callPrecompiled_done _ env machine
      { e with savepoint := s₁.changeLog.length } p hext _ _ _ hplain).1
  next =>
    obtain ⟨frame, _, hframe, hplain⟩ := bind_eq_ok.mp hplain
    obtain ⟨_, _, _, hplain⟩ := bind_eq_ok.mp hplain
    rw [← pure_eq_ok hplain]
    unfold Executive.callFrame at hframe
    obtain ⟨hasCode, _, hcode, hframe⟩ := bind_eq_ok.mp hframe
    rw [hp] at hcode
    cases hasCode with
    | true => exact absurd hcode hs₁.addressHasCode_ne_true
    | false =>
      rw [← pure_eq_ok hframe, hext]
      rfl

/-- Nothing is created by an executive that was entered for a call. -/
theorem placed_of_call (hext : e.ext = none) (hcreation : e.isCreation = false)
    (hrun : call env machine (tally machine) issuer e p gasPrice origin (s, w) =
      .ok entered (s', w')) : Placed entered.1 := by
  intro ext _ hcreates
  have hcalled := Executive.call_called hext
    ((call_erases (tally_faithful machine)).ok hrun)
  rw [hcalled.1, hcreation] at hcreates
  cases hcreates

theorem placed_of_create (hnew : ¬ Executive.IsNewAddress configControllerContractAddress)
    (hext : e.ext = none)
    (hrun : create env (tally machine) e salt sender endowment gasPrice gas init origin (s, w) =
      .ok entered (s', w')) : Placed entered.1 := by
  intro ext hsome _ heq
  have hcreated := Executive.create_created hext salt
    (create_erases.ok hrun)
  exact hnew (heq ▸ (hcreated ext hsome).1)

/-- The frames of every level pay for their instructions, by induction on the
levels below. -/
theorem nested_pays (hscript : ∀ ext gas, (script ext gas).Affords (gas.toNat + 1))
    (hfrugal : (machine.running script).Frugal)
    (hnew : ¬ Executive.IsNewAddress configControllerContractAddress) (levels : Nat) :
    NestedPays env (Watched.nested env machine (tally machine) script levels) := by
  have herases : (Watched.nested env machine (tally machine) script levels).Erases
      (Executive.nested env (machine.running script) levels) :=
    nested_erases (tally_faithful machine) levels
  have hgas : (Executive.nested env (machine.running script) levels).Frugal :=
    Executive.nested_frugal hfrugal levels
  induction levels with
  | zero =>
    refine ⟨fun _ _ _ => .throw _, fun _ _ _ _ _ => .throw _, fun _ _ _ => .throw _, ?_, ?_⟩
    · exact fun hrun => hgas.call ((herases.call _ _ _).ok hrun)
    · exact fun hrun => hgas.create ((herases.create _ _ _ _ _).ok hrun)
  | succ levels ih =>
    have ih := ih (nested_erases (tally_faithful machine) levels)
      (Executive.nested_frugal hfrugal levels)
    constructor
    · intro issuer ext p
      refine .bind_of_ok (call_pays fun _ _ _ hrun => Executive.call_gas rfl hrun)
        fun entered _ _ _ _ _ hrun => ?_
      exact frameResult_pays hscript ih (placed_of_call rfl rfl hrun) entered.2
    · intro ext salt endowment gas init
      refine .bind_of_ok (create_pays hnew) fun entered _ _ _ _ _ hrun => ?_
      exact frameResult_pays hscript ih (placed_of_create hnew rfl hrun) entered.2
    · intro ext gas credit
      refine .bind_of_ok (call_pays fun _ _ _ _ => le_rfl) fun entered _ _ _ _ hs hrun => ?_
      have hdone : entered.2 = true := call_done rfl rfl hs hrun
      change Pays credit _ (frameResult env machine (tally machine) script _ entered.1 entered.2)
      rw [hdone]
      exact .bind (.pure le_rfl) fun _ => .pure le_rfl
    · exact fun hrun => hgas.call ((herases.call _ _ _).ok hrun)
    · exact fun hrun => hgas.create ((herases.create _ _ _ _ _).ok hrun)

/-! ## Call trees -/

/-- A program that runs a tree of frames with the given gas, from states in which
ConfigController has no code: it hands back no more gas, and it runs at most one
instruction for each unit of gas and each frame, also where it fails. -/
structure GasBounded {α : Type} (gas : U256) (left : α → U256) (x : W Tally α) : Prop where
  left_le : ∀ {s w a s'}, Codeless configControllerContractAddress s → x (s, w) = .ok a s' →
    left a ≤ gas
  instructions_le : ∀ {s}, Codeless configControllerContractAddress s →
    (x (s, {})).state.2.instructions ≤ gas.toNat + (x (s, {})).state.2.frames

theorem Pays.gasBounded {α : Type} {gas : U256} {left : α → U256} {x : W Tally α}
    (hpays : Pays gas.toNat (fun a => (left a).toNat) x)
    (hleft : ∀ {s w a s'}, Codeless configControllerContractAddress s → x (s, w) = .ok a s' →
      left a ≤ gas) : GasBounded gas left x := by
  refine ⟨hleft, fun {s} hs => ?_⟩
  have hscore := hpays.score_le hs {}
  simp only [Tally.score] at hscore
  push_cast at hscore
  omega

/-- The call of a transaction, and the frames below. -/
def callTree (env : EnvInfo) (machine : Machine) (script : Ext → U256 → Script) (issuer : Issuer)
    (e : Executive) (p : CallParameters) (gasPrice : U256) (origin : Address) :
    W Tally Executive := do
  let (e, done) ← call env machine (tally machine) issuer e p gasPrice origin
  runGo env machine (tally machine) script e done

/-- The creation of a transaction, and the frames below. -/
def createTree (env : EnvInfo) (machine : Machine) (script : Ext → U256 → Script)
    (e : Executive) (sender : Address) (endowment gasPrice gas : U256) (init : Bytes)
    (origin : Address) : W Tally Executive := do
  let (e, done) ← create env (tally machine) e none sender endowment gasPrice gas init origin
  runGo env machine (tally machine) script e done

/-- No more gas is left than an executive had when its frame was entered. -/
theorem runGo_gas (hfrugal : (machine.running script).Frugal) {done : Bool}
    {e' : Executive} {s' : State × Tally}
    (hrun : runGo env machine (tally machine) script e done (s, w) = .ok e' s') : e'.gas ≤ e.gas :=
  Executive.goUnless_gas hfrugal (Executive.nested_frugal hfrugal _)
    ((goUnless_erases (nested_erases (tally_faithful machine) _)).ok hrun)

section

variable (hscript : ∀ ext gas, (script ext gas).Affords (gas.toNat + 1))
  (hfrugal : (machine.running script).Frugal)
  (hnew : ¬ Executive.IsNewAddress configControllerContractAddress)

include hscript hfrugal hnew

theorem callTree_gasBounded (hext : e.ext = none) (hcreation : e.isCreation = false)
    (hgas : e.gas = 0) :
    GasBounded p.gas (·.gas) (callTree env machine script issuer e p gasPrice origin) := by
  refine Pays.gasBounded ?_ fun _ hrun => ?_
  · refine .bind_of_ok (call_pays fun _ _ _ hrun => Executive.call_gas hgas hrun)
      fun entered _ _ _ _ _ hrun => ?_
    exact goUnless_pays hscript (nested_pays hscript hfrugal hnew _)
      (placed_of_call hext hcreation hrun) entered.2
  · obtain ⟨entered, _, hcall, hrun⟩ := bind_eq_ok.mp hrun
    have hplain := (call_erases (tally_faithful machine)).ok hcall
    exact BitVec.le_trans (runGo_gas hfrugal hrun) (Executive.call_gas hgas hplain)

theorem createTree_gasBounded (hext : e.ext = none) :
    GasBounded gas (·.gas)
      (createTree env machine script e sender endowment gasPrice gas init origin) := by
  refine Pays.gasBounded ?_ fun _ hrun => ?_
  · refine .bind_of_ok (create_pays hnew) fun entered _ _ _ _ _ hrun => ?_
    exact goUnless_pays hscript (nested_pays hscript hfrugal hnew _)
      (placed_of_create hnew hext hrun) entered.2
  · obtain ⟨entered, _, hcreate, hrun⟩ := bind_eq_ok.mp hrun
    have hplain := create_erases.ok hcreate
    exact BitVec.le_trans (runGo_gas hfrugal hrun) (Executive.create_gas none hplain)

/-- What bounds the frames that a frame asks for, and the trees of frames of
transactions. More levels below a frame than its depth leaves change nothing. -/
structure BoundedByGas (env : EnvInfo) (machine : Machine) (script : Ext → U256 → Script) :
    Prop where
  finishes : ∀ ext gas, (script ext gas).Finishes
  call : ∀ ext : Ext, ext.depth ≤ 1024 → ∀ levels, 1025 - ext.depth ≤ levels → ∀ issuer p,
    (Watched.nested env machine (tally machine) script levels).call issuer ext p =
        (Watched.nested env machine (tally machine) script (1025 - ext.depth)).call issuer ext p ∧
      GasBounded p.gas (·.gas)
        ((Watched.nested env machine (tally machine) script levels).call issuer ext p)
  create : ∀ ext : Ext, ext.depth < 1024 → ∀ levels, 1025 - ext.depth ≤ levels →
    ∀ salt endowment gas init,
    (Watched.nested env machine (tally machine) script levels).create ext salt endowment gas init =
        (Watched.nested env machine (tally machine) script (1025 - ext.depth)).create
          ext salt endowment gas init ∧
      GasBounded gas (·.gas) ((Watched.nested env machine (tally machine) script levels).create
        ext salt endowment gas init)
  callTree : ∀ (e : Executive) issuer p gasPrice origin,
    e.ext = none → e.isCreation = false → e.gas = 0 →
      GasBounded p.gas (·.gas) (callTree env machine script issuer e p gasPrice origin)
  createTree : ∀ (e : Executive) sender endowment gasPrice gas init origin, e.ext = none →
    GasBounded gas (·.gas)
      (createTree env machine script e sender endowment gasPrice gas init origin)

theorem boundedByGas : BoundedByGas env machine script := by
  have hpays : ∀ levels, NestedPays env
      (Watched.nested env machine (tally machine) script levels) := nested_pays hscript hfrugal hnew
  refine ⟨fun ext gas => (hscript ext gas).finishes, ?_, ?_, ?_, ?_⟩
  · intro ext hdepth levels hlevels issuer p
    refine ⟨(nested_stable (tally_faithful machine) ext hdepth hlevels le_rfl).1 issuer p, ?_⟩
    exact ((hpays levels).call issuer ext p).gasBounded fun _ => (hpays levels).callGas
  · intro ext hdepth levels hlevels salt endowment gas init
    refine ⟨(nested_stable (tally_faithful machine) ext hdepth.le hlevels le_rfl).2 hdepth
      salt endowment gas init, ?_⟩
    exact ((hpays levels).create ext salt endowment gas init).gasBounded
      fun _ => (hpays levels).createGas
  · intro e issuer p gasPrice origin hext hcreation hgas
    exact callTree_gasBounded hscript hfrugal hnew hext hcreation hgas
  · intro e sender endowment gasPrice gas init origin hext
    exact createTree_gasBounded hscript hfrugal hnew hext

end

/-- Execution is bounded by gas, for the interpreter with any schedule of the block, if no
creation can be at the address of ConfigController. With the schedules in force from
EIP 150 on, a frame keeps one 64th of its gas. -/
theorem boundedByGas_of_standard (config : VMConfig) (block : BlockWords) (env : EnvInfo)
    (machine : Machine) {current : VMSchedule} (hcurrent : current ∈ VMSchedule.standard)
    (hnew : ¬ Executive.IsNewAddress configControllerContractAddress) :
    BoundedByGas env machine (LegacyVM.exec config block current.forVersion) ∧
      ∀ vm : LegacyVM, vm.schedule ∈ VMSchedule.inForce → vm.ioGas < 2 ^ 64 → vm.SharesGas :=
  ⟨boundedByGas (LegacyVM.exec_affords config block hcurrent)
      (LegacyVM.exec_frugal machine config block hcurrent) hnew,
    fun _ => LegacyVM.sharesGas_of_inForce⟩

end Watched

/-! ## An endless loop -/

namespace Watched

/-- A hash with two values, none of which is the address of ConfigController. -/
abbrev twoValuedKeccak : Keccak := ⟨fun bytes => if bytes = [] then 1 else 0⟩

theorem twoValuedKeccak_new :
    letI := twoValuedKeccak; ¬ Executive.IsNewAddress configControllerContractAddress := by
  let _ := twoValuedKeccak
  have hright : ∀ bytes, configControllerContractAddress ≠ right160 (sha3 bytes) := by
    intro bytes
    change configControllerContractAddress ≠ right160 (if bytes = [] then 1 else 0)
    split <;> decide
  rintro (⟨sender, nonce, h⟩ | ⟨sender, salt, init, h⟩)
  · exact hright _ h
  · exact hright _ h

/-- A machine without precompiled contracts. -/
def plainMachine : Machine where
  exec _ gas := .returned gas []
  evmSchedule _ := {}
  isPrecompiled _ _ := false
  precompiledExecutionAllowedFrom _ _ _ := false
  costOfPrecompiled _ _ _ := 0
  executePrecompiled _ _ _ _ := (false, [])
  lastHash _ := 0

/-- A contract at address 7 that jumps to its start for ever. -/
def setUpLoop : State.M Unit :=
  letI := twoValuedKeccak
  do State.addBalance 7 1
     State.setCode 7 [0x5b, 0x60, 0, 0x56] 0

theorem setUpLoop_codeless :
    letI := twoValuedKeccak
    Codeless configControllerContractAddress (setUpLoop State.sampleState).state := by
  let _ := twoValuedKeccak
  have hkeeps : KeepsCodeless configControllerContractAddress setUpLoop :=
    .bind (codeless_kept.addBalance nofun 1) fun _ =>
      State.keepsCodeless_setCode (by decide) _ 0
  have hstart : Codeless configControllerContractAddress State.sampleState :=
    ⟨fun acc h => (nomatch h), fun h => absurd rfl h⟩
  have hafter := hkeeps _ hstart
  cases hrun : setUpLoop State.sampleState with
  | ok _ s' | error _ s' => rwa [hrun] at hafter

/-- A call of the contract with 50 gas. -/
def loopCall : CallParameters :=
  { senderAddress := 9, codeAddress := 7, receiveAddress := 7, valueTransfer := 0
    apparentValue := 0, gas := 50, data := [] }

/-- What is counted in that call. -/
def loopTally : Tally :=
  letI := twoValuedKeccak
  (callTree { patches := State.samplePatches } plainMachine
    (LegacyVM.exec {} LegacyVM.sampleBlock VMSchedule.istanbul.forVersion) (.transaction 9) {}
    loopCall 0 9 ((setUpLoop State.sampleState).state, {})).state.2

/-- The endless loop stops when the gas is used up. -/
theorem boundedByGas_of_standard_loop :
    loopTally.frames = 1 ∧ 12 < loopTally.instructions ∧
      loopTally.instructions ≤ loopCall.gas.toNat + loopTally.frames := by
  have hcount : loopTally.frames = 1 ∧ 12 < loopTally.instructions := by decide +kernel
  have hbounded := (@boundedByGas_of_standard twoValuedKeccak {} LegacyVM.sampleBlock
    { patches := State.samplePatches } plainMachine .istanbul (by decide)
    twoValuedKeccak_new).1
  have htree := @BoundedByGas.callTree twoValuedKeccak _ plainMachine _ hbounded {}
    (.transaction 9) loopCall 0 9 rfl rfl rfl
  refine ⟨hcount.1, hcount.2, ?_⟩
  exact @GasBounded.instructions_le twoValuedKeccak _ _ _ _ htree _ setUpLoop_codeless

end Watched

end Skaled
