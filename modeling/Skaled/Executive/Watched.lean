import Skaled.Executive.Executive
import Skaled.Lib.Watched

/-! # Watching an execution

What an execution does beside changing the state: the instructions it runs, the
calls that reach `Executive::call`, the executors of precompiled contracts it
starts and the rollbacks it makes. The definitions below follow those of the
executive and tell an observer of each of these; `nested_erases` says that they
are the same program.

A run of the machine is a script here, which is a tree of requests in which the
instructions are marked.
-/

namespace Skaled

open State (M)

/-- A run of the virtual machine with its instructions marked. A script that was
cut off at the bound on its length is `unfinished`. -/
inductive Script where
  | returned (gas : U256) (output : Bytes)
  | reverted (gas : U256) (output : Bytes)
  | failed (e : VMException)
  | internalError
  | unfinished
  | instruction (next : Script)
  | query (query : Query) (next : U256 → Script)
  | codeAt (a : Address) (next : Bytes → Script)
  | setStore (key value : U256) (next : Script)
  | log (topics : List H256) (data : Bytes) (next : Script)
  | refund (amount : Int) (next : Script)
  | suicide (beneficiary : Address) (next : Script)
  | call (kind : CallKind) (codeAddress : Address) (value gas : U256) (data : Bytes)
      (next : Option FrameResult → Script)
  | create (salt : Option U256) (endowment gas : U256) (init : Bytes)
      (next : Option FrameResult → Script)

def Script.prog : Script → Prog
  | .returned gas output => .returned gas output
  | .reverted gas output => .reverted gas output
  | .failed e => .failed e
  | .internalError | .unfinished => .internalError
  | .instruction next => next.prog
  | .query question next => .query question fun answer => (next answer).prog
  | .codeAt a next => .codeAt a fun answer => (next answer).prog
  | .setStore key value next => .setStore key value next.prog
  | .log topics data next => .log topics data next.prog
  | .refund amount next => .refund amount next.prog
  | .suicide beneficiary next => .suicide beneficiary next.prog
  | .call kind codeAddress value gas data next =>
    .call kind codeAddress value gas data fun result => (next result).prog
  | .create salt endowment gas init next =>
    .create salt endowment gas init fun result => (next result).prog

def Machine.running (machine : Machine) (script : Ext → U256 → Script) : Machine :=
  { machine with exec := fun ext gas => (script ext gas).prog }

/-- Who asks for a call: a transaction, an instruction of a frame, or `go` before
it runs the init code of a frame. -/
inductive Issuer where
  | transaction (sender : Address)
  | frame (ext : Ext) (kind : CallKind)
  | deployment (ext : Ext)
  deriving DecidableEq, Repr

def Issuer.address : Issuer → Address
  | .transaction sender => sender
  | .frame ext _ | .deployment ext => ext.myAddress

/-- The sender that is written into the parameters of a call. -/
def Issuer.sender : Issuer → Address
  | .transaction sender => sender
  | .frame ext kind => if kind = .delegateCall then ext.caller else ext.myAddress
  | .deployment _ => systemAddress

/-- A call that reaches `Executive::call`. -/
structure Issue where
  issuer : Issuer
  p : CallParameters
  readOnly : Bool
  deriving DecidableEq, Repr

/-- An observer. The executors of precompiled contracts are given to it, because
they change the files of the node. It also sees where the run of a frame starts and
how it ends. -/
structure Watch (ω : Type) where
  instruction : ω → ω
  frame : Ext → ω → ω
  issue : Issue → ω → ω
  execute : State → Address → Bytes → Nat → ω → (Bool × Bytes) × ω
  rollback : ω → ω
  enter : ω → ω := id
  leave : Bool → ω → ω := fun _ => id

/-- The observer finds what the machine answers. -/
def Watch.Faithful {ω : Type} (watch : Watch ω) (machine : Machine) : Prop :=
  ∀ s a data number w,
    (watch.execute s a data number w).1 = machine.executePrecompiled s a data number

namespace Watched

open EStateM (aside note Erases)

/-- Programs on the state and on what the observer wrote. -/
abbrev W (ω : Type) := EStateM Failure (State × ω)

/-- `ExtVM::call` and `ExtVM::create`, watched. -/
structure Nested (ω : Type) where
  call : Issuer → Ext → CallParameters → W ω FrameResult
  create : Ext → Option U256 → U256 → U256 → Bytes → W ω FrameResult

variable {ω : Type} [Keccak] (env : EnvInfo) (machine : Machine) (watch : Watch ω)
  (script : Ext → U256 → Script)

/-- Run the executor of a precompiled contract. -/
def executePrecompiled (a : Address) (data : Bytes) : W ω (Bool × Bytes) := do
  let (s, w) ← get
  let (result, w') := watch.execute s a data env.number w
  set (s, w')
  pure result

def callPrecompiled (e : Executive) (p : CallParameters) : W ω (Executive × Bool) := do
  let g := machine.costOfPrecompiled p.codeAddress p.data env.number
  if p.gas.toNat < g then do
    aside (Executive.touchPrecompiled env p.codeAddress)
    pure ({ e with excepted := .outOfGasBase }, true)
  else do
    let result ← executePrecompiled env watch p.codeAddress p.data
    aside (e.settlePrecompiled p g result)

def enterCall (e : Executive) (p : CallParameters) (gasPrice : U256) (origin : Address) :
    W ω (Executive × Bool) := do
  let savepoint ← aside State.savepoint
  if machine.isPrecompiled p.codeAddress env.number ∧
      machine.precompiledExecutionAllowedFrom p.codeAddress p.senderAddress e.readOnly then
    callPrecompiled env machine watch { e with savepoint } p
  else do
    let ext ← aside (e.callFrame p gasPrice origin)
    aside (State.transferBalance p.senderAddress p.receiveAddress p.valueTransfer)
    pure ({ e with savepoint, gas := p.gas, ext }, ext.isNone)

def call (issuer : Issuer) (e : Executive) (p : CallParameters) (gasPrice : U256)
    (origin : Address) : W ω (Executive × Bool) := do
  aside (e.callNonce env p.senderAddress)
  note (watch.issue ⟨issuer, p, e.readOnly⟩)
  enterCall env machine watch e p gasPrice origin

/-- `createOpcode` and `create2Opcode`. An address that is in use is the only
reason for a rollback here. -/
def create (e : Executive) (salt : Option U256) (sender : Address) (endowment gasPrice gas : U256)
    (init : Bytes) (origin : Address) : W ω (Executive × Bool) := do
  let result ← aside (e.create env salt sender endowment gasPrice gas init origin)
  note (if result.1.excepted = .addressAlreadyUsed then watch.rollback else id)
  pure result

section

variable (nested : Nested ω)

/-- The requests of the virtual machine, one after the other. -/
def runScript (ext : Ext) : Script → SubState → W ω (Outcome × SubState)
  | .returned gas output, sub => pure (.returned gas output, sub)
  | .reverted gas output, sub => pure (.reverted gas output, sub)
  | .failed e, sub => pure (.failed e, sub)
  | .internalError, _ | .unfinished, _ => throw .internalVMError
  | .instruction next, sub => do
    note watch.instruction
    runScript ext next sub
  | .query query next, sub => do
    let answer ← aside (ext.ask env machine query)
    runScript ext (next answer) sub
  | .codeAt a next, sub => do
    let answer ← aside (State.code a)
    runScript ext (next answer) sub
  | .setStore key value next, sub => do
    if ← aside (ext.setStore key value) then runScript ext next sub
    else pure (.failed .storageOverflow, sub)
  | .log topics data next, sub =>
    runScript ext next { sub with logs := sub.logs ++ [⟨ext.myAddress, topics, data⟩] }
  | .refund amount next, sub =>
    runScript ext next { sub with refunds := sub.refunds + amount }
  | .suicide beneficiary next, sub => do
    aside (ext.suicide beneficiary)
    runScript ext next { sub with suicides := sub.suicides.insert ext.myAddress }
  | .call kind codeAddress value gas data next, sub => do
    let p := ext.callParameters kind codeAddress value gas data
    if ← aside (ext.canTransfer p.valueTransfer) then do
      let result ← nested.call (.frame ext kind) ext p
      runScript ext (next (some result)) (sub.accrue result.sub)
    else runScript ext (next none) sub
  | .create salt endowment gas init next, sub => do
    if ← aside (ext.canTransfer endowment) then do
      let result ← nested.create ext salt endowment gas init
      runScript ext (next (some result)) (sub.accrue result.sub)
    else runScript ext (next none) sub

def runCode (ext : Ext) (gas : U256) (sub : SubState) : W ω (Outcome × SubState) := do
  note (watch.frame ext)
  runScript env machine watch nested ext (script ext gas) sub

def deploymentAllowed (ext : Ext) (gas : U256) : W ω (Bool × SubState) := do
  let result ← nested.call (.deployment ext) ext (Executive.deploymentParameters env ext gas)
  aside (Executive.deploymentAnswer ext result)

def runInit (ext : Ext) (gas : U256) : W ω (Outcome × SubState) := do
  let (allowed, sub) ← deploymentAllowed env nested ext gas
  if allowed then do
    let (outcome, sub) ← runCode env machine watch script nested ext gas sub
    match outcome with
    | .returned gas out => do pure (← aside (Executive.depositCode machine ext gas out), sub)
    | outcome => pure (outcome, sub)
  else pure (.failed .invalidContractDeployer, sub)

def runFrame (e : Executive) (ext : Ext) : W ω (Outcome × SubState) :=
  if e.isCreation then runInit env machine watch script nested ext e.gas
  else runCode env machine watch script nested ext e.gas ext.sub

def unexpected {α : Type} (e : Executive) (failure : Failure) : W ω α := do
  note (if failure = .internalVMError then watch.rollback else id)
  aside (e.unexpected env failure)

def conclude (e : Executive) (outcome : Outcome) : W ω Executive := do
  note (match outcome with
    | .returned _ _ => id
    | _ => watch.rollback)
  aside (e.conclude env outcome)

def succeeds : Outcome → Bool
  | .returned _ _ => true
  | .reverted _ _ | .failed _ => false

def go (e : Executive) : W ω Executive :=
  match e.ext with
  | none => pure e
  | some ext => do
    note watch.enter
    let (outcome, sub) ← tryCatch (runFrame env machine watch script nested e ext)
      (unexpected env watch e)
    note (watch.leave (succeeds outcome))
    conclude env watch { e with ext := some { ext with sub } } outcome

def goUnless (e : Executive) (done : Bool) : W ω Executive :=
  if done then pure e else go env machine watch script nested e

def frameResult (e : Executive) (done : Bool) : W ω FrameResult := do
  let e' ← goUnless env machine watch script nested e done
  pure (e'.answered done)

end

/-- `ExtVM::call` and `ExtVM::create` above `levels` nested frames. -/
def nested : Nat → Nested ω
  | 0 => ⟨fun _ _ _ => throw .assertionFailed, fun _ _ _ _ _ => throw .assertionFailed⟩
  | levels + 1 =>
    { call := fun issuer ext p => do
        let (e, done) ← call env machine watch issuer
          { depth := ext.depth + 1, readOnly := ext.readOnly } p ext.gasPrice ext.origin
        frameResult env machine watch script (nested levels) e done
      create := fun ext salt endowment gas init => do
        let (e, done) ← create env watch { depth := ext.depth + 1 } salt ext.myAddress endowment
          ext.gasPrice gas init ext.origin
        frameResult env machine watch script (nested levels) e done }

def runGo (e : Executive) (done : Bool) : W ω Executive :=
  goUnless env machine watch script (nested env machine watch script (1025 - e.depth)) e done

/-! ## Transactions -/

def execute (e : Executive) (t : Transaction) : W ω (Executive × Bool) := do
  aside (e.payForGas t)
  aside (State.assert (e.baseGasRequired ≤ t.gas.toNat))
  let gas := t.gas - BitVec.ofNat 256 e.baseGasRequired
  if t.isCreation then create env watch e none t.sender t.value t.gasPrice gas t.data t.sender
  else
    call env machine watch (.transaction t.sender) e (Executive.messageCall t gas) t.gasPrice
      t.sender

def runTransaction (e : Executive) (t : Transaction) : W ω Executive := do
  let e ← aside (e.initializeFor env t)
  let (e, done) ← execute env machine watch e t
  let e ← runGo env machine watch script e done
  aside (e.finalize env machine t)

def executeTransaction (e : Executive) (t : Transaction) : W ω Executive := do
  let savept ← aside State.savepoint
  tryCatch (runTransaction env machine watch script e t) fun failure => do
    note (if failure.isException then watch.rollback else id)
    aside (do
      if failure.isException then State.rollback env.patches savept
      throw failure)

/-- The part of `State::execute` that runs a transaction. -/
def executeOrSkip (t : Transaction) (permanence : State.Permanence) : W ω (Executive × Bool) := do
  let e : Executive := { readOnly := permanence ≠ .committed }
  if permanence = .committed ∧ State.ifShouldSkipExecution env.chainParams.chainID t.hash then do
    let e ← aside (e.initializeFor env t)
    let (e, _) ← execute env machine watch e t
    pure (e, false)
  else do
    let e ← executeTransaction env machine watch script e t
    pure (e, e.excepted = .none)

/-! ## The same program -/

section Erasure

variable {env : EnvInfo} {machine : Machine} {watch : Watch ω} {script : Ext → U256 → Script}
  {e : Executive} {ext : Ext} {p : CallParameters} {salt : Option U256} {sender origin : Address}
  {endowment gasPrice gas : U256} {init : Bytes} {sub : SubState} {done : Bool}

/-- The nested frames are those of the executive. -/
structure Nested.Erases (nested : Nested ω) (nested' : Skaled.Nested) : Prop where
  call : ∀ issuer ext p, EStateM.Erases (nested.call issuer ext p) (nested'.call ext p)
  create : ∀ ext salt endowment gas init,
    EStateM.Erases (nested.create ext salt endowment gas init)
      (nested'.create ext salt endowment gas init)

section

variable (hwatch : watch.Faithful machine)

include hwatch

omit [Keccak] in
theorem executePrecompiled_erases {α : Type} (a : Address) (data : Bytes) {f : Bool × Bytes → W ω α}
    {g : Bool × Bytes → M α} (hf : ∀ result, Erases (f result) (g result)) :
    Erases (executePrecompiled env watch a data >>= f)
      (get >>= fun s => g (machine.executePrecompiled s a data env.number)) := by
  intro s w
  rw [EStateM.bind_apply, EStateM.bind_apply, EStateM.get_apply]
  change (f (watch.execute s a data env.number w).1 (s, _)).forget = _
  rw [hwatch s a data env.number w]
  exact hf _ _ _

theorem callPrecompiled_erases :
    Erases (callPrecompiled env machine watch e p) (e.callPrecompiled env machine p) :=
  .ite (.bind (.of_aside _) fun _ => .pure _)
    (executePrecompiled_erases (g := e.settlePrecompiled p _) hwatch p.codeAddress p.data
      fun _ => .of_aside _)

theorem enterCall_erases :
    Erases (enterCall env machine watch e p gasPrice origin)
      (e.enterCall env machine p gasPrice origin) := by
  unfold enterCall Executive.enterCall
  refine .bind (.of_aside _) fun savepoint => ?_
  refine .ite (callPrecompiled_erases hwatch) ?_
  exact .bind (.of_aside _) fun ext => .bind (.of_aside _) fun _ => .pure _

theorem call_erases {issuer : Issuer} :
    Erases (call env machine watch issuer e p gasPrice origin)
      (e.call env machine p gasPrice origin) :=
  .bind (.of_aside _) fun _ => .note_bind (enterCall_erases hwatch)

end

theorem create_erases :
    Erases (create env watch e salt sender endowment gasPrice gas init origin)
      (e.create env salt sender endowment gasPrice gas init origin) := by
  intro s w
  rw [← Erases.of_aside (e.create env salt sender endowment gasPrice gas init origin) s w]
  unfold create
  rw [EStateM.bind_apply]
  cases aside (e.create env salt sender endowment gasPrice gas init origin) (s, w) <;> rfl

theorem runScript_erases {nested : Nested ω} {nested' : Skaled.Nested}
    (hnested : nested.Erases nested') (ext : Ext) (run : Script) (sub : SubState) :
    Erases (runScript env machine watch nested ext run sub)
      (Executive.runProg env (machine.running script) nested' ext run.prog sub) := by
  induction run generalizing sub with
  | returned gas output | reverted gas output | failed e => exact .pure _
  | internalError | unfinished => exact .throw _
  | instruction next ih => exact .note_bind (ih sub)
  | query question next ih | codeAt a next ih =>
    exact .bind (.of_aside _) fun answer => ih answer sub
  | setStore key value next ih => exact .bind (.of_aside _) fun _ => .ite (ih sub) (.pure _)
  | log topics data next ih | refund amount next ih => exact ih _
  | suicide beneficiary next ih => exact .bind (.of_aside _) fun _ => ih _
  | call kind codeAddress value gas data next ih =>
    refine .bind (.of_aside _) fun _ => .ite ?_ (ih none sub)
    exact .bind (hnested.call _ _ _) fun result => ih (some result) _
  | create salt endowment gas init next ih =>
    refine .bind (.of_aside _) fun _ => .ite ?_ (ih none sub)
    exact .bind (hnested.create _ _ _ _ _) fun result => ih (some result) _

variable {nested : Nested ω} {nested' : Skaled.Nested}

section

variable (hnested : nested.Erases nested')

include hnested

omit [Keccak] in
theorem deploymentAllowed_erases : Erases (deploymentAllowed env nested ext gas)
    (Executive.deploymentAllowed env nested' ext gas) :=
  .bind (hnested.call _ _ _) fun _ => .of_aside _

theorem runCode_erases :
    Erases (runCode env machine watch script nested ext gas sub)
      (Executive.runProg env (machine.running script) nested' ext
        ((machine.running script).exec ext gas) sub) :=
  .note_bind (runScript_erases hnested ext (script ext gas) sub)

theorem runInit_erases :
    Erases (runInit env machine watch script nested ext gas)
      (Executive.runInit env (machine.running script) nested' ext gas) := by
  refine .bind (deploymentAllowed_erases hnested) fun answer => ?_
  obtain ⟨allowed, sub⟩ := answer
  refine .ite (.bind (runCode_erases hnested) fun result => ?_) (.pure _)
  obtain ⟨outcome, sub⟩ := result
  cases outcome with
  | returned gas out => exact .bind (.of_aside _) fun _ => .pure _
  | reverted gas out | failed e => exact .pure _

theorem runFrame_erases :
    Erases (runFrame env machine watch script nested e ext)
      (e.runFrame env (machine.running script) nested' ext) :=
  .ite (runInit_erases hnested) (runCode_erases hnested)

theorem go_erases :
    Erases (go env machine watch script nested e) (e.go env (machine.running script) nested') := by
  unfold go Executive.go
  cases e.ext with
  | none => exact .pure _
  | some ext =>
    refine .note_bind ?_
    refine .bind (.tryCatch (runFrame_erases hnested) fun _ => ?_) fun result => ?_
    · exact .note_bind (.of_aside _)
    · exact .note_bind (.note_bind (.of_aside _))

theorem goUnless_erases :
    Erases (goUnless env machine watch script nested e done)
      (e.goUnless env (machine.running script) nested' done) :=
  .ite (.pure _) (go_erases hnested)

theorem frameResult_erases :
    Erases (frameResult env machine watch script nested e done)
      (e.frameResult env (machine.running script) nested' done) :=
  .bind (goUnless_erases hnested) fun _ => .pure _

end

theorem nested_erases (hwatch : watch.Faithful machine) (levels : Nat) :
    (Watched.nested env machine watch script levels).Erases
      (Executive.nested env (machine.running script) levels) := by
  induction levels with
  | zero => exact ⟨fun _ _ _ => .throw _, fun _ _ _ _ _ => .throw _⟩
  | succ levels ih =>
    constructor
    · intro issuer ext p
      refine .bind (call_erases hwatch) fun entered => ?_
      exact frameResult_erases ih
    · intro ext salt endowment gas init
      refine .bind create_erases fun entered => ?_
      exact frameResult_erases ih

end Erasure

/-! ## Properties of all parts of a run -/

/-- A property of watched programs that a program has when its parts have it. -/
structure Closed (Q : (α : Type) → W ω α → Prop) : Prop where
  pure : ∀ {α : Type} (a : α), Q α (pure a)
  throw : ∀ {α : Type} (e : Failure), Q α (throw e)
  bind : ∀ {α β : Type} {x : W ω α} {f : α → W ω β}, Q α x → (∀ a, Q β (f a)) → Q β (x >>= f)
  aside : ∀ {α : Type} (x : M α), Q α (aside x)

section Closed

variable {Q : (α : Type) → W ω α → Prop} {env : EnvInfo} {machine : Machine} {watch : Watch ω}
  {script : Ext → U256 → Script} {nested : Nested ω} {ext : Ext}

omit [Keccak] in
theorem Closed.ite (_ : Closed Q) {α : Type} {p : Prop} [Decidable p] {x y : W ω α} (hx : Q α x)
    (hy : Q α y) : Q α (if p then x else y) := by
  split
  · exact hx
  · exact hy

theorem Closed.runScript (hQ : Closed Q) (hinstruction : Q _ (note watch.instruction))
    (hcall : ∀ kind a value gas data,
      Q _ (nested.call (.frame ext kind) ext (ext.callParameters kind a value gas data)))
    (hcreate : ∀ salt endowment gas init, Q _ (nested.create ext salt endowment gas init))
    (run : Script) (sub : SubState) :
    Q _ (Watched.runScript env machine watch nested ext run sub) := by
  induction run generalizing sub with
  | returned gas output | reverted gas output | failed e => exact hQ.pure _
  | internalError | unfinished => exact hQ.throw _
  | instruction next ih => exact hQ.bind hinstruction fun _ => ih sub
  | query question next ih | codeAt a next ih =>
    exact hQ.bind (hQ.aside _) fun answer => ih answer sub
  | setStore key value next ih =>
    exact hQ.bind (hQ.aside _) fun _ => hQ.ite (ih sub) (hQ.pure _)
  | log topics data next ih | refund amount next ih => exact ih _
  | suicide beneficiary next ih => exact hQ.bind (hQ.aside _) fun _ => ih _
  | call kind codeAddress value gas data next ih =>
    refine hQ.bind (hQ.aside _) fun _ => hQ.ite ?_ (ih none sub)
    exact hQ.bind (hcall _ _ _ _ _) fun result => ih (some result) _
  | create salt endowment gas init next ih =>
    refine hQ.bind (hQ.aside _) fun _ => hQ.ite ?_ (ih none sub)
    exact hQ.bind (hcreate _ _ _ _) fun result => ih (some result) _

theorem Closed.runInit (hQ : Closed Q) {gas : U256}
    (hdeployment : Q _ (nested.call (.deployment ext) ext
      (Executive.deploymentParameters env ext gas)))
    (hcode : ∀ sub, Q _ (runCode env machine watch script nested ext gas sub)) :
    Q _ (Watched.runInit env machine watch script nested ext gas) := by
  refine hQ.bind (hQ.bind hdeployment fun _ => hQ.aside _) fun answer => ?_
  obtain ⟨allowed, sub⟩ := answer
  refine hQ.ite (hQ.bind (hcode sub) fun result => ?_) (hQ.pure _)
  obtain ⟨outcome, sub⟩ := result
  cases outcome with
  | returned gas out => exact hQ.bind (hQ.aside _) fun _ => hQ.pure _
  | reverted gas out | failed e => exact hQ.pure _

end Closed

/-! ## What a call writes down -/

section Calls

/-- `Executive::call` starts the executor of a precompiled contract. -/
def Executes (readOnly : Bool) (p : CallParameters) : Prop :=
  machine.isPrecompiled p.codeAddress env.number ∧
    machine.precompiledExecutionAllowedFrom p.codeAddress p.senderAddress readOnly ∧
      machine.costOfPrecompiled p.codeAddress p.data env.number ≤ p.gas.toNat

instance (readOnly : Bool) (p : CallParameters) : Decidable (Executes env machine readOnly p) :=
  inferInstanceAs (Decidable (_ ∧ _ ∧ _))

omit [Keccak] in
theorem aside_watch {α : Type} (x : M α) (s : State) (w : ω) :
    ((aside x : W ω α) (s, w)).state.2 = w := by
  unfold aside
  cases x (s, w).1 <;> rfl

omit [Keccak] in
theorem aside_bind_watch {α β : Type} {x : M α} {f : α → W ω β} {s : State} {w w' : ω}
    (hf : ∀ a s', x s = .ok a s' → (f a (s', w)).state.2 = w')
    (herror : ∀ e s', x s = .error e s' → w = w') : ((aside x >>= f) (s, w)).state.2 = w' := by
  rw [EStateM.bind_apply]
  unfold aside
  cases hx : x s with
  | ok a s' => exact hf a s' hx
  | error e s' => exact herror e s' hx

theorem callPrecompiled_watch (e : Executive) (p : CallParameters) (s : State) (w : ω) :
    (callPrecompiled env machine watch e p (s, w)).state.2 =
      if machine.costOfPrecompiled p.codeAddress p.data env.number ≤ p.gas.toNat then
        (watch.execute s p.codeAddress p.data env.number w).2
      else w := by
  unfold callPrecompiled
  by_cases hgas : p.gas.toNat < machine.costOfPrecompiled p.codeAddress p.data env.number
  · rw [if_pos hgas, if_neg (by omega)]
    exact aside_bind_watch (fun _ _ _ => rfl) fun _ _ _ => rfl
  · rw [if_neg hgas, if_pos (by omega)]
    exact aside_watch _ _ _

/-- A call starts at most one executor, in the state it finds. -/
theorem enterCall_watch (e : Executive) (p : CallParameters) (gasPrice : U256) (origin : Address)
    (s : State) (w : ω) :
    (enterCall env machine watch e p gasPrice origin (s, w)).state.2 =
      if Executes env machine e.readOnly p then
        (watch.execute s p.codeAddress p.data env.number w).2
      else w := by
  by_cases hallowed : machine.isPrecompiled p.codeAddress env.number ∧
      machine.precompiledExecutionAllowedFrom p.codeAddress p.senderAddress e.readOnly
  · have hexecutes : Executes env machine e.readOnly p ↔
        machine.costOfPrecompiled p.codeAddress p.data env.number ≤ p.gas.toNat :=
      ⟨fun h => h.2.2, fun h => ⟨hallowed.1, hallowed.2, h⟩⟩
    simp only [hexecutes]
    rw [← callPrecompiled_watch env machine watch { e with savepoint := s.changeLog.length }]
    change ((if _ then _ else _ : W ω (Executive × Bool)) (s, w)).state.2 = _
    rw [if_pos hallowed]
  · rw [if_neg fun h => hallowed ⟨h.1, h.2.1⟩]
    change ((if _ then _ else _ : W ω (Executive × Bool)) (s, w)).state.2 = _
    rw [if_neg hallowed]
    refine aside_bind_watch (fun ext s' _ => ?_) fun _ _ _ => rfl
    exact aside_bind_watch (fun _ _ _ => rfl) fun _ _ _ => rfl

end Calls

end Watched

end Skaled
