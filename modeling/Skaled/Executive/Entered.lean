import Skaled.Executive.Executive
import Skaled.State.Codeless

/-! # The frames that calls and creations set up

What is known of the frame of an executive after `Executive::call` or
`executeCreate`, and that no operation of an executive puts code at an address
other than that of a creation.
-/

namespace Skaled

open EStateM (Triple Invariant Returns)

open State (KeepsCodeless codeless_kept)

variable [Keccak] {env : EnvInfo} {machine : Machine} {a : Address}

structure CalledFrame (e : Executive) (p : CallParameters) (ext : Ext) : Prop where
  myAddress : ext.myAddress = p.receiveAddress
  caller : ext.caller = p.senderAddress
  depth : ext.depth = e.depth
  staticCall : ext.staticCall = p.staticCall
  readOnly : ext.readOnly = e.readOnly

structure CreatedFrame (e : Executive) (ext : Ext) : Prop where
  myAddress : ext.myAddress = e.newAddress
  depth : ext.depth = e.depth
  readOnly : ext.readOnly = true

namespace Ext

variable {ext : Ext}

theorem keepsCodeless_accountExists (b : Address) : KeepsCodeless a (ext.accountExists machine b) :=
  .ite (codeless_kept.field (.pure _) fun _ => .pure _) (codeless_kept.addressInUse b)

theorem keepsCodeless_ask (query : Query) : KeepsCodeless a (ext.ask env machine query) := by
  cases query with
  | balance b => exact codeless_kept.balance b
  | accountExists b => exact .bind (keepsCodeless_accountExists b) fun _ => .pure _
  | codeSizeAt b => exact .bind (codeless_kept.codeSize b) fun _ => .pure _
  | codeHashAt b =>
    exact .bind (keepsCodeless_accountExists b) fun _ =>
      .ite (codeless_kept.field (.pure _) fun _ => .pure _) (.pure _)
  | store key => exact codeless_kept.storage _ key
  | originalStorageValue key => exact codeless_kept.originalStorageValue _ key
  | blockHash number =>
    refine .ite (.pure _) (.ite (.pure _) ?_)
    exact .bind (codeless_kept.getNonce _) fun _ => .throw _

theorem keepsCodeless_setStore (key value : U256) : KeepsCodeless a (ext.setStore key value) := by
  refine Triple.tryCatch
    (.bind (codeless_kept.setStorage nofun nofun value) fun _ => .pure fun _ h => h)
    fun failure => ?_
  exact Invariant.ite (.pure _) (.throw _)

theorem keepsCodeless_suicide (beneficiary : Address) : KeepsCodeless a (ext.suicide beneficiary) :=
  .bind (codeless_kept.balance _) fun _ =>
    .bind (codeless_kept.addBalance nofun _) fun _ => codeless_kept.setBalance nofun _

theorem keepsCodeless_canTransfer (amount : U256) : KeepsCodeless a (ext.canTransfer amount) :=
  .bind (codeless_kept.balance _) fun _ => .pure _

end Ext

namespace Executive

variable {e : Executive} {p : CallParameters} {sender origin : Address} {init : Bytes}
  {endowment gasPrice gas version : U256}

section

variable (hext : e.ext = none)

include hext

theorem callFrame_called :
    Returns (∀ ext, · = some ext → CalledFrame e p ext) (e.callFrame p gasPrice origin) := by
  refine .of_bind fun _ => .ite (fun _ => ?_) fun _ => .pure (by simp [hext])
  refine .of_bind fun _ => .of_bind fun _ => .of_bind fun _ => ?_
  refine .of_bind fun _ => .of_bind fun _ => ?_
  refine .pure ?_
  rintro ext ⟨⟩
  exact ⟨rfl, rfl, rfl, rfl, rfl⟩

/-- A precompiled contract has no frame. -/
theorem callPrecompiled_done :
    Returns (fun entered => entered.2 = true ∧ entered.1.ext = none ∧
      entered.1.isCreation = e.isCreation) (e.callPrecompiled env machine p) := by
  refine .ite (fun _ => .of_bind fun _ => .pure ⟨rfl, hext, rfl⟩) fun _ => .of_bind fun s => ?_
  refine .ite (fun _ => .of_bind fun _ => .pure ⟨?_, hext, rfl⟩) fun _ => .pure ⟨rfl, hext, rfl⟩
  simp [hext]

/-- `Executive::call`: a frame for the code of the callee, or nothing left to
run. -/
theorem call_called :
    Returns (fun entered => entered.1.isCreation = e.isCreation ∧
      entered.2 = entered.1.ext.isNone ∧ ∀ ext, entered.1.ext = some ext → CalledFrame e p ext)
      (e.call env machine p gasPrice origin) := by
  refine .of_bind fun _ => .of_bind fun savepoint => .ite (fun _ => ?_) fun _ => ?_
  · intro s entered s' hrun
    obtain ⟨hdone, hnone, hcreation⟩ :=
      @callPrecompiled_done _ env machine { e with savepoint } p hext _ _ _ hrun
    exact ⟨hcreation, by rw [hdone, hnone]; rfl, by simp [hnone]⟩
  · exact .bind (callFrame_called hext) fun frame hframe =>
      .of_bind fun _ => .pure ⟨rfl, rfl, hframe⟩

theorem createAccount_created :
    Returns (fun entered => ∀ ext, entered.1.ext = some ext → CreatedFrame e ext)
      (e.createAccount env sender endowment gasPrice init origin version) := by
  refine .of_bind fun _ => .ite (fun _ => .of_bind fun _ => .pure (by simp [hext])) fun _ => ?_
  refine .of_bind fun _ => .of_bind fun _ => .pure ?_
  rintro ext ⟨⟩
  exact ⟨rfl, rfl, rfl⟩

/-- A creation that goes on has a frame at its new address. -/
theorem executeCreate_created :
    Returns (fun entered => ∀ ext, entered.1.ext = some ext → CreatedFrame e ext)
      (e.executeCreate env sender endowment gasPrice gas init origin version) := by
  refine .of_bind fun _ => .of_bind fun savepoint => .of_bind fun _ => .of_bind fun _ => ?_
  refine .ite (fun _ => ?_) fun _ => ?_
  · have hrevert : Returns (·.ext = none) (revert env { e with
        savepoint, isCreation := true, gas := 0, excepted := .addressAlreadyUsed, ext := none }) :=
      .of_bind fun _ => .pure rfl
    exact .bind hrevert fun e' hnone => .pure (by simp [hnone])
  · intro s entered s' hrun ext hsome
    have hframe := createAccount_created (by exact hext) hrun ext hsome
    exact ⟨hframe.myAddress, hframe.depth, hframe.readOnly⟩

/-- The addresses at which contracts are created. -/
def IsNewAddress (b : Address) : Prop :=
  (∃ sender nonce, b = createAddress sender nonce) ∨
    ∃ sender salt init, b = create2Address sender salt init

theorem create_created (salt : Option U256) :
    Returns (fun entered => ∀ ext, entered.1.ext = some ext →
        IsNewAddress ext.myAddress ∧ ext.depth = e.depth ∧ ext.readOnly = true)
      (e.create env salt sender endowment gasPrice gas init origin) := by
  have hexecute : ∀ newAddress version, IsNewAddress newAddress →
      Returns (fun entered => ∀ ext, entered.1.ext = some ext →
        IsNewAddress ext.myAddress ∧ ext.depth = e.depth ∧ ext.readOnly = true)
      (executeCreate env { e with newAddress } sender endowment gasPrice gas init origin
        version) := by
    intro newAddress version hnew s entered s' hrun ext hsome
    have hframe := executeCreate_created (by exact hext) hrun ext hsome
    exact ⟨hframe.myAddress ▸ hnew, hframe.depth, hframe.readOnly⟩
  cases salt with
  | none =>
    exact .of_bind fun nonce => .bind (.pure (.inl ⟨sender, nonce, rfl⟩)) fun newAddress hnew =>
      .of_bind fun version => hexecute _ _ hnew
  | some salt =>
    exact .bind (.pure (.inr ⟨sender, salt, init, rfl⟩)) fun newAddress hnew =>
      .of_bind fun version => hexecute _ _ hnew

end

/-! ## Addresses without code -/

theorem keepsCodeless_call : KeepsCodeless a (e.call env machine p gasPrice origin) := by
  have htransfer : ∀ {α : Type} (result : α), KeepsCodeless a (do
      State.transferBalance p.senderAddress p.receiveAddress p.valueTransfer
      pure result) :=
    fun _ => .bind (codeless_kept.transferBalance nofun nofun _) fun _ => .pure _
  refine .bind (.ite (codeless_kept.incNonce nofun) (.pure _)) fun _ => ?_
  refine .bind (.get_bind fun _ _ => .pure _) fun savepoint => .ite ?_ (.bind ?_ fun frame => ?_)
  · refine .ite (.bind (.ite (codeless_kept.addBalance nofun _) (.pure _)) fun _ => .pure _) ?_
    exact .get_bind fun _ _ => .ite (htransfer _) (.pure _)
  · refine .bind (codeless_kept.field (.pure _) fun _ => .pure _) fun _ => .ite ?_ (.pure _)
    refine .bind (codeless_kept.code _) fun _ => ?_
    refine .bind (codeless_kept.field (.pure _) fun _ => .pure _) fun _ => ?_
    refine .bind (codeless_kept.field (.pure _) fun _ => .pure _) fun _ => ?_
    refine .bind (codeless_kept.addressInUse _) fun _ => ?_
    exact .bind (State.Kept.assert _) fun _ => .pure _
  · exact htransfer _

theorem keepsCodeless_revert : KeepsCodeless a (e.revert env) :=
  .bind (codeless_kept.rollback _ _) fun _ => .pure _

theorem keepsCodeless_noteEvent (event : Event) : KeepsCodeless a (noteEvent event) :=
  .modify fun _ h => ⟨h.cached, h.stored⟩

theorem keepsCodeless_executeCreate (hne : e.newAddress ≠ a) :
    KeepsCodeless a (e.executeCreate env sender endowment gasPrice gas init origin version) := by
  refine .bind (.ite (codeless_kept.incNonce nofun) (.pure _)) fun _ => ?_
  refine .bind (.get_bind fun _ _ => .pure _) fun savepoint => ?_
  refine .bind (codeless_kept.field (.pure _) fun _ => .pure _) fun _ => ?_
  refine .bind (codeless_kept.getNonce _) fun _ => .ite ?_ (.bind ?_ fun _ => .ite ?_ ?_)
  · exact .bind keepsCodeless_revert fun _ => .pure _
  · refine .bind (keepsCodeless_noteEvent _) fun _ => ?_
    refine .bind (codeless_kept.transferBalance nofun nofun _) fun _ => ?_
    refine .bind State.Kept.requireAccountStartNonce fun _ => ?_
    refine .bind (codeless_kept.setNonce nofun _) fun _ => ?_
    refine .bind (State.keepsCodeless_clearStorage _) fun _ => ?_
    exact .get_bind fun _ _ => keepsCodeless_noteEvent _
  · exact .bind (State.keepsCodeless_setCode hne _ _) fun _ => .pure _
  · refine .bind (codeless_kept.addressInUse _) fun _ => ?_
    exact .bind (State.Kept.assert _) fun _ => .pure _

theorem keepsCodeless_create (hnew : ¬ IsNewAddress a) (salt : Option U256) :
    KeepsCodeless a (e.create env salt sender endowment gasPrice gas init origin) := by
  have hrest : ∀ newAddress, newAddress ≠ a → KeepsCodeless a (do
      let version ← State.version sender
      executeCreate env { e with newAddress } sender endowment gasPrice gas init origin version) :=
    fun _ hne => .bind (codeless_kept.field (.pure _) fun _ => .pure _) fun _ =>
      keepsCodeless_executeCreate hne
  cases salt with
  | none =>
    refine .bind (codeless_kept.getNonce sender) fun nonce => ?_
    refine hrest (createAddress sender nonce) fun heq => hnew (.inl ⟨sender, nonce, heq.symm⟩)
  | some salt =>
    refine hrest (create2Address sender salt init) fun heq => ?_
    exact hnew (.inr ⟨sender, salt, init, heq.symm⟩)

theorem keepsCodeless_depositCode {ext : Ext} (hne : ext.myAddress ≠ a) (out : Bytes) :
    KeepsCodeless a (depositCode machine ext gas out) := by
  refine .ite (.pure _)
    (.ite (.bind ?_ fun _ => .pure _) (.ite (.pure _) (.bind ?_ fun _ => .pure _)))
  · exact State.keepsCodeless_setCode hne _ _
  · exact State.keepsCodeless_setCode hne _ _

theorem keepsCodeless_conclude (outcome : Outcome) : KeepsCodeless a (e.conclude env outcome) := by
  cases outcome with
  | returned gas output => exact .pure _
  | reverted gas output | failed exception => exact .bind keepsCodeless_revert fun _ => .pure _

end Executive

end Skaled
