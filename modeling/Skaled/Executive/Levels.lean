import Skaled.Executive.Entered
import Skaled.Executive.Watched

/-! # The depth of nested frames

Frames are nested at most 1025 deep: a frame at depth 1024 makes no call or
creation, and the question to ConfigController, which is asked without a test of
the depth, is asked by creations only. So the bound on the levels in the model
does not show, as long as it is at least 1025 less the depth.
-/

namespace Skaled

theorem Ext.canTransfer_depth [Keccak] {ext : Ext} {amount : U256} {s s' : State}
    (h : ext.canTransfer amount s = .ok true s') : ext.depth < 1024 := by
  obtain ⟨funds, _, _, hrun⟩ := EStateM.bind_eq_ok.mp h
  have hboth := EStateM.pure_eq_ok hrun
  simp only [Bool.and_eq_true, decide_eq_true_eq] at hboth
  exact hboth.2

namespace Watched

open EStateM (aside)

variable {ω : Type} [Keccak] {env : EnvInfo} {machine : Machine} {watch : Watch ω}
  {script : Ext → U256 → Script} {nested nested' : Nested ω} {ext : Ext}

structure SameFrames (ext : Ext) (nested nested' : Nested ω) : Prop where
  call : ext.depth < 1024 → ∀ issuer p, nested.call issuer ext p = nested'.call issuer ext p
  create : ext.depth < 1024 → ∀ salt endowment gas init,
    nested.create ext salt endowment gas init = nested'.create ext salt endowment gas init

/-- What is done after the test of a transfer may rely on the depth. -/
theorem canTransfer_congr {α : Type} {amount : U256} {x x' y y' : W ω α} (hy : y = y')
    (hx : ext.depth < 1024 → x = x') :
    (do if ← aside (ext.canTransfer amount) then x else y) =
      (do if ← aside (ext.canTransfer amount) then x' else y') := by
  refine funext fun s => EStateM.bind_congr_of_ok fun can s' hcan => ?_
  cases can with
  | false => exact congrFun hy s'
  | true => exact congrFun (hx (Ext.canTransfer_depth (EStateM.aside_eq_ok.mp hcan).1)) s'

theorem runScript_congr (h : SameFrames ext nested nested') (run : Script) (sub : SubState) :
    runScript env machine watch nested ext run sub =
      runScript env machine watch nested' ext run sub := by
  induction run generalizing sub with
  | returned | reverted | failed | internalError | unfinished => rfl
  | instruction next ih => exact bind_congr fun _ => ih sub
  | query question next ih | codeAt a next ih => exact bind_congr fun answer => ih answer sub
  | setStore key value next ih =>
    refine bind_congr fun stored => ?_
    rw [ih]
  | log topics data next ih | refund amount next ih => exact ih _
  | suicide beneficiary next ih => exact bind_congr fun _ => ih _
  | call kind a value gas data next ih =>
    refine canTransfer_congr (ih none sub) fun hdepth => ?_
    rw [h.call hdepth]
    exact bind_congr fun result => ih (some result) _
  | create salt endowment gas init next ih =>
    refine canTransfer_congr (ih none sub) fun hdepth => ?_
    rw [h.create hdepth]
    exact bind_congr fun result => ih (some result) _

/-- A frame does not depend on the frames below that it cannot ask for. -/
theorem go_congr {e : Executive} (hsame : ∀ ext, e.ext = some ext → SameFrames ext nested nested')
    (hdeployment : ∀ ext, e.ext = some ext → e.isCreation = true →
      ∀ p, nested.call (.deployment ext) ext p = nested'.call (.deployment ext) ext p) :
    go env machine watch script nested e = go env machine watch script nested' e := by
  unfold go
  cases hext : e.ext with
  | none => rfl
  | some ext =>
    have hcode : ∀ sub, runCode env machine watch script nested ext e.gas sub =
        runCode env machine watch script nested' ext e.gas sub := fun sub =>
      bind_congr fun _ => runScript_congr (hsame ext hext) _ sub
    have hframe : runFrame env machine watch script nested e ext =
        runFrame env machine watch script nested' e ext := by
      unfold runFrame
      split
      next hcreation =>
        unfold runInit deploymentAllowed
        rw [hdeployment ext hext hcreation]
        refine bind_congr fun answer => ?_
        obtain ⟨allowed, sub⟩ := answer
        dsimp only
        rw [hcode sub]
      next => exact hcode ext.sub
    dsimp only
    rw [hframe]

theorem frameResult_congr {e : Executive} (done : Bool)
    (hgo : go env machine watch script nested e = go env machine watch script nested' e) :
    frameResult env machine watch script nested e done =
      frameResult env machine watch script nested' e done := by
  unfold frameResult goUnless
  rw [hgo]

/-- Enough levels: a frame at depth `d` is above at most `1025 - d` further
frames. By induction on the levels. -/
theorem nested_stable (hwatch : watch.Faithful machine) {levels levels' : Nat} (ext : Ext)
    (hdepth : ext.depth ≤ 1024) (hlevels : 1025 - ext.depth ≤ levels)
    (hlevels' : 1025 - ext.depth ≤ levels') :
    (∀ issuer p, (Watched.nested env machine watch script levels).call issuer ext p =
      (Watched.nested env machine watch script levels').call issuer ext p) ∧
    (ext.depth < 1024 → ∀ salt endowment gas init,
      (Watched.nested env machine watch script levels).create ext salt endowment gas init =
        (Watched.nested env machine watch script levels').create ext salt endowment gas init) := by
  induction levels generalizing levels' ext with
  | zero => omega
  | succ levels ih =>
    obtain ⟨levels', rfl⟩ : ∃ n, levels' = n + 1 := ⟨levels' - 1, by omega⟩
    -- the frame one level down, if it can ask for frames of its own
    have hsame : ∀ inner : Ext, inner.depth = ext.depth + 1 → SameFrames inner
        (Watched.nested env machine watch script levels)
        (Watched.nested env machine watch script levels') := fun inner hinner =>
      ⟨fun h => (ih inner (by omega) (by omega) (by omega)).1,
        fun h => (ih inner (by omega) (by omega) (by omega)).2 h⟩
    constructor
    · intro issuer p
      refine funext fun sw => EStateM.bind_congr_of_ok fun entered sw' hrun => ?_
      obtain ⟨hcreation, _, hframe⟩ := Executive.call_called rfl
        ((call_erases hwatch).ok hrun)
      refine congrFun (frameResult_congr entered.2 (go_congr (fun inner hinner => ?_) ?_)) sw'
      · exact hsame inner (hframe inner hinner).depth
      · intro inner _ hcreates
        rw [hcreation] at hcreates
        cases hcreates
    · intro hbelow salt endowment gas init
      refine funext fun sw => EStateM.bind_congr_of_ok fun entered sw' hrun => ?_
      have hframe := Executive.create_created rfl salt
        (create_erases.ok hrun)
      refine congrFun (frameResult_congr entered.2 (go_congr (fun inner hinner => ?_) ?_)) sw'
      · exact hsame inner (hframe inner hinner).2.1
      · intro inner hinner _ p
        have hinner := (hframe inner hinner).2.1
        have hinner : inner.depth = ext.depth + 1 := hinner
        exact (ih inner (by omega) (by omega) (by omega)).1 _ p

end Watched

end Skaled
