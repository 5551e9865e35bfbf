import Skaled.Executive.GasUse
import Skaled.Executive.Watched

/-! # Observers and call trees

A rule for what an observer has seen at the end of a transaction. A relation between
what was written down before and after a step holds for a whole run when it holds
for the steps without frames, and for a frame whenever it holds for the steps inside
the frame. Frames are nested to any depth, and they succeed or fail.
-/

namespace Skaled.Watched

open EStateM (Passes bind_eq_ok aside_eq_ok)

variable {ω : Type}

/-- Every step of an observer keeps to `R`. A frame that fails is rolled back. -/
structure Respects (watch : Watch ω) (R : ω → ω → Prop) : Prop where
  instruction : ∀ w, R w (watch.instruction w)
  frame : ∀ ext w, R w (watch.frame ext w)
  issue : ∀ issue w, R w (watch.issue issue w)
  execute : ∀ s a data number w, R w (watch.execute s a data number w).2
  rollback : ∀ w, R w (watch.rollback w)
  success : ∀ w w', R (watch.enter w) w' → R w (watch.leave true w')
  failure : ∀ w w', R (watch.enter w) w' → R w (watch.rollback (watch.leave false w'))

variable [Keccak] {env : EnvInfo} {machine : Machine} {watch : Watch ω}
  {script : Ext → U256 → Script} {e : Executive} {ext : Ext} {gas : U256} {done : Bool}
  {t : Transaction} {R : ω → ω → Prop} [Std.Refl R] [IsTrans ω R]

section

variable (hwatch : Respects watch R)

include hwatch

omit [Keccak] [Std.Refl R] [IsTrans ω R] in
theorem executePrecompiled_passes (a : Address) (data : Bytes) :
    Passes R (executePrecompiled env watch a data) := by
  intro s w result s' w' hrun
  cases hrun
  exact hwatch.execute s a data env.number w

variable {gasPrice : U256} {origin : Address}

theorem enterCall_passes {p : CallParameters} :
    Passes R (enterCall env machine watch e p gasPrice origin) := by
  refine .bind (.of_aside _) fun savepoint => .ite ?_ ?_
  · refine .ite (.bind (.of_aside _) fun _ => .pure _) ?_
    exact .bind (executePrecompiled_passes hwatch _ _) fun result => .of_aside _
  · exact .bind (.of_aside _) fun ext => .bind (.of_aside _) fun _ => .pure _

theorem call_passes {issuer : Issuer} {p : CallParameters} :
    Passes R (call env machine watch issuer e p gasPrice origin) := by
  refine .bind (.of_aside _) fun _ => .bind (.of_note fun w => hwatch.issue _ w) fun _ => ?_
  exact enterCall_passes hwatch

/-- A creation whose address is in use is rolled back without a frame. -/
theorem create_passes {salt : Option U256} {sender : Address} {endowment : U256} {init : Bytes} :
    Passes R (create env watch e salt sender endowment gasPrice gas init origin) := by
  refine .bind (.of_aside _) fun result => .bind (.of_note fun w => ?_) fun _ => .pure _
  split
  · exact hwatch.rollback w
  · exact Std.Refl.refl w

end

omit [Keccak] in
theorem closed_passes : Closed fun _ (x : W ω _) => Passes R x :=
  ⟨.pure, .throw, .bind, .of_aside⟩

structure Nested.Passes (nested : Nested ω) (R : ω → ω → Prop) : Prop where
  call : ∀ issuer ext p, EStateM.Passes R (nested.call issuer ext p)
  create : ∀ ext salt endowment gas init,
    EStateM.Passes R (nested.create ext salt endowment gas init)

section Frame

variable {nested : Nested ω} (hwatch : Respects watch R) (hnested : nested.Passes R)

include hwatch hnested

theorem runCode_passes (sub : SubState) :
    Passes R (runCode env machine watch script nested ext gas sub) := by
  refine .bind (.of_note (hwatch.frame ext)) fun _ => ?_
  exact closed_passes.runScript (.of_note hwatch.instruction)
    (fun _ _ _ _ _ => hnested.call _ _ _) (fun _ _ _ _ => hnested.create _ _ _ _ _) _ sub

theorem runInit_passes : Passes R (runInit env machine watch script nested ext gas) :=
  closed_passes.runInit (hnested.call _ _ _) (runCode_passes hwatch hnested)

theorem runFrame_passes : Passes R (runFrame env machine watch script nested e ext) :=
  .ite (runInit_passes hwatch hnested) (runCode_passes hwatch hnested ext.sub)

omit [Std.Refl R] [IsTrans ω R] hwatch hnested in
theorem unexpected_ne_ok {α : Type} (e : Executive) (failure : Failure) (sw : State × ω) (a : α)
    (sw' : State × ω) : unexpected env watch e failure sw ≠ .ok a sw' := by
  intro hrun
  obtain ⟨_, _, _, hrun⟩ := bind_eq_ok.mp hrun
  exact Executive.unexpected_returns (fun _ => False) failure (aside_eq_ok.mp hrun).1

theorem go_passes : Passes R (go env machine watch script nested e) := by
  unfold go
  cases e.ext with
  | none => exact .pure _
  | some ext =>
    intro s w e' s' w' hrun
    obtain ⟨_, _, henter, hrun⟩ := bind_eq_ok.mp hrun
    cases henter
    obtain ⟨⟨outcome, sub⟩, ⟨s₂, w₂⟩, hbody, hrun⟩ := bind_eq_ok.mp hrun
    obtain ⟨_, _, hleave, hrun⟩ := bind_eq_ok.mp hrun
    cases hleave
    obtain ⟨_, _, hnote, hrun⟩ := bind_eq_ok.mp hrun
    cases hnote
    have hinside : R (watch.enter w) w₂ :=
      Passes.tryCatch (runFrame_passes hwatch hnested)
        (fun failure sw a sw' => unexpected_ne_ok e failure sw a sw') _ _ _ _ _ hbody
    have hend := (aside_eq_ok.mp hrun).2
    change w' = _ at hend
    rw [hend]
    cases outcome with
    | returned gas output => exact hwatch.success w w₂ hinside
    | reverted gas output | failed exception => exact hwatch.failure w w₂ hinside

theorem goUnless_passes : Passes R (goUnless env machine watch script nested e done) :=
  .ite (.pure _) (go_passes hwatch hnested)

theorem frameResult_passes : Passes R (frameResult env machine watch script nested e done) :=
  .bind (goUnless_passes hwatch hnested) fun _ => .pure _

end Frame

section

variable (hwatch : Respects watch R)

include hwatch

theorem nested_passes (levels : Nat) :
    (Watched.nested env machine watch script levels).Passes R := by
  induction levels with
  | zero => exact ⟨fun _ _ _ => .throw _, fun _ _ _ _ _ => .throw _⟩
  | succ levels ih =>
    constructor
    · intro issuer ext p
      exact .bind (call_passes hwatch) fun _ => frameResult_passes hwatch ih
    · intro ext salt endowment gas init
      exact .bind (create_passes hwatch) fun _ => frameResult_passes hwatch ih

theorem execute_passes : Passes R (execute env machine watch e t) := by
  refine .bind (.of_aside _) fun _ => .bind (.of_aside _) fun _ => ?_
  exact .ite (create_passes hwatch) (call_passes hwatch)

theorem executeTransaction_passes : Passes R (executeTransaction env machine watch script e t) := by
  refine .bind (.of_aside _) fun savept => .tryCatch ?_ ?_
  · refine .bind (.of_aside _) fun e => .bind (execute_passes hwatch) fun entered => ?_
    refine .bind (goUnless_passes hwatch (nested_passes hwatch _)) fun e => ?_
    exact .of_aside _
  · -- the failure is raised again
    intro failure sw a sw' hrun
    obtain ⟨_, _, _, hrun⟩ := bind_eq_ok.mp hrun
    have hraised := (aside_eq_ok.mp hrun).1
    split at hraised
    · obtain ⟨_, _, _, hthrow⟩ := bind_eq_ok.mp hraised
      cases hthrow
    · cases hraised

/-- A transaction that ends without an error keeps to what its steps keep to. -/
theorem executeOrSkip_passes (t : Transaction) (permanence : State.Permanence) :
    Passes R (executeOrSkip env machine watch script t permanence) := by
  refine .ite (.bind (.of_aside _) fun e => ?_) ?_
  · exact .bind (execute_passes hwatch) fun _ => .pure _
  · exact .bind (executeTransaction_passes hwatch) fun _ => .pure _

end

end Skaled.Watched
