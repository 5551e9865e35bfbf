import Skaled.Lib.StateProg

/-! # Watching a stateful program

A program on a state `σ` can be run on `σ × ω`, where the second component is
what an observer writes down. The observer must not change what the program
does: `Erases` says that a watched program is the given one when the second
component is forgotten. `Passes` says how a run that returns can change the second
component, whatever happens to the first.
-/

namespace EStateM

variable {ε σ ω α β : Type}

/-- Forget what was written down. -/
def Result.forget : Result ε (σ × ω) α → Result ε σ α
  | .ok a s => .ok a s.1
  | .error e s => .error e s.1

/-- Run a program that is not watched. -/
def aside (x : EStateM ε σ α) : EStateM ε (σ × ω) α := fun s =>
  match x s.1 with
  | .ok a s' => .ok a (s', s.2)
  | .error e s' => .error e (s', s.2)

/-- Write something down. -/
def note (f : ω → ω) : EStateM ε (σ × ω) PUnit := modify fun s => (s.1, f s.2)

theorem aside_eq_ok {x : EStateM ε σ α} {s s' : σ × ω} {a : α} :
    aside x s = .ok a s' ↔ x s.1 = .ok a s'.1 ∧ s'.2 = s.2 := by
  obtain ⟨s', w'⟩ := s'
  unfold aside
  cases hx : x s.1 with
  | ok b s₁ =>
    simp only [Result.ok.injEq, Prod.mk.injEq]
    exact ⟨fun ⟨ha, hs, hw⟩ => ⟨⟨ha, hs⟩, hw.symm⟩, fun ⟨⟨ha, hs⟩, hw⟩ => ⟨ha, hs, hw.symm⟩⟩
  | error e s₁ => simp

/-! ## The program that is watched -/

/-- The watched program `x` is the program `y`. -/
def Erases (x : EStateM ε (σ × ω) α) (y : EStateM ε σ α) : Prop :=
  ∀ s w, (x (s, w)).forget = y s

namespace Erases

variable {x : EStateM ε (σ × ω) α} {y : EStateM ε σ α}

theorem ok (hx : Erases x y) {s s' : σ} {w w' : ω}
    {a : α} (hrun : x (s, w) = .ok a (s', w')) : y s = .ok a s' := by
  rw [← hx s w, hrun]
  rfl

theorem of_aside (x : EStateM ε σ α) : Erases (aside x : EStateM ε (σ × ω) α) x := by
  intro s w
  unfold aside
  cases hx : x s <;> rfl

theorem pure (a : α) : Erases (Pure.pure a : EStateM ε (σ × ω) α) (Pure.pure a) := fun _ _ => rfl

theorem throw (e : ε) : Erases (throwThe ε e : EStateM ε (σ × ω) α) (throwThe ε e) :=
  fun _ _ => rfl

theorem bind {f : α → EStateM ε (σ × ω) β} {g : α → EStateM ε σ β} (hx : Erases x y)
    (hf : ∀ a, Erases (f a) (g a)) : Erases (x >>= f) (y >>= g) := by
  intro s w
  rw [bind_apply, bind_apply, ← hx s w]
  cases x (s, w) with
  | ok a s' => exact hf a s'.1 s'.2
  | error e s' => rfl

/-- Writing something down first does not show. -/
theorem note_bind {f : ω → ω} (hx : Erases x y) :
    Erases (note f >>= fun _ => x) y := fun s w => hx s (f w)

theorem tryCatch {handler : ε → EStateM ε (σ × ω) α} {handler' : ε → EStateM ε σ α}
    (hx : Erases x y) (hhandler : ∀ e, Erases (handler e) (handler' e)) :
    Erases (tryCatchThe ε x handler) (tryCatchThe ε y handler') := by
  intro s w
  change (MonadExcept.tryCatch x handler (s, w)).forget = MonadExcept.tryCatch y handler' s
  rw [tryCatch_apply, tryCatch_apply, ← hx s w]
  cases x (s, w) with
  | ok a s' => rfl
  | error e s' => exact hhandler e s'.1 s'.2

theorem ite {p : Prop} [Decidable p] {x x' : EStateM ε (σ × ω) α} {y y' : EStateM ε σ α}
    (hx : Erases x y) (hx' : Erases x' y') :
    Erases (if p then x else x') (if p then y else y') := by
  split
  · exact hx
  · exact hx'

end Erases

/-! ## What is written down -/

theorem Invariant.of_aside {P : ω → Prop} (x : EStateM ε σ α) :
    Invariant (fun s => P s.2) (aside x : EStateM ε (σ × ω) α) := by
  intro s hs
  unfold aside
  cases x s.1 <;> exact hs

/-- A run that returns changes the second component only by `R`. -/
def Passes (R : ω → ω → Prop) (x : EStateM ε (σ × ω) α) : Prop :=
  ∀ s w a s' w', x (s, w) = .ok a (s', w') → R w w'

namespace Passes

variable {R : ω → ω → Prop}

theorem of_aside [Std.Refl R] (x : EStateM ε σ α) : Passes R (aside x : EStateM ε (σ × ω) α) := by
  intro s w a s' w' hrun
  have hsame : w' = w := (aside_eq_ok.mp hrun).2
  rw [hsame]
  exact Std.Refl.refl w

theorem of_note {f : ω → ω} (hf : ∀ w, R w (f w)) :
    Passes R (note f : EStateM ε (σ × ω) PUnit) := by
  intro s w a s' w' hrun
  cases hrun
  exact hf w

theorem pure [Std.Refl R] (a : α) : Passes R (Pure.pure a : EStateM ε (σ × ω) α) := by
  intro s w b s' w' hrun
  cases hrun
  exact Std.Refl.refl w

theorem throw (e : ε) : Passes R (throwThe ε e : EStateM ε (σ × ω) α) := by
  intro s w a s' w' hrun
  cases hrun

theorem bind [IsTrans ω R] {x : EStateM ε (σ × ω) α} {f : α → EStateM ε (σ × ω) β}
    (hx : Passes R x) (hf : ∀ a, Passes R (f a)) : Passes R (x >>= f) := by
  intro s w b s' w' hrun
  obtain ⟨a, ⟨s₁, w₁⟩, hfirst, hsecond⟩ := bind_eq_ok.mp hrun
  exact IsTrans.trans _ _ _ (hx s w a s₁ w₁ hfirst) (hf a s₁ w₁ b s' w' hsecond)

/-- A handler that always raises an error does not show. -/
theorem tryCatch {x : EStateM ε (σ × ω) α} {handler : ε → EStateM ε (σ × ω) α} (hx : Passes R x)
    (hhandler : ∀ e s a s', handler e s ≠ .ok a s') : Passes R (tryCatchThe ε x handler) := by
  intro s w a s' w' hrun
  change MonadExcept.tryCatch x handler (s, w) = _ at hrun
  rw [tryCatch_apply] at hrun
  cases hbody : x (s, w) with
  | ok b s₁ =>
    rw [hbody] at hrun
    cases hrun
    exact hx s w a s' w' hbody
  | error e s₁ =>
    rw [hbody] at hrun
    exact absurd hrun (hhandler e s₁ a (s', w'))

theorem ite {p : Prop} [Decidable p] {x y : EStateM ε (σ × ω) α} (hx : Passes R x)
    (hy : Passes R y) : Passes R (if p then x else y) := by
  split
  · exact hx
  · exact hy

end Passes

end EStateM
