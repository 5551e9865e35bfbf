import Skaled.Lib.Watched
import Mathlib.Algebra.Order.Group.Int

/-! # Programs that pay for what they do

An observer counts what a program does, and `score` says how much credit that
took. `Spends credit left x` holds if `x` can pay for everything it does out of
`credit`, and a value it returns still has `left` of it. The rules below are
those of sequential composition: what one program leaves is what the next one
starts with. An error may leave nothing.
-/

namespace EStateM

variable {ε σ ω α β : Type}

/-- From states that satisfy `inv`, the program keeps `inv`. Whatever budget covers the
score and the credit before it still covers the score and what is left after it. -/
def Spends (inv : σ → Prop) (score : ω → Int) (credit : Nat) (left : α → Nat)
    (x : EStateM ε (σ × ω) α) : Prop :=
  ∀ budget : Int, Triple (fun s => inv s.1 ∧ score s.2 + credit ≤ budget) x
    (fun a s => inv s.1 ∧ score s.2 + left a ≤ budget) fun _ s => score s.2 ≤ budget

namespace Spends

variable {inv : σ → Prop} {score : ω → Int} {credit : Nat} {left : α → Nat} {left' : β → Nat}
  {x : EStateM ε (σ × ω) α} {f : α → EStateM ε (σ × ω) β}

/-- Whatever happens, no more is done than the credit pays for. -/
theorem score_le (hx : Spends inv score credit left x) {s : σ}
    (hs : inv s) (w : ω) : score (x (s, w)).state.2 ≤ score w + credit := by
  have h := hx (score w + credit) (s, w) ⟨hs, le_rfl⟩
  cases hrun : x (s, w) with
  | ok a s' =>
    rw [hrun] at h
    exact le_trans (by simp) h.2
  | error e s' =>
    rw [hrun] at h
    exact h

theorem pure {a : α} (h : left a ≤ credit) :
    Spends inv score credit left (Pure.pure a : EStateM ε (σ × ω) α) :=
  fun _ => .pure fun _ hs => ⟨hs.1, by omega⟩

theorem throw (e : ε) : Spends inv score credit left (throwThe ε e : EStateM ε (σ × ω) α) :=
  fun _ => .throw fun _ hs => by omega

/-- A program that changes nothing that is counted. -/
theorem of_erases {y : EStateM ε σ α} (herases : Erases x y)
    (hscore : ∀ s w, score (x (s, w)).state.2 = score w)
    (hy : ∀ s, inv s → ∀ a s', y s = .ok a s' → inv s' ∧ left a ≤ credit) :
    Spends inv score credit left x := by
  intro budget s hs
  have hsame := hscore s.1 s.2
  change score (x s).state.2 = _ at hsame
  cases hrun : x s with
  | ok a s' =>
    obtain ⟨hs', hleft⟩ := hy s.1 hs.1 a s'.1 (herases.ok hrun)
    rw [hrun, Result.state_ok] at hsame
    exact ⟨hs', by omega⟩
  | error e s' =>
    rw [hrun] at hsame
    change score s'.2 = _ at hsame
    dsimp only
    omega

theorem of_aside {x : EStateM ε σ α}
    (hx : ∀ s, inv s → ∀ a s', x s = .ok a s' → inv s' ∧ left a ≤ credit) :
    Spends inv score credit left (aside x : EStateM ε (σ × ω) α) := by
  refine of_erases (.of_aside x) (fun s w => ?_) hx
  unfold aside
  cases x (s, w).1 <;> rfl

/-- Credit that is put aside. -/
theorem frame (hx : Spends inv score credit left x) (extra : Nat) :
    Spends inv score (credit + extra) (fun a => left a + extra) x :=
  fun budget => (hx (budget - extra)).conseq (fun _ hs => ⟨hs.1, by omega⟩)
    (fun _ _ hs => ⟨hs.1, by push_cast; omega⟩) fun _ _ hs => by omega

theorem of_note {f : ω → ω} (rest : Nat) (hf : ∀ w, score (f w) + rest ≤ score w + credit) :
    Spends inv score credit (fun _ => rest) (note f : EStateM ε (σ × ω) PUnit) :=
  fun _ => .modify fun s hs => ⟨hs.1, (hf s.2).trans hs.2⟩

theorem bind_of_ok (hx : Spends inv score credit left x)
    (hf : ∀ a s w s' w', inv s → x (s, w) = .ok a (s', w') →
      Spends inv score (left a) left' (f a)) : Spends inv score credit left' (x >>= f) :=
  fun budget => (hx budget).bind_of_ok fun a _ _ hs hrun => hf a _ _ _ _ hs.1 hrun budget

theorem bind (hx : Spends inv score credit left x)
    (hf : ∀ a, Spends inv score (left a) left' (f a)) : Spends inv score credit left' (x >>= f) :=
  fun budget => (hx budget).bind fun a => hf a budget

/-- A handler that raises an error again adds nothing. -/
theorem tryCatch {handler : ε → EStateM ε (σ × ω) α} (hx : Spends inv score credit left x)
    (hhandler : ∀ e s w, ∃ e' s' w', handler e (s, w) = .error e' (s', w') ∧ score w' = score w) :
    Spends inv score credit left (tryCatchThe ε x handler) := by
  refine fun budget => (hx budget).tryCatch fun e s hs => ?_
  obtain ⟨e', s', w', heq, hscore⟩ := hhandler e s.1 s.2
  change handler e s = _ at heq
  rw [heq]
  exact hscore.trans_le hs

theorem ite {p : Prop} [Decidable p] {x y : EStateM ε (σ × ω) α}
    (hx : p → Spends inv score credit left x) (hy : ¬ p → Spends inv score credit left y) :
    Spends inv score credit left (if p then x else y) := by
  split
  next h => exact hx h
  next h => exact hy h

end Spends

end EStateM
