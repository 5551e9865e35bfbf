import Mathlib.Tactic.Basic
import Mathlib.Logic.Relation

/-! # Stateful programs that can fail

Reasoning about `EStateM` programs, whose errors keep the changes made before
them. The first part computes a program on a given state; the second is a
small Hoare logic with a postcondition for each of the two ways to end.
-/

namespace EStateM

variable {ε σ α β : Type}

/-- The state a program ends in, with a value or with an error. -/
def Result.state : Result ε σ α → σ
  | .ok _ s => s
  | .error _ s => s

/-- The value of a program that did not fail. -/
def Result.value? : Result ε σ α → Option α
  | .ok a _ => some a
  | .error _ _ => none

@[simp] theorem Result.state_ok (a : α) (s : σ) : (Result.ok a s : Result ε σ α).state = s := rfl
@[simp] theorem Result.value?_ok (a : α) (s : σ) :
    (Result.ok a s : Result ε σ α).value? = some a := rfl
@[simp] theorem Result.value?_error (e : ε) (s : σ) :
    (Result.error e s : Result ε σ α).value? = none := rfl

variable {a : α} {x : EStateM ε σ α} {s s' : σ}

theorem Result.value?_eq_some {r : Result ε σ α} : r.value? = some a ↔ ∃ s, r = .ok a s := by
  cases r <;> simp

theorem bind_apply (x : EStateM ε σ α) (f : α → EStateM ε σ β) (s : σ) :
    (x >>= f) s = match x s with
      | .ok a s' => f a s'
      | .error e s' => .error e s' := rfl

variable {f : α → EStateM ε σ β}

theorem bind_eq_ok {b : β} :
    (x >>= f) s = .ok b s' ↔ ∃ a s₁, x s = .ok a s₁ ∧ f a s₁ = .ok b s' := by
  rw [bind_apply]
  cases hx : x s with
  | ok a s₁ =>
    constructor
    · exact fun h => ⟨a, s₁, rfl, h⟩
    · rintro ⟨_, _, heq, h⟩
      cases heq
      exact h
  | error e s₁ => simp

/-- Programs that go on alike from what the first part returns. -/
theorem bind_congr_of_ok {g : α → EStateM ε σ β} (h : ∀ a s', x s = .ok a s' → f a s' = g a s') :
    (x >>= f) s = (x >>= g) s := by
  rw [bind_apply, bind_apply]
  cases hx : x s with
  | ok a s' => exact h a s' hx
  | error e s' => rfl

theorem pure_apply (a : α) (s : σ) : (pure a : EStateM ε σ α) s = .ok a s := rfl
theorem pure_eq_ok {b : α} (h : (pure a : EStateM ε σ α) s = .ok b s') : a = b :=
  (Result.ok.inj h).1
theorem map_apply (g : α → β) (x : EStateM ε σ α) (s : σ) :
    (g <$> x) s = match x s with
      | .ok a s' => .ok (g a) s'
      | .error e s' => .error e s' := rfl
theorem get_apply (s : σ) : (get : EStateM ε σ σ) s = .ok s s := rfl
theorem modify_apply (g : σ → σ) (s : σ) : (modify g : EStateM ε σ PUnit) s = .ok ⟨⟩ (g s) := rfl
theorem get_bind (f : σ → EStateM ε σ β) (s : σ) : (get >>= f) s = f s s := rfl
theorem set_bind (s' s : σ) (f : PUnit → EStateM ε σ β) : (set s' >>= f) s = f ⟨⟩ s' := rfl
theorem modify_bind (g : σ → σ) (f : PUnit → EStateM ε σ β) (s : σ) :
    (modify g >>= f) s = f ⟨⟩ (g s) := rfl
theorem bind_ok (h : x s = .ok a s') (f : α → EStateM ε σ β) : (x >>= f) s = f a s' := by
  rw [bind_apply, h]
theorem throw_apply (e : ε) (s : σ) : (throw e : EStateM ε σ α) s = .error e s := rfl
theorem tryCatch_apply (x : EStateM ε σ α) (h : ε → EStateM ε σ α) (s : σ) :
    (tryCatch x h) s = match x s with
      | .ok a s' => .ok a s'
      | .error e s' => h e s' := by
  change EStateM.tryCatch x h s = _
  delta EStateM.tryCatch
  cases x s with
  | ok a s' | error e s' => rfl

/-- From a state in `pre` a value is returned in `post`, or an error is raised
in `fail`. -/
def Triple (pre : σ → Prop) (x : EStateM ε σ α) (post : α → σ → Prop) (fail : ε → σ → Prop) :
    Prop :=
  ∀ s, pre s → match x s with
    | .ok a s' => post a s'
    | .error e s' => fail e s'

variable {pre : σ → Prop} {post : α → σ → Prop} {fail : ε → σ → Prop}

theorem Triple.ok (hx : Triple pre x post fail)
    (hpre : pre s) (hrun : x s = .ok a s') : post a s' := by
  have h := hx s hpre
  rwa [hrun] at h

theorem Triple.error (hx : Triple pre x post fail) {e : ε}
    (hpre : pre s) (hrun : x s = .error e s') : fail e s' := by
  have h := hx s hpre
  rwa [hrun] at h

theorem Triple.conseq {pre' : σ → Prop} {post' : α → σ → Prop} {fail' : ε → σ → Prop}
    (hx : Triple pre x post fail) (hpre : ∀ s, pre' s → pre s) (hpost : ∀ a s, post a s → post' a s)
    (hfail : ∀ e s, fail e s → fail' e s) : Triple pre' x post' fail' := by
  intro s hs
  have h := hx s (hpre s hs)
  cases hrun : x s with
  | ok a s' => rw [hrun] at h; exact hpost a s' h
  | error e s' => rw [hrun] at h; exact hfail e s' h

theorem Triple.pure (h : ∀ s, pre s → post a s) :
    Triple pre (Pure.pure a : EStateM ε σ α) post fail := h

theorem Triple.throw {e : ε} (h : ∀ s, pre s → fail e s) :
    Triple pre (throwThe ε e : EStateM ε σ α) post fail := h

/-- The second program is for a value that the first one returned. -/
theorem Triple.bind_of_ok {post' : β → σ → Prop} (hx : Triple pre x post fail)
    (hf : ∀ a s s', pre s → x s = .ok a s' → Triple (post a) (f a) post' fail) :
    Triple pre (x >>= f) post' fail := by
  intro s hs
  have h := hx s hs
  rw [bind_apply]
  cases hrun : x s with
  | ok a s' => rw [hrun] at h; exact hf a s s' hs hrun s' h
  | error e s' => rw [hrun] at h; exact h

theorem Triple.bind {post' : β → σ → Prop} (hx : Triple pre x post fail)
    (hf : ∀ a, Triple (post a) (f a) post' fail) : Triple pre (x >>= f) post' fail :=
  hx.bind_of_ok fun a _ _ _ _ => hf a

theorem Triple.modify {g : σ → σ} {post' : PUnit → σ → Prop} (h : ∀ s, pre s → post' ⟨⟩ (g s)) :
    Triple pre (modify g : EStateM ε σ PUnit) post' fail := h

theorem Triple.tryCatch {handler : ε → EStateM ε σ α} {middle : ε → σ → Prop}
    (hx : Triple pre x post middle) (hhandler : ∀ e, Triple (middle e) (handler e) post fail) :
    Triple pre (tryCatchThe ε x handler) post fail := by
  intro s hs
  have h := hx s hs
  change match (MonadExcept.tryCatch x handler) s with
    | .ok a s' => post a s'
    | .error e s' => fail e s'
  rw [tryCatch_apply]
  cases hrun : x s with
  | ok a s' => rw [hrun] at h; exact h
  | error e s' => rw [hrun] at h; exact hhandler e s' h

theorem Triple.forM {γ : Type} {items : List γ} {body : γ → EStateM ε σ PUnit}
    (hbody : ∀ item ∈ items, Triple pre (body item) (fun _ => pre) fail) :
    Triple pre (items.forM body) (fun _ => pre) fail := by
  induction items with
  | nil => exact Triple.pure fun _ hs => hs
  | cons item rest ih =>
    exact Triple.bind (hbody item List.mem_cons_self)
      fun _ => ih fun other hother => hbody other (List.mem_cons_of_mem _ hother)

/-- Every value that the program returns has a property. -/
def Returns (post : α → Prop) (x : EStateM ε σ α) : Prop :=
  ∀ ⦃s a s'⦄, x s = .ok a s' → post a

namespace Returns

variable {post : α → Prop} {post' : β → Prop} {f : α → EStateM ε σ β}

theorem pure (h : post a) : Returns post (Pure.pure a : EStateM ε σ α) :=
  fun _ _ _ hrun => pure_eq_ok hrun ▸ h

theorem throw (e : ε) : Returns post (throwThe ε e : EStateM ε σ α) :=
  fun _ _ _ hrun => nomatch hrun

theorem bind (hx : Returns post x) (hf : ∀ a, post a → Returns post' (f a)) :
    Returns post' (x >>= f) := by
  intro s b s' hrun
  obtain ⟨a, _, hfirst, hsecond⟩ := bind_eq_ok.mp hrun
  exact hf a (hx hfirst) hsecond

/-- Nothing is known of the value of the first program. -/
theorem of_bind (hf : ∀ a, Returns post' (f a)) : Returns post' (x >>= f) :=
  bind (fun _ _ _ _ => trivial : Returns (fun _ => True) x) fun a _ => hf a

theorem ite {p : Prop} [Decidable p] {y : EStateM ε σ α} (hx : p → Returns post x)
    (hy : ¬ p → Returns post y) : Returns post (if p then x else y) := by
  split
  next h => exact hx h
  next h => exact hy h

theorem tryCatch {handler : ε → EStateM ε σ α} (hx : Returns post x)
    (hhandler : ∀ e, Returns post (handler e)) : Returns post (tryCatchThe ε x handler) := by
  intro s a s' hrun
  change MonadExcept.tryCatch x handler s = _ at hrun
  rw [tryCatch_apply] at hrun
  cases hbody : x s with
  | ok b s₁ =>
    rw [hbody] at hrun
    cases hrun
    exact hx hbody
  | error e s₁ =>
    rw [hbody] at hrun
    exact hhandler e hrun

end Returns

/-- The program keeps a property of the state, however it ends. -/
def Invariant (P : σ → Prop) (x : EStateM ε σ α) : Prop :=
  Triple P x (fun _ => P) fun _ => P

namespace Invariant

variable {P : σ → Prop} {x : EStateM ε σ α}

theorem state (hx : Invariant P x) (hs : P s) : P (x s).state := by
  have h := hx s hs
  cases hrun : x s with
  | ok a s' | error e s' => rwa [hrun] at h

theorem of_state (s : σ) (h : P (x s).state) : match x s with
    | .ok _ s' => P s'
    | .error _ s' => P s' := by
  cases hrun : x s with
  | ok a s' | error e s' => rwa [hrun] at h

theorem pure (a : α) : Invariant P (Pure.pure a : EStateM ε σ α) := fun _ hs => hs

theorem throw (e : ε) : Invariant P (throwThe ε e : EStateM ε σ α) := fun _ hs => hs

theorem bind {f : α → EStateM ε σ β} (hx : Invariant P x) (hf : ∀ a, Invariant P (f a)) :
    Invariant P (x >>= f) := Triple.bind hx hf

theorem bind_of_ok {f : α → EStateM ε σ β} (hx : Invariant P x)
    (hf : ∀ a s s', x s = .ok a s' → Invariant P (f a)) : Invariant P (x >>= f) :=
  Triple.bind_of_ok hx fun a s s' _ => hf a s s'

theorem get_bind {f : σ → EStateM ε σ β} (hf : ∀ s, P s → Invariant P (f s)) :
    Invariant P (get >>= f) := fun s hs => hf s hs s hs

theorem modify {g : σ → σ} (hg : ∀ s, P s → P (g s)) :
    Invariant P (modify g : EStateM ε σ PUnit) := hg

theorem ite {p : Prop} [Decidable p] {y : EStateM ε σ α} (hx : Invariant P x)
    (hy : Invariant P y) : Invariant P (if p then x else y) := by
  split
  next => exact hx
  next => exact hy

theorem ok (hx : Invariant P x) (hs : P s) (hrun : x s = .ok a s') : P s' :=
  Triple.ok hx hs hrun

end Invariant

end EStateM
