import Mathlib.Tactic.Basic

/-! # Undo logs

A memory that is changed together with a log, newest entry first, whose
entries can be taken back one at a time. `Undoable` says what an entry needs
from the memory when its turn comes.
-/

namespace UndoLog

variable {Entry Memory : Type}

section

variable (undo : Entry → Memory → Memory) (Undoable : Entry → Memory → Prop)

/-- Take back a list of entries, newest first. -/
def undoAll : List Entry → Memory → Memory
  | [], m => m
  | e :: older, m => undoAll older (undo e m)

/-- Every entry can be taken back when all newer ones have been. -/
def Valid : List Entry → Memory → Prop
  | [], _ => True
  | e :: older, m => Undoable e m ∧ Valid older (undo e m)

/-- The memory `m` with the log `log` was reached from `m₀` with `log₀`, and
taking back the entries above `log₀` leads back to `m₀`. -/
def Reverts (log₀ : List Entry) (m₀ : Memory) (log : List Entry) (m : Memory) : Prop :=
  ∃ recent, log = recent ++ log₀ ∧ undoAll undo recent m = m₀

/-- A step adds entries that lead back, or takes back the newest one above a floor. -/
def Advances (floor : Nat) (log : List Entry) (m : Memory) (log' : List Entry) (m' : Memory) :
    Prop :=
  Reverts undo log m log' m' ∨ ∃ e, log = e :: log' ∧ floor ≤ log'.length ∧ m' = undo e m

end

variable {undo : Entry → Memory → Memory} {Undoable : Entry → Memory → Prop}
  {log₀ log log' : List Entry} {m₀ m m' : Memory} {e : Entry}

theorem undoAll_append (recent older : List Entry) (m : Memory) :
    undoAll undo (recent ++ older) m = undoAll undo older (undoAll undo recent m) := by
  induction recent generalizing m with
  | nil => rfl
  | cons e rest ih => exact ih (undo e m)

theorem Valid.push (h : Valid undo Undoable log m) (hundo : undo e m' = m)
    (hcan : Undoable e m') : Valid undo Undoable (e :: log) m' :=
  ⟨hcan, hundo ▸ h⟩

theorem Reverts.refl : Reverts undo log m log m := ⟨[], rfl, rfl⟩

theorem Reverts.append (h : Reverts undo log₀ m₀ log m) (recent : List Entry)
    (hundo : undoAll undo recent m' = m) : Reverts undo log₀ m₀ (recent ++ log) m' := by
  obtain ⟨older, rfl, hback⟩ := h
  refine ⟨recent ++ older, (List.append_assoc ..).symm, ?_⟩
  rw [undoAll_append, hundo, hback]

theorem Reverts.pop (h : Reverts undo log₀ m₀ (e :: log) m) (hlength : log₀.length ≤ log.length) :
    Reverts undo log₀ m₀ log (undo e m) := by
  obtain ⟨recent, hlog, hback⟩ := h
  cases recent with
  | nil =>
    have := congrArg List.length hlog
    simp only [List.nil_append, List.length_cons] at this
    omega
  | cons e' rest =>
    obtain ⟨rfl, rfl⟩ := List.cons.inj hlog
    exact ⟨rest, rfl, hback⟩

theorem Reverts.advances (h : Reverts undo log₀ m₀ log m)
    (hstep : Advances undo log₀.length log m log' m') : Reverts undo log₀ m₀ log' m' := by
  obtain ⟨recent, rfl, hback⟩ | ⟨e, rfl, hfloor, rfl⟩ := hstep
  · exact h.append recent hback
  · exact h.pop hfloor

/-- Back at the length it started with, the memory is the one it started from. -/
theorem Reverts.eq (h : Reverts undo log₀ m₀ log m) (hlength : log.length = log₀.length) :
    log = log₀ ∧ m = m₀ := by
  obtain ⟨recent, rfl, hback⟩ := h
  have hnil : recent = [] := by
    simpa using hlength
  subst hnil
  exact ⟨rfl, hback⟩

end UndoLog
