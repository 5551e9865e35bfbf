import Mathlib.Data.List.TakeWhile

/-! # Lists in which a property holds up to some place

A property that an element passes on to all elements in front of it holds exactly
up to the place where `takeWhile` stops; a new element that goes there keeps the
list sorted.
-/

namespace List

variable {α : Type} {l : List α} {p : α → Bool} {v : α}

theorem eq_false_of_mem_dropWhile (h : l.Pairwise fun x y => p y = true → p x = true) :
    ∀ y ∈ l.dropWhile p, p y = false := by
  induction l with
  | nil => exact nofun
  | cons x rest ih =>
    obtain ⟨hx, hrest⟩ := pairwise_cons.mp h
    intro y hy
    rw [dropWhile_cons] at hy
    split at hy
    next => exact ih hrest y hy
    next hnot =>
      obtain rfl | hlater := mem_cons.mp hy
      · exact eq_false_of_ne_true hnot
      · exact eq_false_of_ne_true fun htrue => hnot (hx y hlater htrue)

theorem insertIdx_eq_take_drop {position : Nat} (hle : position ≤ l.length) (v : α) :
    l.insertIdx position v = l.take position ++ v :: l.drop position := by
  induction position generalizing l with
  | zero => rfl
  | succ position ih =>
    cases l with
    | nil => exact absurd hle (Nat.not_succ_le_zero _)
    | cons x l =>
      rw [insertIdx_succ_cons, ih (Nat.le_of_succ_le_succ hle)]
      rfl

theorem insertIdx_takeWhile (l : List α) (p : α → Bool) (v : α) :
    l.insertIdx (l.takeWhile p).length v = l.takeWhile p ++ v :: l.dropWhile p := by
  induction l with
  | nil => rfl
  | cons x rest ih =>
    rw [takeWhile_cons, dropWhile_cons]
    split
    next => rw [length_cons, insertIdx_succ_cons, ih, cons_append]
    next => rfl

theorem Pairwise.insertIdx_takeWhile {R : α → α → Prop} (h : l.Pairwise R)
    (hbefore : ∀ x ∈ l.takeWhile p, R x v) (hafter : ∀ y ∈ l.dropWhile p, R v y) :
    (l.insertIdx (l.takeWhile p).length v).Pairwise R := by
  rw [← takeWhile_append_dropWhile (p := p) (l := l), pairwise_append] at h
  obtain ⟨hfirst, hlast, hboth⟩ := h
  rw [List.insertIdx_takeWhile, pairwise_append, pairwise_cons]
  refine ⟨hfirst, ⟨hafter, hlast⟩, fun x hx y hy => ?_⟩
  obtain rfl | hlater := mem_cons.mp hy
  · exact hbefore x hx
  · exact hboth x hx y hlater

end List
