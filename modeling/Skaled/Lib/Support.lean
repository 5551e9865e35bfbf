import Mathlib.Data.Set.Card
import Mathlib.Tactic.Ring

/-! # Counting non-zero values

The number of arguments at which a function on a finite type is not zero, and
how it changes when one value is overwritten or when rows of a table are
dropped.
-/

namespace Support

variable {Row Key Value : Type} [Finite Row] [Finite Key] [Zero Value]

/-- How many values of `f` are not zero. -/
noncomputable def count (f : Key → Value) : Nat := Set.ncard {key | f key ≠ 0}

/-- Dropping one row of a table takes its own values out of the count. -/
theorem count_rows [DecidableEq Row] (table : Row → Key → Value) (rows : List Row)
    (hnodup : rows.Nodup) :
    count (fun cell : Row × Key => table cell.1 cell.2) =
      count (fun cell : Row × Key => if cell.1 ∈ rows then 0 else table cell.1 cell.2) +
        (rows.map fun row => count (table row)).sum := by
  induction rows with
  | nil => simp
  | cons row rest ih =>
    obtain ⟨hfresh, hrest⟩ := List.nodup_cons.mp hnodup
    have hsplit : {cell : Row × Key | (if cell.1 ∈ rest then 0 else table cell.1 cell.2) ≠ 0} =
        {cell | (if cell.1 ∈ row :: rest then 0 else table cell.1 cell.2) ≠ 0} ∪
          Prod.mk row '' {key | table row key ≠ 0} := by
      ext ⟨row', key⟩
      by_cases hrow : row' = row
      · simp [hrow, hfresh]
      · by_cases hmem : row' ∈ rest
        · simp [hrow, hmem, Ne.symm hrow]
        · simp [hrow, hmem, Ne.symm hrow]
    have hdisjoint : Disjoint
        {cell : Row × Key | (if cell.1 ∈ row :: rest then 0 else table cell.1 cell.2) ≠ 0}
        (Prod.mk row '' {key | table row key ≠ 0}) := by
      rw [Set.disjoint_left]
      rintro ⟨row', key⟩ hcell ⟨key', _, heq⟩
      cases heq
      simp at hcell
    have hown : Set.ncard (Prod.mk row '' {key | table row key ≠ 0}) = count (table row) :=
      Set.ncard_image_of_injective _ (Prod.mk_right_injective row)
    rw [ih hrest, List.map_cons, List.sum_cons]
    have hcount : count (fun cell : Row × Key =>
        if cell.1 ∈ rest then 0 else table cell.1 cell.2) =
        count (fun cell : Row × Key =>
          if cell.1 ∈ row :: rest then 0 else table cell.1 cell.2) + count (table row) := by
      rw [count, hsplit, Set.ncard_union_eq hdisjoint (Set.toFinite _) (Set.toFinite _), hown]
      rfl
    rw [hcount]
    ring

end Support
