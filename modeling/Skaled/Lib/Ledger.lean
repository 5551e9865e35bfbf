import Mathlib.Algebra.BigOperators.Finprod

/-! # Totals of a ledger

The sum of the amounts a ledger holds under all its keys, as a natural number,
and how it changes when one amount is replaced.
-/

namespace Ledger

variable {Key : Type} [Finite Key]

/-- The sum of all amounts. -/
noncomputable def total (f : Key → Nat) : Nat := finsum f

theorem total_update [DecidableEq Key] (f : Key → Nat) (key : Key) (amount : Nat) :
    total (Function.update f key amount) + f key = total f + amount := by
  cases nonempty_fintype Key
  rw [total, total, finsum_eq_sum_of_fintype, finsum_eq_sum_of_fintype,
    Finset.sum_update_of_mem (Finset.mem_univ key),
    ← Finset.sum_sdiff (Finset.subset_univ {key}), Finset.sum_singleton]
  omega

theorem le_total (f : Key → Nat) (key : Key) : f key ≤ total f := by
  cases nonempty_fintype Key
  rw [total, finsum_eq_sum_of_fintype]
  exact Finset.single_le_sum (fun _ _ => Nat.zero_le _) (Finset.mem_univ key)

end Ledger
