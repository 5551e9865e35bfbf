import Skaled.Rlp
import Mathlib.Data.List.GetD

/-! # Finding the items of a list

An item is recognised by its own bytes, whatever follows it, so positions in a
list can be found by skipping over the items in front.
-/

namespace Skaled.Rlp

open Option (bind_eq_bind bind_some)

/-- A complete item: its announced size is its length, whatever follows. -/
def IsItem (x : Bytes) : Prop :=
  x ≠ [] ∧ ∀ tail, actualSize (x ++ tail) = some x.length

variable {x : Bytes} {n : Nat}

theorem IsItem.sizeAsEncoded (hx : IsItem x) (tail : Bytes) :
    sizeAsEncoded (x ++ tail) = some x.length := by
  simp [Rlp.sizeAsEncoded, hx.2 tail]

theorem cropped_zero_append (x tail : Bytes) : cropped (x ++ tail) 0 x.length = x := by
  simp [cropped]

theorem itemLoop_flatten (before : List Bytes) {after : List Bytes}
    (hx : IsItem x) (hafter : ∀ y ∈ after, IsItem y) (i : Nat) (hi : i ≤ after.length + 1) :
    itemLoop (before ++ x :: after).flatten i (before ++ [x]).flatten.length x =
      some ((x :: after).getD i []) := by
  induction i generalizing before x after with
  | zero => rfl
  | succ i ih =>
    have hdrop : (before ++ x :: after).flatten.drop (before ++ [x]).flatten.length =
        after.flatten := by
      have hsplit : (before ++ x :: after).flatten =
          (before ++ [x]).flatten ++ after.flatten := by
        simp
      rw [hsplit, List.drop_left]
    rw [itemLoop, if_neg hx.1]
    simp only [hdrop]
    cases after with
    | nil =>
      -- past the last item the loop meets the null item and stays there
      have hi : i = 0 := by simpa using hi
      subst hi
      rfl
    | cons y rest =>
      have hy := hafter y List.mem_cons_self
      have hrest : ∀ z ∈ rest, IsItem z := fun z hz => hafter z (List.mem_cons_of_mem _ hz)
      rw [List.flatten_cons, hy.sizeAsEncoded]
      simp only [bind_eq_bind, bind_some, cropped_zero_append]
      have hnext := ih (before ++ [x]) hy hrest (by simpa using hi)
      simpa [Nat.add_assoc] using hnext

/-- An item by its position, or the null item behind the last one. -/
theorem actualSize_getD {items : List Bytes} (hitems : ∀ y ∈ items, IsItem y) (i : Nat) :
    actualSize (items.getD i []) = some (items.getD i []).length := by
  by_cases hlt : i < items.length
  · rw [List.getD_eq_getElem _ _ hlt]
    simpa using (hitems _ (List.getElem_mem hlt)).2 []
  · rw [List.getD_eq_default _ _ (Nat.le_of_not_lt hlt)]
    rfl

theorem item_flatten {data : Bytes} {rest : List Bytes}
    (hpayload : payload data = some (x :: rest).flatten) (hitems : ∀ y ∈ x :: rest, IsItem y)
    (i : Nat) (hi : i ≤ rest.length + 1) : item data i = some ((x :: rest).getD i []) := by
  have hx := hitems x List.mem_cons_self
  have hloop := itemLoop_flatten [] hx
    (fun y hy => hitems y (List.mem_cons_of_mem _ hy)) i hi
  simp only [List.nil_append, List.flatten_cons, List.flatten_nil, List.append_nil] at hloop
  simp only [item, hpayload, List.flatten_cons, hx.sizeAsEncoded, cropped_zero_append, hloop,
    bind_eq_bind, bind_some, actualSize_getD hitems i, lt_irrefl, ↓reduceIte]

theorem ofNat_toNat_of_lt (hn : n < 256) : (UInt8.ofNat n).toNat = n := by
  simp [Nat.mod_eq_of_lt hn]

end Skaled.Rlp
