import Skaled.Lib.AssocMap

/-! # A key-value store behind a batch

Changes wait in a batch, in the order in which they were made, until the store
is asked to write them. It writes all of them or none; the batch is given away
in either case. Reading the store does not see the batch.
-/

/-- The contents of a store and the changes that wait; `none` removes a key. -/
structure BatchedStore (Key Value : Type) where
  disk : Key → Option Value
  batch : List (Key × Option Value) := []

namespace BatchedStore

open Function (update update_of_ne update_self)

variable {Key Value : Type} [DecidableEq Key]

/-- Changes, one after the other. -/
def write (disk : Key → Option Value) (changes : List (Key × Option Value)) :
    Key → Option Value :=
  changes.foldl (fun disk change => update disk change.1 change.2) disk

def kill (s : BatchedStore Key Value) (key : Key) : BatchedStore Key Value :=
  { s with batch := s.batch ++ [(key, none)] }

/-- Hand over the batch, which the store accepts or not. -/
def commit (s : BatchedStore Key Value) (accepts : Bool) : BatchedStore Key Value :=
  { disk := if accepts then write s.disk s.batch else s.disk }

theorem write_append (disk : Key → Option Value) (first second : List (Key × Option Value)) :
    write disk (first ++ second) = write (write disk first) second :=
  List.foldl_append

theorem write_of_notMem {disk : Key → Option Value} {changes : List (Key × Option Value)}
    {key : Key} (hkey : ∀ change ∈ changes, change.1 ≠ key) :
    write disk changes key = disk key := by
  induction changes generalizing disk with
  | nil => rfl
  | cons change rest ih =>
    have hrest := @ih (update disk change.1 change.2)
      fun other hother => hkey other (List.mem_cons_of_mem _ hother)
    rw [write, List.foldl_cons]
    refine hrest.trans ?_
    rw [update_of_ne (hkey change List.mem_cons_self).symm]

theorem write_map_of_ne {Entry : Type} {change : Entry → Key × Option Value} {key : Key}
    (hkey : ∀ entry, (change entry).1 ≠ key) (disk : Key → Option Value) (entries : List Entry) :
    write disk (entries.map change) key = disk key := by
  apply write_of_notMem
  intro made hmade
  obtain ⟨entry, -, rfl⟩ := List.mem_map.mp hmade
  exact hkey entry

/-- Removals, of any keys. -/
theorem write_kills {disk : Key → Option Value} {changes : List (Key × Option Value)}
    (hkills : ∀ change ∈ changes, change.2 = none) (key : Key) :
    write disk changes key = if key ∈ changes.map Prod.fst then none else disk key := by
  induction changes generalizing disk with
  | nil => rfl
  | cons change rest ih =>
    obtain ⟨killed, value⟩ := change
    obtain rfl : value = none := hkills (killed, value) List.mem_cons_self
    have hrest := @ih (update disk killed none)
      fun other hother => hkills other (List.mem_cons_of_mem _ hother)
    rw [write, List.foldl_cons]
    refine hrest.trans ?_
    rw [List.map_cons]
    by_cases hmem : key ∈ rest.map Prod.fst
    · rw [if_pos hmem, if_pos (List.mem_cons_of_mem _ hmem)]
    · rw [if_neg hmem]
      by_cases hkey : key = killed
      · rw [hkey, update_self, if_pos List.mem_cons_self]
      · rw [update_of_ne hkey, if_neg]
        simp [hkey, hmem]

/-- The entries of a map, under keys of their own. -/
theorem write_entries {Inner InnerValue : Type} [DecidableEq Inner] {embed : Inner → Key}
    (hembed : Function.Injective embed) (value : InnerValue → Option Value)
    (m : AList fun _ : Inner => InnerValue) (disk : Key → Option Value) (key : Inner) :
    write disk (m.entries.map fun entry => (embed entry.1, value entry.2)) (embed key) =
      match m.lookup key with
      | some found => value found
      | none => disk (embed key) := by
  rw [write, List.foldl_map]
  refine (AList.foldl_entries
    (fun entry disk => update disk (embed entry.1) (value entry.2))
    (fun disk key => disk (embed key)) (fun found _ _ => value found) ?_ m disk key).trans ?_
  · intro entry disk key
    by_cases hkey : key = entry.1
    · rw [if_pos hkey, hkey, update_self]
    · rw [if_neg hkey, update_of_ne fun heq => hkey (hembed heq)]
  · cases m.lookup key <;> rfl

end BatchedStore
