import Mathlib.Order.Lattice
import Mathlib.Tactic.Basic

/-! # Maps kept in the order of their keys

A map is the list of its entries, in the order of the keys.
-/

namespace OrderedMap

variable {Key Value : Type} [LinearOrder Key]

def insert (key : Key) (value : Value) : List (Key × Value) → List (Key × Value)
  | [] => [(key, value)]
  | entry :: entries =>
    if key < entry.1 then (key, value) :: entry :: entries
    else if key = entry.1 then (key, value) :: entries
    else entry :: insert key value entries

def Sorted (entries : List (Key × Value)) : Prop :=
  entries.Pairwise fun entry entry' => entry.1 < entry'.1

variable {key : Key} {value : Value} {entries : List (Key × Value)}

theorem mem_insert {entry : Key × Value} (h : entry ∈ insert key value entries) :
    entry = (key, value) ∨ entry ∈ entries := by
  fun_induction insert key value entries with
  | case1 => exact .inl (List.mem_singleton.mp h)
  | case2 head entries hlt => exact List.mem_cons.mp h
  | case3 head entries hlt heq =>
    obtain h | h := List.mem_cons.mp h
    · exact .inl h
    · exact .inr (List.mem_cons_of_mem _ h)
  | case4 head entries hlt hne ih =>
    obtain h | h := List.mem_cons.mp h
    · exact .inr (h ▸ List.mem_cons_self)
    · exact (ih h).imp_right (List.mem_cons_of_mem _)

theorem Sorted.insert (h : Sorted entries) : Sorted (insert key value entries) := by
  unfold Sorted at h ⊢
  fun_induction OrderedMap.insert key value entries with
  | case1 => exact List.pairwise_singleton _ _
  | case2 head entries hlt =>
    refine List.pairwise_cons.mpr ⟨fun entry hentry => ?_, h⟩
    obtain rfl | hlater := List.mem_cons.mp hentry
    · exact hlt
    · exact lt_trans hlt ((List.pairwise_cons.mp h).1 entry hlater)
  | case3 head entries hlt heq =>
    obtain ⟨hhead, hrest⟩ := List.pairwise_cons.mp h
    exact List.pairwise_cons.mpr ⟨fun entry hentry => heq ▸ hhead entry hentry, hrest⟩
  | case4 head entries hlt hne ih =>
    obtain ⟨hhead, hrest⟩ := List.pairwise_cons.mp h
    refine List.pairwise_cons.mpr ⟨fun entry hentry => ?_, ih hrest⟩
    obtain rfl | hold := mem_insert hentry
    · exact lt_of_le_of_ne (le_of_not_gt hlt) (Ne.symm hne)
    · exact hhead entry hold

variable [BEq Key] [LawfulBEq Key]

theorem lookup_cons_eq_ite (key : Key) (entry : Key × Value) (entries : List (Key × Value)) :
    (entry :: entries).lookup key = if key = entry.1 then some entry.2 else entries.lookup key := by
  rw [List.lookup_cons]
  by_cases h : key = entry.1
  · rw [if_pos h, beq_iff_eq.mpr h]
  · rw [if_neg h, beq_eq_false_iff_ne.mpr h]

theorem lookup_insert (key key' : Key) (value : Value) (entries : List (Key × Value)) :
    (insert key value entries).lookup key' =
      if key' = key then some value else entries.lookup key' := by
  fun_induction insert key value entries with
  | case1 | case2 head entries hlt => rw [lookup_cons_eq_ite]
  | case3 head entries hlt heq =>
    rw [lookup_cons_eq_ite, lookup_cons_eq_ite, ← heq]
    split
    next => rfl
    next => rfl
  | case4 head entries hlt hne ih =>
    rw [lookup_cons_eq_ite, lookup_cons_eq_ite, ih]
    split
    next h => rw [if_neg fun hkey => hne (hkey.symm.trans h)]
    next => rfl

theorem lookup_eq_some_iff_mem (h : Sorted entries)
    : entries.lookup key = some value ↔ (key, value) ∈ entries := by
  induction entries with
  | nil => simp
  | cons entry entries ih =>
    obtain ⟨hhead, hrest⟩ := List.pairwise_cons.mp h
    rw [lookup_cons_eq_ite, List.mem_cons]
    split
    next heq =>
      constructor
      · intro hvalue
        exact .inl (Prod.ext heq (Option.some.inj hvalue).symm)
      · rintro (hentry | hlater)
        · rw [← hentry]
        · exact absurd heq (ne_of_gt (hhead _ hlater))
    next heq =>
      constructor
      · exact fun hvalue => .inr ((ih hrest).mp hvalue)
      · rintro (hentry | hlater)
        · exact absurd (congrArg Prod.fst hentry) heq
        · exact (ih hrest).mpr hlater

end OrderedMap
