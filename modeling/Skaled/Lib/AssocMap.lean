import Mathlib.Data.List.AList

/-! # Folding the entries of a finite map

Writing the entries of one map into another, one key at a time. Keys are
distinct, so the order of the entries does not matter: each key ends with
what its own entry writes, and every other key is left alone.
-/

namespace AList

variable {Key Value Value' : Type} [DecidableEq Key]

theorem lookup_insert_eq_ite (key key' : Key) (value : Value) (m : AList fun _ : Key => Value) :
    (m.insert key value).lookup key' = if key' = key then some value else m.lookup key' := by
  split
  next heq => rw [heq, lookup_insert]
  next hne => rw [lookup_insert_ne hne]

theorem lookup_erase_eq_ite (key key' : Key) (m : AList fun _ : Key => Value) :
    (m.erase key).lookup key' = if key' = key then none else m.lookup key' := by
  split
  next heq => rw [heq, lookup_erase]
  next hne => rw [lookup_erase_ne hne]

theorem lookup_insert_eq_some {key key' : Key} {value value' : Value}
    {m : AList fun _ : Key => Value} (h : (m.insert key value).lookup key' = some value') :
    key' = key ∧ value = value' ∨ m.lookup key' = some value' := by
  rw [lookup_insert_eq_ite] at h
  split at h
  next heq => exact .inl ⟨heq, Option.some.inj h⟩
  next => exact .inr h

theorem lookup_of_erase {key key' : Key} {value : Value} {m : AList fun _ : Key => Value}
    (h : (m.erase key).lookup key' = some value) : m.lookup key' = some value := by
  rw [lookup_erase_eq_ite] at h
  split at h
  · cases h
  · exact h

theorem lookup_eq_some_iff_mem {key : Key} {value : Value} {m : AList fun _ : Key => Value} :
    m.lookup key = some value ↔ (⟨key, value⟩ : Σ _ : Key, Value) ∈ m.entries := by
  rw [← Option.mem_def, mem_lookup_iff]

theorem erase_of_lookup_eq_none {key : Key} {m : AList fun _ : Key => Value}
    (hnone : m.lookup key = none) : m.erase key = m :=
  AList.ext (List.kerase_of_notMem_keys (lookup_eq_none.mp hnone))

/-- Operations that do nothing but remove keys from the map that is looked at. -/
theorem lookup_foldl_kill {State Op : Type} [DecidableEq Op] {apply : State → Op → State}
    (look : State → AList fun _ : Key => Value) (kill : Key → Op)
    (happly : ∀ state op key, (look (apply state op)).lookup key =
      if kill key = op then none else (look state).lookup key)
    (ops : List Op) (state : State) (key : Key) :
    (look (ops.foldl apply state)).lookup key =
      if kill key ∈ ops then none else (look state).lookup key := by
  induction ops generalizing state with
  | nil => simp
  | cons op rest ih =>
    rw [List.foldl_cons, ih, happly]
    by_cases hop : kill key = op <;> simp [hop]

/-- A fold over the entries of `m` in which each entry changes only what is
looked up at its own key. -/
theorem foldl_entries {Acc Result : Type} (write : (Σ _ : Key, Value) → Acc → Acc)
    (look : Acc → Key → Result) (result : Value → Key → Result → Result)
    (hwrite : ∀ entry acc key, look (write entry acc) key =
      if key = entry.1 then result entry.2 key (look acc key) else look acc key)
    (m : AList fun _ : Key => Value) (base : Acc) (key : Key) :
    look (m.entries.foldl (fun acc entry => write entry acc) base) key =
      match m.lookup key with
      | some value => result value key (look base key)
      | none => look base key := by
  obtain ⟨entries, hnodup⟩ := m
  induction entries generalizing base with
  | nil => rfl
  | cons entry rest ih =>
    have hrest := (List.nodupKeys_cons.mp hnodup).2
    have hfresh := (List.nodupKeys_cons.mp hnodup).1
    have htail := ih (write entry base) hrest
    have hhead := hwrite entry base key
    simp only [List.foldl_cons, lookup] at htail hhead ⊢
    rw [htail]
    by_cases heq : key = entry.1
    · subst heq
      have hnone : rest.dlookup entry.1 = none := List.dlookup_eq_none.mpr hfresh
      simp only [hnone, hhead, if_pos]
      rw [List.dlookup_cons_eq]
    · rw [List.dlookup_cons_ne _ _ heq]
      cases rest.dlookup key with
      | none | some value => simp only [hhead, if_neg heq]

theorem lookup_foldl_insert (m base : AList fun _ : Key => Value) (key : Key) :
    (m.entries.foldl (fun acc entry => acc.insert entry.1 entry.2) base).lookup key =
      (m.lookup key).or (base.lookup key) := by
  have hfold := foldl_entries (fun entry acc => acc.insert entry.1 entry.2)
    (fun (acc : AList fun _ : Key => Value) key => acc.lookup key) (fun value _ _ => some value)
    (fun entry m' key => lookup_insert_eq_ite _ _ _ _) m base key
  rw [hfold]
  cases m.lookup key <;> rfl

end AList
