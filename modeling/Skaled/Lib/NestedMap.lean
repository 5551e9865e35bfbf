import Mathlib.Data.Multiset.Bind
import Skaled.Lib.AssocMap

/-! # Maps of maps

A map whose values are maps, read and changed at pairs of keys. An inner map
that becomes empty stays until it is dropped. What is stored counts as one
multiset, however it is spread over the inner maps.
-/

abbrev NestedMap (Outer Inner Value : Type) := AList fun _ : Outer => AList fun _ : Inner => Value

namespace AList

variable {Key Value : Type} [DecidableEq Key]

def values (m : AList fun _ : Key => Value) : Multiset Value := ↑(m.entries.map Sigma.snd)

theorem values_insert (m : AList fun _ : Key => Value) (key : Key) (value : Value) :
    (m.insert key value).values = value ::ₘ (m.erase key).values := rfl

variable {m : AList fun _ : Key => Value}

/-- A map is one of its entries and the rest. -/
theorem values_of_lookup {key : Key} {value : Value}
    (hsome : m.lookup key = some value) : m.values = value ::ₘ (m.erase key).values := by
  have hmem : (⟨key, value⟩ : Σ _ : Key, Value) ∈ m.entries := lookup_eq_some_iff_mem.mp hsome
  obtain ⟨other, before, after, hbefore, hentries, herase⟩ :=
    List.exists_of_kerase (List.mem_keys_of_mem hmem)
  have hother : other = value := by
    have hmid : (⟨key, other⟩ : Σ _ : Key, Value) ∈ m.entries := by simp [hentries]
    have hfound := lookup_eq_some_iff_mem.mpr hmid
    rw [hsome] at hfound
    exact (Option.some.inj hfound).symm
  have herased : (m.erase key).entries = before ++ after := herase
  rw [values, values, herased, hentries, hother, Multiset.cons_coe, Multiset.coe_eq_coe]
  simp only [List.map_append, List.map_cons]
  exact List.perm_middle

theorem mem_values {value : Value} : value ∈ m.values ↔ ∃ key, m.lookup key = some value := by
  simp only [values, Multiset.mem_coe, List.mem_map, lookup_eq_some_iff_mem]
  constructor
  · rintro ⟨⟨key, _⟩, hmem, rfl⟩
    exact ⟨key, hmem⟩
  · exact fun ⟨key, hmem⟩ => ⟨_, hmem, rfl⟩

end AList

namespace NestedMap

variable {Outer Inner Value : Type} [DecidableEq Outer]

section

variable (m : NestedMap Outer Inner Value) (a : Outer)

/-- `if( m.find( a )->second.empty() ) m.erase( a )`. -/
def dropEmpty : NestedMap Outer Inner Value :=
  match m.lookup a with
  | some inner => if inner.entries = [] then m.erase a else m
  | none => m

def NoEmpty : Prop :=
  ∀ a inner, m.lookup a = some inner → inner.entries ≠ []

/-- No inner map is empty, except perhaps the one at `a`. -/
def NoEmptyBut : Prop :=
  ∀ b inner, b ≠ a → m.lookup b = some inner → inner.entries ≠ []

/-- All that is stored. -/
def values : Multiset Value :=
  (AList.values m).bind AList.values

variable [DecidableEq Inner] (k : Inner)

def find : Option Value :=
  (m.lookup a).bind (·.lookup k)

def assign (v : Value) : NestedMap Outer Inner Value :=
  AList.insert a (((m.lookup a).getD ∅).insert k v) m

def insertNew (v : Value) : NestedMap Outer Inner Value :=
  if (m.find a k).isSome then m else m.assign a k v

/-- `m.find( a )->second.erase( k )`. -/
def eraseAt : NestedMap Outer Inner Value :=
  match m.lookup a with
  | some inner => AList.insert a (inner.erase k) m
  | none => m

end

variable {m : NestedMap Outer Inner Value} {a b : Outer} {k l : Inner} {v : Value}

theorem NoEmpty.but (h : m.NoEmpty) (a : Outer) : m.NoEmptyBut a := fun b inner _ => h b inner

theorem NoEmpty.dropEmpty (h : m.NoEmptyBut a) : (m.dropEmpty a).NoEmpty := by
  intro b inner hb
  rw [NestedMap.dropEmpty] at hb
  cases ha : m.lookup a with
  | none =>
    rw [ha] at hb
    refine h b inner (fun heq => ?_) hb
    rw [heq, ha] at hb
    cases hb
  | some found =>
    rw [ha] at hb
    dsimp only at hb
    split at hb
    next =>
      rw [AList.lookup_erase_eq_ite] at hb
      split at hb
      next => cases hb
      next hne => exact h b inner hne hb
    next hsome =>
      by_cases heq : b = a
      · rw [heq, ha] at hb
        cases hb
        exact hsome
      · exact h b inner heq hb

theorem values_of_lookup {inner : AList fun _ : Inner => Value} (ha : m.lookup a = some inner) :
    m.values = inner.values + NestedMap.values (m.erase a) := by
  rw [values, AList.values_of_lookup ha, Multiset.cons_bind, values]

theorem values_insert (a : Outer) (inner : AList fun _ : Inner => Value) :
    NestedMap.values (AList.insert a inner m) = inner.values + NestedMap.values (m.erase a) := by
  rw [values, AList.values_insert, Multiset.cons_bind, values]

theorem values_dropEmpty : (m.dropEmpty a).values = m.values := by
  rw [dropEmpty]
  cases ha : m.lookup a with
  | none => rfl
  | some inner =>
    dsimp only
    split
    next hempty =>
      have hinner : inner = ∅ := AList.ext hempty
      rw [values_of_lookup ha, hinner]
      exact (zero_add _).symm
    next => rfl

variable [DecidableEq Inner]

theorem find_assign : (m.assign a k v).find b l = if b = a ∧ l = k then some v else m.find b l := by
  rw [find, assign, AList.lookup_insert_eq_ite]
  by_cases hb : b = a
  · subst hb
    rw [if_pos rfl, Option.bind_some, AList.lookup_insert_eq_ite]
    by_cases hl : l = k
    · rw [if_pos hl, if_pos ⟨rfl, hl⟩]
    · rw [if_neg hl, if_neg fun h => hl h.2, find]
      cases m.lookup b <;> rfl
  · rw [if_neg hb, if_neg fun h => hb h.1, find]

theorem find_eraseAt : (m.eraseAt a k).find b l = if b = a ∧ l = k then none else m.find b l := by
  rw [eraseAt]
  cases ha : m.lookup a with
  | none =>
    by_cases hkey : b = a ∧ l = k
    · rw [if_pos hkey, hkey.1, find, ha, Option.bind_none]
    · rw [if_neg hkey]
  | some inner =>
    dsimp only
    rw [find, AList.lookup_insert_eq_ite]
    by_cases hb : b = a
    · subst hb
      rw [if_pos rfl, Option.bind_some, AList.lookup_erase_eq_ite]
      by_cases hl : l = k
      · rw [if_pos hl, if_pos ⟨rfl, hl⟩]
      · rw [if_neg hl, if_neg fun h => hl h.2, find, ha, Option.bind_some]
    · rw [if_neg hb, if_neg fun h => hb h.1, find]

theorem find_dropEmpty : (m.dropEmpty a).find b l = m.find b l := by
  rw [dropEmpty]
  cases ha : m.lookup a with
  | none => rfl
  | some inner =>
    dsimp only
    split
    next hempty =>
      rw [find, AList.lookup_erase_eq_ite, find]
      by_cases hb : b = a
      · have hinner : inner = ∅ := AList.ext hempty
        rw [if_pos hb, hb, ha, hinner]
        rfl
      · rw [if_neg hb]
    next => rfl

theorem insertNew_of_none (hnone : m.find a k = none) : m.insertNew a k v = m.assign a k v := by
  rw [insertNew, hnone]
  rfl

theorem isSome_find_assign : ((m.assign a k v).find b l).isSome = true ↔
    (b = a ∧ l = k) ∨ (m.find b l).isSome = true := by
  rw [find_assign]
  split
  next heq => exact ⟨fun _ => .inl heq, fun _ => rfl⟩
  next hne => exact (or_iff_right hne).symm

theorem isSome_find_insertNew : ((m.insertNew a k v).find b l).isSome = true ↔
    (b = a ∧ l = k) ∨ (m.find b l).isSome = true := by
  rw [insertNew]
  split
  next hsome =>
    refine (or_iff_right_of_imp ?_).symm
    rintro ⟨rfl, rfl⟩
    exact hsome
  next => exact isSome_find_assign

/-- `m[a]`, which creates a map that is not there, before the insertion makes no
difference. -/
theorem insertNew_insert_getD (hnone : m.find a k = none) :
    NestedMap.insertNew (AList.insert a ((m.lookup a).getD ∅) m) a k v = m.insertNew a k v := by
  have hnone' : NestedMap.find (AList.insert a ((m.lookup a).getD ∅) m) a k = none := by
    rw [find, AList.lookup_insert, Option.bind_some]
    rw [find] at hnone
    cases ha : m.lookup a with
    | none => exact AList.lookup_empty k
    | some inner => rwa [ha] at hnone
  rw [insertNew_of_none hnone', insertNew_of_none hnone, assign, assign, AList.lookup_insert,
    Option.getD_some, AList.insert_insert]

/-! ## Empty maps -/

theorem NoEmpty.assign (h : m.NoEmpty) : (m.assign a k v).NoEmpty := by
  intro b inner hb
  rcases AList.lookup_insert_eq_some hb with ⟨rfl, rfl⟩ | hold
  · simp
  · exact h b inner hold

theorem NoEmptyBut.eraseAt (h : m.NoEmptyBut a) : (m.eraseAt a k).NoEmptyBut a := by
  intro b inner hne hb
  refine h b inner hne ?_
  rw [NestedMap.eraseAt] at hb
  split at hb
  next => rwa [AList.lookup_insert_eq_ite, if_neg hne] at hb
  next => exact hb

/-! ## What is stored -/

theorem values_assign (hnone : m.find a k = none) : (m.assign a k v).values = v ::ₘ m.values := by
  rw [assign, values_insert, AList.values_insert, Multiset.cons_add]
  cases ha : m.lookup a with
  | none =>
    rw [AList.erase_of_lookup_eq_none ha, Option.getD_none,
      AList.erase_of_lookup_eq_none (AList.lookup_empty k)]
    exact congrArg (v ::ₘ ·) (zero_add _)
  | some inner =>
    have hinner : inner.lookup k = none := by rwa [find, ha] at hnone
    rw [values_of_lookup ha, Option.getD_some, AList.erase_of_lookup_eq_none hinner]

theorem values_eraseAt (hsome : m.find a k = some v) : m.values = v ::ₘ (m.eraseAt a k).values := by
  obtain ⟨inner, ha, hinner⟩ := Option.bind_eq_some_iff.mp hsome
  rw [eraseAt, ha]
  dsimp only
  rw [values_insert, values_of_lookup ha, AList.values_of_lookup hinner, Multiset.cons_add]

theorem mem_values : v ∈ m.values ↔ ∃ a k, m.find a k = some v := by
  rw [values, Multiset.mem_bind]
  constructor
  · rintro ⟨inner, hinner, hv⟩
    obtain ⟨a, ha⟩ := AList.mem_values.mp hinner
    obtain ⟨k, hk⟩ := AList.mem_values.mp hv
    exact ⟨a, k, by rw [find, ha, Option.bind_some, hk]⟩
  · rintro ⟨a, k, hfind⟩
    obtain ⟨inner, ha, hk⟩ := Option.bind_eq_some_iff.mp hfind
    exact ⟨inner, AList.mem_values.mpr ⟨a, ha⟩, AList.mem_values.mpr ⟨k, hk⟩⟩

/-! ## Several entries of one inner map -/

section Entries

variable {entries : List (Σ _ : Inner, Value)}

theorem find_foldl_eraseAt :
    (entries.foldl (fun m entry => m.eraseAt a entry.1) m).find b l =
      if b = a ∧ l ∈ entries.map Sigma.fst then none else m.find b l := by
  induction entries generalizing m with
  | nil => simp
  | cons entry rest ih =>
    rw [List.foldl_cons, ih, find_eraseAt, List.map_cons]
    by_cases hb : b = a
    · by_cases hrest : l ∈ rest.map Sigma.fst
      · rw [if_pos ⟨hb, hrest⟩, if_pos ⟨hb, List.mem_cons_of_mem _ hrest⟩]
      · rw [if_neg fun h => hrest h.2]
        by_cases hl : l = entry.1
        · rw [if_pos ⟨hb, hl⟩, if_pos ⟨hb, hl ▸ List.mem_cons_self⟩]
        · rw [if_neg fun h => hl h.2, if_neg fun h => (List.mem_cons.mp h.2).elim hl hrest]
    · rw [if_neg fun h => hb h.1, if_neg fun h => hb h.1, if_neg fun h => hb h.1]

theorem NoEmptyBut.foldl_eraseAt (h : m.NoEmptyBut a) :
    NoEmptyBut (entries.foldl (fun m entry => m.eraseAt a entry.1) m) a := by
  induction entries generalizing m with
  | nil => exact h
  | cons entry rest ih => exact ih h.eraseAt

theorem values_foldl_eraseAt (hnodup : (entries.map Sigma.fst).Nodup)
    (hfind : ∀ entry ∈ entries, m.find a entry.1 = some entry.2) :
    m.values = ↑(entries.map Sigma.snd) +
      NestedMap.values (entries.foldl (fun m entry => m.eraseAt a entry.1) m) := by
  induction entries generalizing m with
  | nil => exact (zero_add _).symm
  | cons entry rest ih =>
    rw [List.map_cons, List.nodup_cons] at hnodup
    have hrest : ∀ other ∈ rest, (m.eraseAt a entry.1).find a other.1 = some other.2 := by
      intro other hother
      rw [find_eraseAt, if_neg, hfind other (List.mem_cons_of_mem _ hother)]
      rintro ⟨-, heq⟩
      exact hnodup.1 (heq ▸ List.mem_map_of_mem hother)
    rw [values_eraseAt (hfind entry List.mem_cons_self), List.foldl_cons, ih hnodup.2 hrest,
      List.map_cons, ← Multiset.cons_coe, Multiset.cons_add]

end Entries

end NestedMap
