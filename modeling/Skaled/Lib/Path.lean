import Mathlib.Data.List.Infix

/-! # Paths

Paths are strings over some alphabet with a separator. Their components are the
nonempty parts between separators. A component may stand for the directory itself
or for the one above it; `resolve` takes these away as a file system without
links does, and stays at the root when there is nothing above.

`climb` resolves a relative path on its own: how many directories it goes up, and
what it names from there. Behind a directory this is the whole story
(`resolve_append`), so a path stays inside a directory just if it names again
what it has left (`prefix_resolve_iff`).
-/

namespace Path

variable {α : Type} [DecidableEq α]

/-- The nonempty parts of a path. -/
def components (sep : α) (path : List α) : List (List α) := (path.splitOn sep).filter (· ≠ [])

/-- A separator in the middle. -/
theorem components_append_cons (sep : α) (path rest : List α) :
    components sep (path ++ sep :: rest) = components sep path ++ components sep rest := by
  unfold components List.splitOn
  rw [List.splitOnP_append_cons, List.filter_append]
  exact beq_self_eq_true sep

/-- A path without a separator is one component. -/
theorem components_of_notMem {sep : α} {path : List α} (hsep : sep ∉ path) (hne : path ≠ []) :
    components sep path = [path] := by
  unfold components
  rw [List.splitOn_eq_singleton hsep]
  simp [hne]

/-! ## Elements on the way -/

/-- The texts up to the end of each component, the shortest first. -/
def elements (sep : α) (path : List α) : List (List α) :=
  path.inits.filter fun start =>
    start.getLast?.any (· ≠ sep) ∧ (path.drop start.length).head?.all (· = sep)

theorem mem_elements_iff {sep : α} {path start : List α} :
    start ∈ elements sep path ↔
      ∃ rest, path = start ++ rest ∧ start.getLast?.any (· ≠ sep) ∧ rest.head?.all (· = sep) := by
  unfold elements
  rw [List.mem_filter, List.mem_inits, decide_eq_true_iff]
  constructor
  · rintro ⟨⟨rest, rfl⟩, hlast, hnext⟩
    rw [List.drop_left] at hnext
    exact ⟨rest, rfl, hlast, hnext⟩
  · rintro ⟨rest, rfl, hlast, hnext⟩
    rw [List.drop_left]
    exact ⟨List.prefix_append start rest, hlast, hnext⟩

theorem ne_nil_of_mem_elements {sep : α} {path start : List α} (h : start ∈ elements sep path) :
    start ≠ [] := by
  rintro rfl
  obtain ⟨-, -, hlast, -⟩ := mem_elements_iff.mp h
  cases hlast

/-- A path without a separator is the end of its own way. -/
theorem eq_of_mem_elements {sep : α} {path start : List α} (hsep : sep ∉ path)
    (h : start ∈ elements sep path) : start = path := by
  obtain ⟨rest, rfl, -, hnext⟩ := mem_elements_iff.mp h
  cases rest with
  | nil => rw [List.append_nil]
  | cons c rest =>
    have hc : c = sep := by simpa using hnext
    exact absurd (List.mem_append_right start (hc ▸ List.mem_cons_self)) hsep

/-- The way along a path goes on behind a separator. -/
theorem mem_elements_append_cons {sep : α} {dir rest start : List α} :
    start ∈ elements sep (dir ++ sep :: rest) ↔
      start ∈ elements sep dir ∨ ∃ more ∈ elements sep rest, start = dir ++ sep :: more := by
  have hend : ∀ c more, (dir ++ sep :: c :: more).getLast? = (c :: more).getLast? := fun c more =>
    (List.getLast?_append_of_ne_nil dir (List.cons_ne_nil _ _)).trans List.getLast?_cons_cons
  simp only [mem_elements_iff]
  constructor
  · rintro ⟨tail, hpath, hlast, hnext⟩
    rcases List.append_eq_append_iff.mp hpath with ⟨more, rfl, hmore⟩ | ⟨left, rfl, rfl⟩
    · cases more with
      | nil => exact .inl ⟨[], by simp, by simpa using hlast, rfl⟩
      | cons c more =>
        obtain ⟨rfl, hrest⟩ := List.cons_eq_cons.mp hmore
        refine .inr ⟨more, ⟨tail, hrest, ?_, hnext⟩, rfl⟩
        cases more with
        | nil => simp at hlast
        | cons d more => exact hend d more ▸ hlast
    · refine .inl ⟨left, rfl, hlast, ?_⟩
      cases left with
      | nil => rfl
      | cons c left => exact hnext
  · rintro (⟨tail, rfl, hlast, hnext⟩ | ⟨more, ⟨tail, rfl, hlast, hnext⟩, rfl⟩)
    · refine ⟨tail ++ sep :: rest, by simp, hlast, ?_⟩
      cases tail with
      | nil => simp
      | cons c tail => exact hnext
    · refine ⟨tail, by simp, ?_, hnext⟩
      cases more with
      | nil => cases hlast
      | cons c more => exact (hend c more).symm ▸ hlast

/-! ## Going up -/

section Resolve

variable (here up : List α)

/-- Follow one component from a directory. -/
def follow (dir : List (List α)) (part : List α) : List (List α) :=
  if part = here then dir else if part = up then dir.dropLast else dir ++ [part]

/-- The directory or file that components lead to from the root. -/
def resolve (parts : List (List α)) : List (List α) := parts.foldl (follow here up) []

/-- One component of a relative path, after `ups` directories up and some names. -/
def climbStep : Nat × List (List α) → List α → Nat × List (List α)
  | (ups, names), part =>
    if part = here then (ups, names)
    else if part = up then
      match names with
      | [] => (ups + 1, [])
      | _ :: _ => (ups, names.dropLast)
    else (ups, names ++ [part])

/-- How far up a relative path goes, and what it names from there. -/
def climb (parts : List (List α)) : Nat × List (List α) :=
  parts.foldl (climbStep here up) (0, [])

variable {here up}

theorem follow_take (dir : List (List α)) (climbed : Nat × List (List α)) (part : List α) :
    follow here up (dir.take (dir.length - climbed.1) ++ climbed.2) part =
      dir.take (dir.length - (climbStep here up climbed part).1) ++
        (climbStep here up climbed part).2 := by
  rcases climbed with ⟨ups, names⟩
  simp only [follow, climbStep]
  by_cases hhere : part = here
  · rw [if_pos hhere, if_pos hhere]
  · rw [if_neg hhere, if_neg hhere]
    by_cases hup : part = up
    · rw [if_pos hup, if_pos hup]
      cases names with
      | nil =>
        -- At the root both sides stay where they are: the difference is cut off at zero.
        rw [List.append_nil, List.append_nil, List.dropLast_eq_take, List.take_take,
          List.length_take]
        congr 1
        dsimp only
        omega
      | cons name names => rw [List.dropLast_append_of_ne_nil (List.cons_ne_nil _ _)]
    · rw [if_neg hup, if_neg hup, List.append_assoc]

/-- A path behind a directory. -/
theorem resolve_append (dir parts : List (List α)) :
    resolve here up (dir ++ parts) =
      (resolve here up dir).take ((resolve here up dir).length - (climb here up parts).1) ++
        (climb here up parts).2 := by
  unfold resolve
  rw [List.foldl_append]
  generalize dir.foldl (follow here up) [] = place
  have hfold : ∀ climbed : Nat × List (List α),
      parts.foldl (follow here up) (place.take (place.length - climbed.1) ++ climbed.2) =
        place.take (place.length - (parts.foldl (climbStep here up) climbed).1) ++
          (parts.foldl (climbStep here up) climbed).2 := by
    induction parts with
    | nil => exact fun _ => rfl
    | cons part parts ih =>
      intro climbed
      rw [List.foldl_cons, List.foldl_cons, follow_take, ih]
  have hstart := hfold (0, [])
  rw [Nat.sub_zero, List.take_length, List.append_nil] at hstart
  exact hstart

/-- A path behind a directory stays inside just if it names what it has left. -/
theorem prefix_resolve_iff (dir parts : List (List α)) :
    resolve here up dir <+: resolve here up (dir ++ parts) ↔
      (resolve here up dir).drop ((resolve here up dir).length - (climb here up parts).1) <+:
        (climb here up parts).2 := by
  rw [resolve_append]
  generalize resolve here up dir = place
  generalize climb here up parts = climbed
  constructor
  · intro h
    rw [← List.prefix_append_right_inj (place.take (place.length - climbed.1)),
      List.take_append_drop]
    exact h
  · intro h
    have happend := (List.prefix_append_right_inj (place.take (place.length - climbed.1))).mpr h
    rwa [List.take_append_drop] at happend

/-- The directory itself adds nothing to a path. -/
theorem resolve_append_here (parts : List (List α)) :
    resolve here up (parts ++ [here]) = resolve here up parts := by
  unfold resolve
  rw [List.foldl_append, List.foldl_cons, List.foldl_nil, follow, if_pos rfl]

end Resolve

end Path
