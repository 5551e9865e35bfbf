import Skaled.FileStorage.Precompiled

/-! # Where the paths of the contracts lead

The contracts join the directory of an address with a name from the input. Such a
path has the components of the directory and those of the name, however the name
is cut into parts, and it leads out of the directory unless the name says the
directories again that it goes up from (`inside_append`).
-/

namespace Skaled.FileStorage

/-- The components of a relative path, as the system sees it. -/
def parts (path : Bytes) : List Bytes := Path.components separator (cString path)

variable {path : Bytes}

theorem cString_append_of_mem (h : 0 ∈ path) (more : Bytes) :
    cString (path ++ more) = cString path := by
  unfold cString
  induction path with
  | nil => cases h
  | cons c path ih =>
    by_cases hzero : c = 0
    · simp [hzero]
    · have htail : 0 ∈ path := (List.mem_cons.mp h).resolve_left (Ne.symm hzero)
      simp only [ne_eq, List.cons_append, decide_not] at ih ⊢
      simp [hzero, ih htail]

theorem cString_append (h : 0 ∉ path) (more : Bytes) :
    cString (path ++ more) = path ++ cString more := by
  unfold cString
  refine List.takeWhile_append_of_pos fun c hc => ?_
  refine decide_eq_true ?_
  rintro rfl
  exact h hc

theorem cString_of_notMem (h : 0 ∉ path) : cString path = path := by
  simpa [cString] using cString_append h []

theorem parts_append_of_mem (h : 0 ∈ path) (more : Bytes) : parts (path ++ more) = parts path := by
  unfold parts
  rw [cString_append_of_mem h]

theorem parts_append_cons (h : 0 ∉ path) (more : Bytes) :
    parts (path ++ separator :: more) = parts path ++ parts more := by
  have hsep : 0 ∉ path ++ [separator] := by simpa [separator] using h
  unfold parts
  rw [List.append_cons, cString_append hsep, List.append_assoc, List.singleton_append,
    Path.components_append_cons, cString_of_notMem h]

theorem parts_separator (more : Bytes) : parts (separator :: more) = parts more :=
  @parts_append_cons [] List.not_mem_nil more

@[simp] theorem parts_nil : parts [] = [] := rfl

theorem parts_append_separator (path : Bytes) : parts (path ++ [separator]) = parts path := by
  by_cases h : 0 ∈ path
  · exact parts_append_of_mem h _
  · rw [parts_append_cons h, parts_nil, List.append_nil]

theorem parts_cString (path : Bytes) : parts (cString path) = parts path := by
  unfold parts
  have hzero : 0 ∉ cString path := fun h => by simpa using List.mem_takeWhile_imp h
  rw [cString_of_notMem hzero]

/-! ## Parent and file name -/

theorem trimmed_append_separator (path : Bytes) : trimmed (path ++ [separator]) = trimmed path :=
  List.rdropWhile_concat_pos _ _ _ (by simp)

theorem trimmed_append_of_ne (path : Bytes) {c : UInt8} (h : c ≠ separator) :
    trimmed (path ++ [c]) = path ++ [c] :=
  List.rdropWhile_concat_neg _ _ _ (by simpa using h)

theorem parts_trimmed (path : Bytes) : parts (trimmed path) = parts path := by
  induction path using List.reverseRecOn with
  | nil => rfl
  | append_singleton path c ih =>
    by_cases hsep : c = separator
    · rw [hsep, trimmed_append_separator, ih, parts_append_separator]
    · rw [trimmed_append_of_ne path hsep]

theorem mem_trimmed_iff (path : Bytes) : 0 ∈ trimmed path ↔ 0 ∈ path := by
  induction path using List.reverseRecOn with
  | nil => rfl
  | append_singleton path c ih =>
    by_cases hsep : c = separator
    · rw [hsep, trimmed_append_separator, ih]
      simp [separator]
    · rw [trimmed_append_of_ne path hsep]

theorem beforeLast_append_lastPart (path : Bytes) : beforeLast path ++ lastPart path = path :=
  List.rdropWhile_append_rtakeWhile

/-- A path up to its last separator ends with it. -/
theorem beforeLast_eq (h : beforeLast path ≠ []) :
    ∃ start, beforeLast path = start ++ [separator] := by
  have hlast : ¬decide ((beforeLast path).getLast h ≠ separator) = true :=
    List.rdropWhile_last_not _ _ h
  have hseparator : (beforeLast path).getLast h = separator := by
    simpa using hlast
  refine ⟨(beforeLast path).dropLast, ?_⟩
  rw [← hseparator, List.dropLast_append_getLast]

/-- The two halves of a path that has a separator. -/
theorem parts_halves (h : beforeLast path ≠ []) :
    (0 ∈ beforeLast path → parts (beforeLast path) = parts path) ∧
      (0 ∉ beforeLast path → parts (beforeLast path) ++ parts (lastPart path) = parts path) := by
  have hpath := beforeLast_append_lastPart path
  obtain ⟨start, hstart⟩ := beforeLast_eq h
  constructor
  · intro hzero
    rw [← parts_append_of_mem hzero (lastPart path), hpath]
  · intro hzero
    rw [hstart] at hpath hzero ⊢
    have hplain : 0 ∉ start := fun hmem => hzero (List.mem_append_left _ hmem)
    rw [parts_append_separator, ← parts_append_cons hplain]
    rw [List.append_assoc, List.singleton_append] at hpath
    rw [hpath]

/-- A parent and a file name have the components of the path, up to one that stands
for the directory itself. A zero byte in the parent hides the file name. -/
theorem parts_parentPath_filename (path : Bytes) :
    (0 ∈ parentPath path → parts (parentPath path) = parts path) ∧
      (0 ∉ parentPath path →
        parts (parentPath path) ++ parts (filename path) = parts path ∨
          parts (parentPath path) ++ parts (filename path) = parts path ++ [dot]) := by
  unfold parentPath
  split
  next hseparator =>
    -- the path names a directory
    rw [parts_trimmed]
    refine ⟨fun _ => rfl, fun _ => ?_⟩
    have hname : parts (filename path) = [] ∨ parts (filename path) = [dot] := by
      unfold filename
      rw [if_pos hseparator]
      split
      next hroot => rw [hroot]; exact .inl rfl
      next => split <;> [exact .inl rfl; exact .inr rfl]
    rcases hname with hname | hname
    · rw [hname, List.append_nil]
      exact .inl rfl
    · rw [hname]
      exact .inr rfl
  next hseparator =>
    have hroot : path ≠ [separator, separator] := by
      rintro rfl
      exact hseparator rfl
    split
    next hwhole =>
      refine ⟨fun h => absurd h List.not_mem_nil, fun _ => .inl ?_⟩
      unfold filename
      rw [if_neg hroot, if_neg hseparator, parts_nil, List.nil_append]
      split
      · exact parts_cString path
      next hnetwork =>
        have hpath := beforeLast_append_lastPart path
        rw [hwhole.resolve_left hnetwork, List.nil_append] at hpath
        rw [parts_cString, hpath]
    next hhalves =>
      rw [not_or] at hhalves
      have hname : parts (filename path) = parts (lastPart path) := by
        unfold filename
        rw [if_neg hroot, if_neg hseparator, if_neg hhalves.1, parts_cString]
      obtain ⟨hhidden, hplain⟩ := parts_halves hhalves.2
      rw [hname]
      split
      next hempty =>
        have hzero : 0 ∉ beforeLast path := by
          rw [← mem_trimmed_iff, hempty]
          exact List.not_mem_nil
        have hparts : parts (beforeLast path) = [] := by
          rw [← parts_trimmed, hempty, parts_nil]
        refine ⟨fun h => absurd h (by decide), fun _ => .inl ?_⟩
        rw [← hplain hzero, hparts]
        rfl
      next =>
        rw [parts_trimmed, mem_trimmed_iff]
        exact ⟨hhidden, fun hzero => .inl (hplain hzero)⟩

/-! ## Joined paths -/

section Joined

variable (os : Os) {base : Bytes}

theorem Os.components_of_append (hbase : base ≠ []) {more : Bytes} {rest : List Bytes}
    (h : parts (base ++ more) = parts base ++ rest) :
    os.components (base ++ more) = os.components base ++ rest := by
  change (if (base ++ more).head? = some separator then parts (base ++ more) else
    os.workingDirectory ++ parts (base ++ more)) = (if base.head? = some separator then parts base
      else os.workingDirectory ++ parts base) ++ rest
  rw [List.head?_append_of_ne_nil _ hbase, h]
  split
  · rfl
  · rw [List.append_assoc]

/-- Joining adds the components of the name, also when the name is absolute. -/
theorem Os.components_append (hbase : base ≠ []) (hzero : 0 ∉ base) (name : Bytes) :
    os.components (append base name) = os.components base ++ parts name := by
  unfold append
  split
  next hname =>
    rw [hname, parts_nil, List.append_nil]
  next hname =>
    have hjoined : parts (base ++ separator :: name) = parts base ++ parts name :=
      parts_append_cons hzero name
    split
    next hcase =>
      refine os.components_of_append hbase ?_
      rcases hcase with hhead | hempty | hlast
      · cases name with
        | nil => exact absurd rfl hname
        | cons c rest =>
          have hc : c = separator := Option.some.inj hhead
          rw [hc, parts_append_cons hzero, parts_separator]
      · exact absurd hempty hbase
      · -- the separator is there already
        obtain ⟨start, hstart⟩ := List.getLast?_eq_some_iff.mp hlast
        have hplain : 0 ∉ start := fun hmem => hzero (hstart ▸ List.mem_append_left _ hmem)
        rw [hstart, parts_append_separator, List.append_assoc, List.singleton_append,
          parts_append_cons hplain]
    next => exact os.components_of_append hbase hjoined

/-- Behind a zero byte a path may go on in any way. -/
theorem Os.components_append_of_mem (hbase : base ≠ []) (hzero : 0 ∈ base) (name : Bytes) :
    os.components (append base name) = os.components base := by
  have hmore : ∀ more, os.components (base ++ more) = os.components base := by
    intro more
    have hparts : parts (base ++ more) = parts base ++ [] := by
      rw [parts_append_of_mem hzero, List.append_nil]
    rw [os.components_of_append hbase hparts, List.append_nil]
  unfold append
  split
  · rfl
  · split
    · exact hmore _
    · exact hmore _

theorem mem_append_iff (hzero : 0 ∉ base) (name : Bytes) : 0 ∈ append base name ↔ 0 ∈ name := by
  unfold append
  split
  next hname => simp [hname, hzero]
  next =>
    split
    · simp [hzero]
    · simp [hzero, separator]

theorem append_ne_nil (hbase : base ≠ []) (name : Bytes) : append base name ≠ [] := by
  unfold append
  split
  · exact hbase
  · split
    · exact List.append_ne_nil_of_left_ne_nil hbase _
    · exact List.append_ne_nil_of_left_ne_nil hbase _

theorem append_nil (base : Bytes) : append base [] = base := if_pos rfl

/-- Text behind a joined path belongs to the name. -/
theorem append_append (base : Bytes) {name : Bytes} (hname : name ≠ []) (more : Bytes) :
    append base name ++ more = append base (name ++ more) := by
  unfold append
  rw [if_neg hname, if_neg (List.append_ne_nil_of_left_ne_nil hname _),
    List.head?_append_of_ne_nil _ hname]
  split
  · exact List.append_assoc _ _ _
  · exact List.append_assoc _ _ _

theorem getLast?_append (base : Bytes) {name : Bytes} (hname : name ≠ []) :
    (append base name).getLast? = name.getLast? := by
  have hlast : ∀ start, (start ++ name).getLast? = name.getLast? := fun start =>
    List.getLast?_append_of_ne_nil start hname
  unfold append
  rw [if_neg hname]
  split
  · exact hlast base
  · rw [List.append_cons]
    exact hlast _

/-- The way along a joined path goes along the first one and then along the name. -/
theorem mem_elements_append (hbase : base ≠ []) (hlast : base.getLast? ≠ some separator)
    {name element : Bytes} :
    element ∈ Path.elements separator (append base name) ↔
      element ∈ Path.elements separator base ∨
        ∃ start ∈ Path.elements separator name, element = append base start := by
  have habsolute : ∀ more, append base (separator :: more) = base ++ separator :: more :=
    fun more => by simp [append]
  have hrelative : ∀ c more, c ≠ separator →
      append base (c :: more) = base ++ separator :: c :: more :=
    fun c more hc => by simp [append, hbase, hlast, hc]
  cases name with
  | nil => simp [append_nil, Path.elements]
  | cons c name =>
    by_cases hc : c = separator
    · -- an absolute name brings its separator along
      subst hc
      rw [habsolute, Path.mem_elements_append_cons]
      refine or_congr_right ⟨?_, ?_⟩
      · rintro ⟨more, hmore, rfl⟩
        exact ⟨separator :: more, (@Path.mem_elements_append_cons _ _ _ [] _ _).mpr
          (.inr ⟨more, hmore, rfl⟩), (habsolute more).symm⟩
      · rintro ⟨start, hstart, rfl⟩
        rcases (@Path.mem_elements_append_cons _ _ _ [] _ _).mp hstart with
          hnone | ⟨more, hmore, rfl⟩
        · cases hnone
        · exact ⟨more, hmore, habsolute more⟩
    · rw [hrelative c name hc, Path.mem_elements_append_cons]
      refine or_congr_right (exists_congr fun start => and_congr_right fun hstart => ?_)
      obtain ⟨first, rest, rfl⟩ := List.exists_cons_of_ne_nil (Path.ne_nil_of_mem_elements hstart)
      obtain ⟨tail, hname, -⟩ := Path.mem_elements_iff.mp hstart
      rw [← (List.cons_eq_cons.mp hname).1, hrelative c rest hc]

/-- `createFile` joins the directory with the parent and the file name of its
argument. -/
theorem Os.place_parentPath_filename (hbase : base ≠ []) (hzero : 0 ∉ base) (name : Bytes) :
    os.place (append (append base (parentPath name)) (filename name)) =
      os.place (append base name) := by
  obtain ⟨hhidden, hplain⟩ := parts_parentPath_filename name
  have hjoined := append_ne_nil hbase (parentPath name)
  unfold Os.place
  rw [os.components_append hbase hzero name]
  by_cases hparent : 0 ∈ parentPath name
  · have hmem : 0 ∈ append base (parentPath name) :=
      (mem_append_iff hzero _).mpr hparent
    rw [os.components_append_of_mem hjoined hmem, os.components_append hbase hzero,
      hhidden hparent]
  · have hmem : 0 ∉ append base (parentPath name) := fun h =>
      hparent ((mem_append_iff hzero _).mp h)
    rw [os.components_append hjoined hmem, os.components_append hbase hzero, List.append_assoc]
    rcases hplain hparent with hsame | hhere
    · rw [hsame]
    · rw [hhere, ← List.append_assoc, Path.resolve_append_here]

/-! ## Inside a directory -/

/-- A path leads to the directory or below it. -/
def Os.Inside (dir path : Bytes) : Prop := os.place dir <+: os.place path

/-- A name that stays in a directory: it begins with the directories again that it
goes up from. -/
def Os.Confined (dir name : Bytes) : Prop :=
  let climbed := Path.climb dot dotDot (parts name)
  (os.place dir).drop ((os.place dir).length - climbed.1) <+: climbed.2

theorem inside_append (hbase : base ≠ []) (hzero : 0 ∉ base) (name : Bytes) :
    os.Inside base (append base name) ↔ os.Confined base name := by
  unfold Os.Inside Os.Confined Os.place
  rw [os.components_append hbase hzero]
  exact Path.prefix_resolve_iff _ _

end Joined

end Skaled.FileStorage
