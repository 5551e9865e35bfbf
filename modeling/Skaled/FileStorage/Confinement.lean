import Skaled.FileStorage.Places

/-! # The contracts and the directory of the address

Every path that a file storage contract touches should be inside the directory of
the address in its input. `Contract.touched_iff` says what each contract touches;
with it the property comes down to a condition on the name in the input. Names may
go up, and the hash of the directory itself is written next to it. `createDirectory`
makes what is missing on the way as well, so a name that ends inside may leave
something outside.
-/

namespace Skaled.FileStorage

open EStateM (Triple)

/-! ## The directory -/

theorem hexDigit_ne {n : Nat} (h : n < 16) : hexDigit n ≠ 0 ∧ hexDigit n ≠ separator := by
  have hall : ∀ n < 16, hexDigit n ≠ 0 ∧ hexDigit n ≠ separator := by decide
  exact hall n h

theorem mem_hex {a : Address} {c : UInt8} (h : c ∈ hex a) : c ≠ 0 ∧ c ≠ separator := by
  obtain ⟨byte, -, hdigit⟩ := List.mem_flatMap.mp h
  have hbyte := byte.toNat_lt
  rcases List.mem_cons.mp hdigit with rfl | hlow
  · exact hexDigit_ne (by omega)
  · rw [List.mem_singleton] at hlow
    subst hlow
    exact hexDigit_ne (Nat.mod_lt _ (by omega))

theorem length_hex (a : Address) : (hex a).length = 40 := by
  simp [hex, List.length_flatMap]

section Directory

variable (dataDir : DataDir) (a : Address)

theorem zero_notMem_storageRoot : 0 ∉ storageRoot dataDir := by
  intro h
  exact absurd ((mem_append_iff dataDir.noZero _).mp h) (by decide)

theorem storageRoot_ne_nil : storageRoot dataDir ≠ [] := by
  unfold storageRoot append
  split
  next h => exact absurd h (by decide)
  next =>
    split
    · exact List.append_ne_nil_of_right_ne_nil _ (by decide)
    · exact List.append_ne_nil_of_right_ne_nil _ (by decide)

theorem hex_ne_nil : hex a ≠ [] := by
  intro h
  have hlength := length_hex a
  rw [h] at hlength
  cases hlength

theorem zero_notMem_getFileStorageDir : 0 ∉ getFileStorageDir dataDir a := by
  intro h
  exact (mem_hex ((mem_append_iff (zero_notMem_storageRoot dataDir) _).mp h)).1 rfl

theorem getFileStorageDir_ne_nil : getFileStorageDir dataDir a ≠ [] :=
  append_ne_nil (storageRoot_ne_nil dataDir) _

/-- On the way to the directory there is its parent, with what is above. -/
theorem mem_elements_getFileStorageDir {element : Bytes}
    (h : element ∈ Path.elements separator (getFileStorageDir dataDir a)) :
    element ∈ Path.elements separator (storageRoot dataDir) ∨
      element = getFileStorageDir dataDir a := by
  have hroot : (storageRoot dataDir).getLast? ≠ some separator := by
    rw [storageRoot, getLast?_append _ (by decide)]
    decide
  rcases (mem_elements_append (storageRoot_ne_nil dataDir) hroot).mp h with
    habove | ⟨start, hstart, rfl⟩
  · exact .inl habove
  · rw [Path.eq_of_mem_elements (fun hmem => (mem_hex hmem).2 rfl) hstart]
    exact .inr rfl

theorem getLast?_getFileStorageDir : (getFileStorageDir dataDir a).getLast? ≠ some separator := by
  intro h
  rw [getFileStorageDir, getLast?_append _ (hex_ne_nil a)] at h
  exact (mem_hex (List.mem_of_getLast? h)).2 rfl

/-- A path that begins with the digits of the address is a name in the root. -/
theorem place_of_hex (os : Os) {name : Bytes} (hplain : 0 ∉ name) (hsep : separator ∉ name) :
    os.place (append (storageRoot dataDir) (hex a ++ name)) =
      os.place (storageRoot dataDir) ++ [hex a ++ name] := by
  have hlength : 40 ≤ (hex a ++ name).length := by
    rw [List.length_append, length_hex]
    omega
  have hparts : parts (hex a ++ name) = [hex a ++ name] := by
    unfold parts
    rw [cString_of_notMem]
    · refine Path.components_of_notMem ?_ (List.append_ne_nil_of_left_ne_nil (hex_ne_nil a) _)
      intro h
      rcases List.mem_append.mp h with hhex | hname
      · exact (mem_hex hhex).2 rfl
      · exact hsep hname
    · intro h
      rcases List.mem_append.mp h with hhex | hname
      · exact (mem_hex hhex).1 rfl
      · exact hplain hname
  have hhere : hex a ++ name ≠ dot := by
    intro h
    rw [h] at hlength
    exact absurd hlength (by decide)
  have hup : hex a ++ name ≠ dotDot := by
    intro h
    rw [h] at hlength
    exact absurd hlength (by decide)
  unfold Os.place Path.resolve
  rw [os.components_append (storageRoot_ne_nil dataDir) (zero_notMem_storageRoot dataDir), hparts,
    List.foldl_append, List.foldl_cons, List.foldl_nil, Path.follow, if_neg hhere, if_neg hup]

/-- The hash of the directory is not in it. -/
theorem not_inside_hash (os : Os) :
    ¬os.Inside (getFileStorageDir dataDir a) (getFileStorageDir dataDir a ++ hashExtension) := by
  have hdir := @place_of_hex dataDir a os [] List.not_mem_nil List.not_mem_nil
  have hjoined : getFileStorageDir dataDir a ++ hashExtension =
      append (storageRoot dataDir) (hex a ++ hashExtension) :=
    append_append _ (hex_ne_nil a) _
  rw [List.append_nil] at hdir
  change os.place (getFileStorageDir dataDir a) = _ at hdir
  unfold Os.Inside
  rw [hjoined, hdir, place_of_hex dataDir a os (by decide) (by decide),
    List.prefix_append_right_inj]
  intro h
  have heq : hex a = hex a ++ hashExtension := by
    simpa using h
  have hlength := congrArg List.length heq
  rw [List.length_append] at hlength
  exact absurd hlength (by simp [hashExtension, ascii])

end Directory

/-! ## What the contracts touch -/

section Touched

variable {dataDir : DataDir} {os : Os} {later : Volume dataDir} {input name path : Bytes}

def namedPath (dataDir : DataDir) (input name : Bytes) : Bytes :=
  append (directory dataDir input) name

/-- `readChunk` and `getFileSize` go on with this path. -/
def Readable (dataDir : DataDir) (os : Os) (input name : Bytes) : Prop :=
  os.exists_ (namedPath dataDir input name) ∧
    directory dataDir input <+: os.canonical (namedPath dataDir input name)

def Contract.Touches (os : Os) (later : Volume dataDir) (input name path : Bytes) :
    Contract → Prop
  | .createFile =>
    path ∈ (later.files os).createDirectories (directory dataDir input) ∧
        ¬os.exists_ (directory dataDir input) ∨
      path = append (namedPath dataDir input (parentPath name)) (filename name) ∧
        ¬hashExtension <:+ filename name
  | .uploadChunk => path = namedPath dataDir input name
  | .createDirectory => path ∈ (later.files os).createDirectories (namedPath dataDir input name)
  | .readChunk | .getFileSize =>
    path = namedPath dataDir input name ∧ Readable dataDir os input name
  | .deleteFile =>
    path = namedPath dataDir input name ∨ path = namedPath dataDir input name ++ hashExtension
  | .deleteDirectory | .calculateFileHash =>
    (path = namedPath dataDir input name ∨ path = namedPath dataDir input name ++ hashExtension) ∧
      os.exists_ (namedPath dataDir input name)

/-- Without a name nothing happens. -/
theorem Contract.touched_of_none (contract : Contract) (hname : fileName input = none) :
    contract.touched dataDir os later input = [] := by
  have hrun : contract.body dataDir os input ⟨[], []⟩ = .error .exception ⟨[], []⟩ := by
    cases contract <;>
      (simp only [Contract.body, FileStorage.createFile, FileStorage.uploadChunk,
        FileStorage.readChunk, FileStorage.getFileSize, FileStorage.deleteFile,
        FileStorage.createDirectory, FileStorage.deleteDirectory, FileStorage.calculateFileHash,
        convertBytesToString_eq, hname]; rfl)
  unfold Contract.touched Contract.run
  rw [hrun]
  rfl

def Effects.Touch (files : Os) (did : Effects) (path : Bytes) : Prop :=
  path ∈ did.reads ∨ ∃ op ∈ did.ops, path ∈ op.paths files

theorem Contract.mem_touched_iff {contract : Contract} :
    path ∈ contract.touched dataDir os later input ↔
      (contract.body dataDir os input ⟨[], []⟩).state.Touch (later.files os) path := by
  have hrun : (contract.run dataDir os input).2 =
      (contract.body dataDir os input ⟨[], []⟩).state := by
    unfold Contract.run
    split
    · next h => rw [h]; rfl
    · next h => rw [h]; rfl
    · next h => rw [h]; rfl
  unfold Contract.touched Effects.Touch
  rw [hrun, List.mem_append, List.mem_flatMap]

section

variable (hname : fileName input = some name)

include hname

/-- A contract goes on with the name. -/
theorem convertBytesToString_bind (body : Bytes × Nat → FileM Bytes) :
    (convertBytesToString input 32 >>= body) = body (name, nameLength input) := by
  rw [convertBytesToString_eq, hname]
  rfl

theorem createFile_state :
    (createFile dataDir os input ⟨[], []⟩).state =
      ⟨[], (if os.exists_ (directory dataDir input) then []
          else [.createDirectory (directory dataDir input)]) ++
        if hashExtension <:+ filename name then []
        else [.createFile (append (namedPath dataDir input (parentPath name)) (filename name))
          (toSize (numberAt input 64 (nameLength input)))]⟩ := by
  unfold createFile
  rw [convertBytesToString_bind hname]
  dsimp only
  by_cases hexists : os.exists_ (directory dataDir input)
  · by_cases hhash : hashExtension <:+ filename name
    · simp only [if_pos hexists, if_pos hhash]
      rfl
    · simp only [if_pos hexists, if_neg hhash]
      rfl
  · by_cases hhash : hashExtension <:+ filename name
    · simp only [if_neg hexists, if_pos hhash]
      rfl
    · simp only [if_neg hexists, if_neg hhash]
      rfl

theorem createFile_touch_iff :
    (Contract.createFile.body dataDir os input ⟨[], []⟩).state.Touch (later.files os) path ↔
      Contract.createFile.Touches os later input name path := by
  rw [Contract.body, createFile_state hname]
  unfold Effects.Touch Contract.Touches
  by_cases hexists : os.exists_ (directory dataDir input) <;>
    by_cases hhash : hashExtension <:+ filename name <;>
    simp +contextual [hexists, hhash, Op.paths]

end

/-! ## Contracts that touch one file -/

variable {files : Os}

def AtMost (files : Os) (file : Bytes) (did : Effects) : Prop :=
  ∀ path, did.Touch files path → path = file

def Just (files : Os) (file : Bytes) (did : Effects) : Prop :=
  ∀ path, did.Touch files path ↔ path = file

def TouchesJust {α : Type} (files : Os) (file : Bytes) (x : FileM α) : Prop :=
  Triple (AtMost files file) x (fun _ => Just files file) fun _ => Just files file

/-- A program that touches nothing else once the file is touched. -/
def KeepsJust {α : Type} (files : Os) (file : Bytes) (x : FileM α) : Prop :=
  Triple (Just files file) x (fun _ => Just files file) fun _ => Just files file

theorem not_touch_empty (path : Bytes) : ¬Effects.Touch files ⟨[], []⟩ path := by
  rintro (h | ⟨op, h, -⟩)
  · cases h
  · cases h

theorem atMost_empty (file : Bytes) : AtMost files file ⟨[], []⟩ :=
  fun path h => absurd h (not_touch_empty path)

variable {α β : Type} {file : Bytes} {x : FileM α}

theorem TouchesJust.bind {f : α → FileM β}
    (hx : TouchesJust files file x) (hf : ∀ a, KeepsJust files file (f a)) :
    TouchesJust files file (x >>= f) :=
  Triple.bind hx hf

theorem TouchesJust.keepsJust (h : TouchesJust files file x) : KeepsJust files file x :=
  h.conseq (fun _ hjust path => (hjust path).mp) (fun _ _ => id) fun _ _ => id

theorem keepsJust_pure (file : Bytes) (a : α) : KeepsJust files file (pure a : FileM α) :=
  Triple.pure fun _ => id

theorem keepsJust_throw (file : Bytes) (e : Stop) : KeepsJust files file (throw e : FileM α) :=
  Triple.throw fun _ => id

theorem touchesJust_readFile (file : Bytes) : TouchesJust files file (readFile file) := by
  refine Triple.modify fun did hdid path => ⟨?_, ?_⟩
  · rintro (hread | hop)
    · rcases List.mem_append.mp hread with hbefore | hnow
      · exact hdid path (.inl hbefore)
      · exact List.mem_singleton.mp hnow
    · exact hdid path (.inr hop)
  · rintro rfl
    exact .inl (List.mem_append_right _ List.mem_cons_self)

theorem touchesJust_record {op : Op} (hop : op.paths files = [file]) :
    TouchesJust files file (record op) := by
  refine Triple.modify fun did hdid path => ⟨?_, ?_⟩
  · rintro (hread | ⟨other, hother, hpath⟩)
    · exact hdid path (.inl hread)
    · rcases List.mem_append.mp hother with hbefore | hnow
      · exact hdid path (.inr ⟨other, hbefore, hpath⟩)
      · rw [List.mem_singleton.mp hnow, hop] at hpath
        exact List.mem_singleton.mp hpath
  · rintro rfl
    exact .inr ⟨op, List.mem_append_right _ List.mem_cons_self, hop ▸ List.mem_cons_self⟩

theorem touchesJust_statComputeFileSize (os : Os) (file : Bytes) :
    TouchesJust files file (statComputeFileSize os file) := by
  refine (touchesJust_readFile file).bind fun _ => ?_
  cases os.lookup file with
  | none => exact keepsJust_throw file _
  | some entry => exact keepsJust_pure file _

theorem keepsJust_writeChunk (file : Bytes) (position dataLength : Nat) (data : Option Bytes) :
    KeepsJust files file (writeChunk file position dataLength data) := by
  cases data with
  | some data => exact (touchesJust_record rfl).keepsJust
  | none =>
    simp only [writeChunk]
    split
    · exact (touchesJust_record rfl).keepsJust
    · split
      · exact keepsJust_throw file _
      · exact keepsJust_throw file _

theorem TouchesJust.touch_iff (h : TouchesJust files file x) :
    (x ⟨[], []⟩).state.Touch files path ↔ path = file := by
  have hend := h _ (atMost_empty file)
  cases hrun : x ⟨[], []⟩ with
  | ok a did | error e did => rw [hrun] at hend; exact hend path

/-- A contract that goes on under a condition. -/
theorem ite_touch_iff {condition touches : Prop} [Decidable condition]
    (h : (x ⟨[], []⟩).state.Touch files path ↔ touches) :
    ((if condition then x else throw .exception : FileM α) ⟨[], []⟩).state.Touch files path ↔
      touches ∧ condition := by
  by_cases hcondition : condition
  · rw [if_pos hcondition]
    exact h.trans (iff_self_and.mpr fun _ => hcondition)
  · rw [if_neg hcondition]
    exact ⟨fun h => absurd h (not_touch_empty path), fun h => absurd h.2 hcondition⟩

/-- A path that fails the check is not read. -/
theorem checkCanonical_touch_iff (hx : TouchesJust files (namedPath dataDir input name) x) :
    ((checkCanonical dataDir os input (namedPath dataDir input name) >>= fun _ => x)
      ⟨[], []⟩).state.Touch files path ↔
      path = namedPath dataDir input name ∧ Readable dataDir os input name := by
  rw [checkCanonical, apply_ite (· >>= fun _ => x)]
  exact ite_touch_iff hx.touch_iff

theorem readChunk_touch_iff (hname : fileName input = some name) :
    (Contract.readChunk.body dataDir os input ⟨[], []⟩).state.Touch (later.files os) path ↔
      Contract.readChunk.Touches os later input name path := by
  rw [Contract.body, readChunk, convertBytesToString_bind hname]
  refine checkCanonical_touch_iff ?_
  refine (touchesJust_statComputeFileSize os _).bind fun size => ?_
  split
  · exact keepsJust_throw _ _
  · refine ((touchesJust_statComputeFileSize os _).bind fun size => ?_).keepsJust
    split
    · exact keepsJust_throw _ _
    · refine ((touchesJust_readFile _).bind fun _ => ?_).keepsJust
      split
      · exact keepsJust_throw _ _
      · exact keepsJust_pure _ _

theorem Contract.touched_iff (contract : Contract) (hname : fileName input = some name) :
    path ∈ contract.touched dataDir os later input ↔
      contract.Touches os later input name path := by
  rw [mem_touched_iff]
  cases contract with
  | createFile => exact createFile_touch_iff hname
  | uploadChunk =>
    rw [body, FileStorage.uploadChunk, convertBytesToString_bind hname]
    refine TouchesJust.touch_iff ?_
    refine (touchesJust_statComputeFileSize os _).bind fun size => ?_
    split
    · exact keepsJust_throw _ _
    · exact (keepsJust_writeChunk _ _ _ _).bind fun _ => keepsJust_pure _ _
  | readChunk => exact readChunk_touch_iff hname
  | getFileSize =>
    rw [body, FileStorage.getFileSize, convertBytesToString_bind hname]
    refine checkCanonical_touch_iff ?_
    exact (touchesJust_statComputeFileSize os _).bind fun size => keepsJust_pure _ _
  | deleteFile =>
    rw [body, FileStorage.deleteFile, convertBytesToString_bind hname]
    change Effects.Touch (later.files os) ⟨[], [.deleteFile (namedPath dataDir input name),
      .deleteFile (namedPath dataDir input name ++ hashExtension)]⟩ path ↔ _
    simp [Effects.Touch, Op.paths, Touches]
  | createDirectory =>
    rw [body, FileStorage.createDirectory, convertBytesToString_bind hname]
    change Effects.Touch (later.files os) ⟨[], [.createDirectory (namedPath dataDir input name)]⟩
      path ↔ _
    simp [Effects.Touch, Op.paths, Touches]
  | deleteDirectory =>
    rw [body, FileStorage.deleteDirectory, convertBytesToString_bind hname]
    refine ite_touch_iff ?_
    change Effects.Touch (later.files os) ⟨[],
      [.deleteFile (namedPath dataDir input name ++ hashExtension),
        .deleteDirectory (namedPath dataDir input name)]⟩ path ↔ _
    simp [Effects.Touch, Op.paths, or_comm]
  | calculateFileHash =>
    rw [body, FileStorage.calculateFileHash, convertBytesToString_bind hname]
    refine ite_touch_iff ?_
    change Effects.Touch (later.files os)
      ⟨[], [.calculateFileHash (namedPath dataDir input name)]⟩ path ↔ _
    simp [Effects.Touch, Op.paths]

end Touched

/-! ## Names that stay inside -/

section Names

variable (dataDir : DataDir) (os : Os) (input name : Bytes)

/-- A name, and the file of its hash, that stay in the directory. The empty name
stands for the directory, whose hash is outside. -/
def HashConfined : Prop :=
  os.Confined (directory dataDir input) name ∧ name ≠ [] ∧
    os.Confined (directory dataDir input) (name ++ hashExtension)

/-- What has to be true of the name: it stays in the directory unless the contract
refuses it first. Of a directory that is made this has to be true of each part of the
name that does not exist. -/
def Contract.Accepts {dataDir : DataDir} (os : Os) (later : Volume dataDir) (input name : Bytes) :
    Contract → Prop
  | .createFile =>
    hashExtension <:+ filename name ∨ os.Confined (directory dataDir input) name
  | .uploadChunk => os.Confined (directory dataDir input) name
  | .createDirectory =>
    ∀ start ∈ Path.elements separator name,
      (later.files os).Makes (namedPath dataDir input start) →
        os.Confined (directory dataDir input) start
  | .readChunk | .getFileSize =>
    ¬Readable dataDir os input name ∨ os.Confined (directory dataDir input) name
  | .deleteFile => HashConfined dataDir os input name
  | .deleteDirectory | .calculateFileHash =>
    ¬os.exists_ (namedPath dataDir input name) ∨ HashConfined dataDir os input name

variable {dataDir os input name} {later : Volume dataDir}

theorem inside_namedPath :
    os.Inside (directory dataDir input) (namedPath dataDir input name) ↔
      os.Confined (directory dataDir input) name :=
  inside_append os (getFileStorageDir_ne_nil _ _) (zero_notMem_getFileStorageDir _ _) name

theorem inside_parentPath_filename :
    os.Inside (directory dataDir input)
        (append (namedPath dataDir input (parentPath name)) (filename name)) ↔
      os.Confined (directory dataDir input) name := by
  unfold Os.Inside namedPath directory
  rw [os.place_parentPath_filename (getFileStorageDir_ne_nil _ _)
    (zero_notMem_getFileStorageDir _ _)]
  exact inside_namedPath

/-- A name and its hash. -/
theorem inside_both_iff :
    os.Inside (directory dataDir input) (namedPath dataDir input name) ∧
        os.Inside (directory dataDir input) (namedPath dataDir input name ++ hashExtension) ↔
      HashConfined dataDir os input name := by
  unfold HashConfined
  rw [inside_namedPath]
  refine and_congr_right fun _ => ?_
  by_cases hempty : name = []
  · rw [hempty, namedPath, append_nil, directory]
    exact ⟨fun h => absurd h (not_inside_hash dataDir _ os), fun h => absurd rfl h.1⟩
  · unfold namedPath
    rw [append_append _ hempty]
    exact inside_namedPath.trans (iff_and_self.mpr fun _ => hempty)

/-- A path that is touched only under a condition. -/
theorem inside_when_iff {file : Bytes} {condition : Prop} :
    (∀ path, path = file ∧ condition → os.Inside (directory dataDir input) path) ↔
      ¬condition ∨ os.Inside (directory dataDir input) file := by
  rw [← imp_iff_not_or]
  exact ⟨fun h hcondition => h file ⟨rfl, hcondition⟩, fun h path hpath => hpath.1 ▸ h hpath.2⟩

theorem inside_pair_iff :
    (∀ path, path = namedPath dataDir input name ∨
        path = namedPath dataDir input name ++ hashExtension →
      os.Inside (directory dataDir input) path) ↔ HashConfined dataDir os input name := by
  rw [← inside_both_iff]
  constructor
  · exact fun h => ⟨h _ (.inl rfl), h _ (.inr rfl)⟩
  · rintro ⟨hname, hhash⟩ path (rfl | rfl)
    · exact hname
    · exact hhash

/-- What is above the directory is there already. -/
theorem eq_directory_of_makes {element : Bytes}
    (h : element ∈ Path.elements separator (directory dataDir input))
    (hmakes : (later.files os).Makes element) : element = directory dataDir input := by
  refine (mem_elements_getFileStorageDir dataDir _ h).resolve_left fun habove => ?_
  have hzero : 0 ∉ element := by
    obtain ⟨rest, hroot, -⟩ := Path.mem_elements_iff.mp habove
    intro hmem
    exact zero_notMem_storageRoot dataDir (hroot ▸ List.mem_append_left rest hmem)
  have hexists := later.mounted element habove
  have hmissing : (later.entry (cString element)).isSome = false := hmakes.2.2
  rw [cString_of_notMem hzero, hexists] at hmissing
  cases hmissing

theorem inside_of_createDirectories {path : Bytes}
    (h : path ∈ (later.files os).createDirectories (directory dataDir input)) :
    os.Inside (directory dataDir input) path := by
  obtain ⟨helement, hmakes⟩ := List.mem_filter.mp h
  rw [eq_directory_of_makes helement (of_decide_eq_true hmakes)]
  exact List.prefix_rfl

theorem inside_createDirectories_iff :
    (∀ path ∈ (later.files os).createDirectories (namedPath dataDir input name),
      os.Inside (directory dataDir input) path) ↔
      ∀ start ∈ Path.elements separator name,
        (later.files os).Makes (namedPath dataDir input start) →
          os.Confined (directory dataDir input) start := by
  have hway := @mem_elements_append (directory dataDir input)
    (getFileStorageDir_ne_nil _ _) (getLast?_getFileStorageDir _ _) name
  constructor
  · intro h start hstart hmakes
    refine inside_namedPath.mp (h _ (List.mem_filter.mpr ⟨?_, decide_eq_true hmakes⟩))
    exact hway.mpr (.inr ⟨start, hstart, rfl⟩)
  · intro h path hpath
    obtain ⟨helement, hmakes⟩ := List.mem_filter.mp hpath
    rcases hway.mp helement with habove | ⟨start, hstart, rfl⟩
    · rw [eq_directory_of_makes habove (of_decide_eq_true hmakes)]
      exact List.prefix_rfl
    · exact inside_namedPath.mpr (h start hstart (of_decide_eq_true hmakes))

/-- All paths that a contract touches are inside just if it accepts the name. -/
theorem Contract.inside_iff_accepts (contract : Contract) :
    (∀ path, contract.Touches os later input name path →
      os.Inside (directory dataDir input) path) ↔ contract.Accepts os later input name := by
  have hread : (∀ path, path = namedPath dataDir input name ∧ Readable dataDir os input name →
      os.Inside (directory dataDir input) path) ↔
      ¬Readable dataDir os input name ∨ os.Confined (directory dataDir input) name := by
    rw [inside_when_iff, inside_namedPath]
  have hsingle : (∀ path, path = namedPath dataDir input name →
      os.Inside (directory dataDir input) path) ↔ os.Confined (directory dataDir input) name := by
    rw [forall_eq, inside_namedPath]
  have hexisting : (∀ path, (path = namedPath dataDir input name ∨
        path = namedPath dataDir input name ++ hashExtension) ∧
        os.exists_ (namedPath dataDir input name) → os.Inside (directory dataDir input) path) ↔
      ¬os.exists_ (namedPath dataDir input name) ∨ HashConfined dataDir os input name := by
    rw [← imp_iff_not_or, ← inside_pair_iff]
    exact ⟨fun h hexists path hpath => h path ⟨hpath, hexists⟩,
      fun h path hpath => h hpath.2 path hpath.1⟩
  cases contract with
  | createFile =>
    unfold Contract.Accepts
    rw [← inside_parentPath_filename, ← not_not (a := hashExtension <:+ filename name),
      ← inside_when_iff]
    constructor
    · exact fun h path hpath => h path (.inr hpath)
    · intro h path hpath
      rcases hpath with hdirectory | hfile
      · exact inside_of_createDirectories hdirectory.1
      · exact h path hfile
  | uploadChunk => exact hsingle
  | readChunk | getFileSize => exact hread
  | deleteFile => exact inside_pair_iff
  | createDirectory => exact inside_createDirectories_iff
  | deleteDirectory | calculateFileHash => exact hexisting

end Names

instance (os : Os) (dir path : Bytes) : Decidable (os.Inside dir path) :=
  inferInstanceAs (Decidable (_ <+: _))

/-- Only the volume is there. -/
def sampleEntry (path : Bytes) : Option Entry :=
  if path <+: ascii "/data/filestorage" then some (.directory 0) else none

def sampleVolume : Volume sampleDataDir := ⟨sampleEntry, by decide +kernel⟩

/-- The zero address and a name. -/
def inputWithName (name : Bytes) : Bytes :=
  List.replicate 32 0 ++ BigEndian.encode 32 name.length ++ name

/-- On the way to a directory inside, `createDirectory` makes one that is not. -/
example :
    append (getFileStorageDir sampleDataDir 0) (ascii "../foo") ∈
      Contract.createDirectory.touched sampleDataDir ⟨[], sampleEntry⟩ sampleVolume
        (inputWithName (ascii "../foo/../" ++ hex 0 ++ ascii "/y")) := by
  decide +kernel

end Skaled.FileStorage
