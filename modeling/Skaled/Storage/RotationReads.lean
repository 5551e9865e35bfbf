import Skaled.Basic
import Skaled.Storage.RotationLaws

/-! # Reading from the rotating database

`ManuallyRotatingLevelDB`: batches go to the current piece, and `lookup` takes
the first of the listed pieces that has a value for a key. What is read is
compared with the history of the insertions, which is cut into generations by
the rotations: a generation is in one piece, and the last ones are in the pieces
that are not archived.

The live pieces are listed from the newest generation on, the archive from the
oldest one on. Keys are those other than the mark of the current piece.
-/

namespace Skaled

open List (map_append map_cons replicate)

/-- What is done with the database. A batch holds insertions only. -/
inductive StoreCommand (Key : Type) where
  | commit (batch : List (Key × Bytes))
  | rotate
  | reopen

/-- A database that is open. -/
structure RotatingStore (m : Nat) (Key : Type) where
  files : PieceFiles m Key Bytes
  db : RotatingDb m

namespace RotatingStore

variable {m : Nat} {Key : Type} [DecidableEq Key] (archiveMode : Bool)

/-- The constructor of `rotating_db_io` on given files. -/
def opened (files : PieceFiles m Key Bytes) : RotatingStore m Key :=
  let files := files.applyAll files.openOps
  ⟨files, files.openDb archiveMode⟩

/-- `commit`, which writes to the piece in front. -/
def commit (s : RotatingStore m Key) (batch : List (Key × Bytes)) : RotatingStore m Key :=
  match s.db.pieces.head? with
  | some (.live i) =>
    { s with files := s.files.apply (.write i (batch.map fun entry => (entry.1, some entry.2))) }
  | _ => s

def rotate (s : RotatingStore m Key) : RotatingStore m Key :=
  ⟨s.files.applyAll (s.db.rotateOps archiveMode), s.db.rotated archiveMode⟩

def step (s : RotatingStore m Key) : StoreCommand Key → RotatingStore m Key
  | .commit batch => s.commit batch
  | .rotate => s.rotate archiveMode
  | .reopen => opened archiveMode s.files

/-- All commands, one after the other, on a new database. -/
def run (commands : List (StoreCommand Key)) : RotatingStore m Key :=
  commands.foldl (step archiveMode) (opened archiveMode .fresh)

/-- `lookup`: the value in the first piece in which it is not empty. -/
def lookup (s : RotatingStore m Key) (key : Key) : Bytes :=
  (((s.files.listed s.db).map fun piece => (piece key).getD []).find? (· ≠ [])).getD []

end RotatingStore

/-! ## The history of the insertions -/

/-- The insertions between two rotations, the latest one in front. -/
abbrev Generation (Key : Type) := List (Key × Bytes)

namespace Generation

variable {Key : Type} [DecidableEq Key]

/-- What the piece with this generation holds. -/
def entries (gen : Generation Key) (key : Key) : Option Bytes := gen.lookup key

def latest (gens : List (Generation Key)) (key : Key) : Option Bytes := gens.flatten.lookup key

/-- The history after a command; the newest generation is in front. -/
def step (gens : List (Generation Key)) : StoreCommand Key → List (Generation Key)
  | .commit batch => gens.modifyHead (batch.reverse ++ ·)
  | .rotate => [] :: gens
  | .reopen => gens

/-- The history of a new database: all of its pieces are empty. -/
def history (pieces : Nat) (commands : List (StoreCommand Key)) : List (Generation Key) :=
  commands.foldl step (replicate pieces [])

/-- The generations that are still kept, out of `pieces` live ones and the
archive. -/
def kept (pieces : Nat) (archiveMode : Bool) (gens : List (Generation Key)) :
    List (Generation Key) :=
  if archiveMode then gens else gens.take pieces

end Generation

/-- All values of a batch are non-empty. -/
def StoreCommand.Proper {Key : Type} : StoreCommand Key → Prop
  | .commit batch => ∀ entry ∈ batch, entry.2 ≠ []
  | _ => True

/-- The oldest and the newest of the archived pieces that hold a key hold the
same value for it, or none of them holds it. -/
def ArchiveAgrees {Key : Type} [DecidableEq Key] (pieces : Nat) (gens : List (Generation Key))
    (key : Key) : Prop :=
  Generation.latest (gens.drop pieces).reverse key = Generation.latest (gens.drop pieces) key

namespace Generation

variable {Key : Type} {gen : Generation Key} {gens gens' : List (Generation Key)} {key : Key}

/-- All values are non-empty. -/
def Proper (gens : List (Generation Key)) : Prop := ∀ gen ∈ gens, ∀ entry ∈ gen, entry.2 ≠ []

section

variable (h : Proper gens)

include h

theorem Proper.mono (hsub : ∀ gen ∈ gens', gen ∈ gens) : Proper gens' :=
  fun gen hgen => h gen (hsub gen hgen)

theorem Proper.step {command : StoreCommand Key}
    (hcommand : command.Proper) : Proper (step gens command) := by
  cases command with
  | commit batch =>
    cases gens with
    | nil => exact h
    | cons gen gens =>
      intro gen' hgen' entry hentry
      rcases List.mem_cons.mp hgen' with rfl | hgen'
      · rcases List.mem_append.mp hentry with hentry | hentry
        · exact hcommand entry (List.mem_reverse.mp hentry)
        · exact h gen List.mem_cons_self entry hentry
      · exact h gen' (List.mem_cons_of_mem _ hgen') entry hentry
  | rotate =>
    intro gen' hgen' entry hentry
    rcases List.mem_cons.mp hgen' with rfl | hgen'
    · cases hentry
    · exact h gen' hgen' entry hentry
  | reopen => exact h

theorem Proper.foldl {commands : List (StoreCommand Key)}
    (hcommands : ∀ command ∈ commands, command.Proper) :
    Proper (commands.foldl Generation.step gens) := by
  induction commands generalizing gens with
  | nil => exact h
  | cons command rest ih =>
    apply ih (h.step (hcommands command List.mem_cons_self))
    exact fun other hother => hcommands other (List.mem_cons_of_mem _ hother)

end

variable [DecidableEq Key]

theorem latest_cons : latest (gen :: gens) key = (gen.entries key).or (latest gens key) := by
  unfold latest entries
  rw [List.flatten_cons, List.lookup_append]

theorem latest_append : latest (gens ++ gens') key = (latest gens key).or (latest gens' key) := by
  unfold latest
  rw [List.flatten_append, List.lookup_append]

/-- Writing a batch puts it in front of the generation. -/
theorem entries_write (batch : List (Key × Bytes)) (gen : Generation Key) :
    (batch.map fun entry => (entry.1, some entry.2)).foldl
        (fun entries change => Function.update entries change.1 change.2) gen.entries =
      entries (batch.reverse ++ gen) := by
  induction batch generalizing gen with
  | nil => rfl
  | cons entry rest ih =>
    obtain ⟨inserted, value⟩ := entry
    have hfirst : Function.update gen.entries inserted (some value) =
        entries ((inserted, value) :: gen) := by
      ext1 key
      unfold entries
      rw [List.lookup_cons]
      by_cases hkey : key = inserted
      · rw [hkey, Function.update_self, BEq.rfl]
      · rw [Function.update_of_ne hkey, beq_false_of_ne hkey]
    rw [map_cons, List.foldl_cons, hfirst, ih, List.reverse_cons, List.append_assoc]
    rfl

theorem Proper.latest_ne_nil (h : Proper gens) {value : Bytes}
    (hvalue : latest gens key = some value) : value ≠ [] := by
  obtain ⟨before, after, hflatten, _⟩ := List.lookup_eq_some_iff.mp hvalue
  have hmem : (key, value) ∈ gens.flatten := by simp [hflatten]
  obtain ⟨gen, hgen, hentry⟩ := List.mem_flatten.mp hmem
  exact h gen hgen (key, value) hentry

/-- Looking through the pieces finds the latest value. -/
theorem find_latest (h : Proper gens) (key : Key) :
    (((gens.map entries).map fun piece => (piece key).getD []).find? (· ≠ [])) =
      latest gens key := by
  induction gens with
  | nil => rfl
  | cons gen gens ih =>
    have htail := ih (h.mono fun _ => List.mem_cons_of_mem gen)
    rw [map_cons, map_cons, List.find?_cons, latest_cons]
    cases hentry : gen.entries key with
    | none => simpa using htail
    | some value =>
      have hhead : Proper [gen] := h.mono fun _ hgen => by
        rw [List.mem_singleton] at hgen
        exact hgen ▸ List.mem_cons_self
      have hlatest : latest [gen] key = some value := by
        rw [latest_cons, hentry]
        rfl
      have hne := hhead.latest_ne_nil hlatest
      simp [hne]

theorem latest_isSome_iff : (latest gens key).isSome ↔ ∃ gen ∈ gens, (gen.entries key).isSome := by
  induction gens with
  | nil => simp [latest]
  | cons gen gens ih => simp [latest_cons, Option.isSome_or, ih]

/-- An empty value says that there is none. -/
theorem Proper.getD_eq_iff (h : Proper gens) (h' : Proper gens') :
    (latest gens key).getD [] = (latest gens' key).getD [] ↔
      latest gens key = latest gens' key := by
  rcases hvalue : latest gens key with _ | value <;>
    rcases hvalue' : latest gens' key with _ | value'
  · simp
  · simp [(h'.latest_ne_nil hvalue').symm]
  · simp [h.latest_ne_nil hvalue]
  · simp

end Generation

/-! ## The pieces hold the generations -/

open Generation (latest latest_append history Proper entries)

namespace RotatingStore

open PieceFiles

variable {m : Nat} {Key : Type} [DecidableEq Key] {archiveMode : Bool} {s : RotatingStore m Key}
  {c : Fin (m + 3)} {gens : List (Generation Key)}

/-- The live pieces hold the newest generations, beginning with the current
piece; the archive holds the other ones, beginning with the oldest. -/
structure Holds (archiveMode : Bool) (s : RotatingStore m Key) (c : Fin (m + 3))
    (gens : List (Generation Key)) : Prop where
  running : Running s.files s.db archiveMode c
  live : (order c).map s.files.contents = (gens.take (m + 3)).map entries
  archive : s.files.archive.map (·.entries) =
    if archiveMode then ((gens.drop (m + 3)).reverse).map entries else []

theorem Holds.opened {files : PieceFiles m Key Bytes} (hmarks : Marks files c)
    (hlive : (order c).map files.contents = (gens.take (m + 3)).map entries)
    (harchive : files.archive.map (·.entries) =
      if archiveMode then ((gens.drop (m + 3)).reverse).map entries else []) :
    Holds archiveMode (RotatingStore.opened archiveMode files) c gens := by
  obtain ⟨hsettled, hpresent, hsame, _⟩ := hmarks.openOps
  refine ⟨⟨hsettled, hpresent, rfl⟩, ?_, ?_⟩
  · rw [← hlive]
    exact List.map_congr_left fun i _ => hsame.contents i
  · rw [← harchive]
    exact congrArg _ hsame.archive

theorem holds_fresh :
    Holds archiveMode (RotatingStore.opened archiveMode .fresh : RotatingStore m Key) 0
      (replicate (m + 3) []) := by
  apply Holds.opened
  · exact .settled (.never (fun _ => rfl) rfl)
  · rw [List.take_of_length_le (by simp), List.map_replicate]
    apply List.eq_replicate_iff.mpr
    refine ⟨by simp [order], fun piece hpiece => ?_⟩
    obtain ⟨i, _, rfl⟩ := List.mem_map.mp hpiece
    rfl
  · rw [List.drop_of_length_le (by simp)]
    cases archiveMode <;> rfl

section

variable (h : Holds archiveMode s c gens)

include h

theorem Holds.reopen : Holds archiveMode (RotatingStore.opened archiveMode s.files) c gens :=
  .opened (.settled h.running.settled) h.live h.archive

theorem Holds.commit (batch : List (Key × Bytes)) :
    Holds archiveMode (s.commit batch) c (Generation.step gens (.commit batch)) := by
  obtain ⟨rest, hrest⟩ := order_eq_cons c
  have hlive := h.live
  have hcommit : s.commit batch = { s with
      files := s.files.apply (.write c (batch.map fun entry => (entry.1, some entry.2))) } := by
    rw [RotatingStore.commit, h.running.head]
  cases gens with
  | nil =>
    rw [hrest] at hlive
    simp at hlive
  | cons gen gens =>
    rw [hcommit]
    refine ⟨h.running.write _, ?_, h.archive⟩
    -- only the current piece is written
    have hnodup : (c :: rest).Nodup := hrest ▸ List.nodup_rotate.mpr (List.nodup_finRange _)
    rw [hrest, List.take_succ_cons, map_cons, map_cons, List.cons.injEq] at hlive
    rw [hrest, Generation.step, List.modifyHead_cons, List.take_succ_cons, map_cons,
      map_cons,
      contents_write (h.running.present c), Function.update_self, hlive.1, ← hlive.2,
      Generation.entries_write]
    congr 1
    apply List.map_congr_left
    intro i hi
    rw [Function.update_of_ne]
    rintro rfl
    exact (List.nodup_cons.mp hnodup).1 hi

theorem Holds.rotate :
    Holds archiveMode (s.rotate archiveMode) (c - 1) (Generation.step gens .rotate) := by
  obtain ⟨hrunning, _, hsame⟩ := h.running.rotate
  -- the oldest live generation is cut off at the end
  have hlive := h.live
  rw [order_eq_front, map_append] at hlive
  obtain ⟨front, back, hsplit, hfront, hback⟩ := List.map_eq_append_iff.mp hlive.symm
  obtain ⟨oldest, rfl, holdest⟩ := List.map_eq_singleton_iff.mp hback
  have hlength : front.length = m + 2 := by
    rw [← List.length_map (f := entries), hfront, List.length_map, length_front]
  have hgens : gens = front ++ oldest :: gens.drop (m + 3) := by
    conv_lhs => rw [← List.take_append_drop (m + 3) gens, hsplit]
    simp
  have htake : gens.take (m + 2) = front := by
    rw [hgens, List.take_left' hlength]
  have hdrop : gens.drop (m + 2) = oldest :: gens.drop (m + 3) := by
    conv_lhs => rw [hgens, List.drop_left' hlength]
  refine ⟨hrunning, ?_, ?_⟩
  · have hcontents : (order (c - 1)).map (s.rotate archiveMode).files.contents =
        (order (c - 1)).map (recycled archiveMode s.files c).contents :=
      List.map_congr_left fun i _ => hsame.contents i
    rw [hcontents, order_sub_one, map_cons, map_front_recycled, contents_recycled,
      Function.update_self, ← hfront]
    change _ = List.map entries (([] :: gens).take (m + 3))
    rw [List.take_succ_cons, htake, map_cons]
    rfl
  · have harchive : (s.rotate archiveMode).files.archive = kept archiveMode s.files c :=
      hsame.archive.trans (archive_recycled archiveMode s.files c)
    have hold := h.archive
    obtain ⟨piece, hpiece⟩ := Option.isSome_iff_exists.mp (h.running.present (c - 1))
    change _ = if archiveMode then ((([] :: gens).drop (m + 3)).reverse).map _ else []
    rw [harchive, kept, List.drop_succ_cons, hdrop, List.reverse_cons, map_append]
    cases archiveMode with
    | false => exact hold
    | true =>
      rw [if_pos rfl, if_pos rfl, hpiece, Option.toList_some, map_append]
      rw [if_pos rfl] at hold
      rw [hold]
      simp [holdest, contents, hpiece]

theorem Holds.step (command : StoreCommand Key) :
    ∃ c', Holds archiveMode (s.step archiveMode command) c' (Generation.step gens command) := by
  cases command with
  | commit batch => exact ⟨c, h.commit batch⟩
  | rotate => exact ⟨c - 1, h.rotate⟩
  | reopen => exact ⟨c, h.reopen⟩

theorem Holds.run (commands : List (StoreCommand Key)) :
    ∃ c', Holds archiveMode (commands.foldl (RotatingStore.step archiveMode) s) c'
      (commands.foldl Generation.step gens) := by
  induction commands generalizing s c gens with
  | nil => exact ⟨c, h⟩
  | cons command rest ih =>
    obtain ⟨c', h'⟩ := h.step command
    exact ih h'

/-- `lookup` takes the latest value of the live generations, or else of the
archive in the order of its files. -/
theorem Holds.lookup_eq (hproper : Proper gens) (key : Key) :
    s.lookup key = ((latest (gens.take (m + 3)) key).or
      (if archiveMode then latest (gens.drop (m + 3)).reverse key else none)).getD
        [] := by
  have harchive : archiveMode = false → s.files.archive = [] := by
    rintro rfl
    exact List.map_eq_nil_iff.mp h.archive
  have hlisted : s.files.listed s.db = (gens.take (m + 3) ++
      if archiveMode then (gens.drop (m + 3)).reverse else []).map entries := by
    rw [h.running.listed harchive, view, h.live, h.archive, map_append]
    cases archiveMode <;> rfl
  have hkept : Proper (gens.take (m + 3) ++
      if archiveMode then (gens.drop (m + 3)).reverse else []) := by
    apply hproper.mono
    intro gen hgen
    rcases List.mem_append.mp hgen with hgen | hgen
    · exact List.mem_of_mem_take hgen
    · cases archiveMode with
      | false => cases hgen
      | true => exact List.mem_of_mem_drop (List.mem_reverse.mp hgen)
  rw [RotatingStore.lookup, hlisted, Generation.find_latest hkept, latest_append]
  cases archiveMode <;> rfl

end

end RotatingStore

/-- After any run, `lookup` returns the value inserted last among the pieces that
are kept, if the database has no archive, or a live piece holds the key, or the
archived pieces agree on it; and only then. -/
theorem lookup_eq_latest_iff {m : Nat} {Key : Type} [DecidableEq Key] (archiveMode : Bool)
    (commands : List (StoreCommand Key)) (hcommands : ∀ command ∈ commands, command.Proper)
    (key : Key) :
    (RotatingStore.run archiveMode commands : RotatingStore m Key).lookup key =
        (latest (Generation.kept (m + 3) archiveMode (history (m + 3) commands)) key).getD [] ↔
      archiveMode = false ∨
        (∃ gen ∈ (history (m + 3) commands).take (m + 3), (gen.entries key).isSome) ∨
        ArchiveAgrees (m + 3) (history (m + 3) commands) key := by
  have hfresh : RotatingStore.Holds archiveMode _ 0
      (replicate (m + 3) ([] : Generation Key)) := RotatingStore.holds_fresh
  obtain ⟨c, hholds⟩ := hfresh.run commands
  have hempty : Proper (replicate (m + 3) ([] : Generation Key)) := by
    intro gen hgen entry hentry
    rw [List.eq_of_mem_replicate hgen] at hentry
    cases hentry
  have hproper := hempty.foldl hcommands
  have hlookup := hholds.lookup_eq hproper key
  change (RotatingStore.run archiveMode commands : RotatingStore m Key).lookup key = _ at hlookup
  change Proper (history (m + 3) commands) at hproper
  rw [hlookup]
  change (Option.or (latest ((history (m + 3) commands).take (m + 3)) key)
    (if archiveMode then latest ((history (m + 3) commands).drop (m + 3)).reverse key
      else none)).getD [] = _ ↔ _
  generalize history (m + 3) commands = gens at hproper ⊢
  rw [← Generation.latest_isSome_iff]
  cases archiveMode with
  | false => simp [Generation.kept]
  | true =>
    have hsplit : latest (Generation.kept (m + 3) true gens) key =
        (latest (gens.take (m + 3)) key).or (latest (gens.drop (m + 3)) key) := by
      rw [← latest_append, List.take_append_drop]
      rfl
    rw [hsplit]
    cases hlive : latest (gens.take (m + 3)) key with
    | some value => simp
    | none =>
      have harchived : Proper (gens.drop (m + 3)) := hproper.mono fun _ => List.mem_of_mem_drop
      have hreversed : Proper (gens.drop (m + 3)).reverse :=
        harchived.mono fun _ => List.mem_reverse.mp
      simpa [ArchiveAgrees] using hreversed.getD_eq_iff harchived

/-- Two values for one key, with rotations in between and behind them. -/
def sampleWrites : List (StoreCommand Unit) :=
  [.commit [((), [1])], .rotate, .reopen, .commit [((), [2])], .rotate, .rotate, .rotate, .reopen]

theorem lookup_eq_latest_iff_sample :
    (RotatingStore.run false sampleWrites : RotatingStore 2 Unit).lookup () =
      (latest (Generation.kept 5 false (history 5 sampleWrites)) ()).getD [] :=
  (lookup_eq_latest_iff false sampleWrites (by simp [sampleWrites, StoreCommand.Proper]) ()).mpr
    (.inl rfl)

/-- Of the two archived pieces the older one is asked first. -/
theorem lookup_archived_stale :
    (RotatingStore.run true sampleWrites : RotatingStore 0 Unit).lookup () = [1] ∧
      latest (Generation.kept 3 true (history 3 sampleWrites)) () = some [2] := by
  decide

end Skaled
