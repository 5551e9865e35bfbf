import Skaled.Basic

/-! # Databases that share a backend

`db_splitter` and `SplitDB` give out up to 256 interfaces over one backend. The keys of an
interface get its number as a first byte. The interfaces of a `db_splitter` share the
batch of the backend; those of a `SplitDB` write at once, or fill batches of their own.
Keys are not empty.
-/

namespace Skaled

/-- A database and the batch that waits; in a change, `none` removes the key. -/
structure BatchedMap where
  entries : List (Bytes × Bytes) := []
  batch : List (Bytes × Option Bytes) := []

namespace BatchedMap

def write (entries : List (Bytes × Bytes)) (change : Bytes × Option Bytes) :
    List (Bytes × Bytes) :=
  (change.2.map (change.1, ·)).toList ++ entries.filter (·.1 ≠ change.1)

/-- `insert` and `kill` into the batch of the backend or at once, a commit of that batch,
and a commit of a batch of one's own. -/
inductive Op where
  | batched (change : Bytes × Option Bytes)
  | direct (change : Bytes × Option Bytes)
  | commit
  | commitOwn (changes : List (Bytes × Option Bytes))

def apply (db : BatchedMap) : Op → BatchedMap
  | .batched change => { db with batch := db.batch ++ [change] }
  | .direct change => { db with entries := write db.entries change }
  | .commit => { entries := db.batch.foldl write db.entries }
  | .commitOwn changes => { db with entries := changes.foldl write db.entries }

end BatchedMap

namespace SplitDb

open BatchedMap (Op write)

/-- The key that the backend sees. -/
def addPrefix {α : Type} (i : UInt8) (entry : Bytes × α) : Bytes × α := (i :: entry.1, entry.2)

/-- What `forEach` makes of an entry of the backend. -/
def strip {α : Type} (i : UInt8) : Bytes × α → Option (Bytes × α)
  | ([], _) => none
  | (first :: key, value) => if first = i then some (key, value) else none

/-- An operation of an interface, on the backend. -/
def prefixed (i : UInt8) : Op → Op
  | .batched change => .batched (addPrefix i change)
  | .direct change => .direct (addPrefix i change)
  | .commit => .commit
  | .commitOwn changes => .commitOwn (changes.map (addPrefix i))

def run (ops : List (UInt8 × Op)) : BatchedMap :=
  ops.foldl (fun db op => db.apply (prefixed op.1 op.2)) {}

/-- The operations that an interface would see on its own. A commit through any of them
commits the batch of the backend. -/
def ownOps (i : UInt8) (ops : List (UInt8 × Op)) : List Op :=
  ops.filterMap fun op =>
    match op.2 with
    | .commit => some .commit
    | own => if op.1 = i then some own else none

/-- The database that an interface stands for. -/
def own (i : UInt8) (ops : List (UInt8 × Op)) : BatchedMap :=
  (ownOps i ops).foldl BatchedMap.apply {}

variable (db : BatchedMap) (i : UInt8) (key : Bytes)

/-- `lookup`, or nothing if its assertion fails. -/
def lookup : Option Bytes :=
  if key = [] then none else some ((db.entries.lookup (i :: key)).getD [])

def contains : Bool := (db.entries.lookup (i :: key)).isSome

def forEach : List (Bytes × Bytes) := db.entries.filterMap (strip i)

/-- The two implementations. -/
inductive Kind where
  | dbSplitter
  | splitDB
  deriving DecidableEq

/-- The prefix that the backend is asked for: that of the caller, or one in front of which
the number of the interface, a signed character, is printed. -/
def scanPrefix (prefix_ : Bytes) : Kind → Bytes
  | .dbSplitter => prefix_
  | .splitDB => (toString i.toInt8.toInt).toList.map (fun c => UInt8.ofNat c.toNat) ++ prefix_

def forEachWithPrefix (kind : Kind) (prefix_ : Bytes) : List (Bytes × Bytes) :=
  (db.entries.filter (scanPrefix i prefix_ kind <+: ·.1)).filterMap (strip i)

/-! ## Each interface is a database of its own -/

theorem strip_eq_some_iff {α : Type} {i : UInt8} {entry own : Bytes × α} :
    strip i entry = some own ↔ entry = addPrefix i own := by
  obtain ⟨key, value⟩ := entry
  obtain ⟨own, ownValue⟩ := own
  cases key with
  | nil => simp [strip, addPrefix]
  | cons first key =>
    simp [strip, addPrefix]
    tauto

@[simp] theorem strip_addPrefix {α : Type} (i : UInt8) (own : Bytes × α) :
    strip i (addPrefix i own) = some own := strip_eq_some_iff.mpr rfl

theorem strip_addPrefix_of_ne {α : Type} {i j : UInt8} (hne : j ≠ i) (own : Bytes × α) :
    strip i (addPrefix j own) = none := by
  simp [strip, addPrefix, hne]

/-- Writing to the backend is writing to the interface that the key belongs to. -/
theorem strip_write (i : UInt8) (entries : List (Bytes × Bytes)) (change : Bytes × Option Bytes) :
    (write entries change).filterMap (strip i) =
      (strip i change).toList.foldl write (entries.filterMap (strip i)) := by
  unfold write
  rw [List.filterMap_append, List.filterMap_filter]
  cases hstrip : strip i change with
  | none =>
    have hnone : ∀ {entry : Bytes × Bytes}, entry.1 = change.1 → strip i entry = none := by
      intro entry hkey
      refine Option.eq_none_iff_forall_ne_some.mpr fun own hown => ?_
      have hchange : change = addPrefix i (own.1, change.2) :=
        Prod.ext (hkey.symm.trans (congrArg Prod.fst (strip_eq_some_iff.mp hown))) rfl
      rw [hchange, strip_addPrefix] at hstrip
      cases hstrip
    have hchange : (change.2.map (change.1, ·)).toList.filterMap (strip i) = [] := by
      cases change.2 <;> simp [hnone]
    rw [hchange, List.nil_append]
    refine List.filterMap_congr fun entry _ => ?_
    by_cases hkey : entry.1 = change.1
    · simp [hkey, hnone]
    · simp [hkey]
  | some own =>
    obtain rfl := strip_eq_some_iff.mp hstrip
    have hchange : ((addPrefix i own).2.map ((addPrefix i own).1, ·)).toList.filterMap (strip i) =
        (own.2.map (own.1, ·)).toList := by
      cases hvalue : own.2 <;> simp [addPrefix, strip, hvalue]
    rw [hchange, Option.toList_some, List.foldl_cons, List.foldl_nil, List.filter_filterMap]
    congr 1
    refine List.filterMap_congr fun entry _ => ?_
    obtain ⟨key, value⟩ := entry
    cases key with
    | nil => simp [strip]
    | cons first key =>
      by_cases hfirst : first = i
      · subst hfirst
        by_cases hkey : key = own.1 <;> simp [strip, addPrefix, hkey, Option.filter]
      · simp [strip, hfirst]

theorem strip_foldl_write (i : UInt8) (changes : List (Bytes × Option Bytes))
    (entries : List (Bytes × Bytes)) :
    (changes.foldl write entries).filterMap (strip i) =
      (changes.filterMap (strip i)).foldl write (entries.filterMap (strip i)) := by
  induction changes generalizing entries with
  | nil => rfl
  | cons change changes ih =>
    rw [List.foldl_cons, ih, strip_write]
    cases hstrip : strip i change <;> simp [hstrip]

/-- What an interface sees of the backend. -/
def project (i : UInt8) (db : BatchedMap) : BatchedMap :=
  ⟨db.entries.filterMap (strip i), db.batch.filterMap (strip i)⟩

theorem project_apply (i : UInt8) (db : BatchedMap) (op : UInt8 × Op) :
    project i (db.apply (prefixed op.1 op.2)) = (ownOps i [op]).foldl .apply (project i db) := by
  obtain ⟨j, op⟩ := op
  cases op with
  | commit => simp [project, ownOps, prefixed, BatchedMap.apply, strip_foldl_write]
  | batched change =>
    by_cases hj : j = i
    · subst hj
      simp [project, ownOps, prefixed, BatchedMap.apply]
    · simp [project, ownOps, prefixed, BatchedMap.apply, hj, strip_addPrefix_of_ne]
  | direct change =>
    by_cases hj : j = i
    · subst hj
      simp [project, ownOps, prefixed, BatchedMap.apply, strip_write]
    · simp [project, ownOps, prefixed, BatchedMap.apply, hj, strip_addPrefix_of_ne, strip_write]
  | commitOwn changes =>
    by_cases hj : j = i
    · subst hj
      simp [project, ownOps, prefixed, BatchedMap.apply, strip_foldl_write]
    · simp [project, ownOps, prefixed, BatchedMap.apply, hj, strip_addPrefix_of_ne,
        strip_foldl_write]

theorem project_run (i : UInt8) (ops : List (UInt8 × Op)) : project i (run ops) = own i ops := by
  induction ops using List.reverseRecOn with
  | nil => rfl
  | append_singleton ops op ih =>
    have hown : ownOps i (ops ++ [op]) = ownOps i ops ++ ownOps i [op] := List.filterMap_append
    rw [run, List.foldl_append, own, hown, List.foldl_append, ← own, ← ih]
    exact project_apply i (run ops) op

/-! ## What an interface shows -/

/-- The interface behaves as the database that its operations make. -/
structure Behaves (kind : Kind) (ops : List (UInt8 × Op)) (i : UInt8) (prefix_ : Bytes) :
    Prop where
  lookup : ∀ key ≠ [], lookup (run ops) i key = some (((own i ops).entries.lookup key).getD [])
  contains : ∀ key, contains (run ops) i key = ((own i ops).entries.lookup key).isSome
  forEach : forEach (run ops) i = (own i ops).entries
  forEachWithPrefix : forEachWithPrefix (run ops) i kind prefix_ =
    (own i ops).entries.filter (prefix_ <+: ·.1)

theorem lookup_filterMap_strip (i : UInt8) (entries : List (Bytes × Bytes)) (key : Bytes) :
    (entries.filterMap (strip i)).lookup key = entries.lookup (i :: key) := by
  induction entries with
  | nil => rfl
  | cons entry entries ih =>
    obtain ⟨first, value⟩ := entry
    cases first with
    | nil => exact ih
    | cons first own =>
      by_cases hfirst : first = i
      · subst hfirst
        by_cases hkey : key = own <;> simp [strip, ih, List.lookup_cons, hkey]
      · have hne : (i :: key == first :: own) = false := by simp [Ne.symm hfirst]
        rw [List.lookup_cons, hne]
        simpa [strip, hfirst] using ih

/-- Everything but the scan for a prefix is as it should be, and the scan is just if the
prefix that the backend looks for finds the same entries of the interface. -/
theorem behaves_iff (kind : Kind) (ops : List (UInt8 × Op)) (i : UInt8) (prefix_ : Bytes) :
    Behaves kind ops i prefix_ ↔ ∀ entry ∈ (own i ops).entries,
      (scanPrefix i prefix_ kind <+: i :: entry.1 ↔ prefix_ <+: entry.1) := by
  have hentries : (run ops).entries.filterMap (strip i) = (own i ops).entries :=
    congrArg BatchedMap.entries (project_run i ops)
  have hscan : forEachWithPrefix (run ops) i kind prefix_ =
      (own i ops).entries.filter (scanPrefix i prefix_ kind <+: i :: ·.1) := by
    rw [forEachWithPrefix, List.filterMap_filter, ← hentries, List.filter_filterMap]
    refine List.filterMap_congr fun entry _ => ?_
    cases hstrip : strip i entry with
    | none => simp
    | some own =>
      rw [strip_eq_some_iff.mp hstrip]
      by_cases hfound : scanPrefix i prefix_ kind <+: i :: own.1 <;>
        simp [addPrefix, Option.filter, hfound]
  constructor
  · intro h entry hentry
    have hmem : entry ∈ forEachWithPrefix (run ops) i kind prefix_ ↔ prefix_ <+: entry.1 := by
      rw [h.forEachWithPrefix]
      simp [hentry]
    rw [← hmem, hscan]
    simp [hentry]
  · intro h
    refine ⟨fun key hkey => ?_, fun key => ?_, hentries, ?_⟩
    · rw [lookup, if_neg hkey, ← hentries, lookup_filterMap_strip]
    · rw [contains, ← hentries, lookup_filterMap_strip]
    · rw [hscan]
      exact List.filter_congr fun entry hentry => by simp [h entry hentry]

/-- The number of an interface, printed, starts with the byte of its keys for one number
only: 53 is the character 5. -/
theorem not_scanPrefix_splitDB (hi : i ≠ 53) (prefix_ : Bytes) :
    ¬ scanPrefix i prefix_ .splitDB <+: i :: key := by
  have hprinted : ∀ j : Fin 256, UInt8.ofNat j ≠ 53 →
      ((toString (UInt8.ofNat j).toInt8.toInt).toList.map (fun c => UInt8.ofNat c.toNat)).head? ∉
        [none, some (UInt8.ofNat j)] := by
    decide +kernel
  have hfirst := hprinted ⟨i.toNat, i.toNat_lt⟩
  rw [UInt8.ofNat_toNat] at hfirst
  unfold scanPrefix
  intro hscan
  apply hfirst hi
  cases hdigits : (toString i.toInt8.toInt).toList.map (fun c => UInt8.ofNat c.toNat) with
  | nil => exact .head _
  | cons digit digits =>
    rw [hdigits] at hscan
    obtain ⟨rfl, -⟩ := List.cons_prefix_cons.mp hscan
    exact .tail _ (.head _)

/-- So a `SplitDB` scan finds nothing through any other interface. -/
theorem behaves_splitDB_iff (ops : List (UInt8 × Op)) (hi : i ≠ 53) (prefix_ : Bytes) :
    Behaves .splitDB ops i prefix_ ↔ ∀ entry ∈ (own i ops).entries, ¬prefix_ <+: entry.1 := by
  rw [behaves_iff]
  refine forall₂_congr fun entry _ => ?_
  rw [iff_false_intro (not_scanPrefix_splitDB i entry.1 hi prefix_), false_iff]

/-- A key 7 in the interfaces 0 and 1: neither scan for the prefix 7 finds it. -/
theorem not_behaves :
    let ops : List (UInt8 × Op) := [(0, .direct ([7], some [1])), (1, .direct ([7], some [2]))]
    forEach (run ops) 0 = [([7], [1])] ∧ forEachWithPrefix (run ops) 0 .dbSplitter [7] = [] ∧
      forEachWithPrefix (run ops) 0 .splitDB [7] = [] ∧ ¬Behaves .dbSplitter ops 0 [7] := by
  refine ⟨by decide, by decide, by decide +kernel, fun h => ?_⟩
  exact absurd h.forEachWithPrefix (by decide)

end SplitDb

end Skaled
