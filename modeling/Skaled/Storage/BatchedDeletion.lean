import Skaled.Basic
import Skaled.Lib.BatchedStore

/-! # Deletion from a rotating database

`batched_db` over `ManuallyRotatingLevelDB`. Reads go through all pieces. A direct `kill`
does so, too, but a batch is written to the current piece only: a key that an older piece
holds is not deleted by it.
-/

namespace Skaled

/-- The pieces of a `ManuallyRotatingLevelDB`, the current one first. -/
structure RotatingPieces (Key : Type) where
  current : Key → Option Bytes
  older : List (Key → Option Bytes)

namespace RotatingPieces

variable {Key : Type} [DecidableEq Key]

/-- `lookup`: an empty value counts as none. -/
def lookup (s : RotatingPieces Key) (key : Key) : Bytes :=
  (((s.current :: s.older).map fun piece => (piece key).getD []).find? (· ≠ [])).getD []

/-- `exists` -/
def contains (s : RotatingPieces Key) (key : Key) : Bool :=
  (s.current :: s.older).any fun piece => (piece key).isSome

def insert (s : RotatingPieces Key) (key : Key) (value : Bytes) : RotatingPieces Key :=
  { s with current := Function.update s.current key (some value) }

def kill (s : RotatingPieces Key) (key : Key) : RotatingPieces Key :=
  ⟨Function.update s.current key none, s.older.map fun piece => Function.update piece key none⟩

def commit (s : RotatingPieces Key) (batch : List (Key × Option Bytes)) : RotatingPieces Key :=
  { s with current := BatchedStore.write s.current batch }

end RotatingPieces

/-- `batched_db`: the database and the batch, which is created when it is needed. -/
structure BatchedDb (Key : Type) where
  db : RotatingPieces Key
  batch : Option (List (Key × Option Bytes)) := none

namespace BatchedDb

variable {Key : Type} [DecidableEq Key]

def ensureBatch (s : BatchedDb Key) : List (Key × Option Bytes) := s.batch.getD []

def insert (s : BatchedDb Key) (key : Key) (value : Bytes) : BatchedDb Key :=
  { s with batch := some (s.ensureBatch ++ [(key, some value)]) }

def kill (s : BatchedDb Key) (key : Key) : BatchedDb Key :=
  { s with batch := some (s.ensureBatch ++ [(key, none)]) }

def commit (s : BatchedDb Key) : BatchedDb Key := { db := s.db.commit s.ensureBatch }

/-- An insertion, or a deletion if there is no value. -/
def change (s : BatchedDb Key) (op : Key × Option Bytes) : BatchedDb Key :=
  match op.2 with
  | some value => s.insert op.1 value
  | none => s.kill op.1

/-- A batch of operations, built and committed. -/
def run (db : RotatingPieces Key) (ops : List (Key × Option Bytes)) : RotatingPieces Key :=
  (ops.foldl change { db }).commit.db

omit [DecidableEq Key] in
theorem ensureBatch_foldl (ops : List (Key × Option Bytes)) (s : BatchedDb Key) :
    (ops.foldl change s).db = s.db ∧
      (ops.foldl change s).ensureBatch = s.ensureBatch ++ ops := by
  induction ops generalizing s with
  | nil => exact ⟨rfl, (List.append_nil _).symm⟩
  | cons op ops ih =>
    obtain ⟨hdb, hbatch⟩ := ih (s.change op)
    have hchange : (s.change op).db = s.db ∧
        (s.change op).ensureBatch = s.ensureBatch ++ [op] := by
      obtain ⟨key, value⟩ := op
      cases value with
      | none | some value => exact ⟨rfl, rfl⟩
    rw [List.foldl_cons, hdb, hbatch, hchange.1, hchange.2, List.append_assoc]
    exact ⟨rfl, rfl⟩

theorem run_eq (db : RotatingPieces Key) (ops : List (Key × Option Bytes)) :
    run db ops = db.commit ops := by
  obtain ⟨hdb, hbatch⟩ := ensureBatch_foldl ops { db }
  rw [run, commit, hdb, hbatch]
  rfl

end BatchedDb

/-! ## What a batch should do -/

section

variable {Key : Type}

theorem lookup_eq (db : RotatingPieces Key) (key : Key) :
    db.lookup key = if (db.current key).getD [] ≠ [] then (db.current key).getD []
      else ((db.older.map fun piece => (piece key).getD []).find? (· ≠ [])).getD [] := by
  rw [RotatingPieces.lookup, List.map_cons, List.find?_cons]
  split <;> simp_all

/-- None of the pieces has a value. -/
theorem find?_getD_eq_nil {pieces : List (Key → Option Bytes)} {key : Key} :
    ((pieces.map fun piece => (piece key).getD []).find? (· ≠ [])).getD [] = [] ↔
      ∀ piece ∈ pieces, (piece key).getD [] = [] := by
  induction pieces with
  | nil => simp
  | cons piece pieces ih =>
    rw [List.forall_mem_cons, ← ih, List.map_cons, List.find?_cons]
    by_cases hpiece : (piece key).getD [] = [] <;> simp [hpiece]

variable [DecidableEq Key]

/-- The last operation on a key, if there is one. -/
def lastChange (ops : List (Key × Option Bytes)) (key : Key) : Option (Option Bytes) :=
  ops.reverse.lookup key

/-- Deleted keys are absent, inserted ones have their values, and the others are as
before. -/
def DoneAsAsked (before after : RotatingPieces Key) (ops : List (Key × Option Bytes)) : Prop :=
  ∀ key, match lastChange ops key with
    | some none => after.lookup key = [] ∧ after.contains key = false
    | some (some value) => after.lookup key = value ∧ after.contains key = true
    | none => after.lookup key = before.lookup key ∧ after.contains key = before.contains key

/-- No older piece holds a key that the batch deletes, or has a value for one that gets the
empty string. -/
def OlderWithout (db : RotatingPieces Key) (ops : List (Key × Option Bytes)) : Prop :=
  ∀ key, ∀ piece ∈ db.older,
    (lastChange ops key = some none → piece key = none) ∧
      (lastChange ops key = some (some []) → (piece key).getD [] = [])

theorem write_eq_lastChange (disk : Key → Option Bytes) (ops : List (Key × Option Bytes))
    (key : Key) : BatchedStore.write disk ops key = (lastChange ops key).getD (disk key) := by
  induction ops using List.reverseRecOn with
  | nil => rfl
  | append_singleton ops op ih =>
    obtain ⟨changed, value⟩ := op
    rw [BatchedStore.write_append, lastChange, List.reverse_append]
    change Function.update (BatchedStore.write disk ops) changed value key =
      (List.lookup key ((changed, value) :: ops.reverse)).getD (disk key)
    rw [List.lookup_cons]
    by_cases hkey : key = changed
    · rw [hkey, Function.update_self, beq_self_eq_true]
      rfl
    · rw [Function.update_of_ne hkey, ih, beq_false_of_ne hkey]
      rfl

/-- A batch does what it should if and only if no older piece has what it deletes. -/
theorem run_doneAsAsked_iff (db : RotatingPieces Key) (ops : List (Key × Option Bytes)) :
    DoneAsAsked db (BatchedDb.run db ops) ops ↔ OlderWithout db ops := by
  refine forall_congr' fun key => ?_
  have hcurrent : (db.commit ops).current key = (lastChange ops key).getD (db.current key) :=
    write_eq_lastChange db.current ops key
  have hlookup := lookup_eq (db.commit ops) key
  have hcontains : (db.commit ops).contains key =
      (((db.commit ops).current key).isSome || db.older.any fun piece => (piece key).isSome) := rfl
  have holder : (db.commit ops).older = db.older := rfl
  rw [hcurrent, holder] at hlookup
  rw [hcurrent] at hcontains
  rw [BatchedDb.run_eq, hlookup, hcontains]
  cases hlast : lastChange ops key with
  | none => simp [lookup_eq db key, RotatingPieces.contains]
  | some change =>
    cases change with
    | none =>
      simp only [Option.getD_some, Option.getD_none, ne_eq, not_true_eq_false, if_false,
        find?_getD_eq_nil, Option.isSome_none, Bool.false_or, List.any_eq_false,
        Bool.not_eq_true, Option.isSome_eq_false_iff, Option.isNone_iff_eq_none, true_imp_iff,
        Option.some.injEq, reduceCtorEq, false_imp_iff, and_true]
      exact and_iff_right_of_imp fun hnone piece hpiece => by rw [hnone piece hpiece]; rfl
    | some value =>
      by_cases hvalue : value = []
      · subst hvalue
        have hnil := @find?_getD_eq_nil _ db.older key
        simpa using hnil
      · simp [hvalue]

end

/-- A key in the older of two pieces outlives its deletion. -/
theorem older_piece_keeps_deleted :
    let db : RotatingPieces Nat := ⟨fun _ => none, [fun _ => some [1]]⟩
    (BatchedDb.run db [(0, none)]).lookup 0 = [1] ∧
      (BatchedDb.run db [(0, none)]).contains 0 = true ∧
      ¬ DoneAsAsked db (BatchedDb.run db [(0, none)]) [(0, none)] := by
  refine ⟨rfl, rfl, fun h => ?_⟩
  have hdeleted := (h 0).1
  cases hdeleted

end Skaled
