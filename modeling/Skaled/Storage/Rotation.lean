import Mathlib.Data.List.FinRange
import Mathlib.Data.List.Rotate
import Mathlib.Tactic.Linarith

/-! # The rotating database

`batched_io::rotating_db_io`: a fixed number of databases in files that are
numbered in a circle. New data goes to the current piece, which holds a mark. A
rotation removes the oldest piece, or moves it to the archive, makes it anew as
the current piece and moves the mark. When the files are opened again, a mark
that was left behind is deleted first.

Every function that changes files is a list of operations on them, so that the
program can stop between any two. There are at least three pieces, `m + 3` of
them. An operation on a single file is not cut in two.
-/

namespace Skaled

/-- A database, apart from the key that marks the current piece. -/
structure Piece (Key Value : Type) where
  marked : Bool := false
  entries : Key → Option Value := fun _ => none

/-- The files: numbered pieces, which may be missing, and the archive. -/
structure PieceFiles (m : Nat) (Key Value : Type) where
  live : Fin (m + 3) → Option (Piece Key Value)
  archive : List (Piece Key Value)

/-- Operations on files. Opening a database creates it; a batch of insertions
(and deletions) is written at once. -/
inductive FileOp (m : Nat) (Key Value : Type) where
  | create (i : Fin (m + 3))
  | remove (i : Fin (m + 3))
  | rename (i : Fin (m + 3))
  | mark (i : Fin (m + 3))
  | unmark (i : Fin (m + 3))
  | write (i : Fin (m + 3)) (batch : List (Key × Option Value))

/-- The operation sets a mark. -/
def FileOp.isMark {m : Nat} {Key Value : Type} : FileOp m Key Value → Bool
  | .mark _ => true
  | _ => false

/-- A file whose database is open. -/
inductive PieceFile (m : Nat) where
  | live (i : Fin (m + 3))
  | archive (number : Nat)
  deriving DecidableEq, Repr

/-- `rotating_db_io` in memory. -/
structure RotatingDb (m : Nat) where
  pieces : List (PieceFile m)
  currentPieceFileNo : Fin (m + 3)
  deriving DecidableEq, Repr

variable {m : Nat} {Key Value : Type}

namespace Piece

variable [DecidableEq Key]

/-- A batch, one entry after the other. -/
def write (piece : Piece Key Value) (batch : List (Key × Option Value)) : Piece Key Value :=
  { piece with
    entries := batch.foldl (fun entries change => Function.update entries change.1 change.2)
      piece.entries }

end Piece

namespace PieceFiles

def fresh : PieceFiles m Key Value := ⟨fun _ => none, []⟩

variable (files : PieceFiles m Key Value)

def isMarked (i : Fin (m + 3)) : Bool :=
  ((files.live i).map (·.marked)).getD false

def contents (i : Fin (m + 3)) : Key → Option Value :=
  ((files.live i).map (·.entries)).getD fun _ => none

def set (i : Fin (m + 3)) (piece : Option (Piece Key Value)) : PieceFiles m Key Value :=
  { files with live := Function.update files.live i piece }

/-- What `f` makes of a piece that exists. -/
def modify (i : Fin (m + 3)) (f : Piece Key Value → Piece Key Value) : PieceFiles m Key Value :=
  files.set i ((files.live i).map f)

/-- The contents of the open pieces, in their order. -/
def listed (db : RotatingDb m) : List (Key → Option Value) :=
  db.pieces.map fun
    | .live i => files.contents i
    | .archive number => ((files.archive[number]?).map (·.entries)).getD fun _ => none

variable [DecidableEq Key]

def apply (files : PieceFiles m Key Value) : FileOp m Key Value → PieceFiles m Key Value
  | .create i => files.set i (some ((files.live i).getD {}))
  | .remove i => files.set i none
  | .rename i =>
    { files.set i none with archive := files.archive ++ (files.live i).toList }
  | .mark i => files.modify i fun piece => { piece with marked := true }
  | .unmark i => files.modify i fun piece => { piece with marked := false }
  | .write i batch => files.modify i (·.write batch)

def applyAll (ops : List (FileOp m Key Value)) : PieceFiles m Key Value :=
  ops.foldl apply files

/-! ## Opening -/

/-- The loop of `recover`: of two neighbours with a mark the second one loses
it. -/
def recover (files : PieceFiles m Key Value) : List (Fin (m + 3)) → List (FileOp m Key Value)
  | [] => []
  | i :: rest =>
    if files.isMarked i ∧ files.isMarked (i - 1) then
      .unmark i :: recover (files.apply (.unmark i)) rest
    else recover files rest

/-- Open all pieces. -/
def createOps : List (FileOp m Key Value) := (List.finRange (m + 3)).map .create

/-- The operations of the constructor: open all pieces, then `recover`. -/
def openOps : List (FileOp m Key Value) :=
  createOps ++ (files.applyAll createOps).recover (List.finRange (m + 3))

/-- The first piece with a mark; without any mark, the first piece. -/
def findCurrent : Fin (m + 3) :=
  ((List.finRange (m + 3)).find? files.isMarked).getD 0

/-- What the constructor makes of the files it has recovered. -/
def openDb (archiveMode : Bool) : RotatingDb m :=
  let current := files.findCurrent
  { pieces := ((List.finRange (m + 3)).rotate current).map .live ++
      if archiveMode then (List.range files.archive.length).map .archive else []
    currentPieceFileNo := current }

/-- The archive after the oldest piece was recycled. -/
def kept (archiveMode : Bool) (files : PieceFiles m Key Value) (c : Fin (m + 3)) :
    List (Piece Key Value) :=
  if archiveMode then files.archive ++ (files.live (c - 1)).toList else files.archive

/-- The files once the oldest piece was removed or renamed. -/
def recycled (archiveMode : Bool) (files : PieceFiles m Key Value) (c : Fin (m + 3)) :
    PieceFiles m Key Value :=
  files.apply (if archiveMode then .rename (c - 1) else .remove (c - 1))

end PieceFiles

namespace RotatingDb

/-- The piece that is recycled next. -/
def oldest (db : RotatingDb m) : Fin (m + 3) := db.currentPieceFileNo - 1

/-- The operations of `rotate`. The mark is removed from the piece that was in
front. -/
def rotateOps (db : RotatingDb m) (archiveMode : Bool) : List (FileOp m Key Value) :=
  let unmark := match db.pieces.head? with
    | some (.live i) => [.unmark i]
    | _ => []
  [if archiveMode then .rename db.oldest else .remove db.oldest, .create db.oldest,
    .mark db.oldest] ++ unmark

def rotated (db : RotatingDb m) (archiveMode : Bool) : RotatingDb m :=
  let newArchiveDbNo := db.pieces.length - (m + 3)
  let pieces := db.pieces.eraseIdx (m + 2)
  { pieces := .live db.oldest ::
      if archiveMode then pieces ++ [.archive newArchiveDbNo] else pieces
    currentPieceFileNo := db.oldest }

end RotatingDb

/-! ## Runs with crashes -/

/-- The files, the database while the program runs, and the number of marks
that were set so far. Entries carry the time at which they were inserted. -/
structure RotationSystem (m : Nat) (Key Value : Type) where
  files : PieceFiles m Key (Nat × Value)
  db : Option (RotatingDb m)
  clock : Nat
  rotations : Nat

/-- What can happen. A crash leaves the given number of operations done. -/
inductive RotationCommand (Key Value : Type) where
  | insert (key : Key) (value : Value)
  | rotate
  | crashInRotate (done : Nat)
  | start
  | crashInStart (done : Nat)

namespace RotationSystem

variable [DecidableEq Key] (archiveMode : Bool)

/-- No database yet. -/
def initial : RotationSystem m Key Value := ⟨.fresh, none, 0, 0⟩

/-- Run operations on the files, and count the marks that are set. -/
def run (s : RotationSystem m Key Value) (ops : List (FileOp m Key (Nat × Value))) :
    RotationSystem m Key Value :=
  { s with
    files := s.files.applyAll ops
    rotations := s.rotations + ops.countP FileOp.isMark }

/-- Insertions go to the piece in front. -/
def insertOps (s : RotationSystem m Key Value) (db : RotatingDb m) (key : Key) (value : Value) :
    List (FileOp m Key (Nat × Value)) :=
  match db.pieces.head? with
  | some (.live i) => [.write i [(key, some (s.clock, value))]]
  | _ => []

/-- One command; `none` when it is not possible. -/
def step (s : RotationSystem m Key Value) :
    RotationCommand Key Value → Option (RotationSystem m Key Value)
  | .insert key value => s.db.map fun db =>
    { s.run (s.insertOps db key value) with clock := s.clock + 1 }
  | .rotate => s.db.map fun db =>
    { s.run (db.rotateOps archiveMode) with db := some (db.rotated archiveMode) }
  | .crashInRotate done => s.db.map fun db =>
    { s.run ((db.rotateOps archiveMode).take done) with db := none }
  | .start =>
    let opened := s.run s.files.openOps
    if s.db.isNone then some { opened with db := some (opened.files.openDb archiveMode) }
    else none
  | .crashInStart done => if s.db.isNone then some (s.run (s.files.openOps.take done)) else none

def runCommands (s : RotationSystem m Key Value) :
    List (RotationCommand Key Value) → Option (RotationSystem m Key Value)
  | [] => some s
  | command :: rest => do (← s.step archiveMode command).runCommands rest

end RotationSystem

end Skaled
