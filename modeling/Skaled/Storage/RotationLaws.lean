import Mathlib.Algebra.Group.Fin.Basic
import Mathlib.Tactic.Abel
import Skaled.Storage.Rotation

/-! # What rotations and crashes leave

The pieces form a circle that begins with the current one and ends with the
oldest one. Whatever operation a crash comes after, the marks still tell where
the circle begins, and the only piece that can have lost its contents is the
oldest one.
-/

namespace Skaled.PieceFiles

open Function (update update_eq_self_iff update_of_ne update_self)
open List (finRange map_append mem_finRange ofFn)

variable {m : Nat} {Key Value : Type}

/-! ## The circle -/

/-- The pieces from the current one to the oldest one. -/
def order (c : Fin (m + 3)) : List (Fin (m + 3)) := (finRange (m + 3)).rotate c

/-- The pieces from the current one on, without the oldest one. -/
def front (c : Fin (m + 3)) : List (Fin (m + 3)) :=
  ofFn fun k : Fin (m + 2) => c + k.castSucc

section

variable (c : Fin (m + 3))

include c

@[simp] theorem length_front : (front c).length = m + 2 := by
  simp [front]

theorem order_eq_ofFn : order c = ofFn fun k => c + k := by
  apply List.ext_getElem
  · simp [order]
  · intro k hk hk'
    simp only [order, List.getElem_rotate, List.getElem_finRange, List.getElem_ofFn]
    apply Fin.ext
    simp [Fin.val_add, Nat.add_comm]

theorem last_eq : c + Fin.last (m + 2) = c - 1 := by
  rw [sub_eq_add_neg]
  congr 1
  exact (Fin.neg_last (m + 2) ▸ (neg_neg (Fin.last (m + 2)))).symm

theorem order_eq_front : order c = front c ++ [c - 1] := by
  rw [order_eq_ofFn, List.ofFn_succ', List.concat_eq_append, last_eq]
  rfl

/-- After a rotation the circle begins one piece earlier. -/
theorem order_sub_one : order (c - 1) = (c - 1) :: front c := by
  rw [order_eq_ofFn, List.ofFn_succ, add_zero]
  congr 1
  unfold front
  congr 1
  funext k
  rw [← Fin.coeSucc_eq_succ]
  abel

theorem sub_one_notMem_front : c - 1 ∉ front c := by
  intro hmem
  obtain ⟨k, hk⟩ := (List.mem_ofFn' _ _).mp hmem
  rw [← last_eq] at hk
  exact (Fin.castSucc_lt_last k).ne (add_left_cancel hk)

theorem sub_one_ne : c - 1 ≠ c := by
  intro heq
  have := congrArg Fin.val (sub_eq_self.mp heq)
  simp at this

theorem add_one_ne : c + 1 ≠ c := by
  intro heq
  exact sub_one_ne c (sub_eq_of_eq_add heq.symm)

theorem sub_one_ne_add_one : c - 1 ≠ c + 1 := by
  intro heq
  have htwo : (1 : Fin (m + 3)) + 1 = 0 := by
    have hsum : c + (1 + 1) = c + 0 := by
      rw [← add_assoc, ← heq]
      abel
    exact add_left_cancel hsum
  have hval : 2 % (m + 3) = 0 := by simpa [Fin.val_add] using congrArg Fin.val htwo
  rw [Nat.mod_eq_of_lt (by omega)] at hval
  omega

end

/-! ## Where the circle begins -/

/-- The contents of the pieces from the current one on, then the archive. -/
def view (files : PieceFiles m Key Value) (c : Fin (m + 3)) : List (Key → Option Value) :=
  (order c).map files.contents ++ files.archive.map (·.entries)

/-- Nobody who reads can tell the files apart. -/
structure Like (files files' : PieceFiles m Key Value) : Prop where
  marked : ∀ i, files'.isMarked i = files.isMarked i
  contents : ∀ i, files'.contents i = files.contents i
  archive : files'.archive = files.archive

variable {files files' : PieceFiles m Key Value} {i c j : Fin (m + 3)}

theorem Like.refl (files : PieceFiles m Key Value) : Like files files :=
  ⟨fun _ => rfl, fun _ => rfl, rfl⟩

theorem Like.trans {files files' files'' : PieceFiles m Key Value} (h : Like files files')
    (h' : Like files' files'') : Like files files'' :=
  ⟨fun i => (h'.marked i).trans (h.marked i), fun i => (h'.contents i).trans (h.contents i),
    h'.archive.trans h.archive⟩

/-- The marks when no rotation is under way: none was ever set, or the current
piece has it. -/
inductive Settled (files : PieceFiles m Key Value) (c : Fin (m + 3)) : Prop
  | never (hnone : ∀ i, files.isMarked i = false) (hfirst : c = 0)
  | once (hone : ∀ i, files.isMarked i = true ↔ i = c)

/-- The marks after a crash: the piece that was current before may still have
its mark. -/
inductive Marks (files : PieceFiles m Key Value) (c : Fin (m + 3)) : Prop
  | settled (h : Settled files c)
  | twice (htwo : ∀ i, files.isMarked i = true ↔ i = c ∨ i = c + 1)

theorem Settled.congr (h : Settled files c) (hmarked : ∀ i, files'.isMarked i = files.isMarked i) :
    Settled files' c := by
  cases h with
  | never hnone hfirst => exact .never (fun i => (hmarked i).trans (hnone i)) hfirst
  | once hone => exact .once fun i => by rw [hmarked, hone]

theorem Marks.like (h : Marks files c) (hlike : Like files files') : Marks files' c := by
  cases h with
  | settled h => exact .settled (h.congr hlike.marked)
  | twice htwo => exact .twice fun i => by rw [hlike.marked, htwo]

theorem Settled.findCurrent (h : Settled files c) : files.findCurrent = c := by
  unfold PieceFiles.findCurrent
  cases h with
  | never hnone hfirst =>
    rw [List.find?_eq_none.mpr fun i _ => by simp [hnone i], hfirst]
    rfl
  | once hone =>
    cases hfind : (finRange (m + 3)).find? files.isMarked with
    | none =>
      have hmark := List.find?_eq_none.mp hfind c (mem_finRange c)
      exact absurd ((hone c).mpr rfl) hmark
    | some i => exact (hone i).mp (List.find?_some hfind)

theorem Settled.oldest (h : Settled files c) : files.isMarked (c - 1) = false := by
  cases h with
  | never hnone _ => exact hnone _
  | once hone =>
    rw [Bool.eq_false_iff, ne_eq, hone]
    exact sub_one_ne c

structure SameContents (files files' : PieceFiles m Key Value) : Prop where
  contents : ∀ i, files'.contents i = files.contents i
  archive : files'.archive = files.archive

theorem Like.sameContents (h : Like files files') : SameContents files files' :=
  ⟨h.contents, h.archive⟩

theorem SameContents.trans {files'' : PieceFiles m Key Value} (h : SameContents files files')
    (h' : SameContents files' files'') : SameContents files files'' :=
  ⟨fun i => (h'.contents i).trans (h.contents i), h'.archive.trans h.archive⟩

theorem SameContents.view (h : SameContents files files')
    (c : Fin (m + 3)) : files'.view c = files.view c := by
  unfold PieceFiles.view
  rw [h.archive, funext h.contents]

theorem view_eq (files : PieceFiles m Key Value) (c : Fin (m + 3)) :
    files.view c = (front c).map files.contents ++ files.contents (c - 1) ::
      files.archive.map (·.entries) := by
  rw [view, order_eq_front, map_append]
  simp

/-! ## The open database -/

/-- The database is open: the files are all there, with at most one mark. -/
structure Running (files : PieceFiles m Key Value) (db : RotatingDb m) (archiveMode : Bool)
    (c : Fin (m + 3)) : Prop where
  settled : Settled files c
  present : ∀ i, (files.live i).isSome
  opened : db = files.openDb archiveMode

variable {db : RotatingDb m} {archiveMode : Bool}

theorem Running.current (h : Running files db archiveMode c) : db.currentPieceFileNo = c := by
  rw [h.opened]
  exact h.settled.findCurrent

theorem Running.pieces (h : Running files db archiveMode c) :
    db.pieces = (order c).map .live ++
      if archiveMode then (List.range files.archive.length).map .archive else [] := by
  rw [h.opened, openDb, h.settled.findCurrent]
  rfl

theorem order_eq_cons (c : Fin (m + 3)) : ∃ rest, order c = c :: rest := by
  rw [order_eq_ofFn, List.ofFn_succ, add_zero]
  exact ⟨_, rfl⟩

theorem Running.head (h : Running files db archiveMode c) : db.pieces.head? = some (.live c) := by
  obtain ⟨rest, hrest⟩ := order_eq_cons c
  rw [h.pieces, hrest]
  rfl

theorem Running.rotateOps (h : Running files db archiveMode c) :
    (db.rotateOps archiveMode : List (FileOp m Key Value)) =
      [if archiveMode then .rename (c - 1) else .remove (c - 1), .create (c - 1), .mark (c - 1),
        .unmark c] := by
  unfold RotatingDb.rotateOps RotatingDb.oldest
  rw [h.head, h.current]
  rfl

/-- The new order in memory is the one that would be read from the files. -/
theorem Running.rotated (h : Running files db archiveMode c) (hsettled : Settled files' (c - 1))
    (harchive : files'.archive = kept archiveMode files c) :
    db.rotated archiveMode = files'.openDb archiveMode := by
  have herase : ((order c).map PieceFile.live).eraseIdx (m + 2) = (front c).map .live := by
    rw [order_eq_front, map_append, List.eraseIdx_append_of_length_le (by simp)]
    simp
  have hlength : files'.archive.length = files.archive.length + if archiveMode then 1 else 0 := by
    obtain ⟨piece, hpiece⟩ := Option.isSome_iff_exists.mp (h.present (c - 1))
    rw [harchive, kept, hpiece]
    cases archiveMode <;> simp
  unfold RotatingDb.rotated openDb RotatingDb.oldest
  rw [h.current, hsettled.findCurrent, h.pieces, hlength]
  dsimp only
  congr 1
  change _ = (order (c - 1)).map PieceFile.live ++ _
  rw [order_sub_one, List.eraseIdx_append_of_lt_length (by simp [order]), herase]
  cases archiveMode
  · simp
  · simp [List.range_succ, order]

/-- What is listed while the database is open. -/
theorem Running.listed (h : Running files db archiveMode c)
    (harchive : archiveMode = false → files.archive = []) : files.listed db = files.view c := by
  unfold PieceFiles.listed view
  rw [h.pieces, map_append, List.map_map]
  congr 1
  cases archiveMode with
  | false => simp [harchive rfl]
  | true =>
    rw [if_pos rfl, List.map_map]
    apply List.ext_getElem
    · simp
    · intro k hk hk'
      have hlt : k < files.archive.length := by simpa using hk
      simp [hlt]

/-! ## Marks and contents after an operation -/

theorem isSome_modify {f : Piece Key Value → Piece Key Value} :
    ((files.modify i f).live j).isSome = (files.live j).isSome := by
  by_cases hij : j = i
  · subst hij
    simp [modify, set]
  · simp [modify, set, hij]

@[simp] theorem length_createOps : (createOps : List (FileOp m Key Value)).length = m + 3 := by
  simp [createOps]

section

variable (files i)

@[simp] theorem isMarked_set (piece : Option (Piece Key Value)) : (files.set i piece).isMarked =
    update files.isMarked i ((piece.map (·.marked)).getD false) :=
  Function.comp_update (fun p => (Option.map Piece.marked p).getD false) files.live i piece

@[simp] theorem contents_set (piece : Option (Piece Key Value)) : (files.set i piece).contents =
    update files.contents i ((piece.map (·.entries)).getD fun _ => none) :=
  Function.comp_update (fun p => (Option.map Piece.entries p).getD fun _ => none) _ i piece

variable [DecidableEq Key]

theorem like_create : Like files (files.apply (.create i)) := by
  have hmarked : (files.apply (.create i)).isMarked = files.isMarked := by
    rw [apply, isMarked_set, update_eq_self_iff]
    cases hlive : files.live i <;> simp [isMarked, hlive]
  have hcontents : (files.apply (.create i)).contents = files.contents := by
    rw [apply, contents_set, update_eq_self_iff]
    cases hlive : files.live i <;> simp [contents, hlive]
  exact ⟨congrFun hmarked, congrFun hcontents, rfl⟩

theorem isMarked_unmark : (files.apply (.unmark i)).isMarked = update files.isMarked i false := by
  rw [apply, modify, isMarked_set]
  cases files.live i <;> rfl

theorem contents_unmark : (files.apply (.unmark i)).contents = files.contents := by
  rw [apply, modify, contents_set, update_eq_self_iff]
  cases hlive : files.live i <;> simp [contents, hlive]

theorem contents_mark : (files.apply (.mark i)).contents = files.contents := by
  rw [apply, modify, contents_set, update_eq_self_iff]
  cases hlive : files.live i <;> simp [contents, hlive]

theorem sameContents_unmark : SameContents files (files.apply (.unmark i)) :=
  ⟨congrFun (files.contents_unmark i), rfl⟩

end

variable [DecidableEq Key]

theorem isMarked_mark (hlive : (files.live i).isSome) :
    (files.apply (.mark i)).isMarked = update files.isMarked i true := by
  obtain ⟨piece, hpiece⟩ := Option.isSome_iff_exists.mp hlive
  rw [apply, modify, isMarked_set, hpiece]
  rfl

theorem settled_unmark (htwo : ∀ i, files.isMarked i = true ↔ i = c ∨ i = c + 1) :
    Settled (files.apply (.unmark (c + 1))) c := by
  refine .once fun i => ?_
  rw [isMarked_unmark]
  by_cases hnext : i = c + 1
  · subst hnext
    simp
  · simp [hnext, htwo]

/-- Without a second mark there is nothing to recover. -/
theorem Settled.recover (h : Settled files c)
    (rest : List (Fin (m + 3))) : files.recover rest = [] := by
  induction rest with
  | nil => rfl
  | cons i rest ih =>
    rw [PieceFiles.recover, if_neg, ih]
    rintro ⟨hi, hprev⟩
    cases h with
    | never hnone _ =>
      rw [hnone i] at hi
      cases hi
    | once hone =>
      rw [hone] at hi hprev
      subst hi
      exact sub_one_ne i hprev

/-- A second mark belongs to the piece that was current before. -/
theorem recover_twice (htwo : ∀ i, files.isMarked i = true ↔ i = c ∨ i = c + 1)
    {rest : List (Fin (m + 3))} (hmem : c + 1 ∈ rest) : files.recover rest = [.unmark (c + 1)] := by
  induction rest with
  | nil => cases hmem
  | cons i rest ih =>
    rw [PieceFiles.recover]
    by_cases hi : i = c + 1
    · subst hi
      rw [if_pos ⟨(htwo _).mpr (.inr rfl), (htwo _).mpr (.inl (add_sub_cancel_right c 1))⟩,
        (settled_unmark htwo).recover]
    · rw [if_neg]
      · exact ih ((List.mem_cons.mp hmem).resolve_left (Ne.symm hi))
      · rintro ⟨hmark, hprev⟩
        obtain rfl := ((htwo i).mp hmark).resolve_right hi
        obtain hsame | hnext := (htwo _).mp hprev
        · exact sub_one_ne i hsame
        · exact sub_one_ne_add_one i hnext

/-! ## Opening -/

@[simp] theorem applyAll_nil (files : PieceFiles m Key Value) : files.applyAll [] = files := rfl

@[simp] theorem applyAll_cons (files : PieceFiles m Key Value) (op : FileOp m Key Value)
    (ops : List (FileOp m Key Value)) :
    files.applyAll (op :: ops) = (files.apply op).applyAll ops := rfl

@[simp] theorem applyAll_append (files : PieceFiles m Key Value)
    (ops ops' : List (FileOp m Key Value)) :
    files.applyAll (ops ++ ops') = (files.applyAll ops).applyAll ops' := by
  simp [applyAll]

theorem like_creates (files : PieceFiles m Key Value) (is : List (Fin (m + 3))) :
    Like files (files.applyAll (is.map .create)) := by
  induction is generalizing files with
  | nil => exact .refl files
  | cons i is ih => exact (files.like_create i).trans (ih _)

theorem isSome_create
    (h : j = i ∨ (files.live j).isSome) : ((files.apply (.create i)).live j).isSome := by
  by_cases hij : j = i
  · subst hij
    simp [apply, set]
  · simpa [apply, set, hij] using h

theorem isSome_creates {is : List (Fin (m + 3))} (h : j ∈ is ∨ (files.live j).isSome) :
    ((files.applyAll (is.map .create)).live j).isSome := by
  induction is generalizing files with
  | nil => simpa using h
  | cons i is ih =>
    apply ih
    obtain hmem | hsome := h
    · obtain rfl | hmem := List.mem_cons.mp hmem
      · exact .inr (isSome_create (.inl rfl))
      · exact .inl hmem
    · exact .inr (isSome_create (.inr hsome))

theorem isSome_mark : ((files.apply (.mark i)).live j).isSome = (files.live j).isSome :=
  isSome_modify

theorem isSome_unmark : ((files.apply (.unmark i)).live j).isSome = (files.live j).isSome :=
  isSome_modify

/-- Opening, and every part of it, keeps the contents and the beginning of the
circle. -/
theorem Marks.openOps_take (h : Marks files c) (k : Nat) :
    Marks (files.applyAll (files.openOps.take k)) c ∧
      SameContents files (files.applyAll (files.openOps.take k)) ∧
      (files.applyAll (files.openOps.take k)).isMarked c = files.isMarked c := by
  have hsome := files.like_creates ((finRange (m + 3)).take k)
  have hall := files.like_creates (finRange (m + 3))
  unfold openOps
  rw [List.take_append, applyAll_append, length_createOps]
  -- the second part runs only when all files were created
  by_cases hshort : k ≤ m + 3
  · rw [Nat.sub_eq_zero_of_le hshort, List.take_zero, applyAll_nil, createOps, ← List.map_take]
    exact ⟨h.like hsome, hsome.sameContents, hsome.marked c⟩
  · rw [List.take_of_length_le (by rw [length_createOps]; omega)]
    have h' := h.like hall
    cases h' with
    | settled hsettled =>
      rw [createOps, hsettled.recover, List.take_nil, applyAll_nil]
      exact ⟨.settled hsettled, hall.sameContents, hall.marked c⟩
    | twice htwo =>
      rw [createOps, recover_twice htwo (mem_finRange _)]
      cases k - (m + 3) with
      | zero => exact ⟨.twice htwo, hall.sameContents, hall.marked c⟩
      | succ k =>
        rw [List.take_succ_cons, List.take_nil, applyAll_cons, applyAll_nil]
        refine ⟨.settled (settled_unmark htwo),
          hall.sameContents.trans (sameContents_unmark _ _), ?_⟩
        rw [isMarked_unmark, update_of_ne (add_one_ne c).symm]
        exact hall.marked c

/-- Opening leaves all files there and at most one mark. -/
theorem Marks.openOps (h : Marks files c) :
    Settled (files.applyAll files.openOps) c ∧
      (∀ i, ((files.applyAll files.openOps).live i).isSome) ∧
      SameContents files (files.applyAll files.openOps) ∧
      (files.applyAll files.openOps).isMarked c = files.isMarked c := by
  have htake := h.openOps_take files.openOps.length
  rw [List.take_length] at htake
  have hall := files.like_creates (finRange (m + 3))
  have hsome : ∀ i, ((files.applyAll ((finRange (m + 3)).map .create)).live i).isSome :=
    fun i => isSome_creates (.inl (mem_finRange i))
  refine and_assoc.mp ⟨?_, htake.2⟩
  rw [PieceFiles.openOps, applyAll_append, createOps]
  cases h.like hall with
  | settled hsettled =>
    rw [hsettled.recover, applyAll_nil]
    exact ⟨hsettled, hsome⟩
  | twice htwo =>
    rw [recover_twice htwo (mem_finRange _), applyAll_cons, applyAll_nil]
    exact ⟨settled_unmark htwo, fun i => isSome_unmark.trans (hsome i)⟩

theorem recover_isMark (files : PieceFiles m Key Value) (is : List (Fin (m + 3))) :
    ∀ op ∈ files.recover is, op.isMark = false := by
  induction is generalizing files with
  | nil => simp [recover]
  | cons i is ih =>
    rw [recover]
    split
    · intro op hop
      obtain rfl | hop := List.mem_cons.mp hop
      · rfl
      · exact ih _ op hop
    · exact ih files

/-- Opening sets no mark. -/
theorem openOps_isMark (files : PieceFiles m Key Value) (k : Nat) :
    (files.openOps.take k).countP FileOp.isMark = 0 := by
  rw [List.countP_eq_zero]
  intro op hop
  obtain hcreate | hrecover := List.mem_append.mp (List.mem_of_mem_take hop)
  · obtain ⟨i, _, rfl⟩ := List.mem_map.mp hcreate
    exact Bool.false_ne_true
  · rw [recover_isMark _ _ op hrecover]
    exact Bool.false_ne_true

/-! ## Writing -/

theorem isMarked_write (files : PieceFiles m Key Value) (i : Fin (m + 3))
    (batch : List (Key × Option Value)) :
    (files.apply (.write i batch)).isMarked = files.isMarked := by
  rw [apply, modify, isMarked_set, update_eq_self_iff]
  cases hlive : files.live i <;> simp [isMarked, hlive, Piece.write]

theorem contents_write (hlive : (files.live i).isSome) (batch : List (Key × Option Value)) :
    (files.apply (.write i batch)).contents = update files.contents i
      (batch.foldl (fun entries change => update entries change.1 change.2)
        (files.contents i)) := by
  obtain ⟨piece, hpiece⟩ := Option.isSome_iff_exists.mp hlive
  rw [apply, modify, contents_set]
  simp [contents, hpiece, Piece.write]

theorem isSome_write {batch : List (Key × Option Value)} :
    ((files.apply (.write i batch)).live j).isSome = (files.live j).isSome :=
  isSome_modify

/-! ## Rotating -/

section

variable (archiveMode : Bool) (files : PieceFiles m Key Value) (c : Fin (m + 3))

theorem contents_recycled : (recycled archiveMode files c).contents =
    update files.contents (c - 1) fun _ => none := by
  cases archiveMode <;> exact contents_set files (c - 1) none

theorem archive_recycled : (recycled archiveMode files c).archive = kept archiveMode files c := by
  cases archiveMode <;> rfl

theorem map_front_recycled :
    (front c).map (recycled archiveMode files c).contents = (front c).map files.contents := by
  apply List.map_congr_left
  intro i hi
  rw [contents_recycled, update_of_ne]
  rintro rfl
  exact sub_one_notMem_front c hi

/-- The oldest piece is empty, the others are as they were. -/
theorem view_interrupted :
    (recycled archiveMode files c).view c = (front c).map files.contents ++ (fun _ => none) ::
      (kept archiveMode files c).map (·.entries) := by
  rw [view_eq, map_front_recycled, archive_recycled, contents_recycled, update_self]

/-- The oldest piece is empty and comes first, the others are as they were. -/
theorem view_completed :
    (recycled archiveMode files c).view (c - 1) = (fun _ => none) ::
      ((front c).map files.contents ++ (kept archiveMode files c).map (·.entries)) := by
  rw [view, order_sub_one, List.map_cons, map_front_recycled, archive_recycled, contents_recycled,
    update_self]
  rfl

end

theorem isMarked_recycled (h : Settled files c) (archiveMode : Bool) :
    (recycled archiveMode files c).isMarked = files.isMarked := by
  have hset : (recycled archiveMode files c).isMarked = (files.set (c - 1) none).isMarked := by
    cases archiveMode <;> rfl
  rw [hset, isMarked_set, update_eq_self_iff, h.oldest]
  rfl

theorem settled_recycled (h : Settled files c) (archiveMode : Bool) :
    Settled (recycled archiveMode files c) c :=
  h.congr (congrFun (isMarked_recycled h archiveMode))

/-- Where the circle begins once the new piece is marked. -/
theorem marks_mark (h : Settled files c) (hlive : (files.live (c - 1)).isSome) :
    Marks (files.apply (.mark (c - 1))) (c - 1) := by
  cases h with
  | never hnone _ =>
    refine .settled (.once fun i => ?_)
    rw [isMarked_mark hlive]
    by_cases hi : i = c - 1
    · simp [hi]
    · simp [hi, hnone]
  | once hone =>
    refine .twice fun i => ?_
    rw [isMarked_mark hlive, sub_add_cancel]
    by_cases hi : i = c - 1
    · simp [hi]
    · simp [hi, hone]

theorem isMarked_mark_unmark (h : Settled files c) (hlive : (files.live (c - 1)).isSome)
    (i : Fin (m + 3)) :
    ((files.apply (.mark (c - 1))).apply (.unmark c)).isMarked i = true ↔ i = c - 1 := by
  rw [isMarked_unmark, isMarked_mark hlive]
  by_cases hcurrent : i = c
  · subst hcurrent
    simp [(sub_one_ne i).symm]
  · by_cases hi : i = c - 1
    · subst hi
      simp [hcurrent]
    · cases h with
      | never hnone _ => simp [hi, hcurrent, hnone]
      | once hone => simp [hi, hcurrent, hone]

/-- What part of a rotation leaves, with the number of marks it set: nothing was
done, the oldest piece is empty, or it is the current piece. -/
inductive Rotating (archiveMode : Bool) (files : PieceFiles m Key Value) (c : Fin (m + 3))
    (files' : PieceFiles m Key Value) (marksSet : Nat) : Prop
  | untouched (h : files' = files) (hset : marksSet = 0)
  | interrupted (hmarked : files'.isMarked = files.isMarked) (hset : marksSet = 0)
      (hsame : SameContents (recycled archiveMode files c) files')
  | completed (hmarks : Marks files' (c - 1)) (hmarked : files'.isMarked (c - 1) = true)
      (hsame : SameContents (recycled archiveMode files c) files')

/-- Every part of a rotation. -/
theorem Running.rotateOps_take (h : Running files db archiveMode c) (k : Nat) :
    Rotating archiveMode files c (files.applyAll ((db.rotateOps archiveMode).take k))
      (((db.rotateOps archiveMode : List (FileOp m Key Value)).take k).countP FileOp.isMark) := by
  rw [h.rotateOps]
  have hrecycled := isMarked_recycled h.settled archiveMode
  have hcreate := (recycled archiveMode files c).like_create (c - 1)
  have hsettled := (settled_recycled h.settled archiveMode).congr hcreate.marked
  have hlive : (((recycled archiveMode files c).apply (.create (c - 1))).live (c - 1)).isSome :=
    isSome_create (.inl rfl)
  have hmark : SameContents (recycled archiveMode files c)
      (((recycled archiveMode files c).apply (.create (c - 1))).apply (.mark (c - 1))) :=
    hcreate.sameContents.trans ⟨congrFun (contents_mark _ _), rfl⟩
  match k with
  | 0 => exact .untouched rfl rfl
  | 1 => exact .interrupted hrecycled (by cases archiveMode <;> rfl) (Like.refl _).sameContents
  | 2 =>
    exact .interrupted ((funext hcreate.marked).trans hrecycled) (by cases archiveMode <;> rfl)
      hcreate.sameContents
  | 3 =>
    refine .completed (marks_mark hsettled hlive) ?_ hmark
    exact (congrFun (isMarked_mark hlive) _).trans (update_self _ _ _)
  | k + 4 =>
    rw [List.take_of_length_le (by simp)]
    have hone := isMarked_mark_unmark hsettled hlive
    exact .completed (.settled (.once hone)) ((hone _).mpr rfl)
      (hmark.trans (sameContents_unmark _ _))

theorem isSome_recycled (hi : i ≠ c - 1) (hlive : (files.live i).isSome) (archiveMode : Bool) :
    ((recycled archiveMode files c).live i).isSome := by
  cases archiveMode <;> simpa [recycled, apply, set, hi] using hlive

/-- A whole rotation. -/
theorem Running.rotate (h : Running files db archiveMode c) :
    Running (files.applyAll (db.rotateOps archiveMode)) (db.rotated archiveMode) archiveMode
        (c - 1) ∧
      (files.applyAll (db.rotateOps archiveMode)).isMarked (c - 1) = true ∧
      SameContents (recycled archiveMode files c)
        (files.applyAll (db.rotateOps archiveMode)) := by
  have hcreate := (recycled archiveMode files c).like_create (c - 1)
  have hlive : (((recycled archiveMode files c).apply (.create (c - 1))).live (c - 1)).isSome :=
    isSome_create (.inl rfl)
  have hone := isMarked_mark_unmark
    ((settled_recycled h.settled archiveMode).congr hcreate.marked) hlive
  have hsame := (hcreate.sameContents.trans ⟨congrFun (contents_mark _ (c - 1)), rfl⟩).trans
    (sameContents_unmark _ c)
  rw [h.rotateOps]
  refine ⟨⟨.once hone, fun i => ?_, ?_⟩, (hone _).mpr rfl, hsame⟩
  · change (((((recycled archiveMode files c).apply (.create (c - 1))).apply (.mark (c - 1))).apply
      (.unmark c)).live i).isSome
    rw [isSome_unmark, isSome_mark]
    by_cases hi : i = c - 1
    · exact isSome_create (.inl hi)
    · exact isSome_create (.inr (isSome_recycled hi (h.present i) archiveMode))
  · apply h.rotated (.once hone)
    rw [hsame.archive, archive_recycled]

/-! ## The pieces in their order -/

/-- A batch written to the current piece. -/
theorem Running.write (h : Running files db archiveMode c) (batch : List (Key × Option Value)) :
    Running (files.apply (.write c batch)) db archiveMode c := by
  refine ⟨h.settled.congr (congrFun (files.isMarked_write c batch)), fun i => ?_, ?_⟩
  · rw [isSome_write]
    exact h.present i
  · rw [h.opened, openDb, openDb, findCurrent, findCurrent, isMarked_write]
    rfl

theorem view_write (hlive : (files.live c).isSome) (batch : List (Key × Option Value)) :
    ∃ rest, files.view c = files.contents c :: rest ∧
      (files.apply (.write c batch)).view c =
        batch.foldl (fun entries change => update entries change.1 change.2)
          (files.contents c) :: rest := by
  obtain ⟨rest, hrest⟩ := order_eq_cons c
  have hnodup : (c :: rest).Nodup := hrest ▸ List.nodup_rotate.mpr (List.nodup_finRange _)
  have hnotMem := (List.nodup_cons.mp hnodup).1
  refine ⟨rest.map files.contents ++ files.archive.map (·.entries), ?_, ?_⟩
  · rw [view, hrest]
    rfl
  · have hothers : rest.map (files.apply (.write c batch)).contents = rest.map files.contents := by
      apply List.map_congr_left
      intro i hi
      rw [contents_write hlive, update_of_ne]
      rintro rfl
      exact hnotMem hi
    rw [view, hrest, List.map_cons, hothers, contents_write hlive, update_self]
    rfl

end Skaled.PieceFiles
