import Skaled.Storage.RotationLaws

/-! # Rotation survives crashes

Runs of insertions, rotations and starts, with crashes between any two
operations on the files. In every state that is reached the marks are in order,
the pieces are listed from the newest to the oldest, and a step changes no piece
but the one it writes to or recycles.

In archive mode the archive is listed after the pieces, with the piece that was
archived last at its end. That is the wrong way round as soon as a second piece
with entries is archived.
-/

namespace Skaled.RotationSystem

open PieceFiles

variable {m : Nat} {Key Value : Type} {archiveMode : Bool} {s s' : RotationSystem m Key Value}
  {c : Fin (m + 3)} {command : RotationCommand Key Value} {clock : Nat}
  {current piece : Key → Option (Nat × Value)}
  {before after rest back : List (Key → Option (Nat × Value))}

/-! ## The order of the pieces -/

/-- Entries of the one are newer than all entries of the other. -/
def Newer (piece older : Key → Option (Nat × Value)) : Prop :=
  ∀ key entry key' entry', piece key = some entry → older key' = some entry' →
    entry'.1 < entry.1

def NewestFirst (pieces : List (Key → Option (Nat × Value))) : Prop := pieces.Pairwise Newer

/-- The archive once the oldest of the listed pieces was recycled. -/
def archived (archiveMode : Bool) (m : Nat) (before : List (Key → Option (Nat × Value))) :
    List (Key → Option (Nat × Value)) :=
  before.drop (m + 3) ++ if archiveMode then (before.drop (m + 2)).take 1 else []

/-- Nothing was archived before, or nothing is archived now. -/
def InOrder (archiveMode : Bool) (m : Nat) (before : List (Key → Option (Nat × Value))) : Prop :=
  archiveMode = false ∨ (∀ piece ∈ before.drop (m + 3), ∀ key, piece key = none) ∨
    ∀ piece ∈ (before.drop (m + 2)).take 1, ∀ key, piece key = none

theorem newer_of_empty {older : Key → Option (Nat × Value)}
    (h : (∀ key, piece key = none) ∨ ∀ key, older key = none) : Newer piece older := by
  intro key entry key' entry' hentry hentry'
  obtain hempty | hempty := h
  · rw [hempty] at hentry
    cases hentry
  · rw [hempty] at hentry'
    cases hentry'

/-- The pieces that are left, without the empty one. -/
theorem newestFirst_archived (h : NewestFirst before) (horder : InOrder archiveMode m before) :
    NewestFirst (before.take (m + 2) ++ archived archiveMode m before) := by
  have hsplit : before.take (m + 2) ++ before.drop (m + 2) = before := List.take_append_drop _ _
  have hdrop : before.drop (m + 3) = (before.drop (m + 2)).drop 1 := by
    rw [List.drop_drop]
  unfold archived InOrder at *
  rw [hdrop] at horder ⊢
  generalize before.take (m + 2) = front at *
  generalize before.drop (m + 2) = back at *
  subst hsplit
  rw [NewestFirst, List.pairwise_append] at h
  obtain ⟨hfront, hback, hcross⟩ := h
  cases back with
  | nil => simpa [NewestFirst] using hfront
  | cons oldest archive =>
    obtain ⟨holdest, harchive⟩ := List.pairwise_cons.mp hback
    rw [List.drop_one, List.tail_cons] at horder ⊢
    rw [List.take_succ_cons, List.take_zero] at horder ⊢
    refine List.pairwise_append.mpr ⟨hfront, ?_, fun piece hpiece older holder => ?_⟩
    · refine List.pairwise_append.mpr ⟨harchive, ?_, fun piece hpiece older holder => ?_⟩
      · cases archiveMode <;> simp
      · cases archiveMode with
        | false => simp at holder
        | true =>
          obtain rfl := List.mem_singleton.mp holder
          refine newer_of_empty ?_
          obtain hmode | hempty | hempty := horder
          · cases hmode
          · exact .inl (hempty piece hpiece)
          · exact .inr (hempty older (.head _))
    · apply hcross piece hpiece
      obtain holder | holder := List.mem_append.mp holder
      · exact .tail _ holder
      · cases archiveMode with
        | false => simp at holder
        | true =>
          obtain rfl := List.mem_singleton.mp holder
          exact .head _

theorem newestFirst_insert_empty (front : List (Key → Option (Nat × Value)))
    (h : NewestFirst (front ++ back)) : NewestFirst (front ++ (fun _ => none) :: back) := by
  obtain ⟨hfront, hback, hcross⟩ := List.pairwise_append.mp h
  refine List.pairwise_append.mpr ⟨hfront, List.pairwise_cons.mpr ⟨fun piece _ => ?_, hback⟩, ?_⟩
  · exact newer_of_empty (.inl fun _ => rfl)
  · intro piece hpiece older holder
    obtain rfl | holder := List.mem_cons.mp holder
    · exact newer_of_empty (.inr fun _ => rfl)
    · exact hcross piece hpiece older holder

/-- All entries were inserted before the given time. -/
def Before (clock : Nat) (pieces : List (Key → Option (Nat × Value))) : Prop :=
  ∀ piece ∈ pieces, ∀ key entry, piece key = some entry → entry.1 < clock

theorem mem_archived (h : piece ∈ before.take (m + 2) ++ archived archiveMode m before) :
    piece ∈ before := by
  obtain h | h := List.mem_append.mp h
  · exact List.mem_of_mem_take h
  · obtain h | h := List.mem_append.mp h
    · exact List.mem_of_mem_drop h
    · cases archiveMode with
      | false => simp at h
      | true => exact List.mem_of_mem_drop (List.mem_of_mem_take h)

theorem before_insert_empty (front : List (Key → Option (Nat × Value)))
    (h : Before clock before) (hmem : ∀ piece ∈ front ++ back, piece ∈ before) :
    Before clock (front ++ (fun _ => none) :: back) := by
  intro piece hpiece key entry hentry
  obtain hpiece | hpiece := List.mem_append.mp hpiece
  · exact h piece (hmem piece (List.mem_append_left _ hpiece)) key entry hentry
  · obtain rfl | hpiece := List.mem_cons.mp hpiece
    · cases hentry
    · exact h piece (hmem piece (List.mem_append_right _ hpiece)) key entry hentry

/-- The oldest piece lost its entries, to the archive in archive mode. -/
def interrupted (archiveMode : Bool) (m : Nat) (before : List (Key → Option (Nat × Value))) :
    List (Key → Option (Nat × Value)) :=
  before.take (m + 2) ++ (fun _ => none) :: archived archiveMode m before

/-- The oldest piece lost its entries, to the archive in archive mode, and is in
front. -/
def completed (archiveMode : Bool) (m : Nat) (before : List (Key → Option (Nat × Value))) :
    List (Key → Option (Nat × Value)) :=
  (fun _ => none) :: (before.take (m + 2) ++ archived archiveMode m before)

/-! ## What every step keeps -/

/-- The files and the database fit together, wherever the program stopped. -/
structure Sound (archiveMode : Bool) (s : RotationSystem m Key Value) (c : Fin (m + 3)) : Prop where
  marks : Marks s.files c
  running : ∀ db, s.db = some db → Running s.files db archiveMode c
  archive : archiveMode = false → s.files.archive = []
  rotated : s.rotations = 0 ∨ s.files.isMarked c = true

theorem initial_sound : Sound archiveMode (initial : RotationSystem m Key Value) 0 :=
  ⟨.settled (.never (fun _ => rfl) rfl), nofun, fun _ => rfl, .inl rfl⟩

/-- One piece has the mark, or none was ever set. -/
def MarksOk (s : RotationSystem m Key Value) : Prop :=
  (∃! i, s.files.isMarked i = true) ∨ (∀ i, s.files.isMarked i = false) ∧ s.rotations = 0

theorem Sound.marksOk (h : Sound archiveMode s c) (hopen : s.db.isSome) : s.MarksOk := by
  obtain ⟨db, hdb⟩ := Option.isSome_iff_exists.mp hopen
  cases (h.running db hdb).settled with
  | never hnone _ =>
    refine .inr ⟨hnone, h.rotated.resolve_right ?_⟩
    rw [hnone]
    exact Bool.false_ne_true
  | once hone => exact .inl ⟨c, (hone c).mpr rfl, fun i hi => (hone i).mp hi⟩

theorem view_split (files : PieceFiles m Key (Nat × Value)) (c : Fin (m + 3)) :
    (files.view c).take (m + 2) = (front c).map files.contents ∧
      (files.view c).drop (m + 2) = files.contents (c - 1) :: files.archive.map (·.entries) ∧
      (files.view c).drop (m + 3) = files.archive.map (·.entries) := by
  have hlength : ((front c).map files.contents).length = m + 2 := by simp
  rw [view_eq]
  refine ⟨List.take_left' hlength, List.drop_left' hlength, ?_⟩
  rw [List.drop_append, List.drop_of_length_le (by omega), hlength]
  simp

theorem view_fresh (c : Fin (m + 3)) (h : piece ∈ (fresh : PieceFiles m Key (Nat × Value)).view c)
    (key : Key) : piece key = none := by
  obtain h | h := List.mem_append.mp h
  · obtain ⟨i, _, rfl⟩ := List.mem_map.mp h
    rfl
  · cases h

section

variable {db : RotatingDb m} (h : Running s.files db archiveMode c)

include h

theorem archived_view :
    archived archiveMode m (s.files.view c) = (kept archiveMode s.files c).map (·.entries) := by
  obtain ⟨_, hlast, hrest⟩ := view_split s.files c
  obtain ⟨piece, hpiece⟩ := Option.isSome_iff_exists.mp (h.present (c - 1))
  unfold archived kept
  rw [hlast, hrest]
  cases archiveMode with
  | false => simp
  | true => simp [contents, hpiece]

variable [DecidableEq Key]

theorem interrupted_view :
    (recycled archiveMode s.files c).view c = interrupted archiveMode m (s.files.view c) := by
  rw [view_interrupted, interrupted, archived_view h, (view_split s.files c).1]

theorem completed_view :
    (recycled archiveMode s.files c).view (c - 1) =
      completed archiveMode m (s.files.view c) := by
  rw [view_completed, completed, archived_view h, (view_split s.files c).1]

end

variable [DecidableEq Key]

/-- The pieces as they are listed, or will be after the next start. -/
def pieces (archiveMode : Bool) (s : RotationSystem m Key Value) :
    List (Key → Option (Nat × Value)) :=
  match s.db with
  | some db => s.files.listed db
  | none =>
    let opened := s.run s.files.openOps
    opened.files.listed (opened.files.openDb archiveMode)

/-- What a command may do to the listed pieces. -/
def Effect (archiveMode : Bool) (m clock : Nat) (before after : List (Key → Option (Nat × Value))) :
    RotationCommand Key Value → Prop
  | .insert key value => ∃ current rest, before = current :: rest ∧
      after = Function.update current key (some (clock, value)) :: rest
  | .rotate => after = completed archiveMode m before
  | .crashInRotate _ => after = before ∨ after = interrupted archiveMode m before ∨
      after = completed archiveMode m before
  | .start | .crashInStart _ => after = before

theorem Sound.pieces_eq (h : Sound archiveMode s c) : s.pieces archiveMode = s.files.view c := by
  unfold pieces
  cases hdb : s.db with
  | some db => exact (h.running db hdb).listed h.archive
  | none =>
    obtain ⟨hsettled, hpresent, hsame, _⟩ := h.marks.openOps
    have hrunning : Running _ _ archiveMode c := ⟨hsettled, hpresent, rfl⟩
    exact (hrunning.listed fun hmode => hsame.archive.trans (h.archive hmode)).trans
      (hsame.view c)

theorem archive_eq_nil {files' : PieceFiles m Key (Nat × Value)}
    (hsame : SameContents (recycled archiveMode s.files c) files')
    (harchive : archiveMode = false → s.files.archive = []) (hmode : archiveMode = false) :
    files'.archive = [] := by
  rw [hsame.archive, archive_recycled, kept, hmode]
  exact harchive hmode

/-- One command, step by step: where the circle begins then, and what happened
to the pieces. -/
theorem Sound.step (h : Sound archiveMode s c) (hstep : s.step archiveMode command = some s') :
    ∃ c', Sound archiveMode s' c' ∧
      Effect archiveMode m s.clock (s.files.view c) (s'.files.view c') command := by
  cases command with
  | insert key value =>
    obtain ⟨db, hdb, rfl⟩ := Option.map_eq_some_iff.mp hstep
    have hrunning := h.running db hdb
    obtain ⟨rest, hview, hview'⟩ :=
      view_write (hrunning.present c) [(key, some (s.clock, value))]
    have hops : s.insertOps db key value = [.write c [(key, some (s.clock, value))]] := by
      rw [insertOps, hrunning.head]
    have hmarked := s.files.isMarked_write c [(key, some (s.clock, value))]
    rw [hops]
    refine ⟨c, ⟨.settled (hrunning.write _).settled, fun db' hdb' => ?_, h.archive, ?_⟩,
      _, rest, hview, hview'⟩
    · obtain rfl := Option.some.inj (hdb.symm.trans hdb')
      exact hrunning.write _
    · exact h.rotated.imp id fun hmark => (congrFun hmarked c).trans hmark
  | rotate =>
    obtain ⟨db, hdb, rfl⟩ := Option.map_eq_some_iff.mp hstep
    have hrunning := h.running db hdb
    obtain ⟨hrotated, hmarked, hsame⟩ := hrunning.rotate
    refine ⟨c - 1, ⟨.settled hrotated.settled, fun db' hdb' => ?_, archive_eq_nil hsame h.archive,
      .inr hmarked⟩, (hsame.view _).trans (completed_view hrunning)⟩
    cases hdb'
    exact hrotated
  | crashInRotate done =>
    obtain ⟨db, hdb, rfl⟩ := Option.map_eq_some_iff.mp hstep
    have hrunning := h.running db hdb
    cases hrunning.rotateOps_take done with
    | untouched hfiles hset =>
      rw [run, hfiles, hset]
      exact ⟨c, ⟨h.marks, nofun, h.archive, h.rotated⟩, .inl rfl⟩
    | interrupted hmarked hset hsame =>
      refine ⟨c, ⟨.settled (hrunning.settled.congr (congrFun hmarked)), nofun,
        archive_eq_nil hsame h.archive, ?_⟩,
        .inr (.inl ((hsame.view c).trans (interrupted_view hrunning)))⟩
      rw [run, hset, hmarked]
      exact h.rotated
    | completed hmarks hmarked hsame =>
      exact ⟨c - 1, ⟨hmarks, nofun, archive_eq_nil hsame h.archive, .inr hmarked⟩,
        .inr (.inr ((hsame.view _).trans (completed_view hrunning)))⟩
  | start =>
    obtain ⟨_, hopened⟩ := Option.ite_none_right_eq_some.mp hstep
    obtain rfl := Option.some.inj hopened
    obtain ⟨hsettled, hpresent, hsame, hmarked⟩ := h.marks.openOps
    have hset := s.files.openOps_isMark s.files.openOps.length
    rw [List.take_length] at hset
    refine ⟨c, ⟨.settled hsettled, fun db hdb => ?_, fun hmode => ?_, ?_⟩, hsame.view c⟩
    · cases hdb
      exact ⟨hsettled, hpresent, rfl⟩
    · exact hsame.archive.trans (h.archive hmode)
    · rw [run, hset]
      exact h.rotated.imp id hmarked.trans
  | crashInStart done =>
    obtain ⟨hdown, hstopped⟩ := Option.ite_none_right_eq_some.mp hstep
    obtain rfl := Option.some.inj hstopped
    obtain ⟨hmarks, hsame, hmarked⟩ := h.marks.openOps_take done
    refine ⟨c, ⟨hmarks, fun db hdb => ?_, fun hmode => ?_, ?_⟩, hsame.view c⟩
    · rw [run, Option.isNone_iff_eq_none.mp hdown] at hdb
      cases hdb
    · exact hsame.archive.trans (h.archive hmode)
    · rw [run, s.files.openOps_isMark done]
      exact h.rotated.imp id hmarked.trans

/-- The time after a command. -/
def nextClock (clock : Nat) : RotationCommand Key Value → Nat
  | .insert _ _ => clock + 1
  | _ => clock

theorem step_clock
    (hstep : s.step archiveMode command = some s') : s'.clock = nextClock s.clock command := by
  cases command with
  | insert key value | rotate | crashInRotate done =>
    obtain ⟨db, _, rfl⟩ := Option.map_eq_some_iff.mp hstep
    rfl
  | start | crashInStart done =>
    obtain ⟨_, hstarted⟩ := Option.ite_none_right_eq_some.mp hstep
    obtain rfl := Option.some.inj hstarted
    rfl

/-- A rotation does not archive a second piece with entries. -/
def KeepsOrder (archiveMode : Bool) (m : Nat) (before : List (Key → Option (Nat × Value))) :
    RotationCommand Key Value → Prop
  | .rotate | .crashInRotate _ => InOrder archiveMode m before
  | _ => True

theorem newestFirst_insert (h : NewestFirst (current :: rest))
    (hbefore : Before clock (current :: rest)) (key : Key) (value : Value) :
    NewestFirst (Function.update current key (some (clock, value)) :: rest) ∧
      Before (clock + 1) (Function.update current key (some (clock, value)) :: rest) := by
  obtain ⟨hcurrent, hrest⟩ := List.pairwise_cons.mp h
  have hcases : ∀ key₁ entry, Function.update current key (some (clock, value)) key₁ = some entry →
      entry = (clock, value) ∨ current key₁ = some entry := by
    intro key₁ entry hentry
    rw [Function.update_apply] at hentry
    split at hentry
    · exact .inl (Option.some.inj hentry).symm
    · exact .inr hentry
  refine ⟨List.pairwise_cons.mpr ⟨fun older holder => ?_, hrest⟩, ?_⟩
  · intro key₁ entry key₂ entry' hentry hentry'
    obtain rfl | hold := hcases key₁ entry hentry
    · exact hbefore older (.tail _ holder) key₂ entry' hentry'
    · exact hcurrent older holder key₁ entry key₂ entry' hold hentry'
  · intro piece hpiece key₁ entry hentry
    apply Nat.lt_succ_of_le
    obtain rfl | hpiece := List.mem_cons.mp hpiece
    · obtain rfl | hold := hcases key₁ entry hentry
      · exact Nat.le_refl clock
      · exact (hbefore current (.head _) key₁ entry hold).le
    · exact (hbefore piece (.tail _ hpiece) key₁ entry hentry).le

/-- Commands keep the order of the pieces. -/
theorem Effect.newestFirst (heffect : Effect archiveMode m clock before after command)
    (h : NewestFirst before) (hbefore : Before clock before)
    (horder : KeepsOrder archiveMode m before command) :
    NewestFirst after ∧ Before (nextClock clock command) after := by
  have hcompleted (horder : InOrder archiveMode m before) :
      NewestFirst (completed archiveMode m before) ∧
        Before clock (completed archiveMode m before) :=
    ⟨newestFirst_insert_empty [] (newestFirst_archived h horder),
      before_insert_empty [] hbefore fun _ => mem_archived⟩
  have hinterrupted (horder : InOrder archiveMode m before) :
      NewestFirst (interrupted archiveMode m before) ∧
        Before clock (interrupted archiveMode m before) :=
    ⟨newestFirst_insert_empty _ (newestFirst_archived h horder),
      before_insert_empty _ hbefore fun _ => mem_archived⟩
  cases command with
  | insert key value =>
    obtain ⟨current, rest, rfl, rfl⟩ := heffect
    exact newestFirst_insert h hbefore key value
  | rotate =>
    obtain rfl := heffect
    exact hcompleted horder
  | crashInRotate done =>
    obtain rfl | rfl | rfl := heffect
    · exact ⟨h, hbefore⟩
    · exact hinterrupted horder
    · exact hcompleted horder
  | start | crashInStart done =>
    obtain rfl := heffect
    exact ⟨h, hbefore⟩

/-! ## Whole runs -/

/-- No rotation of the run archives a second piece with entries. -/
def Allowed (archiveMode : Bool) (s : RotationSystem m Key Value) :
    List (RotationCommand Key Value) → Prop
  | [] => True
  | command :: rest => KeepsOrder archiveMode m (s.pieces archiveMode) command ∧
      ∀ s', s.step archiveMode command = some s' → Allowed archiveMode s' rest

/-- The marks are in order whenever the database is open, the pieces are listed
from the newest one on, and any next command changes only the piece it writes to
or recycles. -/
structure Survives (archiveMode : Bool) (s : RotationSystem m Key Value) : Prop where
  marks : s.db.isSome → s.MarksOk
  newestFirst : NewestFirst (s.pieces archiveMode)
  effect : ∀ command s', s.step archiveMode command = some s' →
    Effect archiveMode m s.clock (s.pieces archiveMode) (s'.pieces archiveMode) command

/-- The induction on the run carries where the circle begins, the order of the
pieces, and that all entries are older than the clock. -/
theorem Sound.survives {commands : List (RotationCommand Key Value)} (h : Sound archiveMode s c)
    (hnewest : NewestFirst (s.files.view c)) (hbefore : Before s.clock (s.files.view c))
    (hallowed : Allowed archiveMode s commands)
    (hrun : s.runCommands archiveMode commands = some s') : Survives archiveMode s' := by
  induction commands generalizing s c with
  | nil =>
    obtain rfl := Option.some.inj hrun
    refine ⟨h.marksOk, h.pieces_eq ▸ hnewest, fun command s' hstep => ?_⟩
    obtain ⟨c', h', heffect⟩ := h.step hstep
    rwa [h.pieces_eq, h'.pieces_eq]
  | cons command rest ih =>
    obtain ⟨s₁, hstep, hrest⟩ := Option.bind_eq_some_iff.mp hrun
    obtain ⟨c₁, h₁, heffect⟩ := h.step hstep
    obtain ⟨horder, hallowed⟩ := hallowed
    rw [h.pieces_eq] at horder
    obtain ⟨hnewest₁, hbefore₁⟩ := heffect.newestFirst hnewest hbefore horder
    exact ih h₁ hnewest₁ (step_clock hstep ▸ hbefore₁) (hallowed s₁ hstep) hrest

/-- Rotation survives crashes, as long as no second piece with entries is
archived. -/
theorem runCommands_survives {commands : List (RotationCommand Key Value)}
    (hallowed : Allowed archiveMode (initial : RotationSystem m Key Value) commands)
    (hrun : (initial : RotationSystem m Key Value).runCommands archiveMode commands = some s) :
    Survives archiveMode s := by
  refine initial_sound.survives ?_ ?_ hallowed hrun
  · exact List.pairwise_of_forall_mem_list fun piece hpiece _ _ =>
      newer_of_empty (.inl (view_fresh 0 hpiece))
  · intro piece hpiece key entry hentry
    rw [view_fresh 0 hpiece] at hentry
    cases hentry

/-- Without an archive every run is allowed. -/
theorem allowed_of_not_archiving (s : RotationSystem m Key Value)
    (commands : List (RotationCommand Key Value)) : Allowed false s commands := by
  induction commands generalizing s with
  | nil => trivial
  | cons command rest ih =>
    refine ⟨?_, fun s' _ => ih s'⟩
    cases command with
    | insert key value => trivial
    | rotate | crashInRotate done => exact .inl rfl
    | start | crashInStart done => trivial

/-- Three pieces and a crash while two of them are marked. -/
theorem runCommands_survives_sample :
    ∃ s : RotationSystem 0 Unit Unit,
      initial.runCommands false [.start, .insert () (), .rotate, .crashInRotate 3, .crashInStart 2,
        .start, .rotate] = some s ∧ Survives false s := by
  obtain ⟨s, hrun⟩ := Option.isSome_iff_exists.mp
    (show (initial.runCommands false [.start, .insert () (), .rotate, .crashInRotate 3,
      .crashInStart 2, .start, .rotate] : Option (RotationSystem 0 Unit Unit)).isSome by decide)
  exact ⟨s, hrun, runCommands_survives (allowed_of_not_archiving _ _) hrun⟩

/-- Insert, rotate, and again, until two pieces with entries are in the
archive. -/
def sampleArchiving : List (RotationCommand Unit Unit) :=
  [.start, .insert () (), .rotate, .insert () (), .rotate, .insert () (), .rotate, .insert () (),
    .rotate]

/-- The archive is listed from its oldest piece on: the entry of time 0 comes
before the one of time 1. -/
theorem runCommands_archive_order :
    ∃ s : RotationSystem 0 Unit Unit, initial.runCommands true sampleArchiving = some s ∧
      (s.pieces true).map (fun piece => (piece ()).map (·.1)) =
        [none, some 3, some 2, none, none, some 0, some 1] ∧
      ¬ NewestFirst (s.pieces true) := by
  have hlisted : ((initial.runCommands true sampleArchiving).map
      fun s : RotationSystem 0 Unit Unit =>
        (s.pieces true).map fun piece => (piece ()).map (·.1)) =
      some [none, some 3, some 2, none, none, some 0, some 1] := by decide
  obtain ⟨s, hrun, htimes⟩ := Option.map_eq_some_iff.mp hlisted
  refine ⟨s, hrun, htimes, fun hnewest => ?_⟩
  have htimed : ((s.pieces true).map fun piece => (piece ()).map (·.1)).Pairwise
      fun time older => ∀ t t', time = some t → older = some t' → t' < t := by
    refine List.pairwise_map.mpr (hnewest.imp fun hnewer t t' ht ht' => ?_)
    obtain ⟨entry, hentry, rfl⟩ := Option.map_eq_some_iff.mp ht
    obtain ⟨entry', hentry', rfl⟩ := Option.map_eq_some_iff.mp ht'
    exact hnewer () entry () entry' hentry hentry'
  rw [htimes] at htimed
  simp at htimed

end Skaled.RotationSystem
