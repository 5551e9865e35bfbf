import Skaled.Storage.BlockImportLaws

/-! # Imports that are cut short

While a block is imported the files go through two kinds of states. Before the
mark is set in the new piece nothing has changed but the oldest piece, which may
be empty. Afterwards the new piece is the current one and holds nothing but the
genesis block and a usage of zero. From either kind a new start and a new import
end where the import would have ended.
-/

namespace Skaled.ChainDb

open PieceFiles
open Function (update_of_ne update_self)

/-- A rotation does not lose the details of the parent. -/
def KeepsParent (chain : ChainDb) (files : Files) (memory : Memory) (c : Fin 5)
    (block : ImportedBlock) : Prop :=
  Rotates chain files memory block →
    lookup ((front c).map files.contents) (.details block.parentHash) =
      lookup (files.view c) (.details block.parentHash)

/-- The database is open, and the caches agree with it. -/
structure IsOpen (files : Files) (db : RotatingDb 2) (cache : ChainPiece) (c : Fin 5) : Prop where
  running : Running files db false c
  archive : files.archive = []
  coherent : Coherent (files.view c) cache

theorem IsOpen.listed {files : Files} {db : RotatingDb 2} {cache : ChainPiece} {c : Fin 5}
    (h : IsOpen files db cache c) : files.listed db = files.view c :=
  h.running.listed fun _ => h.archive

/-- A block that is to be imported, and the chain it is imported into, between
two imports and with room for the block in a new piece. -/
structure Pending (chain : ChainDb) where
  files : Files
  memory : Memory
  c : Fin 5
  block : ImportedBlock
  idle : Idle chain files memory c
  limit : 0 < chain.dbStorageLimit
  parent : KeepsParent chain files memory c block
  size : writeSize (prepareDbData (files.view c) memory.cache block) ≤ chain.dbStorageLimit / 5

namespace Pending

/-! ## States on the way -/

section States

variable {chain : ChainDb} (p : Pending chain)

def Rotates : Prop := ChainDb.Rotates chain p.files p.memory p.block

def LikeGenesis (details : BlockDetails) : Prop :=
  ∃ genesis, p.files.contents p.c (.details chain.genesisHash) = some (.details genesis) ∧
    (∃ children, details = { genesis with children }) ∧
    (p.block.parentHash ≠ chain.genesisHash → details = genesis)

/-- A new piece without a block: the genesis block, then a usage of zero. -/
structure Fresh (new : ChainPiece) : Prop where
  only : ∀ key value, new key = some value →
    (key = .details chain.genesisHash ∧ ∃ details, value = .details details ∧
      p.LikeGenesis details) ∨
    key = .pieceUsageBytes ∧ value = .number 0
  complete : new .pieceUsageBytes ≠ none → new (.details chain.genesisHash) ≠ none

/-- No piece but the oldest one has changed, and the marks are the same. -/
structure Before (files : Files) : Prop where
  marked : ∀ i, files.isMarked i = p.files.isMarked i
  archive : files.archive = []
  contents : ∀ i, i ≠ p.c - 1 → files.contents i = p.files.contents i
  oldest : files.contents (p.c - 1) = p.files.contents (p.c - 1) ∨
    p.Rotates ∧ files.contents (p.c - 1) = fun _ => none

/-- The oldest piece is the current one, and new. -/
structure After (files : Files) : Prop where
  rotates : p.Rotates
  marks : Marks files (p.c - 1)
  marked : files.isMarked (p.c - 1) = true
  archive : files.archive = []
  contents : ∀ i, i ≠ p.c - 1 → files.contents i = p.files.contents i
  fresh : p.Fresh (files.contents (p.c - 1))

inductive Underway (files : Files) : Prop
  | before (h : p.Before files)
  | after (h : p.After files)

/-- A new piece after it was opened. -/
structure Finished (files : Files) : Prop where
  settled : Settled files (p.c - 1)
  present : ∀ i, (files.live i).isSome
  genesis : files.contents (p.c - 1) (.details chain.genesisHash) ≠ none
  usage : files.contents (p.c - 1) .pieceUsageBytes = some (.number 0)

inductive Reopened (files : Files) (memory : Memory) : Prop
  | before (h : p.Before files) (hopen : IsOpen files memory.db memory.cache p.c)
  | after (h : p.After files) (hopen : IsOpen files memory.db memory.cache (p.c - 1))
      (hfinished : p.Finished files)

/-- An import that has come to its commit, with a new piece. -/
structure Renewed (files : Files) (prepared : Prepared) : Prop where
  after : p.After files
  isOpen : IsOpen files prepared.db prepared.cache (p.c - 1)
  genesis : files.contents (p.c - 1) (.details chain.genesisHash) ≠ none
  usage : prepared.usage =
    writeSize (prepareDbData (files.view (p.c - 1)) prepared.cache p.block)

end States

variable {chain : ChainDb} {p : Pending chain} {files files' : Files} {memory : Memory}

theorem ne_sub_one (c : Fin 5) : c ≠ c - 1 := (sub_one_ne c).symm

theorem isMarked_of_settled {c : Fin 5} (h : Settled files c) (hmarked : files.isMarked c = true) :
    files.isMarked = fun i => decide (i = c) := by
  funext i
  cases h with
  | never hnone _ =>
    rw [hnone] at hmarked
    cases hmarked
  | once hone => exact Bool.eq_iff_iff.mpr ((hone i).trans decide_eq_true_iff.symm)

/-! ## New pieces -/

section Fresh

variable {new new' : ChainPiece} {details details' : BlockDetails}

theorem Fresh.eq_none (h : p.Fresh new) {key : ChainKey}
    (hgenesis : key ≠ .details chain.genesisHash) (husage : key ≠ .pieceUsageBytes) :
    new key = none := by
  cases hkey : new key with
  | none => rfl
  | some value =>
    obtain ⟨heq, _⟩ | ⟨heq, _⟩ := h.only key value hkey
    · exact absurd heq hgenesis
    · exact absurd heq husage

theorem Fresh.details_of_some (h : p.Fresh new) {value : ChainValue}
    (hvalue : new (.details chain.genesisHash) = some value) :
    ∃ details, value = .details details ∧ p.LikeGenesis details := by
  obtain ⟨_, hdetails⟩ | ⟨hkey, _⟩ := h.only _ _ hvalue
  · exact hdetails
  · cases hkey

theorem fresh_empty : p.Fresh fun _ => none := ⟨nofun, fun h => absurd rfl h⟩

theorem Fresh.update (h : p.Fresh new) {key : ChainKey} {value : ChainValue}
    (honly : (key = .details chain.genesisHash ∧ ∃ details, value = .details details ∧
      p.LikeGenesis details) ∨ key = .pieceUsageBytes ∧ value = .number 0)
    (hcomplete : Function.update new key (some value) (.details chain.genesisHash) ≠ none) :
    p.Fresh (Function.update new key (some value)) := by
  refine ⟨fun k v hkey => ?_, fun _ => hcomplete⟩
  by_cases heq : k = key
  · subst heq
    rw [update_self] at hkey
    cases hkey
    exact honly
  · rw [update_of_ne heq] at hkey
    exact h.only k v hkey

/-- The copy of the genesis block. -/
theorem Fresh.genesis (h : p.Fresh new) (hdetails : p.LikeGenesis details) :
    p.Fresh (writeBatch new (chain.genesisBatch details)) := by
  apply h.update (.inl ⟨rfl, details, rfl, hdetails⟩)
  rw [update_self]
  exact Option.some_ne_none _

theorem Fresh.usage (h : p.Fresh new) (hgenesis : new (.details chain.genesisHash) ≠ none) :
    p.Fresh (writeBatch new [(.pieceUsageBytes, some (.number 0))]) := by
  apply h.update (.inr ⟨rfl, rfl⟩)
  rwa [update_of_ne (details_ne_usage _)]

/-- The batch that finishes a rotation. -/
theorem Fresh.finish (h : p.Fresh new) (hdetails : p.LikeGenesis details) :
    p.Fresh (writeBatch new
      (chain.genesisBatch details ++ [(.pieceUsageBytes, some (.number 0))])) := by
  rw [writeBatch_append]
  apply (h.genesis hdetails).usage
  rw [genesisBatch, writeBatch_singleton, update_self]
  exact Option.some_ne_none _

theorem LikeGenesis.eq (h : p.LikeGenesis details) (h' : p.LikeGenesis details')
    (hparent : p.block.parentHash ≠ chain.genesisHash) : details = details' := by
  obtain ⟨genesis, hpiece, _, heq⟩ := h
  obtain ⟨genesis', hpiece', _, heq'⟩ := h'
  rw [hpiece] at hpiece'
  cases hpiece'
  rw [heq hparent, heq' hparent]

/-- Two new pieces differ at most in what the commit writes. -/
theorem Fresh.eq_or_mem (h : p.Fresh new) (h' : p.Fresh new')
    (hgenesis : new (.details chain.genesisHash) ≠ none)
    (hgenesis' : new' (.details chain.genesisHash) ≠ none) (key : ChainKey) :
    new key = new' key ∨ key = .pieceUsageBytes ∨ key = .details p.block.parentHash := by
  by_cases husage : key = .pieceUsageBytes
  · exact .inr (.inl husage)
  by_cases heq : key = .details chain.genesisHash
  · subst heq
    by_cases hparent : p.block.parentHash = chain.genesisHash
    · exact .inr (.inr (hparent ▸ rfl))
    · obtain ⟨value, hvalue⟩ := Option.ne_none_iff_exists'.mp hgenesis
      obtain ⟨value', hvalue'⟩ := Option.ne_none_iff_exists'.mp hgenesis'
      obtain ⟨details, rfl, hlike⟩ := h.details_of_some hvalue
      obtain ⟨details', rfl, hlike'⟩ := h'.details_of_some hvalue'
      rw [hvalue, hvalue', hlike.eq hlike' hparent]
      exact .inl rfl
  · rw [h.eq_none heq husage, h'.eq_none heq husage]
    exact .inl rfl

end Fresh

/-! ## After a rotation -/

/-- The pieces that a rotation keeps. -/
theorem map_front (hcontents : ∀ i, i ≠ p.c - 1 → files.contents i = p.files.contents i) :
    (front p.c).map files.contents = (front p.c).map p.files.contents := by
  apply List.map_congr_left
  intro i hi
  apply hcontents
  rintro rfl
  exact sub_one_notMem_front p.c hi

/-- The pieces after a rotation: the new one, and the others as they were. -/
theorem After.view (h : p.After files) :
    files.view (p.c - 1) = files.contents (p.c - 1) :: (front p.c).map p.files.contents := by
  rw [PieceFiles.view, order_sub_one, h.archive, List.map_nil, List.append_nil, List.map_cons,
    map_front h.contents]

theorem front_eq_cons (c : Fin 5) : ∃ rest, front c = c :: rest := by
  unfold front
  rw [List.ofFn_succ]
  exact ⟨_, by rw [Fin.castSucc_zero, add_zero]⟩

section

variable (h : p.After files)

include h

theorem After.lookup_current {key : ChainKey} {value : ChainValue}
    (hnew : files.contents (p.c - 1) key = none) (hkey : p.files.contents p.c key = some value)
    (hvalue : value.isEmpty = false) : lookup (files.view (p.c - 1)) key = some value := by
  obtain ⟨rest, hfront⟩ := front_eq_cons p.c
  rw [h.view, lookup_cons_of_none hnew, hfront, List.map_cons]
  exact lookup_cons_of_some hkey hvalue

theorem After.lookup_blooms (level index : Nat) :
    lookup (files.view (p.c - 1)) (.blocksBlooms level index) =
      lookup ((front p.c).map p.files.contents) (.blocksBlooms level index) := by
  rw [h.view]
  exact lookup_cons_of_none (h.fresh.eq_none nofun nofun)

theorem After.keyExists :
    keyExists (files.view (p.c - 1)) .totalStorageUsed =
      keyExists ((front p.c).map p.files.contents) .totalStorageUsed := by
  have hnew : files.contents (p.c - 1) .totalStorageUsed = none := h.fresh.eq_none nofun nofun
  simp [ChainDb.keyExists, h.view, hnew]

/-- A write to the new piece. -/
theorem After.write (hlive : (files.live (p.c - 1)).isSome)
    {batch : List (ChainKey × Option ChainValue)}
    (hfresh : p.Fresh (writeBatch (files.contents (p.c - 1)) batch)) :
    p.After (files.apply (.write (p.c - 1) batch)) where
  rotates := h.rotates
  marks := by
    have hmarked := files.isMarked_write (p.c - 1) batch
    cases h.marks with
    | settled hsettled => exact .settled (hsettled.congr (congrFun hmarked))
    | twice htwo => exact .twice fun i => by rw [hmarked, htwo]
  marked := by
    rw [isMarked_write]
    exact h.marked
  archive := h.archive
  contents := fun i hi => by
    rw [contents_write hlive, update_of_ne hi]
    exact h.contents i hi
  fresh := by
    rwa [contents_writeBatch hlive, update_self]

theorem After.sameContents (hmarks : Marks files' (p.c - 1))
    (hmarked : files'.isMarked (p.c - 1) = files.isMarked (p.c - 1))
    (hsame : SameContents files files') : p.After files' where
  rotates := h.rotates
  marks := hmarks
  marked := hmarked.trans h.marked
  archive := hsame.archive.trans h.archive
  contents := fun i hi => (hsame.contents i).trans (h.contents i hi)
  fresh := by
    rw [hsame.contents]
    exact h.fresh

end

/-! ## Parts of a rotation -/

theorem Before.like (h : p.Before files) (hlike : Like files files') : p.Before files' where
  marked := fun i => (hlike.marked i).trans (h.marked i)
  archive := hlike.archive.trans h.archive
  contents := fun i hi => (hlike.contents i).trans (h.contents i hi)
  oldest := by
    rw [hlike.contents]
    exact h.oldest

section Rotation

variable (h : p.Before files) (hrotates : p.Rotates)
  (hsame : SameContents (recycled false files p.c) files')

include h hrotates hsame

theorem Before.interrupted (hmarked : files'.isMarked = files.isMarked) : p.Before files' where
  marked := fun i => (congrFun hmarked i).trans (h.marked i)
  archive := hsame.archive.trans h.archive
  contents := fun i hi => by
    rw [hsame.contents, contents_recycled, update_of_ne hi]
    exact h.contents i hi
  oldest := by
    rw [hsame.contents, contents_recycled, update_self]
    exact .inr ⟨hrotates, rfl⟩

theorem Before.completed (hmarks : Marks files' (p.c - 1))
    (hmarked : files'.isMarked (p.c - 1) = true) : p.After files' where
  rotates := hrotates
  marks := hmarks
  marked := hmarked
  archive := hsame.archive.trans h.archive
  contents := fun i hi => by
    rw [hsame.contents, contents_recycled, update_of_ne hi]
    exact h.contents i hi
  fresh := by
    rw [hsame.contents, contents_recycled, update_self]
    exact fresh_empty

end Rotation

/-! ## Opening on the way -/

section

variable (h : p.Before files)

include h

/-- Before the new piece is marked, everything is stored as it was. -/
theorem Before.stored : Stored chain files p.c p.memory.lastBlockHash where
  settled := p.idle.settled.congr h.marked
  archive := h.archive
  usage := h.contents p.c (ne_sub_one p.c) ▸ p.idle.usage
  genesis := h.contents p.c (ne_sub_one p.c) ▸ p.idle.genesis
  details := h.contents p.c (ne_sub_one p.c) ▸ p.idle.details
  best := by
    rw [h.contents p.c (ne_sub_one p.c)]
    refine p.idle.best.imp_right fun ⟨hnone, hhash⟩ => ⟨fun i => ?_, hhash⟩
    by_cases hi : i = p.c - 1
    · subst hi
      obtain hsame | ⟨_, hempty⟩ := h.oldest
      · rw [hsame]
        exact hnone _
      · rw [hempty]
    · rw [h.contents i hi]
      exact hnone i

/-- Without a rotation nothing has changed. -/
theorem Before.contents_eq (hrotates : ¬ p.Rotates) : files.contents = p.files.contents := by
  funext i
  by_cases hi : i = p.c - 1
  · subst hi
    exact h.oldest.resolve_right fun hempty => hrotates hempty.1
  · exact h.contents i hi

theorem Before.view_same (hrotates : ¬ p.Rotates) : files.view p.c = p.files.view p.c := by
  rw [PieceFiles.view, PieceFiles.view, h.contents_eq hrotates, h.archive, p.idle.archive]

theorem Before.lookup_current {key : ChainKey} {value : ChainValue}
    (hkey : p.files.contents p.c key = some value) (hvalue : value.isEmpty = false) :
    lookup (files.view p.c) key = some value :=
  h.stored.lookup_current ((congrFun (h.contents p.c (ne_sub_one p.c)) key).trans hkey) hvalue

end

theorem before_self : p.Before p.files :=
  ⟨fun _ => rfl, p.idle.archive, fun _ _ => rfl, .inl rfl⟩

theorem isOpen_self : IsOpen p.files p.memory.db p.memory.cache p.c :=
  ⟨p.idle.running, p.idle.archive, p.idle.coherent⟩

section

variable (h : p.After files)

include h

/-- After a rotation the details of the genesis block can be read, in the new
piece or in the one before it. -/
theorem After.genesis :
    ∃ details, lookup (files.view (p.c - 1)) (.details chain.genesisHash) =
      some (.details details) ∧ p.LikeGenesis details := by
  obtain ⟨genesis, hgenesis⟩ := p.idle.genesis
  cases hnew : files.contents (p.c - 1) (.details chain.genesisHash) with
  | none =>
    exact ⟨genesis, h.lookup_current hnew hgenesis rfl, genesis, hgenesis, ⟨_, rfl⟩, fun _ => rfl⟩
  | some value =>
    obtain ⟨details, rfl, hlike⟩ := h.fresh.details_of_some hnew
    refine ⟨details, ?_, hlike⟩
    rw [h.view]
    exact lookup_cons_of_some hnew rfl

/-- Every part of opening after a rotation. -/
theorem After.open_take (k : Nat) : p.After (files.applyAll ((chain.openOps files).take k)) := by
  obtain ⟨details, hlookup, hlike⟩ := h.genesis
  rw [openOps_eq h.marks h.archive hlookup, List.take_append, applyAll_append]
  by_cases hshort : k ≤ files.openOps.length
  · rw [Nat.sub_eq_zero_of_le hshort, List.take_zero, applyAll_nil]
    obtain ⟨hmarks, hsame, hmarked⟩ := h.marks.openOps_take k
    exact h.sameContents hmarks hmarked hsame
  · rw [List.take_of_length_le (Nat.le_of_not_le hshort),
      List.take_of_length_le (by split <;> simp only [List.length_cons, List.length_nil] <;> omega)]
    obtain ⟨hsettled, hpresent, hsame, hmarked⟩ := h.marks.openOps
    have hopened := h.sameContents (.settled hsettled) hmarked hsame
    split
    · exact hopened.write (hpresent _) (hopened.fresh.finish hlike)
    · exact hopened

/-- Opening after a rotation finishes the new piece. -/
theorem After.open_finished : p.Finished (files.applyAll (chain.openOps files)) := by
  obtain ⟨details, hlookup, hlike⟩ := h.genesis
  obtain ⟨hsettled, hpresent, hsame, hmarked⟩ := h.marks.openOps
  rw [openOps_eq h.marks h.archive hlookup, applyAll_append]
  cases husage : files.contents (p.c - 1) .pieceUsageBytes with
  | none =>
    rw [if_pos ⟨p.limit, rfl⟩, applyAll_cons, applyAll_nil]
    have hcontents := congrFun (contents_writeBatch (hpresent (p.c - 1))
      (chain.genesisBatch details ++ [(.pieceUsageBytes, some (.number 0))])) (p.c - 1)
    rw [update_self, writeBatch_append, genesisBatch, writeBatch_singleton,
      writeBatch_singleton] at hcontents
    refine ⟨hsettled.congr (congrFun (isMarked_write _ _ _)), fun i => ?_, ?_, ?_⟩
    · rw [isSome_write]
      exact hpresent i
    · rw [genesisBatch, hcontents, update_of_ne (details_ne_usage _), update_self]
      exact Option.some_ne_none _
    · rw [genesisBatch, hcontents, update_self]
  | some value =>
    rw [if_neg (by simp), applyAll_nil]
    have hsome : files.contents (p.c - 1) .pieceUsageBytes ≠ none := by
      rw [husage]
      exact Option.some_ne_none _
    refine ⟨hsettled, hpresent, ?_, ?_⟩
    · rw [hsame.contents]
      exact h.fresh.complete hsome
    · rw [hsame.contents, husage]
      obtain ⟨hkey, _⟩ | ⟨_, rfl⟩ := h.fresh.only _ _ husage
      · cases hkey
      · rfl

theorem After.best : BestIs chain (files.view (p.c - 1)) p.memory.lastBlockHash := by
  have hnew : files.contents (p.c - 1) .best = none := h.fresh.eq_none nofun nofun
  obtain hbest | ⟨hnone, hhash⟩ := p.idle.best
  · exact .inl (h.lookup_current hnew hbest rfl)
  · refine .inr ⟨lookup_view_eq_none h.archive fun i => ?_, hhash⟩
    by_cases hi : i = p.c - 1
    · subst hi
      exact hnew
    · rw [h.contents i hi]
      exact hnone i

end

/-- A part of opening goes no further on the way of an import. -/
theorem Underway.open_take (h : p.Underway files) (k : Nat) :
    p.Underway (files.applyAll ((chain.openOps files).take k)) := by
  cases h with
  | before h => exact .before (h.like (h.stored.open_take k))
  | after h => exact .after (h.open_take k)

/-- Opening ends in one of two states, with the best block as it was. -/
theorem Underway.reopened (h : p.Underway files)
    (hopen : files' = files.applyAll (chain.openOps files)) :
    p.Reopened files' (chain.openMemory files') ∧
      (chain.openMemory files').lastBlockHash = p.memory.lastBlockHash := by
  cases h with
  | before h =>
    have hlike := h.stored.open_take (chain.openOps files).length
    rw [List.take_length, ← hopen] at hlike
    obtain ⟨hidle, hlast⟩ := h.stored.opened hopen
    exact ⟨.before (h.like hlike) ⟨hidle.running, hidle.archive, hidle.coherent⟩, hlast⟩
  | after h =>
    have hafter := h.open_take (chain.openOps files).length
    have hfinished := h.open_finished
    rw [List.take_length, ← hopen] at hafter
    rw [← hopen] at hfinished
    have hrunning : Running files' (chain.openMemory files').db false (p.c - 1) :=
      ⟨hfinished.settled, hfinished.present, rfl⟩
    have hcache := openMemory_coherent hrunning hafter.archive
    exact ⟨.after hafter ⟨hrunning, hafter.archive, hcache⟩ hfinished,
      openMemory_lastBlockHash hrunning hafter.archive hafter.best⟩

/-- The genesis block and the best block can be read. -/
theorem Reopened.readable (h : p.Reopened files memory) :
    (∃ details, lookup (files.listed memory.db) (.details chain.genesisHash) =
      some (.details details)) ∧
      BestIs chain (files.listed memory.db) p.memory.lastBlockHash := by
  cases h with
  | before h hopen =>
    obtain ⟨genesis, hgenesis⟩ := p.idle.genesis
    rw [hopen.listed]
    exact ⟨⟨genesis, h.lookup_current hgenesis rfl⟩, h.stored.bestIs⟩
  | after h hopen _ =>
    obtain ⟨details, hlookup, _⟩ := h.genesis
    rw [hopen.listed]
    exact ⟨⟨details, hlookup⟩, h.best⟩

/-! ## What an import reads on the way -/

section Parent

variable {cache : ChainPiece}

theorem Before.parentDetails (h : p.Before files) (hcache : Coherent (files.view p.c) cache) :
    ChainDb.parentDetails (files.view p.c) cache p.block =
      ChainDb.parentDetails (p.files.view p.c) p.memory.cache p.block := by
  have hfront := map_front h.contents
  apply parentDetails_congr hcache p.idle.coherent
  obtain hsame | ⟨hrotates, hempty⟩ := h.oldest
  · rw [view_eq, view_eq, hfront, hsame, h.archive, p.idle.archive]
  · rw [← p.parent hrotates, view_eq, hfront, hempty, h.archive]
    exact lookup_append_empty _ _

/-- When the parent is the genesis block, its copy may have another child, which
is replaced. -/
theorem After.parentDetails (h : p.After files) (hcache : Coherent (files.view (p.c - 1)) cache) :
    ChainDb.parentDetails (files.view (p.c - 1)) cache p.block =
      ChainDb.parentDetails (p.files.view p.c) p.memory.cache p.block := by
  by_cases hgenesis : p.block.parentHash = chain.genesisHash
  · obtain ⟨details, hlookup, genesis, hpiece, ⟨children, rfl⟩, _⟩ := h.genesis
    rw [← hgenesis] at hlookup hpiece
    have hold := p.idle.lookup_current hpiece rfl
    rw [parentDetails_eq hcache hlookup, parentDetails_eq p.idle.coherent hold]
  · have hnew : files.contents (p.c - 1) (.details p.block.parentHash) = none :=
      h.fresh.eq_none (fun heq => hgenesis (ChainKey.details.inj heq)) (details_ne_usage _)
    apply parentDetails_congr hcache p.idle.coherent
    rw [h.view, lookup_cons_of_none hnew]
    exact p.parent h.rotates

/-- After a rotation every import commits the same writes. -/
theorem After.finalBatch_eq {cache' : ChainPiece} (h : p.After files) (h' : p.After files')
    (hcache : Coherent (files.view (p.c - 1)) cache)
    (hcache' : Coherent (files'.view (p.c - 1)) cache') :
    finalBatch (files.view (p.c - 1)) (prepareDbData (files.view (p.c - 1)) cache p.block)
        p.block =
      finalBatch (files'.view (p.c - 1)) (prepareDbData (files'.view (p.c - 1)) cache' p.block)
        p.block := by
  have hdata : prepareDbData (files.view (p.c - 1)) cache p.block =
      prepareDbData (files'.view (p.c - 1)) cache' p.block := by
    apply prepareDbData_congr
    · rw [h.parentDetails hcache, h'.parentDetails hcache']
    · apply alteredBlooms_congr
      intro level index
      rw [hcache.query_blooms, hcache'.query_blooms, h.lookup_blooms, h'.lookup_blooms]
  funext usage
  rw [hdata, finalBatch, finalBatch, h.keyExists, h'.keyExists]

end Parent

section

variable (h : p.Before files) (hopen : IsOpen files memory.db memory.cache p.c)

include h hopen

/-- The decision to rotate is the same before and after a crash. -/
theorem Before.rotates_iff : ChainDb.Rotates chain files memory p.block ↔ p.Rotates := by
  obtain ⟨n, husage⟩ := p.idle.usage
  have hread : ∀ files, p.Before files → usageOf (files.view p.c) = n := fun files h => by
    rw [usageOf, h.lookup_current husage rfl]
  have hsize : writeSize (prepareDbData (files.view p.c) memory.cache p.block) =
      writeSize (prepareDbData (p.files.view p.c) p.memory.cache p.block) := by
    apply writeSize_congr
    exact h.parentDetails hopen.coherent
  rw [Rotates, ChainDb.Rotates, ChainDb.Rotates, hopen.listed, p.idle.listed, hread _ h,
    hread _ before_self, hsize]

theorem Before.copied : p.LikeGenesis (chain.copied files memory p.block) := by
  obtain ⟨genesis, hgenesis⟩ := p.idle.genesis
  refine ⟨genesis, hgenesis, ?_⟩
  by_cases heq : p.block.parentHash = chain.genesisHash
  · have hcopied : chain.copied files memory p.block =
        ChainDb.parentDetails (files.view p.c) memory.cache p.block := by
      rw [ChainDb.copied, hopen.listed, detailsOf, query, ← heq]
      simp [prepareCache, alteredBlooms]
    have hlookup : lookup (files.view p.c) (.details p.block.parentHash) =
        some (.details genesis) := h.lookup_current (heq ▸ hgenesis) rfl
    rw [hcopied, parentDetails_eq hopen.coherent hlookup]
    exact ⟨⟨_, rfl⟩, fun hne => absurd heq hne⟩
  · have hcopied : chain.copied files memory p.block = genesis := by
      rw [ChainDb.copied, hopen.listed, detailsOf, query]
      have hne : ChainKey.details chain.genesisHash ≠ .details p.block.parentHash :=
        fun h => heq (ChainKey.details.inj h).symm
      have hsame : prepareCache (files.view p.c) memory.cache p.block
          (.details chain.genesisHash) = memory.cache (.details chain.genesisHash) := by
        simp [prepareCache, alteredBlooms, update_of_ne hne]
      rw [hsame]
      exact hopen.coherent.detailsOf (h.lookup_current hgenesis rfl)
    rw [hcopied]
    exact ⟨⟨_, rfl⟩, fun _ => rfl⟩

/-! ## Parts of an import -/

variable (hrotates : p.Rotates)

include hrotates

theorem Before.rotateOps_take (k : Nat) :
    p.Underway (files.applyAll ((memory.db.rotateOps false).take k)) := by
  cases hopen.running.rotateOps_take k with
  | untouched heq _ =>
    rw [heq]
    exact .before h
  | interrupted hmarked _ hsame => exact .before (h.interrupted hrotates hsame hmarked)
  | completed hmarks hmarked hsame => exact .after (h.completed hrotates hsame hmarks hmarked)

/-- A whole rotation, with the copy of the genesis block. -/
theorem Before.renewed :
    p.Renewed (files.applyAll (chain.prepare files memory p.block).ops)
      (chain.prepare files memory p.block) := by
  obtain ⟨hops, hdb, hcopy, husage⟩ := prepare_of_rotates ((h.rotates_iff hopen).mpr hrotates)
  obtain ⟨hrunning, hmarked, hsame⟩ := hopen.running.rotate
  have hcompleted := h.completed hrotates hsame (.settled hrunning.settled) hmarked
  have hlive := hrunning.present (p.c - 1)
  have hafter := hcompleted.write hlive (hcompleted.fresh.genesis (h.copied hopen))
  have hrunning' := hrunning.write (chain.genesisBatch (chain.copied files memory p.block))
  have hfiles : files.applyAll (chain.prepare files memory p.block).ops =
      (files.applyAll (memory.db.rotateOps false)).apply
        (.write (p.c - 1) (chain.genesisBatch (chain.copied files memory p.block))) := by
    rw [hops, rotationOps, applyAll_append, hrunning.current]
    rfl
  have hcontents : ((files.applyAll (memory.db.rotateOps false)).apply
      (.write (p.c - 1) (chain.genesisBatch (chain.copied files memory p.block)))).contents
        (p.c - 1) (.details chain.genesisHash) =
          some (.details (chain.copied files memory p.block)) := by
    rw [contents_writeBatch hlive, update_self, genesisBatch, writeBatch_singleton, update_self]
  rw [← hfiles] at hafter hrunning' hcontents
  have hlisted := hrunning'.listed fun _ => hafter.archive
  rw [← hdb] at hrunning' hlisted
  refine ⟨hafter, ⟨hrunning', hafter.archive, ?_⟩, ?_, ?_⟩
  · rw [hcopy]
    intro key value _ hkey
    by_cases heq : key = .details chain.genesisHash
    · subst heq
      rw [update_self] at hkey
      rw [hafter.view, ← hkey]
      exact lookup_cons_of_some hcontents rfl
    · rw [update_of_ne heq] at hkey
      cases hkey
  · rw [hcontents]
    exact Option.some_ne_none _
  · rw [husage, hlisted]

end

/-! ## The commit -/

def SamePieces (files files' : Files) : Prop :=
  files.contents = files'.contents ∧ files.isMarked = files'.isMarked

/-- Whatever way it came to its commit, an import with a new piece leaves the
same pieces. -/
theorem Renewed.commit_eq {prepared prepared' : Prepared} (h : p.Renewed files prepared)
    (h' : p.Renewed files' prepared') :
    SamePieces (files.apply (commitOp files p.block prepared))
      (files'.apply (commitOp files' p.block prepared')) := by
  have hbatch := h.after.finalBatch_eq h'.after h.isOpen.coherent h'.isOpen.coherent
  have husage : prepared.usage = prepared'.usage := by
    rw [h.usage, h'.usage]
    apply writeSize_congr
    rw [h.after.parentDetails h.isOpen.coherent, h'.after.parentDetails h'.isOpen.coherent]
  rw [commitOp, commitOp, h.isOpen.listed, h'.isOpen.listed, h.isOpen.running.current,
    h'.isOpen.running.current]
  refine ⟨?_, ?_⟩
  · rw [contents_writeBatch (h.isOpen.running.present _),
      contents_writeBatch (h'.isOpen.running.present _)]
    funext i
    by_cases hi : i = p.c - 1
    · subst hi
      rw [update_self, update_self, hbatch, husage]
      funext key
      apply writeBatch_congr
      obtain heq | rfl | rfl := h.after.fresh.eq_or_mem h'.after.fresh h.genesis h'.genesis key
      · exact .inl heq
      · exact .inr (finalBatch_keys (by simp))
      · exact .inr (finalBatch_keys (by simp))
    · rw [update_of_ne hi, update_of_ne hi, h.after.contents i hi, h'.after.contents i hi]
  · rw [isMarked_write, isMarked_write,
      isMarked_of_settled h.isOpen.running.settled h.after.marked,
      isMarked_of_settled h'.isOpen.running.settled h'.after.marked]

/-! ## Whole imports -/

/-- A new piece has room for the block, so there is no second rotation. -/
theorem After.renewed (h : p.After files) (hopen : IsOpen files memory.db memory.cache (p.c - 1))
    (hfinished : p.Finished files) :
    (chain.prepare files memory p.block).ops = [] ∧
      p.Renewed files (chain.prepare files memory p.block) := by
  have husage : usageOf (files.view (p.c - 1)) = 0 := by
    rw [usageOf, h.view, lookup_cons_of_some hfinished.usage rfl]
  have hsame : writeSize (prepareDbData (files.view (p.c - 1)) memory.cache p.block) =
      writeSize (prepareDbData (p.files.view p.c) p.memory.cache p.block) := by
    apply writeSize_congr
    exact h.parentDetails hopen.coherent
  have hrotates : ¬ ChainDb.Rotates chain files memory p.block := by
    have hsize := p.size
    rw [ChainDb.Rotates, hopen.listed, husage, hsame, needsRotation, decide_eq_true_iff]
    omega
  rw [prepare_of_not_rotates hrotates, hopen.listed, husage, zero_add]
  exact ⟨rfl, h, hopen, hfinished.genesis, rfl⟩

/-- The two ways to the commit: nothing was done so far, or there is a new piece. -/
theorem Reopened.prepare (h : p.Reopened files memory) :
    (¬ p.Rotates ∧ p.Before files ∧ IsOpen files memory.db memory.cache p.c) ∨
    (p.Rotates ∧ p.Renewed (files.applyAll (chain.prepare files memory p.block).ops)
      (chain.prepare files memory p.block)) := by
  cases h with
  | before h hopen =>
    by_cases hrotates : p.Rotates
    · exact .inr ⟨hrotates, h.renewed hopen hrotates⟩
    · exact .inl ⟨hrotates, h, hopen⟩
  | after h hopen hfinished =>
    obtain ⟨hops, hrenewed⟩ := h.renewed hopen hfinished
    rw [hops]
    exact .inr ⟨h.rotates, hrenewed⟩

/-- A part of an import, up to its commit. -/
theorem Reopened.import_take (h : p.Reopened files memory) (k : Nat) :
    p.Underway (files.applyAll ((chain.prepare files memory p.block).ops.take k)) := by
  cases h with
  | before h hopen =>
    have hiff := h.rotates_iff hopen
    by_cases hrotates : p.Rotates
    · have hops := (prepare_of_rotates (hiff.mpr hrotates)).1
      by_cases hshort : k ≤ (memory.db.rotateOps false : List Op).length
      · rw [hops, rotationOps, List.take_append_of_le_length hshort]
        exact h.rotateOps_take hopen hrotates k
      · rw [hops, List.take_of_length_le, ← hops]
        · exact .after (h.renewed hopen hrotates).after
        · rw [rotationOps, List.length_append]
          exact Nat.lt_of_not_le hshort
    · rw [prepare_of_not_rotates (mt hiff.mp hrotates), List.take_nil, applyAll_nil]
      exact .before h
  | after h hopen hfinished =>
    rw [(h.renewed hopen hfinished).1, List.take_nil, applyAll_nil]
    exact .after h

/-- Without a rotation the import is a single commit, on the same pieces. -/
theorem Before.commit_eq (hrotates : ¬ p.Rotates) (h : p.Before files)
    (hopen : IsOpen files memory.db memory.cache p.c) :
    SamePieces (files.applyAll (chain.importOps files memory p.block))
      (p.files.applyAll (chain.importOps p.files p.memory p.block)) := by
  have hview := h.view_same hrotates
  have hdata : prepareDbData (p.files.view p.c) memory.cache p.block =
      prepareDbData (p.files.view p.c) p.memory.cache p.block := by
    have hcache := hopen.coherent
    rw [hview] at hcache
    apply prepareDbData_congr
    · exact parentDetails_congr hcache p.idle.coherent rfl
    · apply alteredBlooms_congr
      intro level index
      rw [hcache.query_blooms, p.idle.coherent.query_blooms]
  unfold importOps
  dsimp only
  rw [prepare_of_not_rotates (mt (h.rotates_iff hopen).mp hrotates),
    prepare_of_not_rotates hrotates, List.nil_append, List.nil_append, applyAll_nil,
    applyAll_nil, applyAll_cons, applyAll_cons, applyAll_nil, applyAll_nil, commitOp, commitOp]
  dsimp only
  rw [hopen.listed, p.idle.listed, hview, hdata, hopen.running.current,
    p.idle.running.current, SamePieces, contents_writeBatch (hopen.running.present p.c),
    contents_writeBatch (p.idle.running.present p.c), isMarked_write, isMarked_write,
    h.contents_eq hrotates]
  exact ⟨rfl, funext h.marked⟩

section

variable (h : p.Reopened files memory)

include h

/-- From every state on the way, an import ends with the same pieces. -/
theorem Reopened.import_eq : SamePieces (files.applyAll (chain.importOps files memory p.block))
    (p.files.applyAll (chain.importOps p.files p.memory p.block)) := by
  obtain ⟨hrotates, hbefore, hopen⟩ | ⟨hrotates, hrenewed⟩ := h.prepare
  · exact hbefore.commit_eq hrotates hopen
  · unfold importOps
    dsimp only
    rw [applyAll_append, applyAll_append]
    exact hrenewed.commit_eq (before_self.renewed isOpen_self hrotates)

/-- The database an import commits to is open, and the current piece has the genesis
block. -/
theorem Reopened.committing :
    ∃ c, IsOpen (files.applyAll (chain.prepare files memory p.block).ops)
        (chain.prepare files memory p.block).db (chain.prepare files memory p.block).cache c ∧
      ∃ details, (files.applyAll (chain.prepare files memory p.block).ops).contents c
        (.details chain.genesisHash) = some (.details details) := by
  obtain ⟨hrotates, hbefore, hopen⟩ | ⟨hrotates, hrenewed⟩ := h.prepare
  · rw [prepare_of_not_rotates (mt (hbefore.rotates_iff hopen).mp hrotates)]
    exact ⟨p.c, hopen, hbefore.stored.genesis⟩
  · obtain ⟨value, hvalue⟩ := Option.ne_none_iff_exists'.mp hrenewed.genesis
    obtain ⟨details, rfl, _⟩ := hrenewed.after.fresh.details_of_some hvalue
    exact ⟨p.c - 1, hrenewed.isOpen, details, hvalue⟩

/-- After an import the block is the best one, and the database is still open. -/
theorem Reopened.stored :
    ∃ c, Stored chain (files.applyAll (chain.importOps files memory p.block)) c p.block.hash ∧
      Running (files.applyAll (chain.importOps files memory p.block))
        (chain.importMemory files memory p.block).db false c ∧
      ((chain.prepare files memory p.block).cache (.details p.block.hash) = none →
        p.block.hash ≠ p.block.parentHash →
        Coherent ((files.applyAll (chain.importOps files memory p.block)).view c)
          (chain.importMemory files memory p.block).cache) := by
  unfold importOps commitOp importMemory
  dsimp only
  rw [applyAll_append, applyAll_cons, applyAll_nil]
  obtain ⟨c, hopen, hgenesis⟩ := h.committing
  have hlive := hopen.running.present c
  rw [hopen.running.current, hopen.listed]
  exact ⟨c, stored_commit hopen.running.settled hlive hopen.archive hgenesis _ _ _ _,
    hopen.running.write _, fun hnew hne => hopen.coherent.commit hlive hnew hne _ _⟩

end

end Pending

end Skaled.ChainDb
