import Skaled.Storage.BlockImportCrashes

/-! # Imports can be repeated after a crash

An import stops after any of its operations, the chain is opened again, which
may also be cut short, and the import is tried again. As long as the batch of the
block was not committed, the next attempt ends as the first one would have. Once
it was, the block is there when the chain is opened, and the import must not be
repeated: the database could be rotated a second time.
-/

namespace Skaled.ChainDb

open PieceFiles
open Function (update update_of_ne update_self)

/-! ## Attempts -/

section Attempts

variable (chain : ChainDb)

/-- Openings that stop after the given numbers of operations, then a whole one. -/
def reopen (files : Files) : List Nat → Files × Memory
  | [] =>
    let opened := files.applyAll (chain.openOps files)
    (opened, chain.openMemory opened)
  | done :: openings => reopen (files.applyAll ((chain.openOps files).take done)) openings

/-- An import that stops before its commit, after the given number of operations,
and the openings that follow. -/
structure Attempt where
  done : Nat
  openings : List Nat

def attempt (s : Files × Memory) (block : ImportedBlock) (crash : Attempt) : Files × Memory :=
  chain.reopen (s.1.applyAll ((chain.importOps s.1 s.2 block).dropLast.take crash.done))
    crash.openings

def attempts (s : Files × Memory) (block : ImportedBlock) : List Attempt → Files × Memory
  | [] => s
  | crash :: crashes => attempts (chain.attempt s block crash) block crashes

/-- The genesis block and the best block are readable, and the chain ends with
the best block. -/
structure Readable (s : Files × Memory) (hash : H256) : Prop where
  genesis : ∃ details, lookup (s.1.listed s.2.db) (.details chain.genesisHash) =
    some (.details details)
  best : BestIs chain (s.1.listed s.2.db) hash
  last : s.2.lastBlockHash = hash

end Attempts

variable {chain : ChainDb} {files : Files} {memory : Memory} {c : Fin 5}
  {block : ImportedBlock}

theorem Idle.readable (h : Idle chain files memory c) :
    Readable chain (files, memory) memory.lastBlockHash := by
  obtain ⟨details, hgenesis⟩ := h.genesis
  refine ⟨⟨details, ?_⟩, ?_, rfl⟩
  · rw [h.listed]
    exact h.lookup_current hgenesis rfl
  · rw [h.listed]
    exact h.bestIs

/-- Between two imports, openings change nothing. -/
theorem Stored.reopen {hash : H256} (h : Stored chain files c hash) (openings : List Nat) :
    (chain.reopen files openings).1.contents = files.contents ∧
      (chain.reopen files openings).1.isMarked = files.isMarked ∧
      Readable chain (chain.reopen files openings) hash := by
  induction openings generalizing files with
  | nil =>
    obtain ⟨hidle, rfl⟩ := h.opened rfl
    have hlike := h.open_take (chain.openOps files).length
    rw [List.take_length] at hlike
    exact ⟨funext hlike.contents, funext hlike.marked, hidle.readable⟩
  | cons done openings ih =>
    have hlike := h.open_take done
    obtain ⟨hcontents, hmarked, hreadable⟩ := ih (h.like hlike)
    exact ⟨hcontents.trans (funext hlike.contents), hmarked.trans (funext hlike.marked),
      hreadable⟩

namespace Pending

variable {p : Pending chain}

theorem Underway.reopen (h : p.Underway files) (openings : List Nat) :
    p.Reopened (chain.reopen files openings).1 (chain.reopen files openings).2 ∧
      (chain.reopen files openings).2.lastBlockHash = p.memory.lastBlockHash := by
  induction openings generalizing files with
  | nil =>
    dsimp only [ChainDb.reopen]
    exact h.reopened rfl
  | cons done openings ih => exact ih (h.open_take done)

/-- Attempts that come to nothing leave a chain that can go on. -/
theorem Reopened.attempts (h : p.Reopened files memory)
    (hlast : memory.lastBlockHash = p.memory.lastBlockHash) (crashes : List Attempt) :
    p.Reopened (chain.attempts (files, memory) p.block crashes).1
        (chain.attempts (files, memory) p.block crashes).2 ∧
      (chain.attempts (files, memory) p.block crashes).2.lastBlockHash =
        p.memory.lastBlockHash := by
  induction crashes generalizing files memory with
  | nil => exact ⟨h, hlast⟩
  | cons crash crashes ih =>
    have hattempt : chain.attempt (files, memory) p.block crash =
        chain.reopen (files.applyAll ((chain.prepare files memory p.block).ops.take crash.done))
          crash.openings := by
      rw [attempt, importOps, List.dropLast_concat]
    obtain ⟨hreopened, hhash⟩ := (h.import_take crash.done).reopen crash.openings
    rw [← hattempt] at hreopened hhash
    exact ih hreopened hhash

end Pending

/-! ## Databases that nodes have -/

/-- A block on top of the best one keeps its parent: its details are in the
current piece. -/
theorem Idle.keepsParent (h : Idle chain files memory c)
    (hlast : block.parentHash = memory.lastBlockHash) : KeepsParent chain files memory c block := by
  intro _
  obtain ⟨details, hdetails⟩ := h.details
  obtain ⟨rest, hfront⟩ := Pending.front_eq_cons c
  rw [hlast, h.lookup_current hdetails rfl, hfront, List.map_cons]
  exact lookup_cons_of_some hdetails rfl

/-- The cache that an import commits with does not have the block, if the database does
not. -/
theorem Idle.cache_eq_none (h : Idle chain files memory c)
    (hnew : lookup (files.view c) (.details block.hash) = none) :
    (chain.prepare files memory block).cache (.details block.hash) = none := by
  by_cases hrotates : Rotates chain files memory block
  · obtain ⟨genesis, hgenesis⟩ := h.genesis
    have hne : block.hash ≠ chain.genesisHash := by
      intro heq
      rw [heq, h.lookup_current hgenesis rfl] at hnew
      cases hnew
    rw [(prepare_of_rotates hrotates).2.2.1, update_of_ne (fun heq => hne (by injection heq))]
  · rw [prepare_of_not_rotates hrotates]
    cases hcache : memory.cache (.details block.hash) with
    | none => exact hcache
    | some value => exact nomatch hnew.symm.trans (h.coherent _ _ rfl hcache)

/-- An import of a new block on top of the best one leaves the chain ready for the next
one, without opening it again. -/
theorem Idle.imported (h : Idle chain files memory c) (hlimit : 0 < chain.dbStorageLimit)
    (hlast : block.parentHash = memory.lastBlockHash)
    (hnew : lookup (files.listed memory.db) (.details block.hash) = none)
    (hsize : writeSize (prepareDbData (files.listed memory.db) memory.cache block) ≤
      chain.dbStorageLimit / 5) :
    ∃ c', Idle chain (files.applyAll (chain.importOps files memory block))
      (chain.importMemory files memory block) c' := by
  rw [h.listed] at hnew hsize
  have hne : block.hash ≠ block.parentHash := by
    obtain ⟨details, hdetails⟩ := h.details
    intro heq
    rw [heq, hlast, h.lookup_current hdetails rfl] at hnew
    cases hnew
  let p : Pending chain := ⟨files, memory, c, block, h, hlimit, h.keepsParent hlast, hsize⟩
  have hstart : p.Reopened files memory :=
    .before Pending.before_self (Pending.isOpen_self (p := p))
  obtain ⟨c', hstored, hrunning, hcoherent⟩ := hstart.stored
  exact ⟨c', hstored, hrunning, hcoherent (h.cache_eq_none hnew) hne⟩

/-- A whole import without crashes. -/
def importBlock (chain : ChainDb) (s : Files × Memory) (block : ImportedBlock) : Files × Memory :=
  (s.1.applyAll (chain.importOps s.1 s.2 block), chain.importMemory s.1 s.2 block)

/-- Each block is a new one on top of the best one, with room for it in a new piece. -/
def ImportsNew (chain : ChainDb) (s : Files × Memory) : List ImportedBlock → Prop
  | [] => True
  | block :: blocks =>
    block.parentHash = s.2.lastBlockHash ∧
      lookup (s.1.listed s.2.db) (.details block.hash) = none ∧
      writeSize (prepareDbData (s.1.listed s.2.db) s.2.cache block) ≤ chain.dbStorageLimit / 5 ∧
      ImportsNew chain (chain.importBlock s block) blocks

theorem Idle.importBlocks {s : Files × Memory} (h : Idle chain s.1 s.2 c)
    (hlimit : 0 < chain.dbStorageLimit) {blocks : List ImportedBlock}
    (hblocks : ImportsNew chain s blocks) :
    ∃ c', Idle chain (blocks.foldl chain.importBlock s).1 (blocks.foldl chain.importBlock s).2
      c' := by
  induction blocks generalizing s c with
  | nil => exact ⟨c, h⟩
  | cons block blocks ih =>
    obtain ⟨hlast, hnew, hsize, hrest⟩ := hblocks
    obtain ⟨c', hidle⟩ := h.imported hlimit hlast hnew hsize
    exact ih hidle hrest

/-- The writes that make a new database. -/
def genesisOps (chain : ChainDb) : List Op :=
  [.write 0 (chain.genesisBatch chain.genesisDetails),
    .write 0 (chain.genesisBatch chain.genesisDetails ++ [(.pieceUsageBytes, some (.number 0))])]

theorem openOps_fresh (hlimit : 0 < chain.dbStorageLimit) :
    chain.openOps .fresh = PieceFiles.fresh.openOps ++ chain.genesisOps := by
  unfold openOps
  dsimp only
  have hinsert : chain.insertGenesisOps ((.fresh : Files).applyAll PieceFiles.fresh.openOps)
      (((.fresh : Files).applyAll PieceFiles.fresh.openOps).openDb false) =
        [.write 0 (chain.genesisBatch chain.genesisDetails)] := by rfl
  have hcurrent : (((.fresh : Files).applyAll PieceFiles.fresh.openOps).openDb
      false).currentPieceFileNo = 0 := by rfl
  have hlisted : ∀ files : Files,
      files.listed (((.fresh : Files).applyAll PieceFiles.fresh.openOps).openDb false) =
        files.contents 0 :: [1, 2, 3, 4].map files.contents := fun _ => by rfl
  have hpiece : (((.fresh : Files).applyAll PieceFiles.fresh.openOps).apply
      (.write 0 (chain.genesisBatch chain.genesisDetails))).contents 0 =
        update (fun _ => none) (.details chain.genesisHash)
          (some (.details chain.genesisDetails)) := by rfl
  rw [hinsert, applyAll_cons, applyAll_nil, finishRotationOps, hcurrent, detailsOf, query, hlisted,
    hpiece, if_pos ⟨hlimit, rfl⟩, lookup_cons_of_some (update_self _ _ _) rfl, List.append_assoc]
  rfl

/-- A new database. -/
theorem stored_fresh (hlimit : 0 < chain.dbStorageLimit) :
    Stored chain (PieceFiles.fresh.applyAll (chain.openOps .fresh)) 0 chain.genesisHash ∧
      ∀ i, ((PieceFiles.fresh.applyAll (chain.openOps .fresh)).live i).isSome := by
  rw [openOps_fresh hlimit]
  have hgenesis : ((PieceFiles.fresh : Files).applyAll (PieceFiles.fresh.openOps ++
      chain.genesisOps)).contents 0 (.details chain.genesisHash) =
        some (.details chain.genesisDetails) :=
    update_self (ChainKey.details chain.genesisHash) _
      (update (fun _ => none) (.details chain.genesisHash) _)
  refine ⟨⟨.never ?_ rfl, rfl, ⟨0, rfl⟩, ⟨_, hgenesis⟩, ⟨_, hgenesis⟩, .inr ⟨?_, rfl⟩⟩, ?_⟩
  · exact fun | 0 | 1 | 2 | 3 | 4 => rfl
  · exact fun | 0 | 1 | 2 | 3 | 4 => rfl
  · exact fun | 0 | 1 | 2 | 3 | 4 => rfl

/-- A chain whose pieces have room for one small block. -/
def sampleChain : ChainDb where
  genesisHash := 1
  genesisDetails :=
    { number := 0, totalDifficulty := 0, parent := 0, children := [], blockSizeBytes := 0 }
  dbStorageLimit := 3600

def sampleBlock : ImportedBlock where
  hash := 2
  parentHash := 1
  number := 1
  totalDifficulty := 0
  data := [1, 2, 3]
  receipts := [4]
  logBlooms := [5]
  transactions := [6]
  bloom := 7
  magicUnused := false

def sampleStart : Files × Memory := sampleChain.reopen .fresh []

theorem sampleStart_idle : Idle sampleChain sampleStart.1 sampleStart.2 0 := by
  have hlimit : 0 < sampleChain.dbStorageLimit := by decide
  obtain ⟨hstored, hpresent⟩ := stored_fresh hlimit
  exact (hstored.idle hpresent).1

/-- The current piece is nearly full, and the details of block 7 are in the oldest
piece. -/
def sampleFull : Files × Memory :=
  let files := (sampleStart.1.apply (.write 0 [(.pieceUsageBytes, some (.number 600))])).apply
    (.write 4 [(.details 7, some (.details sampleChain.genesisDetails))])
  (files, sampleChain.openMemory files)

theorem sampleFull_idle : Idle sampleChain sampleFull.1 sampleFull.2 0 := by
  have hstored : Stored sampleChain sampleFull.1 0 sampleChain.genesisHash :=
    ⟨.never (by decide +kernel) rfl, rfl, ⟨600, by decide +kernel⟩,
      ⟨sampleChain.genesisDetails, by decide +kernel⟩,
      ⟨sampleChain.genesisDetails, by decide +kernel⟩, .inr ⟨by decide +kernel, rfl⟩⟩
  exact (hstored.idle (by decide +kernel)).1

def sampleOrphan : ImportedBlock := { sampleBlock with hash := 3, parentHash := 7 }

end Skaled.ChainDb
