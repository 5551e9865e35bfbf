import Skaled.Storage.BlockImport
import Skaled.Storage.RotationLaws

/-! # What an import reads and leaves

The writes of an import depend on little of what is stored, caches that agree
with the database make no difference, and the current piece has the genesis
block, a usage and the best block after every import.
-/

namespace Skaled.ChainDb

open PieceFiles
open Function (update update_of_ne update_self)

/-! ## Reading -/

variable {pieces pieces' : List ChainPiece} {piece cache cache' : ChainPiece} {key : ChainKey}
  {value : ChainValue} {block : ImportedBlock}

theorem lookup_cons_of_some (hpiece : piece key = some value) (hvalue : value.isEmpty = false) :
    lookup (piece :: pieces) key = some value := by
  simp [lookup, hpiece, hvalue]

theorem lookup_cons_of_none (hpiece : piece key = none) :
    lookup (piece :: pieces) key = lookup pieces key := by
  simp [lookup, hpiece]

theorem lookup_cons_congr {piece' : ChainPiece} (h : piece key = piece' key) :
    lookup (piece :: pieces) key = lookup (piece' :: pieces) key := by
  rw [lookup, lookup, List.findSome?_cons, List.findSome?_cons, h]

theorem lookup_eq_none (h : ∀ piece ∈ pieces, piece key = none) : lookup pieces key = none := by
  rw [lookup, List.findSome?_eq_none_iff]
  intro piece hpiece
  rw [h piece hpiece]
  rfl

theorem lookup_append_empty (pieces : List ChainPiece) (key : ChainKey) :
    lookup (pieces ++ [fun _ => none]) key = lookup pieces key := by
  simp [lookup]

/-- Whether an import reads the key through a cache. -/
def isCached : ChainKey → Bool
  | .details _ => true
  | .blocksBlooms _ _ => true
  | _ => false

/-- Everything that is cached is in the database. -/
def Coherent (pieces : List ChainPiece) (cache : ChainPiece) : Prop :=
  ∀ key value, isCached key = true → cache key = some value → lookup pieces key = some value

section

variable (h : Coherent pieces cache)

include h

theorem Coherent.query_eq (hkey : isCached key = true) :
    query pieces cache key = lookup pieces key := by
  unfold query
  cases hcache : cache key with
  | none => rfl
  | some value => rw [h key value hkey hcache]; rfl

theorem Coherent.query_details (hash : H256) :
    query pieces cache (.details hash) = lookup pieces (.details hash) :=
  h.query_eq rfl

theorem Coherent.query_blooms (level index : Nat) :
    query pieces cache (.blocksBlooms level index) = lookup pieces (.blocksBlooms level index) :=
  h.query_eq rfl

theorem Coherent.detailsOf {hash : H256} {details : BlockDetails}
    (hlookup : lookup pieces (.details hash) = some (.details details)) :
    detailsOf pieces cache hash = details := by
  rw [ChainDb.detailsOf, h.query_details, hlookup]

end

section

variable (hparent : parentDetails pieces cache block = parentDetails pieces' cache' block)

include hparent

/-- The writes of an import depend on the details of the parent, apart from its
children, and on the blooms. -/
theorem prepareDbData_congr
    (hblooms : ∀ level, alteredBlooms pieces cache block level =
      alteredBlooms pieces' cache' block level) :
    prepareDbData pieces cache block = prepareDbData pieces' cache' block := by
  unfold prepareDbData
  rw [hparent, hblooms, hblooms]

/-- Their size depends on the details of the parent only. -/
theorem writeSize_congr :
    writeSize (prepareDbData pieces cache block) =
      writeSize (prepareDbData pieces' cache' block) := by
  unfold writeSize prepareDbData
  rw [hparent]
  simp [alteredBlooms, ChainValue.size, ChainKey.size]

end

theorem alteredBlooms_congr
    (hquery : ∀ level index, query pieces cache (.blocksBlooms level index) =
      query pieces' cache' (.blocksBlooms level index)) (level : Nat) :
    alteredBlooms pieces cache block level = alteredBlooms pieces' cache' block level := by
  unfold alteredBlooms bloomsOf
  simp only [hquery]

/-! ## Batches -/

section Batches

variable {Key Value : Type} [DecidableEq Key]

def writeBatch (piece : Key → Option Value) (batch : List (Key × Option Value)) :
    Key → Option Value :=
  batch.foldl (fun entries change => update entries change.1 change.2) piece

/-- A batch makes pieces agree wherever they did, and on all its keys. -/
theorem writeBatch_congr {piece piece' : Key → Option Value} {batch : List (Key × Option Value)}
    {key : Key} (h : piece key = piece' key ∨ key ∈ batch.map (·.1)) :
    writeBatch piece batch key = writeBatch piece' batch key := by
  induction batch generalizing piece piece' with
  | nil => exact h.resolve_right (List.not_mem_nil)
  | cons change batch ih =>
    apply ih
    by_cases hkey : key = change.1
    · subst hkey
      exact .inl (by simp)
    · obtain heq | hmem := h
      · exact .inl (by simpa [hkey] using heq)
      · exact .inr ((List.mem_cons.mp hmem).resolve_left hkey)

/-- What holds of everything a batch writes to a key holds of what is read
afterwards. -/
theorem writeBatch_property (property : Option Value → Prop) {piece : Key → Option Value}
    {batch : List (Key × Option Value)} {key : Key}
    (hbatch : ∀ value, (key, value) ∈ batch → property value)
    (h : property (piece key) ∨ key ∈ batch.map (·.1)) : property (writeBatch piece batch key) := by
  induction batch generalizing piece with
  | nil => exact h.resolve_right List.not_mem_nil
  | cons change batch ih =>
    apply ih fun value hvalue => hbatch value (.tail _ hvalue)
    dsimp only
    by_cases hkey : key = change.1
    · subst hkey
      rw [update_self]
      exact .inl (hbatch _ (.head _))
    · rw [update_of_ne hkey]
      exact h.imp_right fun hmem => (List.mem_cons.mp hmem).resolve_left hkey

theorem writeBatch_singleton (piece : Key → Option Value) (key : Key) (value : Option Value) :
    writeBatch piece [(key, value)] = update piece key value := rfl

theorem writeBatch_append (piece : Key → Option Value) (batch batch' : List (Key × Option Value)) :
    writeBatch piece (batch ++ batch') = writeBatch (writeBatch piece batch) batch' := by
  simp [writeBatch]

end Batches

/-! ## Opening -/

variable {chain : ChainDb} {files files' : Files} {memory : Memory} {c : Fin 5}

theorem contents_writeBatch (hlive : (files.live c).isSome)
    (batch : List (ChainKey × Option ChainValue)) :
    (files.apply (.write c batch)).contents =
      update files.contents c (writeBatch (files.contents c) batch) :=
  contents_write hlive batch

/-- The view without an archive. -/
theorem view_cons (harchive : files.archive = []) :
    ∃ rest, files.view c = files.contents c :: rest := by
  obtain ⟨rest, hrest⟩ := order_eq_cons c
  exact ⟨rest.map files.contents, by rw [view, hrest, harchive]; simp⟩

/-- The operations of `open`, once the details of the genesis block are there:
a rotation is finished when the current piece has no usage. -/
theorem openOps_eq (hmarks : Marks files c) (harchive : files.archive = []) {details : BlockDetails}
    (hgenesis : lookup (files.view c) (.details chain.genesisHash) = some (.details details)) :
    chain.openOps files = files.openOps ++
      if 0 < chain.dbStorageLimit ∧ (files.contents c .pieceUsageBytes).isNone then
        [.write c (chain.genesisBatch details ++ [(.pieceUsageBytes, some (.number 0))])]
      else [] := by
  obtain ⟨hsettled, hpresent, hsame, _⟩ := hmarks.openOps
  have hrunning : Running (files.applyAll files.openOps)
      ((files.applyAll files.openOps).openDb false) false c := ⟨hsettled, hpresent, rfl⟩
  have hlisted := (hrunning.listed fun _ => hsame.archive.trans harchive).trans (hsame.view c)
  have hinsert : chain.insertGenesisOps (files.applyAll files.openOps)
      ((files.applyAll files.openOps).openDb false) = [] := by
    rw [insertGenesisOps, hlisted, hgenesis]
  have hdetails : detailsOf (files.view c) (fun _ => none) chain.genesisHash = details := by
    have hnone : Coherent (files.view c) fun _ => none := nofun
    exact hnone.detailsOf hgenesis
  unfold openOps finishRotationOps
  dsimp only
  rw [hinsert, applyAll_nil, List.append_nil, hlisted, hdetails, hrunning.current, hsame.contents]

/-! ## Between two imports -/

/-- The files between two imports. The current piece has a usage, the genesis
block and the best block. -/
structure Stored (chain : ChainDb) (files : Files) (c : Fin 5) (hash : H256) : Prop where
  settled : Settled files c
  archive : files.archive = []
  usage : ∃ n, files.contents c .pieceUsageBytes = some (.number n)
  genesis : ∃ details, files.contents c (.details chain.genesisHash) = some (.details details)
  details : ∃ details, files.contents c (.details hash) = some (.details details)
  best : files.contents c .best = some (.hash hash) ∨
    (∀ i, files.contents i .best = none) ∧ hash = chain.genesisHash

/-- A chain between two imports. The caches agree with the database. -/
structure Idle (chain : ChainDb) (files : Files) (memory : Memory) (c : Fin 5) : Prop extends
    Stored chain files c memory.lastBlockHash where
  running : Running files memory.db false c
  coherent : Coherent (files.view c) memory.cache

theorem Idle.listed (h : Idle chain files memory c) : files.listed memory.db = files.view c :=
  h.running.listed fun _ => h.archive

/-- The best block can be read, or there is none yet. -/
def BestIs (chain : ChainDb) (pieces : List ChainPiece) (hash : H256) : Prop :=
  lookup pieces .best = some (.hash hash) ∨
    lookup pieces .best = none ∧ hash = chain.genesisHash

theorem lookup_view_eq_none (harchive : files.archive = [])
    (hnone : ∀ i, files.contents i key = none) : lookup (files.view c) key = none := by
  apply lookup_eq_none
  intro piece hpiece
  rw [PieceFiles.view, harchive, List.map_nil, List.append_nil] at hpiece
  obtain ⟨i, _, rfl⟩ := List.mem_map.mp hpiece
  exact hnone i

section Stored

variable {hash : H256} (h : Stored chain files c hash)

include h

theorem Stored.lookup_current (hkey : files.contents c key = some value)
    (hvalue : value.isEmpty = false) : lookup (files.view c) key = some value := by
  obtain ⟨rest, hview⟩ := view_cons (c := c) h.archive
  rw [hview]
  exact lookup_cons_of_some hkey hvalue

theorem Stored.bestIs : BestIs chain (files.view c) hash := by
  obtain hbest | ⟨hnone, hhash⟩ := h.best
  · exact .inl (h.lookup_current hbest rfl)
  · exact .inr ⟨lookup_view_eq_none h.archive hnone, hhash⟩

theorem Stored.like (hlike : Like files files') : Stored chain files' c hash where
  settled := h.settled.congr hlike.marked
  archive := hlike.archive.trans h.archive
  usage := hlike.contents c ▸ h.usage
  genesis := hlike.contents c ▸ h.genesis
  details := hlike.contents c ▸ h.details
  best := funext hlike.contents ▸ h.best

/-- Nothing is to be finished, so opening creates files and nothing else. -/
theorem Stored.openOps : chain.openOps files = (List.finRange 5).map FileOp.create := by
  obtain ⟨genesis, hgenesis⟩ := h.genesis
  obtain ⟨n, husage⟩ := h.usage
  have hall := files.like_creates (List.finRange 5)
  rw [openOps_eq (.settled h.settled) h.archive (h.lookup_current hgenesis rfl), husage,
    if_neg (by simp), List.append_nil, PieceFiles.openOps, createOps,
    (h.settled.congr hall.marked).recover, List.append_nil]

theorem Stored.open_take (k : Nat) :
    Like files (files.applyAll ((chain.openOps files).take k)) := by
  rw [h.openOps, ← List.map_take]
  exact files.like_creates _

end Stored

/-! ## The memory after opening -/

section

variable (hrunning : Running files (chain.openMemory files).db false c)
  (harchive : files.archive = [])

include hrunning harchive

theorem openMemory_coherent : Coherent (files.view c) (chain.openMemory files).cache := by
  intro key value _ hkey
  have hlisted := hrunning.listed fun _ => harchive
  have hcache : (chain.openMemory files).cache = update (fun _ => none)
    (.details chain.genesisHash) (lookup (files.listed (chain.openMemory files).db)
      (.details chain.genesisHash)) := rfl
  rw [hcache, hlisted] at hkey
  by_cases heq : key = .details chain.genesisHash
  · subst heq
    rwa [update_self] at hkey
  · rw [update_of_ne heq] at hkey
    cases hkey

theorem openMemory_lastBlockHash {hash : H256} (hbest : BestIs chain (files.view c) hash) :
    (chain.openMemory files).lastBlockHash = hash := by
  have hlisted : files.listed (files.openDb false) = files.view c :=
    hrunning.listed fun _ => harchive
  unfold openMemory
  dsimp only
  rw [hlisted]
  obtain hbest | ⟨hbest, rfl⟩ := hbest
  · rw [hbest]
  · rw [hbest]

end

theorem Stored.idle {hash : H256} (h : Stored chain files c hash)
    (hpresent : ∀ i, (files.live i).isSome) :
    Idle chain files (chain.openMemory files) c ∧
      (chain.openMemory files).lastBlockHash = hash := by
  have hrunning : Running files (chain.openMemory files).db false c := ⟨h.settled, hpresent, rfl⟩
  have hlast := openMemory_lastBlockHash hrunning h.archive h.bestIs
  refine ⟨⟨?_, hrunning, openMemory_coherent hrunning h.archive⟩, hlast⟩
  rw [hlast]
  exact h

/-- Opening leaves the files as they are, and the best block is the last one. -/
theorem Stored.opened {hash : H256} (h : Stored chain files c hash)
    (hopen : files' = files.applyAll (chain.openOps files)) :
    Idle chain files' (chain.openMemory files') c ∧
      (chain.openMemory files').lastBlockHash = hash := by
  have hlike := h.open_take (chain.openOps files).length
  rw [List.take_length, ← hopen] at hlike
  apply (h.like hlike).idle
  intro i
  rw [hopen, h.openOps]
  exact isSome_creates (.inl (List.mem_finRange i))

/-! ## What an import reads -/

theorem parentDetails_eq {details : BlockDetails} (hcache : Coherent pieces cache)
    (hlookup : lookup pieces (.details block.parentHash) = some (.details details)) :
    parentDetails pieces cache block = { details with children := [block.hash] } := by
  rw [parentDetails, hcache.detailsOf hlookup]

theorem parentDetails_congr (hcache : Coherent pieces cache) (hcache' : Coherent pieces' cache')
    (hlookup : lookup pieces (.details block.parentHash) =
      lookup pieces' (.details block.parentHash)) :
    parentDetails pieces cache block = parentDetails pieces' cache' block := by
  rw [parentDetails, parentDetails, detailsOf, detailsOf, hcache.query_details,
    hcache'.query_details, hlookup]

def Rotates (chain : ChainDb) (files : Files) (memory : Memory) (block : ImportedBlock) : Prop :=
  chain.needsRotation (usageOf (files.listed memory.db) +
    writeSize (prepareDbData (files.listed memory.db) memory.cache block)) = true

theorem prepare_of_not_rotates (h : ¬ Rotates chain files memory block) :
    chain.prepare files memory block =
      { ops := [], db := memory.db, cache := memory.cache
        usage := usageOf (files.listed memory.db) +
          writeSize (prepareDbData (files.listed memory.db) memory.cache block) } := by
  unfold prepare
  exact if_neg h

def copied (chain : ChainDb) (files : Files) (memory : Memory) (block : ImportedBlock) :
    BlockDetails :=
  detailsOf (files.listed memory.db)
    (prepareCache (files.listed memory.db) memory.cache block) chain.genesisHash

theorem prepare_of_rotates (h : Rotates chain files memory block) :
    (chain.prepare files memory block).ops =
        chain.rotationOps memory.db (chain.copied files memory block) ∧
      (chain.prepare files memory block).db = memory.db.rotated false ∧
      (chain.prepare files memory block).cache =
        update (fun _ => none) (.details chain.genesisHash)
          (some (.details (chain.copied files memory block))) ∧
      (chain.prepare files memory block).usage =
        writeSize (prepareDbData ((files.applyAll (chain.prepare files memory block).ops).listed
          (chain.prepare files memory block).db) (chain.prepare files memory block).cache
          block) := by
  rw [Rotates] at h
  unfold prepare
  dsimp only
  rw [if_pos h]
  exact ⟨rfl, rfl, rfl, rfl⟩

/-! ## What an import commits -/

theorem details_ne_usage (hash : H256) : ChainKey.details hash ≠ .pieceUsageBytes := nofun

section Written

variable {usage : Nat} {value : Option ChainValue}

/-- The keys that an import writes whatever it reads. -/
theorem finalBatch_keys :
    [.pieceUsageBytes, .best, .details block.hash, .details block.parentHash] ⊆
      (finalBatch pieces (prepareDbData pieces' cache block) block usage).map (·.1) := by
  simp [finalBatch, prepareDbData]

theorem usage_of_mem_finalBatch (h : (.pieceUsageBytes, value) ∈
    finalBatch pieces (prepareDbData pieces' cache block) block usage) :
    value = some (.number usage) := by
  simpa [finalBatch, prepareDbData, alteredBlooms] using h

theorem details_of_mem_finalBatch {hash : H256} (h : (.details hash, value) ∈
    finalBatch pieces (prepareDbData pieces' cache block) block usage) :
    ∃ details, value = some (.details details) := by
  simp [finalBatch, prepareDbData, alteredBlooms] at h
  obtain ⟨_, rfl⟩ | ⟨_, rfl⟩ := h
  · exact ⟨_, rfl⟩
  · exact ⟨_, rfl⟩

theorem best_of_mem_finalBatch (h : (.best, value) ∈
    finalBatch pieces (prepareDbData pieces' cache block) block usage) :
    value = some (.hash block.hash) := by
  simpa [finalBatch, prepareDbData, alteredBlooms] using h

/-- What an import writes to keys that are cached, it caches, except for the details of
the block itself. -/
theorem prepareCache_of_mem (hkey : isCached key = true) (hne : key ≠ .details block.hash)
    (h : (key, value) ∈ finalBatch pieces (prepareDbData pieces' cache block) block usage) :
    value = prepareCache pieces' cache block key ∧ ∃ v, value = some v ∧ v.isEmpty = false := by
  cases key with
  | details hash =>
    simp [finalBatch, prepareDbData, alteredBlooms] at h hne
    obtain ⟨rfl, rfl⟩ := h.resolve_right fun h => hne h.1
    simp [prepareCache, alteredBlooms, ChainValue.isEmpty]
  | blocksBlooms level index =>
    simp [finalBatch, prepareDbData, alteredBlooms] at h
    obtain ⟨⟨rfl, rfl⟩, rfl⟩ | ⟨⟨rfl, rfl⟩, rfl⟩ := h
    · simp [prepareCache, alteredBlooms, ChainValue.isEmpty]
    · simp [prepareCache, alteredBlooms, ChainValue.isEmpty]
  | _ => cases hkey

theorem prepareCache_of_not_mem
    (h : key ∉ (finalBatch pieces (prepareDbData pieces' cache block) block usage).map (·.1)) :
    prepareCache pieces' cache block key = cache key := by
  simp [finalBatch, prepareDbData] at h
  simp [prepareCache, h]

end Written

/-- The caches agree with the database after the commit, if the block is new. -/
theorem Coherent.commit (h : Coherent (files.view c) cache)
    (hlive : (files.live c).isSome) (hnew : cache (.details block.hash) = none)
    (hne : block.hash ≠ block.parentHash) (pieces : List ChainPiece) (usage : Nat) :
    Coherent ((files.apply (.write c (finalBatch pieces
        (prepareDbData (files.view c) cache block) block usage))).view c)
      (prepareCache (files.view c) cache block) := by
  intro key value hkey hvalue
  obtain ⟨rest, hview, hview'⟩ := view_write hlive
    (finalBatch pieces (prepareDbData (files.view c) cache block) block usage)
  rw [hview']
  have hother : key ≠ .details block.hash := by
    rintro rfl
    simp [prepareCache, alteredBlooms, hne, hnew] at hvalue
  by_cases hmem : key ∈ (finalBatch pieces (prepareDbData (files.view c) cache block) block
      usage).map (·.1)
  · obtain ⟨hwritten, v, hv, hempty⟩ := @writeBatch_property _ _ _
      (fun v => v = prepareCache (files.view c) cache block key ∧
        ∃ w, v = some w ∧ w.isEmpty = false) (files.contents c) _ _
      (fun _ => prepareCache_of_mem hkey hother) (.inr hmem)
    obtain rfl : v = value := Option.some.inj (hv.symm.trans (hwritten.trans hvalue))
    exact lookup_cons_of_some hv hempty
  · have hsame := writeBatch_property (· = files.contents c key)
      (fun v hv => absurd (List.mem_map_of_mem hv) hmem) (.inl rfl)
    rw [prepareCache_of_not_mem hmem] at hvalue
    have hlookup := h key value hkey hvalue
    rw [hview] at hlookup
    exact (lookup_cons_congr hsame).trans hlookup

/-- After the commit the block is the best one. -/
theorem stored_commit (hsettled : Settled files c) (hlive : (files.live c).isSome)
    (harchive : files.archive = [])
    (hgenesis : ∃ details, files.contents c (.details chain.genesisHash) =
      some (.details details))
    (pieces pieces' : List ChainPiece) (cache : ChainPiece) (usage : Nat) :
    Stored chain (files.apply (.write c
      (finalBatch pieces (prepareDbData pieces' cache block) block usage))) c block.hash := by
  have hcontents := congrFun (contents_writeBatch hlive
    (finalBatch pieces (prepareDbData pieces' cache block) block usage)) c
  rw [update_self] at hcontents
  refine ⟨hsettled.congr (congrFun (isMarked_write _ _ _)), harchive, ?_, ?_, ?_, .inl ?_⟩
  all_goals rw [hcontents]
  · exact writeBatch_property (fun value => ∃ n, value = some (.number n))
      (fun value hvalue => ⟨usage, usage_of_mem_finalBatch hvalue⟩)
      (.inr (finalBatch_keys (.head _)))
  · exact writeBatch_property (fun value => ∃ details, value = some (.details details))
      (fun value hvalue => details_of_mem_finalBatch hvalue) (.inl hgenesis)
  · refine writeBatch_property (fun value => ∃ details, value = some (.details details))
      (fun value hvalue => details_of_mem_finalBatch hvalue) (.inr (finalBatch_keys ?_))
    simp
  · exact writeBatch_property (· = some (.hash block.hash))
      (fun _ => best_of_mem_finalBatch) (.inr (finalBatch_keys (.tail _ (.head _))))

end Skaled.ChainDb
