import Skaled.Basic

/-! # The bloom index

`BlockChain` keeps the bloom of every block, and of every sixteen blocks, in chunks
of sixteen. A chunk is read from the database once and then stays in memory until the
garbage collector takes it away. `withBlockBloom` goes down from the coarse blooms to
the fine ones, and has to find just the blocks whose own bloom has all bits of the one
it looks for.
-/

namespace Skaled

open Function (update update_eq_self update_of_ne update_self)

abbrev LogBloom := BitVec 2048

namespace LogBloom

def contains (bloom other : LogBloom) : Bool := bloom &&& other == other

/-- `bloomPart<3>`: every two bytes of the hash choose a bit. -/
def bloomPart (hash : H256) : LogBloom :=
  (List.range 3).foldl (fun ret i => ret ||| 1#2048 <<< ((hash >>> (240 - 16 * i)).toNat % 2048)) 0

theorem contains_iff {bloom other : LogBloom} :
    bloom.contains other ↔ ∀ i, other.getLsbD i → bloom.getLsbD i := by
  unfold contains
  rw [beq_iff_eq]
  constructor
  · intro h i hi
    rw [← h, BitVec.getLsbD_and, Bool.and_eq_true] at hi
    exact hi.1
  · intro h
    refine BitVec.eq_of_getLsbD_eq fun i _ => ?_
    rw [BitVec.getLsbD_and, Bool.and_eq_right_iff_imp]
    exact h i

/-- All bits of some blooms. -/
def union (blooms : List LogBloom) : LogBloom := blooms.foldl (· ||| ·) 0

theorem getLsbD_union {blooms : List LogBloom} {i : Nat} :
    (union blooms).getLsbD i ↔ ∃ bloom ∈ blooms, bloom.getLsbD i := by
  induction blooms using List.reverseRecOn with
  | nil => simp [union]
  | append_singleton blooms bloom ih =>
    have hlast : union (blooms ++ [bloom]) = union blooms ||| bloom := by
      simp [union, List.foldl_append]
    rw [hlast, BitVec.getLsbD_or, Bool.or_eq_true, ih]
    simp [or_and_right, exists_or]

end LogBloom

def bloomIndexSize : Nat := 16
def bloomIndexLevels : Nat := 2

/-- The blooms of a chunk, by their offset. -/
abbrev BlocksBlooms := Nat → LogBloom

def nullBlocksBlooms : BlocksBlooms := fun _ => 0

/-- Chunks by their id. -/
abbrev Chunks := Nat → Option BlocksBlooms

def chunkId (level index : Nat) : Nat := (index * 0xff + level) % 2 ^ 32

/-- The chunks in memory and those in the database. -/
structure BloomIndex where
  blocksBlooms : Chunks := fun _ => none
  extrasDB : Chunks := fun _ => none

/-- What the index takes from a block. A block that was caught up partly brings the bloom
of all its receipts along. -/
structure BloomedBlock where
  number : Nat
  logBloom : LogBloom
  logBloomFull : Option LogBloom := none
  author : Address

/-- The log bloom together with the author. -/
def BloomedBlock.blockBloom [Keccak] (block : BloomedBlock) : LogBloom :=
  block.logBloomFull.getD block.logBloom |||
    LogBloom.bloomPart (sha3 (BigEndian.encode 20 block.author.toNat))

namespace BloomIndex

/-! ## Reading and writing -/

/-- `queryExtras`. -/
def queryBlooms (id : Nat) : StateM BloomIndex BlocksBlooms := fun index =>
  match index.blocksBlooms id with
  | some blooms => (blooms, index)
  | none =>
    match index.extrasDB id with
    | none => (nullBlocksBlooms, index)
    | some blooms =>
      (blooms, { index with blocksBlooms := update index.blocksBlooms id (some blooms) })

/-- The chunk of a block at every level, and its offset there. -/
def places (number : Nat) : List (Nat × Nat) :=
  (List.range bloomIndexLevels).map fun level =>
    let index := number % 2 ^ 32 / bloomIndexSize ^ level
    (chunkId level (index / bloomIndexSize), index % bloomIndexSize)

def addBloom (bloom : LogBloom) (place : Nat × Nat) (chunks : Chunks) : Chunks :=
  let blooms := (chunks place.1).getD nullBlocksBlooms
  update chunks place.1 (some (update blooms place.2 (blooms place.2 ||| bloom)))

/-- The blooms of `prepareDbDataAndReturnSize`: chunks are read first, then changed in
memory and written. -/
def insertBlock [Keccak] (index : BloomIndex) (block : BloomedBlock) : BloomIndex :=
  let altered := places block.number
  let memoized := altered.foldl (fun index place => (queryBlooms place.1 index).2) index
  let chunks := altered.foldl (fun chunks place => addBloom block.blockBloom place chunks)
    memoized.blocksBlooms
  { blocksBlooms := chunks
    extrasDB := altered.foldl (fun db place =>
      update db place.1 (some ((chunks place.1).getD nullBlocksBlooms))) memoized.extrasDB }

section Search

variable (b : LogBloom) (earliest latest : Nat)

/-- One call of `withBlockBloom` at a level; `inner` is what is done with an item found. -/
def visit (level index : Nat) (inner : Nat → StateM BloomIndex (List Nat)) :
    StateM BloomIndex (List Nat) := do
  let uCourse := bloomIndexSize ^ (level + 1)
  let uFine := bloomIndexSize ^ level
  let obegin := if index = earliest / uCourse then earliest / uFine % bloomIndexSize else 0
  let oend := if index = latest / uCourse then latest / uFine % bloomIndexSize + 1
    else bloomIndexSize
  let bb ← queryBlooms (chunkId level index)
  let ret ← (List.range' obegin (oend - obegin)).mapM fun o =>
    if (bb o).contains b then inner (o + index * bloomIndexSize) else pure []
  pure ret.flatten

def withBlockBloomFrom : (level index : Nat) → StateM BloomIndex (List Nat)
  | 0, index => visit b earliest latest 0 index fun item => pure [item]
  | level + 1, index =>
    visit b earliest latest (level + 1) index fun item => withBlockBloomFrom level item

def withBlockBloom : StateM BloomIndex (List Nat) := do
  let u := bloomIndexSize ^ bloomIndexLevels
  let ret ← (List.range' (earliest / u) (latest / u + 1 - earliest / u)).mapM
    (withBlockBloomFrom b earliest latest (bloomIndexLevels - 1))
  pure ret.flatten

end Search

/-- What happens to the index. The garbage collector takes some chunks out of memory and
`clearCaches` all; every search reads chunks one after the other. -/
inductive Event where
  | insertBlock (block : BloomedBlock)
  | evict (ids : Nat → Bool)
  | query (id : Nat)

def apply [Keccak] (index : BloomIndex) : Event → BloomIndex
  | .insertBlock block => index.insertBlock block
  | .evict ids =>
    { index with blocksBlooms := fun id => if ids id then none else index.blocksBlooms id }
  | .query id => (queryBlooms id index).2

def run [Keccak] (events : List Event) : BloomIndex := events.foldl apply {}

def inserted (events : List Event) : List BloomedBlock :=
  events.filterMap fun
    | .insertBlock block => some block
    | _ => none

/-! ## Programs that read -/

/-- Chunks in memory are those of the database. -/
def Coherent (index : BloomIndex) : Prop :=
  ∀ id blooms, index.blocksBlooms id = some blooms → index.extrasDB id = some blooms

/-- With this database the program gives the value, and the database stays. -/
def Computes {α : Type} (db : Chunks) (x : StateM BloomIndex α) (value : α) : Prop :=
  ∀ index : BloomIndex, index.Coherent → index.extrasDB = db →
    (x index).1 = value ∧ (x index).2.Coherent ∧ (x index).2.extrasDB = db

section

variable {α β : Type} {db : Chunks} {x : StateM BloomIndex α} {value : α}

theorem Computes.pure (db : Chunks) (value : α) :
    Computes db (Pure.pure value) value := fun _ hcoherent hdb => ⟨rfl, hcoherent, hdb⟩

theorem Computes.bind {f : α → StateM BloomIndex β} {result : β} (hx : Computes db x value)
    (hf : Computes db (f value) result) : Computes db (x >>= f) result := by
  intro index hcoherent hdb
  obtain ⟨hvalue, hcoherent', hdb'⟩ := hx index hcoherent hdb
  change (f (x index).1 (x index).2).1 = _ ∧ (f (x index).1 (x index).2).2.Coherent ∧
    (f (x index).1 (x index).2).2.extrasDB = _
  rw [hvalue]
  exact hf _ hcoherent' hdb'

theorem Computes.mapM {items : List α} {f : α → StateM BloomIndex β} {g : α → β}
    (hf : ∀ item ∈ items, Computes db (f item) (g item)) :
    Computes db (items.mapM f) (items.map g) := by
  induction items with
  | nil =>
    rw [List.mapM_nil]
    exact .pure db _
  | cons item rest ih =>
    rw [List.mapM_cons]
    exact .bind (hf item List.mem_cons_self)
      (.bind (ih fun other hmem => hf other (List.mem_cons_of_mem item hmem)) (.pure db _))

end

/-- The chunk that the database has. -/
def chunk (db : Chunks) (id : Nat) : BlocksBlooms :=
  (db id).getD nullBlocksBlooms

section

variable {index : BloomIndex} (hcoherent : index.Coherent)

include hcoherent

/-- A chunk that was read is in memory, just if the database has it. -/
theorem queryBlooms_eq (id : Nat) :
    queryBlooms id index = (chunk index.extrasDB id,
      { index with blocksBlooms := update index.blocksBlooms id (index.extrasDB id) }) := by
  have hself := update_eq_self id index.blocksBlooms
  unfold queryBlooms chunk
  cases hcached : index.blocksBlooms id with
  | some blooms =>
    rw [hcached] at hself
    rw [hcoherent id blooms hcached, hself]
    rfl
  | none =>
    rw [hcached] at hself
    cases index.extrasDB id with
    | none => rw [hself]; rfl
    | some blooms => rfl

theorem Coherent.query (id : Nat) : (queryBlooms id index).2.Coherent := by
  rw [queryBlooms_eq hcoherent]
  intro other blooms hblooms
  by_cases heq : other = id
  · subst heq
    exact (update_self other _ _).symm.trans hblooms
  · exact hcoherent other blooms ((update_of_ne heq _ _).symm.trans hblooms)

end

theorem queryBlooms_computes (db : Chunks) (id : Nat) :
    Computes db (queryBlooms id) (chunk db id) := by
  rintro index hcoherent rfl
  refine ⟨?_, hcoherent.query id, ?_⟩
  · rw [queryBlooms_eq hcoherent]
  · rw [queryBlooms_eq hcoherent]

/-! ## Where the blooms are -/

/-- The bloom of an item of a level. -/
def bloomAt (db : Chunks) (level item : Nat) : LogBloom :=
  chunk db (chunkId level (item / bloomIndexSize)) (item % bloomIndexSize)

/-- Chunks of block numbers of 32 bits do not collide, though the ids wrap around. -/
theorem chunkId_inj {level level' index index' : Nat} (hlevel : level < bloomIndexLevels)
    (hlevel' : level' < bloomIndexLevels) (hindex : index * 16 ^ (level + 1) < 2 ^ 32)
    (hindex' : index' * 16 ^ (level' + 1) < 2 ^ 32)
    (h : chunkId level index = chunkId level' index') : level = level' ∧ index = index' := by
  have hsmall : ∀ {level index : Nat}, level < 2 → index * 16 ^ (level + 1) < 2 ^ 32 →
      index < 2 ^ 28 ∧ (level = 1 → index < 2 ^ 24) := by
    intro level index hlevel hindex
    obtain rfl | rfl : level = 0 ∨ level = 1 := by omega
    · omega
    · omega
  -- 16843009 is minus the inverse of 255
  have hmod : _ % _ = _ % _ := (Nat.ModEq.mul_right 16843009 h).add_right (index + index')
  have hindexes := hsmall hlevel hindex
  have hindexes' := hsmall hlevel' hindex'
  unfold bloomIndexLevels at *
  have hsame : index' + level * 16843009 = index + level' * 16843009 := by omega
  omega

section

variable {level level' item item' : Nat} (hlevel : level < bloomIndexLevels)
  (hlevel' : level' < bloomIndexLevels) (hitem : item * 16 ^ level < 2 ^ 32)
  (hitem' : item' * 16 ^ level' < 2 ^ 32)

include hlevel hlevel' hitem hitem'

theorem bloomAt_addBloom (db : Chunks) (bloom : LogBloom) :
    bloomAt (addBloom bloom (chunkId level' (item' / bloomIndexSize), item' % bloomIndexSize) db)
        level item =
      if level = level' ∧ item = item' then bloomAt db level item ||| bloom
      else bloomAt db level item := by
  have hbound : ∀ {k n : Nat}, n * 16 ^ k < 2 ^ 32 → n / 16 * 16 ^ (k + 1) < 2 ^ 32 := by
    intro k n h
    rw [Nat.pow_succ', ← Nat.mul_assoc]
    exact (Nat.mul_le_mul_right _ (Nat.div_mul_le_self n 16)).trans_lt h
  have hid := @chunkId_inj level level' (item / bloomIndexSize) (item' / bloomIndexSize)
    hlevel hlevel' (hbound hitem) (hbound hitem')
  unfold bloomAt addBloom chunk
  by_cases hchunk : chunkId level (item / bloomIndexSize) = chunkId level' (item' / bloomIndexSize)
  · obtain ⟨rfl, hindex⟩ := hid hchunk
    rw [← hindex, update_self]
    by_cases hoffset : item % bloomIndexSize = item' % bloomIndexSize
    · have heq : item = item' := by
        rw [← Nat.div_add_mod item bloomIndexSize, hindex, hoffset, Nat.div_add_mod]
      rw [if_pos ⟨rfl, heq⟩, ← hoffset]
      exact update_self _ _ _
    · rw [if_neg fun h => hoffset (congrArg (· % bloomIndexSize) h.2)]
      exact update_of_ne hoffset _ _
  · rw [update_of_ne hchunk, if_neg]
    rintro ⟨rfl, rfl⟩
    exact hchunk rfl

end

/-! ## Imports -/

theorem places_eq {number : Nat} (hnumber : number < 2 ^ 32) :
    places number = [(chunkId 0 (number / bloomIndexSize), number % bloomIndexSize),
      (chunkId 1 (number / 16 / bloomIndexSize), number / 16 % bloomIndexSize)] := by
  unfold places
  rw [Nat.mod_eq_of_lt hnumber]
  simp [bloomIndexLevels, bloomIndexSize, List.range_succ]

section

variable [Keccak] {index : BloomIndex} {block : BloomedBlock}

/-- The blooms of all blocks that belong to an item. -/
def recordedAt (blocks : List BloomedBlock) (level item : Nat) : LogBloom :=
  .union ((blocks.filter (·.number / bloomIndexSize ^ level = item)).map (·.blockBloom))

/-- Every bloom of the index is that of the blocks that were inserted. -/
structure Records (index : BloomIndex) (blocks : List BloomedBlock) : Prop where
  coherent : index.Coherent
  blooms : ∀ level < bloomIndexLevels, ∀ item, item * 16 ^ level < 2 ^ 32 →
    bloomAt index.extrasDB level item = recordedAt blocks level item

/-- Both chunks are read, changed and written. -/
theorem insertBlock_spec (hcoherent : index.Coherent) (hnumber : block.number < 2 ^ 32) :
    (index.insertBlock block).Coherent ∧
      (index.insertBlock block).extrasDB =
        (places block.number).foldl (fun db place => addBloom block.blockBloom place db)
          index.extrasDB := by
  have hne : chunkId 0 (block.number / bloomIndexSize) ≠
      chunkId 1 (block.number / 16 / bloomIndexSize) := fun h =>
    absurd (chunkId_inj (by decide) (by decide) (by unfold bloomIndexSize; omega)
      (by unfold bloomIndexSize; omega) h).1 (by decide)
  unfold insertBlock
  rw [places_eq hnumber]
  generalize chunkId 0 (block.number / bloomIndexSize) = fine at *
  generalize chunkId 1 (block.number / 16 / bloomIndexSize) = coarse at *
  have hread := queryBlooms_eq (hcoherent.query fine) coarse
  rw [queryBlooms_eq hcoherent] at hread
  simp only [List.foldl_cons, List.foldl_nil, queryBlooms_eq hcoherent, hread]
  constructor
  · intro id blooms hblooms
    by_cases hcoarse : id = coarse
    · subst hcoarse
      simpa [addBloom, hne.symm] using hblooms
    · by_cases hfine : id = fine
      · subst hfine
        simpa [addBloom, hne] using hblooms
      · have hbefore := hcoherent id blooms
        simp only [addBloom, update_of_ne hcoarse, update_of_ne hfine] at hblooms ⊢
        exact hbefore hblooms
  · simp [addBloom, hne, hne.symm]

theorem recordedAt_append (blocks : List BloomedBlock) (level item : Nat) :
    recordedAt (blocks ++ [block]) level item =
      if block.number / bloomIndexSize ^ level = item then
        recordedAt blocks level item ||| block.blockBloom
      else recordedAt blocks level item := by
  unfold recordedAt
  by_cases h : block.number / bloomIndexSize ^ level = item
  · simp [h, LogBloom.union]
  · simp [h]

theorem Records.insertBlock {blocks : List BloomedBlock} (h : index.Records blocks)
    (hnumber : block.number < 2 ^ 32) : (index.insertBlock block).Records (blocks ++ [block]) := by
  obtain ⟨hcoherent, hdb⟩ := insertBlock_spec h.coherent hnumber
  refine ⟨hcoherent, fun level hlevel item hitem => ?_⟩
  rw [hdb, places_eq hnumber, List.foldl_cons, List.foldl_cons, List.foldl_nil,
    bloomAt_addBloom hlevel (by decide) hitem (by omega),
    bloomAt_addBloom hlevel (by decide) hitem (by omega),
    h.blooms level hlevel item hitem, recordedAt_append]
  obtain rfl | rfl : level = 0 ∨ level = 1 := by
    unfold bloomIndexLevels at hlevel
    omega
  · simp [eq_comm]
  · simp [bloomIndexSize, eq_comm]

end

/-! ## Searches -/

section

variable [Keccak] {blocks : List BloomedBlock} {b : LogBloom} {earliest latest level item : Nat}

theorem getLsbD_recordedAt {i : Nat} :
    (recordedAt blocks level item).getLsbD i ↔
      ∃ block ∈ blocks, block.number / bloomIndexSize ^ level = item ∧
        block.blockBloom.getLsbD i := by
  unfold recordedAt
  simp [LogBloom.getLsbD_union, and_assoc]

/-- An item has all the blooms of its blocks. -/
theorem recordedAt_contains {n : Nat} (h : (recordedAt blocks 0 n).contains b) :
    (recordedAt blocks level (n / bloomIndexSize ^ level)).contains b := by
  rw [LogBloom.contains_iff] at h ⊢
  intro i hi
  obtain ⟨block, hblock, hnumber, hbit⟩ := getLsbD_recordedAt.mp (h i hi)
  rw [pow_zero, Nat.div_one] at hnumber
  exact getLsbD_recordedAt.mpr ⟨block, hblock, by rw [hnumber], hbit⟩

variable (blocks b earliest latest) in
/-- The blocks of an item that a search has to find. -/
def matching (u item : Nat) : List Nat :=
  (List.range' (item * u) u).filter fun n =>
    earliest ≤ n ∧ n ≤ latest ∧ (recordedAt blocks 0 n).contains b

theorem mem_matching {u n : Nat} (hu : 0 < u) :
    n ∈ matching blocks b earliest latest u item ↔
      n / u = item ∧ earliest ≤ n ∧ n ≤ latest ∧ (recordedAt blocks 0 n).contains b := by
  unfold matching
  rw [List.mem_filter, List.mem_range'_1, decide_eq_true_eq, Nat.div_eq_iff hu, Nat.mul_comm]
  refine and_congr_left fun _ => ?_
  omega

/-- Blocks of later items come later. -/
theorem pairwise_flatMap_matching {u : Nat} (hu : 0 < u) {items : List Nat} {f : Nat → Nat}
    (hitems : items.Pairwise fun o o' => f o < f o') :
    (items.flatMap fun o => matching blocks b earliest latest u (f o)).Pairwise (· < ·) := by
  refine List.pairwise_flatMap.mpr ⟨fun o _ => (List.pairwise_lt_range' ..).filter _, ?_⟩
  refine hitems.imp fun {o o'} hlt n hn n' hn' => ?_
  rw [mem_matching hu] at hn hn'
  exact lt_of_not_ge fun hle => by have := Nat.div_le_div_right (c := u) hle; omega

variable (hearliest : earliest ≤ latest) (hlatest : latest < 2 ^ 32)

include hearliest hlatest

theorem visit_computes {index : BloomIndex} (hrecords : index.Records blocks)
    (hlevel : level < bloomIndexLevels) {i : Nat}
    (hfirst : earliest / bloomIndexSize ^ (level + 1) ≤ i)
    (hlast : i ≤ latest / bloomIndexSize ^ (level + 1)) {inner : Nat → StateM BloomIndex (List Nat)}
    (hinner : ∀ item, earliest / bloomIndexSize ^ level ≤ item →
      item ≤ latest / bloomIndexSize ^ level → (recordedAt blocks level item).contains b →
      Computes index.extrasDB (inner item)
        (matching blocks b earliest latest (bloomIndexSize ^ level) item)) :
    Computes index.extrasDB (visit b earliest latest level i inner)
      (matching blocks b earliest latest (bloomIndexSize ^ (level + 1)) i) := by
  unfold visit
  unfold bloomIndexSize at *
  dsimp only
  have hcourse : ∀ n, n / 16 ^ (level + 1) = n / 16 ^ level / 16 := fun n => by
    rw [Nat.pow_succ, Nat.div_div_eq_div_mul]
  have horder : earliest / 16 ^ level ≤ latest / 16 ^ level := Nat.div_le_div_right hearliest
  rw [hcourse] at hfirst hlast
  rw [hcourse, hcourse]
  generalize hobegin : (if i = earliest / 16 ^ level / 16 then earliest / 16 ^ level % 16 else 0) =
    obegin
  generalize hoend : (if i = latest / 16 ^ level / 16 then latest / 16 ^ level % 16 + 1 else 16) =
    oend
  have hbegin : obegin + i * 16 = max (i * 16) (earliest / 16 ^ level) := by
    split at hobegin
    · omega
    · omega
  have hend : oend + i * 16 = min (i * 16 + 16) (latest / 16 ^ level + 1) := by
    split at hoend
    · omega
    · omega
  have hitem : ∀ o ∈ List.range' obegin (oend - obegin), Computes index.extrasDB
      (if (chunk index.extrasDB (chunkId level i) o).contains b then inner (o + i * 16)
        else pure [])
      (matching blocks b earliest latest (16 ^ level) (o + i * 16)) := by
    intro o ho
    rw [List.mem_range'_1] at ho
    have hat : chunk index.extrasDB (chunkId level i) o = recordedAt blocks level (o + i * 16) := by
      have hsmall : (o + i * 16) * 16 ^ level ≤ latest :=
        (Nat.le_div_iff_mul_le (by positivity)).mp (by omega)
      rw [← hrecords.blooms level hlevel _ (hsmall.trans_lt hlatest)]
      unfold bloomAt bloomIndexSize
      rw [show (o + i * 16) / 16 = i by omega, show (o + i * 16) % 16 = o by omega]
    rw [hat]
    split
    next hcontains => exact hinner _ (by omega) (by omega) hcontains
    next hcontains =>
      have hnil : matching blocks b earliest latest (16 ^ level) (o + i * 16) = [] := by
        refine List.eq_nil_iff_forall_not_mem.mpr fun n hn => hcontains ?_
        obtain ⟨hn, -, -, hfound⟩ := (mem_matching (by positivity)).mp hn
        exact hn ▸ recordedAt_contains hfound
      rw [hnil]
      exact .pure _ _
  refine .bind (queryBlooms_computes _ _) (.bind (.mapM hitem) ?_)
  have hparts : ((List.range' obegin (oend - obegin)).flatMap fun o =>
      matching blocks b earliest latest (16 ^ level) (o + i * 16)) =
      matching blocks b earliest latest (16 ^ (level + 1)) i := by
    refine List.Pairwise.eq_of_mem_iff (r := (· < ·)) (pairwise_flatMap_matching (by positivity)
      ((List.pairwise_lt_range' ..).imp fun hlt => Nat.add_lt_add_right hlt _))
      ((List.pairwise_lt_range' ..).filter _) fun n => ?_
    rw [List.mem_flatMap, mem_matching (by positivity), hcourse]
    constructor
    · rintro ⟨o, ho, hn⟩
      rw [mem_matching (by positivity)] at hn
      rw [List.mem_range'_1] at ho
      exact ⟨by omega, hn.2⟩
    · rintro ⟨hn, hrange, hrange', hfound⟩
      refine ⟨n / 16 ^ level % 16, List.mem_range'_1.mpr ?_,
        (mem_matching (by positivity)).mpr ⟨by omega, hrange, hrange', hfound⟩⟩
      have := Nat.div_le_div_right (c := 16 ^ level) hrange
      have := Nat.div_le_div_right (c := 16 ^ level) hrange'
      omega
  rw [← List.flatMap_def, hparts]
  exact .pure _ _

theorem withBlockBloomFrom_computes {index : BloomIndex} (hrecords : index.Records blocks)
    (hlevel : level < bloomIndexLevels) {i : Nat}
    (hfirst : earliest / bloomIndexSize ^ (level + 1) ≤ i)
    (hlast : i ≤ latest / bloomIndexSize ^ (level + 1)) :
    Computes index.extrasDB (withBlockBloomFrom b earliest latest level i)
      (matching blocks b earliest latest (bloomIndexSize ^ (level + 1)) i) := by
  induction level generalizing i with
  | zero =>
    refine visit_computes hearliest hlatest hrecords hlevel hfirst hlast fun item hlow hhigh h => ?_
    rw [pow_zero, Nat.div_one] at hlow hhigh
    have hsingle : matching blocks b earliest latest (bloomIndexSize ^ 0) item = [item] := by
      simp [matching, hlow, hhigh, h]
    rw [hsingle]
    exact .pure _ _
  | succ level ih =>
    exact visit_computes hearliest hlatest hrecords hlevel hfirst hlast fun item hlow hhigh _ =>
      ih (Nat.lt_of_succ_lt hlevel) hlow hhigh

end

/-! ## Runs -/

section

variable [Keccak] {blocks : List BloomedBlock} {index : BloomIndex} {events : List Event}

theorem Records.apply (h : index.Records blocks) {event : Event}
    (hnumber : ∀ block ∈ inserted [event], block.number < 2 ^ 32) :
    (index.apply event).Records (blocks ++ inserted [event]) := by
  cases event with
  | insertBlock block => exact h.insertBlock (hnumber block List.mem_cons_self)
  | evict ids =>
    rw [show inserted [.evict ids] = [] from rfl, List.append_nil]
    refine ⟨fun id blooms hblooms => h.coherent id blooms ?_, h.blooms⟩
    change (if ids id then none else index.blocksBlooms id) = _ at hblooms
    exact (Option.ite_none_left_eq_some.mp hblooms).2
  | query id =>
    rw [show inserted [.query id] = [] from rfl, List.append_nil]
    obtain ⟨-, hcoherent, hdb⟩ := queryBlooms_computes _ id index h.coherent rfl
    exact ⟨hcoherent, fun level hlevel item hitem => hdb ▸ h.blooms level hlevel item hitem⟩

theorem records_run (hnumbers : ∀ block ∈ inserted events, block.number < 2 ^ 32) :
    (run events).Records (inserted events) := by
  induction events using List.reverseRecOn with
  | nil => exact ⟨nofun, fun _ _ _ _ => rfl⟩
  | append_singleton events event ih =>
    have hsplit : inserted (events ++ [event]) = inserted events ++ inserted [event] :=
      List.filterMap_append
    rw [hsplit, List.forall_mem_append] at hnumbers
    unfold run
    rw [hsplit, List.foldl_append]
    exact (ih hnumbers.1).apply hnumbers.2

/-- The bloom that is recorded for a block: nothing if the block was not inserted. -/
def recorded (blocks : List BloomedBlock) (number : Nat) : LogBloom :=
  .union ((blocks.filter (·.number = number)).map (·.blockBloom))

/-- After any run a search finds just the blocks of the range with the bloom, each once
and in order. A bloom that is not empty is found for inserted blocks only. -/
theorem withBlockBloom_finds (hnumbers : ∀ block ∈ inserted events, block.number < 2 ^ 28)
    {earliest latest : Nat} (hearliest : earliest ≤ latest) (hlatest : latest < 2 ^ 32)
    (b : LogBloom) :
    ((withBlockBloom b earliest latest (run events)).1).Pairwise (· < ·) ∧
      (∀ n, n ∈ (withBlockBloom b earliest latest (run events)).1 ↔
        earliest ≤ n ∧ n ≤ latest ∧ (recorded (inserted events) n).contains b) ∧
      (b ≠ 0 → ∀ n, (recorded (inserted events) n).contains b →
        ∃ block ∈ inserted events, block.number = n) := by
  have hrecords := records_run fun block hblock => (hnumbers block hblock).trans (by decide)
  have hsearch : Computes (run events).extrasDB (withBlockBloom b earliest latest)
      ((List.range' (earliest / 256) (latest / 256 + 1 - earliest / 256)).flatMap
        (matching (inserted events) b earliest latest 256)) := by
    rw [List.flatMap_def]
    refine .bind (.mapM fun i hi => ?_) (.pure _ _)
    obtain ⟨hlow, hhigh⟩ : earliest / 256 ≤ i ∧ i < earliest / 256 +
      (latest / 256 + 1 - earliest / 256) := List.mem_range'_1.mp hi
    have horder := Nat.div_le_div_right (c := 256) hearliest
    have hlast : i ≤ latest / 256 := by omega
    exact withBlockBloomFrom_computes hearliest hlatest hrecords (by decide) hlow hlast
  have hrecorded : ∀ n, recorded (inserted events) n = recordedAt (inserted events) 0 n := by
    intro n
    simp [recorded, recordedAt]
  rw [(hsearch _ hrecords.coherent rfl).1]
  refine ⟨pairwise_flatMap_matching (f := id) (by decide) (List.pairwise_lt_range' ..),
    fun n => ?_, fun hb n hn => ?_⟩
  · simp only [List.mem_flatMap, mem_matching (u := 256) (by decide), List.mem_range'_1, hrecorded]
    constructor
    · rintro ⟨i, -, -, hn⟩
      exact hn
    · intro hn
      have hlow := Nat.div_le_div_right (c := 256) hn.1
      have hhigh := Nat.div_le_div_right (c := 256) hn.2.1
      exact ⟨n / 256, by omega, rfl, hn⟩
  · rw [hrecorded, LogBloom.contains_iff] at hn
    obtain ⟨i, hi⟩ : ∃ i, b.getLsbD i := by
      by_contra hnone
      exact hb (BitVec.eq_of_getLsbD_eq fun i _ => by simpa using not_exists.mp hnone i)
    obtain ⟨block, hblock, hnumber, -⟩ := getLsbD_recordedAt.mp (hn i hi)
    rw [pow_zero, Nat.div_one] at hnumber
    exact ⟨block, hblock, hnumber⟩

end

/-- A block is found by its log bloom after its chunks left the memory. -/
theorem withBlockBloom_finds_sample :
    letI : Keccak := ⟨fun _ => 0⟩
    300 ∈ (withBlockBloom 1 0 1000
      (run [.insertBlock ⟨300, 1, none, 0⟩, .evict fun _ => true])).1 := by
  let _ : Keccak := ⟨fun _ => 0⟩
  have hnumbers : ∀ block ∈ inserted [.insertBlock ⟨300, 1, none, 0⟩, .evict fun _ => true],
      block.number < 2 ^ 28 := by simp [inserted]
  refine ((withBlockBloom_finds hnumbers (Nat.zero_le 1000) (by decide) 1).2.1 300).mpr
    ⟨by decide, by decide, LogBloom.contains_iff.mpr fun i hi => ?_⟩
  refine LogBloom.getLsbD_union.mpr
    ⟨BloomedBlock.blockBloom ⟨300, 1, none, 0⟩, List.mem_singleton.mpr rfl, ?_⟩
  rw [BloomedBlock.blockBloom, BitVec.getLsbD_or, Option.getD_none, hi]
  rfl

end BloomIndex

end Skaled
