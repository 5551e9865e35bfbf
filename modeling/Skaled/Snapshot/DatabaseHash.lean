import Mathlib.Data.List.DropRight
import Skaled.Basic

/-! # The hash of a database in a snapshot

`SnapshotManager::computeDatabaseHash` feeds all entries of a LevelDB to one
SHA-256 context, in chunks of `BATCH_CHUNK_SIZE` entries, reopening the database
for each chunk and seeking to the key at which the chunk before it stopped. The
word "start" asks for the first chunk.

An entry is written as its key followed by its value. No length is written, so
the digest depends only on the bytes of all entries put together.

Opening the database and the directory that may be missing are left out.
-/

namespace Skaled

open List (append_nil length_append nil_append)

/-- SHA-256 of all that was written to a context. -/
class Sha256 where
  sha256 : Bytes → H256

export Sha256 (sha256)

def ascii (text : String) : Bytes := text.toList.map fun char => UInt8.ofNat char.toNat

/-- The contents of a LevelDB, in the order of its iterator. -/
structure LevelDB where
  entries : List (Bytes × Bytes)
  sorted : entries.Pairwise fun entry entry' => entry.1 < entry'.1

namespace LevelDB

def pieceUsageBytes : Bytes := ascii "pieceUsageBytes"

def start : Bytes := ascii "start"

/-- `BATCH_CHUNK_SIZE`. -/
class ChunkSize where
  batchChunkSize : Nat
  pos : 0 < batchChunkSize

export ChunkSize (batchChunkSize)

instance : ChunkSize := ⟨10000, by decide⟩

def lookup (db : LevelDB) (key : Bytes) : Option Bytes := db.entries.lookup key

/-- The databases agree, apart from the key that is not hashed. -/
def SameContents (db db' : LevelDB) : Prop :=
  ∀ key, key ≠ pieceUsageBytes → db.lookup key = db'.lookup key

/-- `Seek`: what the iterator still has to visit from the first key that is not
smaller. -/
def seek (db : LevelDB) (key : Bytes) : List (Bytes × Bytes) :=
  db.entries.dropWhile fun entry => entry.1 < key

/-- The loop of `hashBasePartially`, with what was written to the context. -/
def hashEntries [ChunkSize] : List (Bytes × Bytes) → Nat → Bytes → Bytes × List (Bytes × Bytes)
  | [], _, written => (written, [])
  | (key, value) :: rest, counter, written =>
    if counter < batchChunkSize then
      if key = pieceUsageBytes then hashEntries rest counter written
      else hashEntries rest (counter + 1) (written ++ (key ++ value))
    else (written, (key, value) :: rest)

def hashBasePartially [ChunkSize] (db : LevelDB) (written lastHashedKey : Bytes) :
    Bytes × Option Bytes :=
  let todo := if lastHashedKey ≠ start then db.seek lastHashedKey else db.entries
  let (written, rest) := hashEntries todo 0 written
  (written, rest.head?.map (·.1))

/-- The loop of `computeDatabaseHash`, for at most `chunks` rounds. -/
def hashChunks [ChunkSize] [Sha256] (db : LevelDB) :
    (chunks : Nat) → (written lastHashedKey : Bytes) → Option H256
  | 0, _, _ => none
  | chunks + 1, written, lastHashedKey =>
    match db.hashBasePartially written lastHashedKey with
    | (written, none) => some (sha256 written)
    | (written, some lastHashedKey) => hashChunks db chunks written lastHashedKey

/-- `computeDatabaseHash`, if it needs at most `chunks` rounds. -/
def computeDatabaseHash [ChunkSize] [Sha256] (db : LevelDB) (chunks : Nat) : Option H256 :=
  db.hashChunks chunks [] start

/-- `hashBase` reads all entries in one go. -/
def hashBase [Sha256] (db : LevelDB) : H256 :=
  sha256 (db.entries.foldl (fun written entry =>
    if entry.1 = pieceUsageBytes then written else written ++ (entry.1 ++ entry.2)) [])

/-! ## One chunk -/

def counted (entries : List (Bytes × Bytes)) : List (Bytes × Bytes) :=
  entries.filter (·.1 ≠ pieceUsageBytes)

def stream (entries : List (Bytes × Bytes)) : Bytes :=
  (counted entries).flatMap fun entry => entry.1 ++ entry.2

@[simp] theorem counted_append (entries entries' : List (Bytes × Bytes)) :
    counted (entries ++ entries') = counted entries ++ counted entries' := by
  simp [counted]

@[simp] theorem stream_append (entries entries' : List (Bytes × Bytes)) :
    stream (entries ++ entries') = stream entries ++ stream entries' := by
  simp [stream]

/-- These entries fill chunks, the last of them to the end: their number is a
multiple of the size of a chunk, and the last one is counted. -/
structure FillsChunks [ChunkSize] (entries : List (Bytes × Bytes)) : Prop where
  dvd : batchChunkSize ∣ (counted entries).length
  last : ∃ entry ∈ entries.getLast?, entry.1 ≠ pieceUsageBytes

theorem counted_of_last {entries : List (Bytes × Bytes)}
    (h : ∃ entry ∈ entries.getLast?, entry.1 ≠ pieceUsageBytes) : 0 < (counted entries).length := by
  obtain ⟨entry, hlast, hcounted⟩ := h
  have hmem : entry ∈ counted entries := by
    simpa [counted] using ⟨List.mem_of_getLast? hlast, hcounted⟩
  exact List.length_pos_of_mem hmem

theorem start_ne_pieceUsageBytes : start ≠ pieceUsageBytes := by decide

section Chunk

variable [ChunkSize]

/-- The loop writes the entries it passes. It stops at the end, or when the
counter reaches the size of a chunk, right behind a counted entry. -/
theorem hashEntries_spec (todo : List (Bytes × Bytes)) (counter : Nat) (written : Bytes)
    (hcounter : counter ≤ batchChunkSize) :
    ∃ passed rest, todo = passed ++ rest ∧
      hashEntries todo counter written = (written ++ stream passed, rest) ∧
      counter + (counted passed).length ≤ batchChunkSize ∧
      (rest ≠ [] → counter + (counted passed).length = batchChunkSize ∧
        (passed = [] ∨ ∃ entry ∈ passed.getLast?, entry.1 ≠ pieceUsageBytes)) := by
  induction todo generalizing counter written with
  | nil =>
    refine ⟨[], [], rfl, ?_, ?_, fun h => absurd rfl h⟩
    · simp [hashEntries, stream, counted]
    · simpa [counted] using hcounter
  | cons entry todo ih =>
    obtain ⟨key, value⟩ := entry
    by_cases hfull : counter < batchChunkSize
    · by_cases hskip : key = pieceUsageBytes
      · obtain ⟨passed, rest, htodo, hrun, hle, hstop⟩ := ih counter written hcounter
        have hsame : counted ((key, value) :: passed) = counted passed := by
          simp [counted, hskip]
        refine ⟨(key, value) :: passed, rest, by rw [htodo]; rfl, ?_, hsame ▸ hle,
          fun hrest => ?_⟩
        · rw [hashEntries, if_pos hfull, if_pos hskip, hrun]
          simp [stream, hsame]
        · obtain ⟨hcount, hlast⟩ := hstop hrest
          refine ⟨by rw [hsame, hcount], .inr ?_⟩
          -- the chunk is not full yet, so that a counted entry follows
          obtain rfl | ⟨entry, hentry, hne⟩ := hlast
          · simp [counted] at hcount
            omega
          · refine ⟨entry, ?_, hne⟩
            rw [List.getLast?_cons]
            simpa using Option.mem_def.mp hentry ▸ rfl
      · obtain ⟨passed, rest, htodo, hrun, hle, hstop⟩ := ih (counter + 1) _ hfull
        have hmore : counted ((key, value) :: passed) = (key, value) :: counted passed := by
          simp [counted, hskip]
        refine ⟨(key, value) :: passed, rest, by rw [htodo]; rfl, ?_, ?_, fun hrest => ?_⟩
        · rw [hashEntries, if_pos hfull, if_neg hskip, hrun]
          simp [stream, hmore]
        · rw [hmore, List.length_cons]
          omega
        · obtain ⟨hcount, hlast⟩ := hstop hrest
          refine ⟨by rw [hmore, List.length_cons]; omega, .inr ?_⟩
          obtain rfl | ⟨entry, hentry, hne⟩ := hlast
          · exact ⟨(key, value), rfl, hskip⟩
          · refine ⟨entry, ?_, hne⟩
            rw [List.getLast?_cons]
            simpa using Option.mem_def.mp hentry ▸ rfl
    · refine ⟨[], (key, value) :: todo, rfl, ?_, ?_, fun _ => ⟨?_, .inl rfl⟩⟩
      · simp [hashEntries, hfull, stream, counted]
      · simpa [counted] using hcounter
      · simp [counted]
        omega

/-- A whole chunk, from its first entry on. -/
theorem hashEntries_chunk {todo : List (Bytes × Bytes)} (hne : todo ≠ []) (written : Bytes) :
    ∃ passed rest, todo = passed ++ rest ∧ passed ≠ [] ∧
      hashEntries todo 0 written = (written ++ stream passed, rest) ∧
      (counted passed).length ≤ batchChunkSize ∧
      (rest ≠ [] → (counted passed).length = batchChunkSize ∧ FillsChunks passed) := by
  obtain ⟨passed, rest, htodo, hrun, hle, hstop⟩ :=
    hashEntries_spec todo 0 written (Nat.zero_le batchChunkSize)
  have hpassed : passed ≠ [] := by
    rintro rfl
    rw [nil_append] at htodo
    obtain ⟨hcount, _⟩ := hstop (htodo ▸ hne)
    exact absurd (hcount ▸ ChunkSize.pos) (by simp [counted])
  refine ⟨passed, rest, htodo, hpassed, hrun, by rwa [Nat.zero_add] at hle, fun hrest => ?_⟩
  obtain ⟨hcount, hlast⟩ := hstop hrest
  rw [Nat.zero_add] at hcount
  exact ⟨hcount, ⟨hcount ▸ dvd_rfl, hlast.resolve_left hpassed⟩⟩

variable {entries : List (Bytes × Bytes)}

theorem FillsChunks.append {entries' : List (Bytes × Bytes)}
    (h : batchChunkSize ∣ (counted entries).length) (h' : FillsChunks entries') :
    FillsChunks (entries ++ entries') := by
  obtain ⟨entry, hlast, hcounted⟩ := h'.last
  refine ⟨?_, entry, ?_, hcounted⟩
  · rw [counted_append, length_append]
    exact Nat.dvd_add h h'.dvd
  · rw [Option.mem_def] at hlast ⊢
    rw [List.getLast?_append, hlast]
    rfl

theorem FillsChunks.le_length (h : FillsChunks entries) :
    batchChunkSize ≤ (counted entries).length :=
  Nat.le_of_dvd (counted_of_last h.last) h.dvd

/-- A chunk taken from entries that fill chunks leaves nothing, or entries that
fill chunks. -/
theorem FillsChunks.tail {entries' : List (Bytes × Bytes)} (h : FillsChunks (entries ++ entries'))
    (hcount : (counted entries).length = batchChunkSize) :
    entries' = [] ∨ FillsChunks entries' := by
  obtain rfl | hne := eq_or_ne entries' []
  · exact .inl rfl
  · obtain ⟨entry, hlast, hcounted⟩ := h.last
    refine .inr ⟨?_, entry, ?_, hcounted⟩
    · have hdvd := h.dvd
      rw [counted_append, length_append, hcount] at hdvd
      exact (Nat.dvd_add_right dvd_rfl).mp hdvd
    · rwa [List.getLast?_append_of_ne_nil _ hne] at hlast

/-- A chunk taken where entries that fill chunks come first lies inside them. -/
theorem hashEntries_fills {chunk : List (Bytes × Bytes)} (h : FillsChunks chunk) (value : Bytes)
    (rest : List (Bytes × Bytes)) (written : Bytes) :
    ∃ passed mid, chunk = passed ++ mid ∧ (mid = [] ∨ FillsChunks mid) ∧
      hashEntries (chunk ++ (start, value) :: rest) 0 written =
        (written ++ stream passed, mid ++ (start, value) :: rest) := by
  obtain ⟨passed, rest', hsplit, _, hrun, hle, hstop⟩ :=
    hashEntries_chunk (List.append_ne_nil_of_right_ne_nil chunk
      (List.cons_ne_nil (start, value) rest)) written
  obtain ⟨mid, rfl, hmid⟩ | ⟨mid, rfl, rfl⟩ := List.append_eq_append_iff.mp hsplit
  · -- the chunk would contain the word "start", and be too long
    cases mid with
    | nil =>
      rw [append_nil] at hrun
      refine ⟨chunk, [], (append_nil chunk).symm, .inl rfl, ?_⟩
      rw [hrun, nil_append, hmid, nil_append]
    | cons entry mid =>
      obtain ⟨rfl, _⟩ := List.cons.inj hmid
      have hcounted : (start, value) ∈ counted ((start, value) :: mid) := by
        simp [counted, start_ne_pieceUsageBytes]
      have := List.length_pos_of_mem hcounted
      have := h.le_length
      rw [counted_append, length_append] at hle
      omega
  · obtain ⟨hcount, _⟩ := hstop (by simp)
    exact ⟨passed, mid, rfl, h.tail hcount, hrun⟩

end Chunk

/-! ## All chunks -/

section Chunks

variable {db : LevelDB} {passed rest : List (Bytes × Bytes)}

theorem key_lt_of_split {entry : Bytes × Bytes} {entries : List (Bytes × Bytes)}
    (hentries : db.entries = passed ++ entry :: entries) {entry' : Bytes × Bytes}
    (hmem : entry' ∈ passed) : entry'.1 < entry.1 := by
  have hsorted := db.sorted
  rw [hentries, List.pairwise_append] at hsorted
  exact hsorted.2.2 entry' hmem entry (.head _)

/-- Seeking the key at which a chunk stopped goes on with the next entry. -/
theorem seek_split {entry : Bytes × Bytes} {entries : List (Bytes × Bytes)}
    (hentries : db.entries = passed ++ entry :: entries) : db.seek entry.1 = entry :: entries := by
  have hpassed : ∀ entry' ∈ passed, decide (entry'.1 < entry.1) = true := fun entry' hmem =>
    decide_eq_true (key_lt_of_split hentries hmem)
  unfold seek
  rw [hentries, List.dropWhile_append_of_pos hpassed, List.dropWhile_cons_of_neg]
  simp

variable [ChunkSize]

variable {written lastHashedKey : Bytes}

theorem hashBasePartially_eq {todo : List (Bytes × Bytes)} {written' : Bytes}
    (htodo : (if lastHashedKey ≠ start then db.seek lastHashedKey else db.entries) = todo)
    (hrun : hashEntries todo 0 written = (written', rest)) :
    db.hashBasePartially written lastHashedKey = (written', rest.head?.map (·.1)) := by
  unfold hashBasePartially
  rw [htodo]
  dsimp only
  rw [hrun]

/-- The word "start" is a key, and a chunk ends right before it. -/
def Restarts (db : LevelDB) : Prop :=
  ∃ passed value rest, db.entries = passed ++ (start, value) :: rest ∧ FillsChunks passed

variable [Sha256]

/-- From the end of a chunk on everything that is left is hashed, unless a
later chunk ends before the word "start". By induction on what is left. -/
theorem hashChunks_returns (hstart : ¬ db.Restarts) (hentries : db.entries = passed ++ rest)
    (hchunk : batchChunkSize ∣ (counted passed).length)
    (htodo : (if lastHashedKey ≠ start then db.seek lastHashedKey else db.entries) = rest) :
    ∃ chunks, db.hashChunks chunks written lastHashedKey =
      some (sha256 (written ++ stream rest)) := by
  induction hlength : rest.length using Nat.strong_induction_on
    generalizing passed rest written lastHashedKey with
  | _ length ih =>
    obtain rfl | hne := eq_or_ne rest []
    · refine ⟨1, ?_⟩
      simp [hashChunks, hashBasePartially, htodo, hashEntries, stream, counted]
    obtain ⟨chunk, rest', rfl, hnonempty, hrun, _, hstop⟩ := hashEntries_chunk hne written
    have hpartially := hashBasePartially_eq htodo hrun
    cases hrest : rest' with
    | nil =>
      refine ⟨1, ?_⟩
      rw [hashChunks, hpartially, hrest, append_nil]
      rfl
    | cons entry entries =>
      obtain ⟨hcount, hfills⟩ := hstop (hrest ▸ List.cons_ne_nil _ _)
      have hsplit : db.entries = (passed ++ chunk) ++ entry :: entries := by
        rw [hentries, hrest, List.append_assoc]
      have hkey : entry.1 ≠ start := fun heq =>
        hstart ⟨passed ++ chunk, entry.2, entries, by rw [hsplit, ← heq],
          FillsChunks.append hchunk hfills⟩
      have hshorter : (entry :: entries).length < length := by
        have := List.length_pos_of_ne_nil hnonempty
        rw [← hlength, hrest, length_append]
        omega
      have htodo' : (if entry.1 ≠ start then db.seek entry.1 else db.entries) =
          entry :: entries := by
        rw [if_pos hkey, seek_split hsplit]
      obtain ⟨chunks, hchunks⟩ : ∃ chunks,
        db.hashChunks chunks (written ++ stream chunk) entry.1 =
          some (sha256 (written ++ stream chunk ++ stream (entry :: entries))) :=
        ih _ hshorter hsplit (FillsChunks.append hchunk hfills).dvd htodo' rfl
      refine ⟨chunks + 1, ?_⟩
      rw [hashChunks, hpartially, hrest]
      simpa [stream_append, List.append_assoc] using hchunks

/-- Where a chunk ends before the word "start", the loop begins again with the
first entry, and so on. By induction on the number of rounds. -/
theorem hashChunks_restarts (hstart : db.Restarts) {value : Bytes} (chunks : Nat)
    {before chunk : List (Bytes × Bytes)}
    (hentries : db.entries = before ++ (chunk ++ (start, value) :: rest))
    (hfills : FillsChunks chunk)
    (htodo : (if lastHashedKey ≠ start then db.seek lastHashedKey else db.entries) =
      chunk ++ (start, value) :: rest) : db.hashChunks chunks written lastHashedKey = none := by
  induction chunks generalizing written lastHashedKey before chunk value rest with
  | zero => rfl
  | succ chunks ih =>
    obtain ⟨passed, mid, rfl, hmid, hrun⟩ := hashEntries_fills hfills value rest written
    rw [hashChunks, hashBasePartially_eq htodo hrun]
    cases mid with
    | nil =>
      obtain ⟨chunk', value', rest', hentries', hfills'⟩ := hstart
      exact ih (hentries'.trans (nil_append _).symm) hfills' (by rw [← hentries']; simp)
    | cons entry mid =>
      have hsplit : db.entries =
          (before ++ passed) ++ entry :: (mid ++ (start, value) :: rest) := by
        rw [hentries]
        simp
      have hkey : entry.1 ≠ start := by
        have hsplit' : db.entries =
            (before ++ passed ++ entry :: mid) ++ (start, value) :: rest := by
          rw [hentries]
          simp
        have hlt : entry.1 < start := key_lt_of_split hsplit' (by simp)
        exact fun heq => List.lt_irrefl start (heq ▸ hlt)
      refine ih hsplit (hmid.resolve_left (List.cons_ne_nil _ _)) ?_
      dsimp only
      rw [if_pos hkey, seek_split hsplit]
      rfl

/-- The digest, when there is one: nothing but the bytes of all entries. -/
theorem computeDatabaseHash_eq (hstart : ¬ db.Restarts) :
    ∃ chunks, db.computeDatabaseHash chunks = some (sha256 (stream db.entries)) :=
  hashChunks_returns hstart (nil_append db.entries).symm (by simp [counted]) (by simp)

theorem computeDatabaseHash_restarts (hstart : db.Restarts) (chunks : Nat) :
    db.computeDatabaseHash chunks = none := by
  obtain ⟨chunk, value, rest, hentries, hfills⟩ := id hstart
  exact hashChunks_restarts hstart chunks (hentries.trans (nil_append _).symm) hfills
    (by simp [hentries])

omit [ChunkSize] in
theorem hashBase_eq (db : LevelDB) : db.hashBase = sha256 (stream db.entries) := by
  have hloop : ∀ entries : List (Bytes × Bytes), ∀ written, entries.foldl (fun written entry =>
      if entry.1 = pieceUsageBytes then written else written ++ (entry.1 ++ entry.2)) written =
      written ++ stream entries := by
    intro entries
    induction entries with
    | nil => simp [stream, counted]
    | cons entry entries ih =>
      intro written
      rw [List.foldl_cons, ih]
      by_cases hskip : entry.1 = pieceUsageBytes
      · simp [stream, counted, hskip]
      · simp [stream, counted, hskip]
  unfold hashBase
  rw [hloop, nil_append]

/-- In chunks of any size the same bytes are hashed as in one go, if the word "start" is
not a key. -/
theorem computeDatabaseHash_eq_hashBase (hstart : db.lookup start = none) :
    ∃ chunks, db.computeDatabaseHash chunks = some db.hashBase := by
  rw [hashBase_eq]
  refine computeDatabaseHash_eq fun ⟨passed, value, rest, hentries, _⟩ => ?_
  unfold lookup at hstart
  rw [List.lookup_eq_none_iff] at hstart
  exact absurd (hstart (start, value) (by simp [hentries])) (by simp)

end Chunks

/-- Chunks of one entry, with the key that is not counted in the middle. -/
theorem computeDatabaseHash_eq_hashBase_sample :
    letI : ChunkSize := ⟨1, by decide⟩
    letI : Sha256 := ⟨fun bytes => BitVec.ofNat 256 bytes.length⟩
    let db : LevelDB :=
      ⟨[(ascii "a", ascii "b"), (pieceUsageBytes, []), (ascii "x", [])], by decide⟩
    ∃ chunks, db.computeDatabaseHash chunks = some db.hashBase :=
  letI : ChunkSize := ⟨1, by decide⟩
  letI : Sha256 := ⟨fun bytes => BitVec.ofNat 256 bytes.length⟩
  computeDatabaseHash_eq_hashBase (by decide)

/-! ## What the digest binds -/

/-- A database with one entry. -/
def single (key value : Bytes) : LevelDB := ⟨[(key, value)], by simp⟩

/-- The first byte of a string as the key of the rest. -/
def splitFirst : Bytes → LevelDB
  | [] => ⟨[], .nil⟩
  | first :: rest => single [first] rest

theorem stream_single (value : Bytes) : stream (single [] value).entries = value := by
  simp [stream, counted, single, show ([] : Bytes) ≠ pieceUsageBytes by decide]

theorem singleton_ne_pieceUsageBytes (byte : UInt8) : [byte] ≠ pieceUsageBytes := by
  intro heq
  have hlength : 1 = pieceUsageBytes.length := congrArg List.length heq
  exact absurd hlength (by decide)

theorem stream_splitFirst (bytes : Bytes) : stream (splitFirst bytes).entries = bytes := by
  cases bytes with
  | nil => rfl
  | cons first rest =>
    simp [stream, counted, splitFirst, single, singleton_ne_pieceUsageBytes]

/-- A database of at most one entry never begins a second chunk. -/
theorem not_restarts_of_length {db : LevelDB} (hlength : db.entries.length ≤ 1) :
    ¬ db.Restarts := by
  rintro ⟨passed, value, rest, hentries, hfills⟩
  have hcounted := hfills.le_length
  have hle : (counted passed).length ≤ passed.length := List.length_filter_le _ _
  rw [hentries, length_append, List.length_cons] at hlength
  have := ChunkSize.pos
  omega

/-- Two databases that share the bytes of any given one and differ at the empty
key: not both of them have its contents. -/
theorem exists_same_stream (db : LevelDB) :
    ∃ db' : LevelDB, ¬ db'.Restarts ∧ stream db'.entries = stream db.entries ∧
      ¬ db.SameContents db' := by
  by_cases hsame : db.SameContents (single [] (stream db.entries))
  · refine ⟨splitFirst (stream db.entries), not_restarts_of_length ?_, stream_splitFirst _, ?_⟩
    · cases stream db.entries <;> simp [splitFirst, single]
    · intro hsplit
      have hempty : ([] : Bytes) ≠ pieceUsageBytes := by decide
      have hlookup := (hsame [] hempty).symm.trans (hsplit [] hempty)
      cases hstream : stream db.entries with
      | nil | cons first rest => simp [hstream, splitFirst, single, lookup] at hlookup
  · exact ⟨single [] (stream db.entries), not_restarts_of_length (by simp [single]),
      stream_single _, hsame⟩

variable [Sha256]

/-- Whoever has the digest of the database has its contents. -/
def Binds (db : LevelDB) : Prop :=
  ∀ db' chunks chunks' hash, db.computeDatabaseHash chunks = some hash →
    db'.computeDatabaseHash chunks' = some hash → db.SameContents db'

/-- No digest binds the contents of a database: every digest that is computed
belongs to another database as well. Only where no digest comes out at all is
there nothing to collide with. -/
theorem binds_iff_restarts (db : LevelDB) : db.Binds ↔ db.Restarts := by
  refine ⟨fun hbinds => ?_, fun hstart db' chunks chunks' hash hrun => ?_⟩
  · by_contra hstart
    obtain ⟨db', hstart', hstream, hdiffer⟩ := db.exists_same_stream
    obtain ⟨chunks, hrun⟩ := computeDatabaseHash_eq hstart
    obtain ⟨chunks', hrun'⟩ := computeDatabaseHash_eq hstart'
    exact hdiffer (hbinds db' chunks chunks' _ hrun (hstream ▸ hrun'))
  · rw [computeDatabaseHash_restarts hstart] at hrun
    cases hrun

omit [Sha256] in
/-- Bytes moved from the value to the key, and on to a second entry: three
databases with one digest, whatever the hash function is. -/
theorem computeDatabaseHash_collides :
    let whole : LevelDB := single (ascii "a") (ascii "bc")
    let toKey : LevelDB := single (ascii "ab") (ascii "c")
    let toNext : LevelDB := ⟨[(ascii "a", []), (ascii "b", ascii "c")], by decide⟩
    ¬ whole.SameContents toKey ∧ ¬ whole.SameContents toNext ∧
      ∀ _ : Sha256, (whole.computeDatabaseHash 1).isSome ∧
        whole.computeDatabaseHash 1 = toKey.computeDatabaseHash 1 ∧
        whole.computeDatabaseHash 1 = toNext.computeDatabaseHash 1 := by
  refine ⟨fun hsame => ?_, fun hsame => ?_, fun _ => ⟨?_, ?_, ?_⟩⟩
  · exact absurd (hsame (ascii "a") (by decide)) (by decide)
  · exact absurd (hsame (ascii "b") (by decide)) (by decide)
  · rfl
  · rfl
  · rfl

end LevelDB

end Skaled
