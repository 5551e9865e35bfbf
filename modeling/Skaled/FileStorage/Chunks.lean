import Skaled.FileStorage.Precompiled

/-! # Uploaded chunks

A chunk that `uploadChunk` accepts should lie inside the file, its bytes should be
in the input, and the operation should replace just these bytes of the file. The
position and the length are narrowed to 64 bits and added there before they are
compared with the size of the file, so this needs a sum that fits.
-/

namespace Skaled.FileStorage

/-- `WriteChunkOp::execute` on the content of the file. A position that is negative
as a `long` cannot be sought, and the stream then writes nothing. -/
def writeAt (content : Bytes) (position : Nat) (data : Bytes) : Bytes :=
  if data = [] ∨ 2 ^ 63 ≤ position then content
  else (content.rightpad position 0).take position ++ data ++ content.drop (position + data.length)

/-- A new file: a single character behind its other zero bytes. -/
def newContent (size : Nat) : Bytes :=
  if size = 0 ∨ 2 ^ 63 ≤ size then [] else List.replicate (size - 1) 0 ++ [48]

/-- What an operation makes of the regular file at its path. -/
def Op.executeOn (content : Option Bytes) : Op → Option Bytes
  | .createFile _ size => some (newContent size)
  | .createDirectory _ | .calculateFileHash _ => content
  | .deleteFile _ | .deleteDirectory _ => none
  | .writeChunk _ position data => content.map fun bytes => writeAt bytes position data

/-- `content'` has other bytes from `position` on, as many as `data` has, and is the
same as `content` otherwise. -/
structure Replaced (content content' : Bytes) (position : Nat) (data : Bytes) : Prop where
  size : content'.length = content.length
  inside : ∀ i < data.length, content'[position + i]? = data[i]?
  outside : ∀ i, i < position ∨ position + data.length ≤ i → content'[i]? = content[i]?

theorem replaced_writeAt {content : Bytes} {position : Nat} {data : Bytes}
    (hbound : position + data.length ≤ content.length) (hfits : content.length < 2 ^ 63) :
    Replaced content (writeAt content position data) position data := by
  unfold writeAt
  by_cases hempty : data = []
  · rw [if_pos (.inl hempty)]
    subst hempty
    exact ⟨rfl, fun i hi => absurd hi (Nat.not_lt_zero i), fun _ _ => rfl⟩
  · have hposition : ¬2 ^ 63 ≤ position := by omega
    have htake : (content.rightpad position 0).take position = content.take position := by
      rw [List.rightpad, List.take_append_of_le_length (by omega)]
    have hlength : (content.take position).length = position := by
      rw [List.length_take]
      omega
    rw [if_neg (not_or.mpr ⟨hempty, hposition⟩), htake, List.append_assoc]
    refine ⟨?_, ?_, ?_⟩
    · rw [List.length_append, List.length_append, List.length_drop, hlength]
      omega
    · intro i hi
      rw [List.getElem?_append_right (by omega), hlength, Nat.add_sub_cancel_left,
        List.getElem?_append_left hi]
    · intro i hi
      rcases hi with hbefore | hbehind
      · rw [List.getElem?_append_left (by omega), List.getElem?_take_of_lt hbefore]
      · rw [List.getElem?_append_right (by omega), hlength,
          List.getElem?_append_right (by omega), List.getElem?_drop]
        congr 1
        omega

/-! ## What is encoded -/

section Encoded

variable (input : Bytes)

def encodedPosition : Nat := numberAt input 64 (nameLength input)

def encodedLength : Nat := numberAt input 96 (nameLength input)

/-- Where the header ends. -/
def headerLength : Nat := 128 + blocksCount (nameLength input) * 32

/-- The bytes of the chunk, as far as the input has them. -/
def chunkData : Bytes := (input.drop (headerLength input)).take (encodedLength input)

def chunkPath (dataDir : DataDir) : Bytes :=
  append (directory dataDir input) ((fileName input).getD [])

end Encoded

/-- An accepted chunk is inside the file and the input, and its operations change
the file as they should. -/
structure ChunkInside (input : Bytes) (ops : List Op) (file : File) : Prop where
  bounds : encodedPosition input + encodedLength input ≤ file.content.length
  present : (chunkData input).length = encodedLength input
  replaced : ∃ content, ops.foldl Op.executeOn (some file.content) = some content ∧
    Replaced file.content content (encodedPosition input) (chunkData input)

section Accepted

variable {dataDir : DataDir} {os : Os} {input response : Bytes} {did did' : Effects}

theorem toSize_of_lt {n : Nat} (h : n < 2 ^ 64) : toSize n = n := Nat.mod_eq_of_lt h

/-- A copied chunk is what the input has at this place. -/
theorem writeChunk_ok {path : Bytes} {position dataLength start : Nat} {done : Unit}
    (h : writeChunk path position dataLength (cropped input start dataLength) did = .ok done did') :
    ((input.drop start).take dataLength).length = dataLength ∧
      did'.ops = did.ops ++ [.writeChunk path position ((input.drop start).take dataLength)] := by
  unfold cropped at h
  by_cases hinside : start + dataLength ≤ input.length
  · rw [if_pos hinside] at h
    cases h
    refine ⟨?_, rfl⟩
    rw [List.length_take, List.length_drop]
    omega
  · rw [if_neg hinside] at h
    by_cases hzero : dataLength = 0
    · subst hzero
      cases h
      exact ⟨rfl, rfl⟩
    · simp only [writeChunk, if_neg hzero] at h
      split at h <;> cases h

/-- What acceptance means for the numbers as `uploadChunk` has them. -/
theorem uploadChunk_ok {file : File}
    (hfile : os.lookup (chunkPath input dataDir) = some (.file file))
    (h : uploadChunk dataDir os input ⟨[], []⟩ = .ok response did) :
    toSize (toSize (encodedPosition input) + toSize (encodedLength input)) ≤
        file.content.length ∧
      ((input.drop (headerLength input)).take (toSize (encodedLength input))).length =
        toSize (encodedLength input) ∧
      did.ops = [.writeChunk (chunkPath input dataDir) (toSize (encodedPosition input))
        ((input.drop (headerLength input)).take (toSize (encodedLength input)))] := by
  unfold uploadChunk at h
  rw [convertBytesToString_eq] at h
  unfold chunkPath at hfile ⊢
  cases hname : fileName input with
  | none =>
    rw [hname] at h
    cases h
  | some name =>
    rw [hname, Option.getD_some] at hfile
    rw [hname] at h
    simp only [statComputeFileSize, readFile, EStateM.bind_apply, EStateM.modify_apply, hfile,
      EStateM.pure_apply] at h
    split at h
    · cases h
    next hsize =>
      rw [EStateM.bind_apply] at h
      split at h
      · next done did' hwrite =>
          obtain ⟨hpresent, hops⟩ := writeChunk_ok hwrite
          cases h
          exact ⟨Nat.le_of_not_lt hsize, hpresent, hops⟩
      · cases h

/-- An accepted chunk is as it should be just if its end, as it is encoded, fits
into 64 bits. -/
theorem uploadChunk_inside_iff {file : File}
    (hrun : Contract.uploadChunk.run dataDir os input = (some (true, response), did))
    (hfile : os.lookup (chunkPath input dataDir) = some (.file file)) :
    ChunkInside input did.ops file ↔ encodedPosition input + encodedLength input < 2 ^ 64 := by
  have hfits := file.fits
  constructor
  · intro hinside
    have hbounds := hinside.bounds
    omega
  · intro hsum
    have hok : uploadChunk dataDir os input ⟨[], []⟩ = .ok response did := by
      simp only [Contract.run, Contract.body] at hrun
      split at hrun <;> cases hrun
      assumption
    obtain ⟨hbounds, hpresent, hops⟩ := uploadChunk_ok hfile hok
    rw [toSize_of_lt (by omega : encodedLength input < 2 ^ 64)] at hbounds hpresent hops
    rw [toSize_of_lt (by omega : encodedPosition input < 2 ^ 64)] at hbounds hops
    rw [toSize_of_lt hsum] at hbounds
    have hdata : encodedPosition input + (chunkData input).length ≤ file.content.length :=
      hpresent.symm ▸ hbounds
    refine ⟨hbounds, hpresent, ?_⟩
    rw [hops]
    exact ⟨_, rfl, replaced_writeAt hdata hfits⟩

end Accepted

/-! ## A position that wraps -/

def fourBytes : File := ⟨[1, 2, 3, 4], by decide⟩

def fourBytesOs : Os := ⟨[], fun _ => some (.file fourBytes)⟩

/-- A chunk for the file `a` of the zero address. -/
def chunkInput (position dataLength : Nat) (data : Bytes) : Bytes :=
  List.replicate 32 0 ++ BigEndian.encode 32 1 ++ 97 :: List.replicate 31 0 ++
    BigEndian.encode 32 position ++ BigEndian.encode 32 dataLength ++ data

/-- A chunk in the middle of the file. -/
def innerChunk : Bytes := chunkInput 1 2 [8, 9]

theorem uploadChunk_inside_two :
    ChunkInside innerChunk
      (Contract.uploadChunk.run sampleDataDir fourBytesOs innerChunk).2.ops fourBytes := by
  have haccepted : (Contract.uploadChunk.run sampleDataDir fourBytesOs innerChunk).1 =
      some (true, toBigEndian 1) := by decide +kernel
  generalize hrun : Contract.uploadChunk.run sampleDataDir fourBytesOs innerChunk = outcome
    at haccepted
  rcases outcome with ⟨answer, did⟩
  subst haccepted
  have hfile : fourBytesOs.lookup (chunkPath innerChunk sampleDataDir) = some (.file fourBytes) :=
    rfl
  exact (uploadChunk_inside_iff hrun hfile).mpr (by decide +kernel)

def wrappedChunk : Bytes := chunkInput (2 ^ 64) 1 [9]

/-- It is accepted and changes the first byte of the file. -/
theorem wrapped_position_accepted :
    (Contract.uploadChunk.run sampleDataDir fourBytesOs wrappedChunk).1 =
        some (true, toBigEndian 1) ∧
      fourBytesOs.lookup (chunkPath wrappedChunk sampleDataDir) = some (.file fourBytes) ∧
      (Contract.uploadChunk.run sampleDataDir fourBytesOs wrappedChunk).2.ops.foldl Op.executeOn
        (some fourBytes.content) = some [9, 2, 3, 4] ∧
      ¬ChunkInside wrappedChunk
        (Contract.uploadChunk.run sampleDataDir fourBytesOs wrappedChunk).2.ops fourBytes := by
  refine ⟨by decide +kernel, rfl, by decide +kernel, ?_⟩
  intro hinside
  exact absurd hinside.bounds (by decide +kernel)

end Skaled.FileStorage
