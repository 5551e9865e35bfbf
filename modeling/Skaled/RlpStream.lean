import Skaled.RlpItems

/-! # Writing trees

`RLPStream` writes a tree of byte strings and lists from left to right. The header
of a list is put in front of its items when the last of them is complete, so the
bytes that are there already are moved; completing a list may complete the lists
around it. `appendTree_eq` says that all this comes out as the encoding of the tree.
-/

namespace Skaled.Rlp

open BigEndian
open Option (bind_eq_bind bind_some)

inductive Tree where
  | data (bytes : Bytes)
  | list (items : List Tree)

/-! ## The stream -/

/-- `RLPStream`: what is written, and for each open list, innermost first, how many
items are missing and where it starts. -/
structure Stream where
  out : Bytes
  listStack : List (Nat × Nat)

/-- Vectors are shorter than this. -/
def maxSize : Nat := 2 ^ 63

/-- A vector that has grown; `std::length_error` if it cannot. -/
def grown (out : Bytes) : Option Bytes := if out.length < maxSize then some out else none

def noteAppendedLoop : List (Nat × Nat) → (itemCount : Nat) → Bytes → Option Stream
  | [], _, out => some ⟨out, []⟩
  | (missing, start) :: listStack, itemCount, out =>
    if missing < itemCount then none
    else if missing - itemCount ≠ 0 then
      some ⟨out, (missing - itemCount, start) :: listStack⟩
    else do
      -- what was written since `start` is moved behind the header
      let wrapped ← wrapList (out.drop start)
      let out ← grown (out.take start ++ wrapped)
      noteAppendedLoop listStack 1 out

namespace Stream

def noteAppended (s : Stream) (itemCount : Nat) : Option Stream :=
  if itemCount = 0 then some s else noteAppendedLoop s.listStack itemCount s.out

def appendRaw (s : Stream) (bytes : Bytes) (itemCount : Nat) : Option Stream := do
  let out ← grown (s.out ++ bytes)
  noteAppended { s with out } itemCount

/-- `RLPStream::append( bytesConstRef )`: the bytes of the item, then one item more. -/
def append (s : Stream) (bytes : Bytes) : Option Stream := do
  let item ← appendBytes bytes
  s.appendRaw item 1

/-- `RLPStream::appendList( size_t )`. An empty list is complete at once. -/
def appendList (s : Stream) (items : Nat) : Option Stream :=
  if items ≠ 0 then some { s with listStack := (items, s.out.length) :: s.listStack }
  else do
    let out ← grown (s.out ++ [0xc0])
    appendRaw { s with out } [] 1

def result (s : Stream) : Option Bytes := if s.listStack = [] then some s.out else none

end Stream

mutual

def appendTree : Tree → Stream → Option Stream
  | .data bytes, s => s.append bytes
  | .list items, s => do
    let s ← s.appendList items.length
    appendTrees items s

def appendTrees : List Tree → Stream → Option Stream
  | [], s => some s
  | tree :: trees, s => do
    let s ← appendTree tree s
    appendTrees trees s

end

/-- A tree on a stream of its own. -/
def write (tree : Tree) : Option Bytes := do
  let s ← appendTree tree ⟨[], []⟩
  s.result

/-! ## The encoding -/

mutual

def encodeTree : Tree → Bytes
  | .data bytes =>
    if isOwnEncoding bytes then bytes else header 0x80 bytes.length ++ bytes
  | .list items => header 0xc0 (encodeTrees items).length ++ encodeTrees items

def encodeTrees : List Tree → Bytes
  | [] => []
  | tree :: trees => encodeTree tree ++ encodeTrees trees

end

theorem grown_of_lt {out : Bytes} (h : out.length < maxSize) : grown out = some out := if_pos h

theorem grown_of_le {out : Bytes} (h : maxSize ≤ out.length) : grown out = none :=
  if_neg (Nat.not_lt.mpr h)

theorem grown_eq_some {out out' : Bytes} (h : grown out = some out') :
    out.length < maxSize ∧ out = out' := by
  unfold grown at h
  split at h
  next hlt => exact ⟨hlt, Option.some.inj h⟩
  next => cases h

theorem maxSize_lt : maxSize < 2 ^ 64 := by decide

theorem length_le_appendBytes {bytes item : Bytes} (h : appendBytes bytes = some item) :
    bytes.length ≤ item.length := by
  unfold appendBytes at h
  split at h
  · cases h
    exact le_rfl
  · split at h
    · cases h
      exact Nat.le_succ _
    · obtain ⟨prefixed, _, hitem⟩ := Option.bind_eq_some_iff.mp h
      cases hitem
      rw [List.length_append]
      omega

theorem length_le_encodeTree_data (bytes : Bytes) :
    bytes.length ≤ (encodeTree (.data bytes)).length := by
  rw [encodeTree]
  split
  · exact le_rfl
  · rw [List.length_append]
    omega

/-- A byte string, followed by what its end means for the open lists. -/
theorem append_eq (bytes : Bytes) (s : Stream) :
    s.append bytes =
      (grown (s.out ++ encodeTree (.data bytes))).bind (noteAppendedLoop s.listStack 1) := by
  by_cases hfits : bytes.length < 2 ^ 64
  · unfold Stream.append Stream.appendRaw
    rw [appendBytes_eq hfits, encodeTree]
    rfl
  · have hmax := maxSize_lt
    have hlength := length_le_encodeTree_data bytes
    rw [grown_of_le (by rw [List.length_append]; omega), Option.bind_none]
    unfold Stream.append Stream.appendRaw
    cases hitem : appendBytes bytes with
    | none => rfl
    | some item =>
      have hle := length_le_appendBytes hitem
      rw [bind_eq_bind, bind_some, grown_of_le (by rw [List.length_append]; omega)]
      rfl

theorem appendList_zero (s : Stream) :
    s.appendList 0 =
      (grown (s.out ++ encodeTree (.list []))).bind (noteAppendedLoop s.listStack 1) := by
  have hempty : encodeTree (.list []) = [0xc0] := by
    rw [encodeTree, encodeTrees, header_short (by decide)]
    rfl
  rw [hempty]
  unfold Stream.appendList Stream.appendRaw
  cases hgrown : grown (s.out ++ [0xc0]) with
  | none => simp
  | some out =>
    have hout := (grown_eq_some hgrown).2
    simp [hgrown, ← hout, Stream.noteAppended]

/-- The last item of a list completes it. -/
theorem noteAppendedLoop_last {out items : Bytes} (listStack : List (Nat × Nat))
    (hfits : (out ++ items).length < maxSize) :
    noteAppendedLoop ((1, out.length) :: listStack) 1 (out ++ items) =
      (grown (out ++ (header 0xc0 items.length ++ items))).bind
        (noteAppendedLoop listStack 1) := by
  have hitems : items.length < 2 ^ 64 := by
    have hmax := maxSize_lt
    rw [List.length_append] at hfits
    omega
  rw [noteAppendedLoop, if_neg (by omega), if_neg (by omega), List.drop_left, List.take_left,
    wrapList_eq hitems]
  rfl

/-- An item that is not the last one. -/
theorem noteAppendedLoop_more (missing start : Nat) (listStack : List (Nat × Nat)) (out : Bytes) :
    noteAppendedLoop ((missing + 2, start) :: listStack) 1 out =
      some ⟨out, (missing + 1, start) :: listStack⟩ := by
  rw [noteAppendedLoop, if_neg (by omega), if_pos (by omega)]
  rfl

mutual

/-- A tree is written as its encoding; its end is one item more for the open lists. -/
theorem appendTree_eq (tree : Tree) (s : Stream) :
    appendTree tree s =
      (grown (s.out ++ encodeTree tree)).bind (noteAppendedLoop s.listStack 1) := by
  cases tree with
  | data bytes =>
    rw [appendTree]
    exact append_eq bytes s
  | list items =>
    cases items with
    | nil =>
      rw [appendTree, List.length_nil, appendList_zero]
      cases (grown (s.out ++ encodeTree (.list []))).bind (noteAppendedLoop s.listStack 1) with
      | none => rfl
      | some s' => rw [bind_eq_bind, bind_some, appendTrees]
    | cons tree trees =>
      have hitems := appendTrees_eq tree trees s.out [] s.listStack
      rw [List.append_nil, List.nil_append] at hitems
      rw [appendTree, encodeTree]
      exact hitems
termination_by sizeOf tree

/-- The items of a list, from the first on that is missing. -/
theorem appendTrees_eq (tree : Tree) (trees : List Tree) (out before : Bytes)
    (listStack : List (Nat × Nat)) :
    appendTrees (tree :: trees) ⟨out ++ before, (trees.length + 1, out.length) :: listStack⟩ =
      (grown (out ++ (header 0xc0 (before ++ encodeTrees (tree :: trees)).length ++
        (before ++ encodeTrees (tree :: trees))))).bind (noteAppendedLoop listStack 1) := by
  rw [appendTrees, appendTree_eq tree]
  dsimp only
  by_cases hfits : (out ++ (before ++ encodeTree tree)).length < maxSize
  · rw [List.append_assoc, grown_of_lt hfits, bind_some, bind_eq_bind]
    cases trees with
    | nil =>
      rw [List.length_nil, noteAppendedLoop_last listStack hfits, encodeTrees, encodeTrees,
        List.append_nil]
      cases (grown _).bind (noteAppendedLoop listStack 1) with
      | none => rfl
      | some s => rw [bind_some, appendTrees]
    | cons next trees =>
      have hrest := appendTrees_eq next trees out (before ++ encodeTree tree) listStack
      rw [List.append_assoc, ← encodeTrees] at hrest
      rw [List.length_cons, noteAppendedLoop_more, bind_some]
      exact hrest
  · have hlonger : maxSize ≤ (out ++ (header 0xc0 (before ++ encodeTrees (tree :: trees)).length ++
        (before ++ encodeTrees (tree :: trees)))).length := by
      rw [encodeTrees]
      simp only [List.length_append] at hfits ⊢
      omega
    rw [List.append_assoc, grown_of_le (Nat.le_of_not_lt hfits), grown_of_le hlonger]
    rfl
termination_by sizeOf (tree :: trees)

end

/-- A tree is written just if its encoding fits into a vector, and as its encoding. -/
theorem write_eq (tree : Tree) : write tree = grown (encodeTree tree) := by
  unfold write
  rw [appendTree_eq, List.nil_append, bind_eq_bind]
  cases grown (encodeTree tree) <;> rfl

theorem write_eq_some {tree : Tree} {x : Bytes} :
    write tree = some x ↔ x = encodeTree tree ∧ x.length < maxSize := by
  rw [write_eq]
  constructor
  · intro h
    obtain ⟨hfits, heq⟩ := grown_eq_some h
    exact ⟨heq.symm, heq ▸ hfits⟩
  · rintro ⟨rfl, hfits⟩
    exact grown_of_lt hfits

end Skaled.Rlp
