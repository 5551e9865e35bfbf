import Skaled.RlpStream

/-! # Reading trees

`RLP` reads a list in three ways: it counts the items, it iterates over them, and it
finds them by index with a cursor that it keeps from one access to the next. On a
list that the strict constructor accepts they find the same items, whatever was
looked up before. A strict walk over everything then accepts just the encodings of
trees, and each of them encodes one tree.
-/

namespace Skaled.Rlp

open BigEndian
open Option (bind_eq_bind bind_some map_some)
open List (append_assoc drop_left flatten_cons getD_eq_default mem_cons_of_mem mem_cons_self)

/-! ## Access by index -/

/-- An `RLP` with its list-indexing cache. -/
structure Reader where
  data : Bytes
  lastIndex : Nat
  lastEnd : Nat
  lastItem : Bytes

namespace Reader

/-- A new reader; the index of its cache is `size_t( -1 )`. -/
def make (data : Bytes) : Reader := ⟨data, 2 ^ 64 - 1, 0, []⟩

/-- The first item, when the cursor is behind the index that is asked for. -/
def rewind (r : Reader) : Option Reader := do
  let items ← payload r.data
  let lastEnd ← sizeAsEncoded items
  some { r with lastIndex := 0, lastEnd, lastItem := cropped items 0 lastEnd }

/-- The cursor at the next item. -/
def moveTo (r : Reader) (next : Bytes) : Reader :=
  { r with
    lastIndex := r.lastIndex + 1, lastEnd := r.lastEnd + next.length, lastItem := next }

/-- The loop of `RLP::operator[]`, which moves the cursor by up to `steps` items. -/
def seek : (steps : Nat) → Reader → Option Reader
  | 0, r => some r
  | steps + 1, r =>
    if r.lastItem = [] then some r
    else do
      let items ← payload r.data
      let size ← sizeAsEncoded (items.drop r.lastEnd)
      seek steps (r.moveTo (cropped (items.drop r.lastEnd) 0 size))

/-- `RLP::operator[]`: the item, and the reader with the cursor where it is now. -/
def index (r : Reader) (i : Nat) : Option (Bytes × Reader) := do
  let r ← if i < r.lastIndex then r.rewind else some r
  let r ← seek (i - r.lastIndex) r
  let size ← actualSize r.lastItem
  if r.lastItem.length < size then none else some (r.lastItem, r)

/-- Look up items one after the other. -/
def lookUp (r : Reader) : List Nat → Option (List Bytes × Reader)
  | [] => some ([], r)
  | i :: accesses => do
    let (item, r) ← r.index i
    let (items, r) ← r.lookUp accesses
    some (item :: items, r)

end Reader

/-- The items of a list that the strict constructor accepts. -/
structure HasItems (data : Bytes) (items : List Bytes) : Prop where
  payload : payload data = some items.flatten
  isItem : ∀ x ∈ items, IsItem x
  isList : isList data = true
  short : items.flatten.length < lengthLimit

section Index

variable {data : Bytes} {items : List Bytes}

/-- What follows the first items, from the next one on. -/
theorem drop_flatten_take (items : List Bytes) (k : Nat) :
    items.flatten.drop (items.take k).flatten.length = (items.drop k).flatten := by
  have hsplit : items.flatten = (items.take k).flatten ++ (items.drop k).flatten := by
    rw [← List.flatten_append, List.take_append_drop]
  rw [hsplit, drop_left]

theorem length_flatten_take_succ (items : List Bytes) (k : Nat) :
    (items.take (k + 1)).flatten.length =
      (items.take k).flatten.length + (items.getD k []).length := by
  rw [List.take_add_one, List.flatten_append, List.length_append, List.getD_eq_getElem?_getD]
  cases items[k]? with
  | none => rfl
  | some x => simp

/-- The size of the next item, or zero behind the last one. -/
theorem sizeAsEncoded_flatten (hitems : ∀ x ∈ items, IsItem x) :
    sizeAsEncoded items.flatten = some (items.getD 0 []).length := by
  cases items with
  | nil => rfl
  | cons x rest =>
    rw [flatten_cons]
    exact (hitems x mem_cons_self).sizeAsEncoded _

theorem cropped_flatten (items : List Bytes) :
    cropped items.flatten 0 (items.getD 0 []).length = items.getD 0 [] := by
  cases items with
  | nil => rfl
  | cons x rest => exact cropped_zero_append x rest.flatten

/-- The cursor stands at an item or behind the last one. -/
structure Reader.Placed (items : List Bytes) (r : Reader) (k : Nat) : Prop where
  lastIndex : r.lastIndex = k
  le : k ≤ items.length
  lastItem : r.lastItem = items.getD k []
  lastEnd : r.lastEnd = (items.take (k + 1)).flatten.length

variable {r : Reader}

theorem Reader.rewind_at (h : HasItems data items) (hdata : r.data = data) :
    ∃ r', r.rewind = some r' ∧ r'.data = data ∧ r'.Placed items 0 := by
  unfold Reader.rewind
  rw [hdata, h.payload, bind_eq_bind, bind_some, sizeAsEncoded_flatten h.isItem,
    bind_eq_bind, bind_some, cropped_flatten]
  refine ⟨_, rfl, rfl, rfl, Nat.zero_le _, rfl, ?_⟩
  cases items with
  | nil => rfl
  | cons x rest => simp

theorem length_le_flatten (hitems : ∀ x ∈ items, IsItem x) :
    items.length ≤ items.flatten.length := by
  induction items with
  | nil => exact le_rfl
  | cons x rest ih =>
    have hpos : 0 < x.length := List.length_pos_iff.mpr (hitems x mem_cons_self).1
    have hrest := ih fun y hy => hitems y (mem_cons_of_mem _ hy)
    rw [flatten_cons, List.length_append, List.length_cons]
    omega

section

variable (h : HasItems data items)

include h

/-- Moving the cursor stops behind the last item. -/
theorem Reader.seek_placed {k : Nat}
    (hdata : r.data = data) (hplaced : r.Placed items k) (steps : Nat) :
    ∃ r', seek steps r = some r' ∧ r'.data = data ∧
      r'.Placed items (min (k + steps) items.length) := by
  induction steps generalizing r k with
  | zero =>
    refine ⟨r, rfl, hdata, ?_⟩
    rw [Nat.add_zero, Nat.min_eq_left hplaced.le]
    exact hplaced
  | succ steps ih =>
    by_cases hlast : k = items.length
    · -- the cursor is behind the last item already
      have hnull : r.lastItem = [] := by
        rw [hplaced.lastItem, getD_eq_default _ _ (by omega)]
      refine ⟨r, by rw [seek, if_pos hnull], hdata, ?_⟩
      rw [Nat.min_eq_right (by omega), ← hlast]
      exact hplaced
    · have hlt : k < items.length := by
        have hle := hplaced.le
        omega
      have hitem : r.lastItem = items[k] := by
        rw [hplaced.lastItem, List.getD_eq_getElem _ _ hlt]
      have hne : r.lastItem ≠ [] := by
        rw [hitem]
        exact (h.isItem _ (List.getElem_mem hlt)).1
      have hrest : ∀ x ∈ items.drop (k + 1), IsItem x :=
        fun x hx => h.isItem x (List.mem_of_mem_drop hx)
      have hnext : (items.drop (k + 1)).getD 0 [] = items.getD (k + 1) [] := by
        simp [List.getD_eq_getElem?_getD]
      have hmoved : (r.moveTo (items.getD (k + 1) [])).Placed items (k + 1) := by
        refine ⟨congrArg (· + 1) hplaced.lastIndex, hlt, rfl, ?_⟩
        change r.lastEnd + _ = _
        rw [hplaced.lastEnd]
        exact (length_flatten_take_succ items (k + 1)).symm
      obtain ⟨r', hseek, hdata', hplaced'⟩ := @ih (r.moveTo (items.getD (k + 1) [])) (k + 1)
        hdata hmoved
      refine ⟨r', ?_, hdata', ?_⟩
      · rw [seek, if_neg hne, hdata, h.payload, bind_eq_bind, bind_some,
          hplaced.lastEnd, drop_flatten_take, sizeAsEncoded_flatten hrest, bind_eq_bind,
          bind_some, cropped_flatten, hnext]
        exact hseek
      · rw [show k + (steps + 1) = k + 1 + steps by omega]
        exact hplaced'

/-- A reader of the list, new or used. -/
def Reader.Ready (data : Bytes) (items : List Bytes) (r : Reader) : Prop :=
  r = .make data ∨ r.data = data ∧ ∃ k, r.Placed items k

/-- The end of an access, with the cursor at the item. -/
theorem Reader.seek_index {k i : Nat}
    (hdata : r.data = data) (hplaced : r.Placed items k) (hk : k ≤ i) :
    ∃ r', (do
        let r ← seek (i - r.lastIndex) r
        let size ← actualSize r.lastItem
        if r.lastItem.length < size then none else some (r.lastItem, r)) =
      some (items.getD i [], r') ∧ r'.Ready data items := by
  obtain ⟨r', hseek, hdata', hplaced'⟩ := seek_placed h hdata hplaced (i - k)
  have hitem : r'.lastItem = items.getD i [] := by
    rw [hplaced'.lastItem]
    by_cases hlt : i < items.length
    · rw [show min (k + (i - k)) items.length = i by omega]
    · rw [getD_eq_default _ _ (by omega), getD_eq_default _ _ (by omega)]
  refine ⟨r', ?_, .inr ⟨hdata', _, hplaced'⟩⟩
  rw [hplaced.lastIndex, hseek, bind_eq_bind, bind_some, hitem, actualSize_getD h.isItem]
  simp

/-- Every access finds the item it asks for, whatever was looked up before. -/
theorem Reader.index_eq (hr : r.Ready data items)
    (i : Nat) : ∃ r', r.index i = some (items.getD i [], r') ∧ r'.Ready data items := by
  unfold Reader.index
  by_cases hbehind : i < r.lastIndex
  · have hdata : r.data = data := hr.elim (fun hnew => hnew ▸ rfl) And.left
    obtain ⟨r₁, hrewind, hdata₁, hplaced⟩ := r.rewind_at h hdata
    rw [if_pos hbehind, hrewind, bind_eq_bind, bind_some]
    exact seek_index h hdata₁ hplaced (Nat.zero_le i)
  · rw [if_neg hbehind, bind_eq_bind, bind_some]
    rcases hr with rfl | ⟨hdata, k, hplaced⟩
    · -- no list is so long that it has an item here
      have hlong : items.length ≤ i := by
        have hle := length_le_flatten h.isItem
        have hshort := h.short
        have hi : 2 ^ 64 - 1 ≤ i := Nat.le_of_not_lt hbehind
        rw [lengthLimit] at hshort
        omega
      refine ⟨.make data, ?_, .inl rfl⟩
      have hnull : (Reader.make data).lastItem = [] := rfl
      have hseek : ∀ steps, seek steps (.make data) = some (.make data) := by
        intro steps
        cases steps with
        | zero => rw [seek]
        | succ steps => rw [seek, if_pos hnull]
      rw [getD_eq_default _ _ hlong]
      beta_reduce
      rw [hseek, bind_some, hnull]
      simp [actualSize]
    · have hk : k ≤ i := by
        rw [← hplaced.lastIndex]
        exact Nat.le_of_not_lt hbehind
      exact seek_index h hdata hplaced hk

theorem Reader.lookUp_eq (hr : r.Ready data items) (accesses : List Nat) :
    ∃ r', r.lookUp accesses = some (accesses.map (items.getD · []), r') := by
  induction accesses generalizing r with
  | nil => exact ⟨r, rfl⟩
  | cons i accesses ih =>
    obtain ⟨r₁, hindex, hr₁⟩ := index_eq h hr i
    obtain ⟨r₂, hrest⟩ := ih hr₁
    refine ⟨r₂, ?_⟩
    rw [Reader.lookUp, hindex, bind_eq_bind, bind_some]
    dsimp only
    rw [hrest]
    rfl

end

end Index

/-! ## Iteration -/

/-- `RLP::iterator`: where the current item is in the data, and how much of the list
is behind it. -/
structure Iterator where
  position : Nat
  currentItem : Bytes
  remaining : Nat
  deriving DecidableEq

namespace Iterator

def atEnd (data : Bytes) : Iterator := ⟨data.length, [], 0⟩

def atBegin (data : Bytes) : Option Iterator :=
  if isList data then do
    let pl ← payload data
    let size ← sizeAsEncoded pl
    let currentItem := cropped pl 0 size
    some ⟨payloadOffset data, currentItem, pl.length - currentItem.length⟩
  else some (atEnd data)

/-- `operator++`. -/
def next (data : Bytes) (it : Iterator) : Option Iterator :=
  let position := it.position + it.currentItem.length
  if it.remaining ≠ 0 then do
    let rest := (data.drop position).take it.remaining
    let size ← sizeAsEncoded rest
    let currentItem := cropped rest 0 size
    some ⟨position, currentItem, it.remaining - min it.remaining currentItem.length⟩
  else some ⟨position, [], 0⟩

/-- `operator==` compares where the items are. -/
def isEnd (data : Bytes) (it : Iterator) : Bool :=
  it.position = data.length ∧ it.currentItem.length = 0

/-- A loop over the list; every item is made with the strict constructor. -/
def collect (data : Bytes) : (fuel : Nat) → Iterator → Option (List Bytes)
  | 0, _ => none
  | fuel + 1, it =>
    if it.isEnd data then some []
    else do
      let item ← parse it.currentItem
      let it ← it.next data
      let items ← collect data fuel it
      some (item :: items)

end Iterator

/-- All items by iteration. A list has fewer items than bytes. -/
def iterate (data : Bytes) : Option (List Bytes) := do
  let it ← Iterator.atBegin data
  it.collect data (data.length + 1)

section Iterate

variable {data : Bytes} {items : List Bytes}

/-- One item of the loop. -/
theorem Iterator.collect_succ {it : Iterator} (hitem : IsItem it.currentItem) (fuel : Nat) :
    collect data (fuel + 1) it =
      ((it.next data).bind (collect data fuel)).map (it.currentItem :: ·) := by
  have hpos : 0 < it.currentItem.length := List.length_pos_iff.mpr hitem.1
  have hend : ¬it.isEnd data = true := by
    simp only [isEnd, decide_eq_true_eq]
    omega
  rw [collect, if_neg hend, hitem.parse, bind_eq_bind, bind_some]
  cases it.next data with
  | none => rfl
  | some it' =>
    rw [bind_eq_bind, bind_some, bind_some]
    cases collect data fuel it' <;> rfl

/-- The iterator at the first item of what is left of the data. -/
def Iterator.onto (position : Nat) (rest : Bytes) : Option Iterator :=
  (sizeAsEncoded rest).map fun size =>
    ⟨position, cropped rest 0 size, rest.length - (cropped rest 0 size).length⟩

variable {rest : Bytes}

theorem Iterator.next_eq {before x : Bytes} (hdata : data = before ++ x ++ rest) :
    next data ⟨before.length, x, rest.length⟩ = onto (before ++ x).length rest := by
  unfold next onto
  rw [List.length_append]
  by_cases hrest : rest = []
  · subst hrest
    rfl
  · have hremaining : rest.length ≠ 0 := fun hzero => hrest (List.length_eq_zero_iff.mp hzero)
    have hbytes : (data.drop (before.length + x.length)).take rest.length = rest := by
      rw [hdata, ← List.length_append, drop_left, List.take_length]
    rw [if_pos hremaining, hbytes]
    dsimp only
    cases sizeAsEncoded rest with
    | none => rfl
    | some size =>
      have hleft : rest.length - min rest.length (cropped rest 0 size).length =
          rest.length - (cropped rest 0 size).length := by omega
      rw [bind_eq_bind, bind_some, hleft, map_some]

/-- Behind the last item the loop stops. -/
theorem Iterator.collect_end (data : Bytes) (fuel : Nat) :
    (onto data.length []).bind (collect data (fuel + 1)) = some [] := by
  change collect data (fuel + 1) ⟨data.length, [], 0⟩ = some []
  rw [collect, if_pos (by simp [isEnd])]

theorem cropped_eq_take {size : Nat} (hsize : sizeAsEncoded rest = some size) :
    cropped rest 0 size = rest.take size := by
  unfold sizeAsEncoded at hsize
  obtain ⟨actual, _, hactual⟩ := Option.bind_eq_some_iff.mp hsize
  split at hactual
  · cases hactual
  next hfits =>
    cases hactual
    rw [cropped, if_pos (by omega), List.drop_zero]

/-- From an item on, the loop cuts what is left. -/
theorem Iterator.collect_eq {before : Bytes} {fuel fuel' : Nat} (hdata : data = before ++ rest)
    (hfuel : rest.length ≤ fuel) (hfuel' : rest.length ≤ fuel') :
    (onto before.length rest).bind (collect data (fuel + 1)) = splitItems fuel' rest := by
  fun_induction splitItems fuel' rest generalizing before fuel with
  | case1 =>
    rw [List.append_nil] at hdata
    rw [← hdata, collect_end]
  | case2 => cases hfuel'
  | case3 fuel' n tail ih =>
    rw [onto]
    cases hsize : sizeAsEncoded (n :: tail) with
    | none => rfl
    | some size =>
      obtain ⟨base, p, hencodes⟩ := encodes_take (List.cons_ne_nil n tail) hsize
      have hitem := hencodes.isItem
      have hpos : 0 < ((n :: tail).take size).length := List.length_pos_iff.mpr hitem.1
      have hsplit := List.take_append_drop size (n :: tail)
      have hlength := congrArg List.length hsplit
      rw [List.length_append] at hlength
      have hleft : (n :: tail).length - ((n :: tail).take size).length =
          ((n :: tail).drop size).length := by omega
      have hrest : data = before ++ (n :: tail).take size ++ (n :: tail).drop size := by
        rw [append_assoc, hsplit, hdata]
      obtain ⟨fuel, rfl⟩ : ∃ less, fuel = less + 1 := ⟨fuel - 1, by omega⟩
      rw [map_some, bind_some, cropped_eq_take hsize, hleft, collect_succ hitem, next_eq hrest,
        ih size hrest (by omega) (by omega), bind_eq_bind, bind_some]
      cases splitItems fuel' ((n :: tail).drop size) <;> rfl

/-- Iteration cuts a list like `RLP::toList`. -/
theorem iterate_eq_toList (hdata : IsItem data) (hlist : isList data = true) :
    iterate data = toList data := by
  obtain ⟨p, hencodes⟩ := hdata.encodes_list hlist
  obtain ⟨front, hdataEq, hoffset⟩ : ∃ front, data = front ++ p ∧
      payloadOffset data = front.length := by
    cases hencodes with
    | headed hbase hlimit hneeds => exact ⟨_, rfl, payloadOffset_header hbase hlimit _⟩
  have hlength := congrArg List.length hdataEq
  rw [List.length_append] at hlength
  have hbegin : Iterator.atBegin data = Iterator.onto front.length p := by
    rw [Iterator.atBegin, if_pos hlist, hencodes.payload, hoffset, Iterator.onto, bind_eq_bind,
      bind_some]
    cases sizeAsEncoded p <;> rfl
  rw [iterate, hbegin, toList, if_pos hlist, hencodes.payload]
  exact Iterator.collect_eq hdataEq (show p.length ≤ data.length by omega) le_rfl

theorem HasItems.toList (h : HasItems data items) : toList data = some items := by
  rw [Rlp.toList, if_pos h.isList, h.payload, bind_eq_bind, bind_some,
    splitItems_flatten h.isItem le_rfl]

/-- A list that is iterated to its end consists of items. -/
theorem iterate_spec (hdata : IsItem data) (hlist : isList data = true)
    (h : iterate data = some items) : HasItems data items := by
  rw [iterate_eq_toList hdata hlist] at h
  obtain ⟨_, hpayload, hitems⟩ := toList_eq_some h
  obtain ⟨p, hencodes⟩ := hdata.encodes_list hlist
  have hp := hencodes.payload
  rw [hpayload, Option.some.injEq] at hp
  exact ⟨hpayload, hitems, hlist, hp ▸ hencodes.length_lt⟩

end Iterate

/-! ## Trees -/

def readAll (read : Bytes → Option Tree) : List Bytes → Option (List Tree)
  | [] => some []
  | x :: items => do
    let tree ← read x
    let trees ← readAll read items
    some (tree :: trees)

/-- A strict walk over everything: each item is made with the strict constructor, and
it is a list or a byte string. `levels` bounds the depth. -/
def walk : (levels : Nat) → Bytes → Option Tree
  | 0, _ => none
  | levels + 1, data => do
    let data ← parse data
    if isList data then do
      let items ← iterate data
      let trees ← readAll (walk levels) items
      some (.list trees)
    else if isData data then do
      let bytes ← payload data
      some (.data bytes)
    else none

/-- A walk with as many levels as there are bytes. -/
def read (data : Bytes) : Option Tree := walk data.length data

mutual

/-- The data reads as this tree, in every way it can be read: it is one of a list and
a byte string, a list has its items by count, by iteration and by index in any
order. -/
def Reads : Tree → Bytes → Prop
  | .data bytes, x =>
    parse x = some x ∧ isData x = true ∧ isList x = false ∧ payload x = some bytes
  | .list trees, x =>
    parse x = some x ∧ isData x = false ∧ isList x = true ∧
      ∃ items, itemCount x = some trees.length ∧ iterate x = some items ∧
        (∀ accesses, ((Reader.make x).lookUp accesses).map Prod.fst =
          some (accesses.map (items.getD · []))) ∧
        ReadsAll trees items

def ReadsAll : List Tree → List Bytes → Prop
  | [], items => items = []
  | tree :: trees, items => ∃ x rest, items = x :: rest ∧ Reads tree x ∧ ReadsAll trees rest

end

variable {p x : Bytes} {trees : List Tree} {tree : Tree}

theorem encodeTree_data (h : Encodes 0x80 p x) : encodeTree (.data p) = x := by
  have happend := h.appendBytes_eq
  rw [appendBytes_eq (lt_of_lt_lengthLimit h.length_lt), Option.some.injEq] at happend
  rw [encodeTree]
  exact happend

theorem encodes_encodeTree_data {bytes : Bytes} (hlimit : bytes.length < lengthLimit) :
    Encodes 0x80 bytes (encodeTree (.data bytes)) := by
  obtain ⟨x, _, hencodes⟩ := encodes_appendBytes hlimit
  rw [encodeTree_data hencodes]
  exact hencodes

theorem encodeTree_list (h : Encodes 0xc0 p x)
    (hp : p = encodeTrees trees) : encodeTree (.list trees) = x := by
  subst hp
  cases h with
  | headed hbase hlimit hneeds => rw [encodeTree]

theorem encodes_encodeTree_list (hlimit : (encodeTrees trees).length < lengthLimit) :
    Encodes 0xc0 (encodeTrees trees) (encodeTree (.list trees)) := by
  obtain ⟨x, _, hencodes⟩ := encodes_wrapList hlimit
  rw [encodeTree_list hencodes rfl]
  exact hencodes

/-! ### What is accepted is an encoding -/

theorem encodeTrees_of_readAll {read : Bytes → Option Tree} {items : List Bytes}
    (hread : ∀ x tree, read x = some tree → encodeTree tree = x)
    (h : readAll read items = some trees) : encodeTrees trees = items.flatten := by
  induction items generalizing trees with
  | nil =>
    cases h
    rfl
  | cons x items ih =>
    obtain ⟨tree, htree, h⟩ := Option.bind_eq_some_iff.mp h
    obtain ⟨others, hothers, h⟩ := Option.bind_eq_some_iff.mp h
    cases h
    rw [encodeTrees, hread x tree htree, ih hothers, flatten_cons]

/-- Whatever a strict walk accepts is the encoding of the tree it finds. -/
theorem encodeTree_of_walk {levels : Nat}
    (h : walk levels x = some tree) : encodeTree tree = x := by
  induction levels generalizing x tree with
  | zero => cases h
  | succ levels ih =>
    obtain ⟨data, hparse, hbody⟩ := Option.bind_eq_some_iff.mp h
    obtain ⟨rfl, hitem⟩ := parse_eq_some hparse
    split at hbody
    next hlist =>
      have hdata := hitem (by rintro rfl; cases hlist)
      obtain ⟨items, hitems, hbody⟩ := Option.bind_eq_some_iff.mp hbody
      obtain ⟨trees, htrees, hbody⟩ := Option.bind_eq_some_iff.mp hbody
      cases hbody
      obtain ⟨p, hencodes⟩ := hdata.encodes_list hlist
      have hpayload := (iterate_spec hdata hlist hitems).payload
      rw [hencodes.payload, Option.some.injEq] at hpayload
      exact encodeTree_list hencodes
        (hpayload.trans (encodeTrees_of_readAll (fun x tree => ih) htrees).symm)
    next =>
      split at hbody
      next hisData =>
        have hdata := hitem (by rintro rfl; cases hisData)
        obtain ⟨bytes, hbytes, hbody⟩ := Option.bind_eq_some_iff.mp hbody
        cases hbody
        obtain ⟨p, hencodes⟩ := hdata.encodes_data hisData
        rw [hencodes.payload, Option.some.injEq] at hbytes
        subst hbytes
        exact encodeTree_data hencodes
      next => cases hbody

/-! ### What is written is read back -/

theorem encodeTrees_eq (trees : List Tree) :
    encodeTrees trees = (trees.map encodeTree).flatten := by
  induction trees with
  | nil => rfl
  | cons tree trees ih => rw [encodeTrees, ih, List.map_cons, flatten_cons]

theorem isItem_encodeTree (hlimit : (encodeTree tree).length < lengthLimit) :
    IsItem (encodeTree tree) := by
  cases tree with
  | data bytes =>
    have hlength := length_le_encodeTree_data bytes
    exact (encodes_encodeTree_data (by omega)).isItem
  | list trees =>
    refine (encodes_encodeTree_list ?_).isItem
    rw [encodeTree, List.length_append] at hlimit
    omega

/-- An item of a list is shorter than the list. -/
theorem length_lt_of_mem (h : tree ∈ trees) :
    (encodeTree tree).length < (encodeTree (.list trees)).length := by
  have hsub : (encodeTree tree).length ≤ (encodeTrees trees).length := by
    rw [encodeTrees_eq]
    exact (List.sublist_flatten_of_mem (List.mem_map_of_mem h)).length_le
  have hheader : 0 < (header 0xc0 (encodeTrees trees).length).length := by
    unfold header
    split
    · exact Nat.zero_lt_one
    · exact Nat.succ_pos _
  rw [encodeTree, List.length_append]
  omega

theorem hasItems_encodeTree (hlimit : (encodeTree (.list trees)).length < lengthLimit) :
    HasItems (encodeTree (.list trees)) (trees.map encodeTree) := by
  have hpayload : (encodeTrees trees).length < lengthLimit := by
    rw [encodeTree, List.length_append] at hlimit
    omega
  have hencodes := encodes_encodeTree_list hpayload
  refine ⟨by rw [hencodes.payload, encodeTrees_eq], ?_, hencodes.isList, ?_⟩
  · intro x hx
    obtain ⟨tree, htree, rfl⟩ := List.mem_map.mp hx
    have hlt := length_lt_of_mem htree
    exact isItem_encodeTree (by omega)
  · rw [← encodeTrees_eq]
    exact hpayload

theorem isData_of_encodes_list (h : Encodes 0xc0 p x) : isData x = false := by
  rw [← Bool.not_eq_true, h.isData_iff]
  decide

theorem isList_of_encodes_data (h : Encodes 0x80 p x) : isList x = false := by
  rw [isList_eq x h.isItem.1, h.isData_iff.mpr rfl]
  rfl

theorem readsAll_map (h : ∀ tree ∈ trees, Reads tree (encodeTree tree)) :
    ReadsAll trees (trees.map encodeTree) := by
  induction trees with
  | nil => rw [ReadsAll, List.map_nil]
  | cons tree trees ih =>
    rw [ReadsAll]
    exact ⟨_, _, rfl, h tree mem_cons_self,
      ih fun other hother => h other (mem_cons_of_mem _ hother)⟩

theorem itemCount_eq {data : Bytes} {items : List Bytes} (h : HasItems data items) :
    itemCount data = some items.length := by
  rw [itemCount, if_pos h.isList, h.toList, map_some]

/-- An encoding reads as its tree. -/
theorem reads_encodeTree (hlimit : (encodeTree tree).length < lengthLimit) :
    Reads tree (encodeTree tree) := by
  -- the items of a list are shorter than the list
  induction hlength : (encodeTree tree).length using Nat.strong_induction_on generalizing tree with
  | _ size ih =>
    have hitem := isItem_encodeTree hlimit
    cases tree with
    | data bytes =>
      have hle := length_le_encodeTree_data bytes
      have hencodes : Encodes 0x80 bytes (encodeTree (.data bytes)) :=
        encodes_encodeTree_data (by omega)
      rw [Reads]
      exact ⟨hitem.parse, hencodes.isData_iff.mpr rfl, isList_of_encodes_data hencodes,
        hencodes.payload⟩
    | list trees =>
      have hitems := hasItems_encodeTree hlimit
      obtain ⟨p, hencodes⟩ := hitem.encodes_list hitems.isList
      have hcount := itemCount_eq hitems
      rw [List.length_map] at hcount
      rw [Reads]
      refine ⟨hitem.parse, isData_of_encodes_list hencodes, hitems.isList,
        trees.map encodeTree, hcount, ?_, fun accesses => ?_, ?_⟩
      · rw [iterate_eq_toList hitem hitems.isList, hitems.toList]
      · obtain ⟨r, hlookUp⟩ := Reader.lookUp_eq hitems (.inl rfl) accesses
        rw [hlookUp]
        rfl
      · refine readsAll_map fun child hchild => ?_
        have hlt := length_lt_of_mem hchild
        exact ih _ (by omega) (by omega) rfl

theorem readAll_map {read : Bytes → Option Tree}
    (h : ∀ tree ∈ trees, read (encodeTree tree) = some tree) :
    readAll read (trees.map encodeTree) = some trees := by
  induction trees with
  | nil => rfl
  | cons tree trees ih =>
    rw [List.map_cons, readAll, h tree mem_cons_self,
      ih fun other hother => h other (mem_cons_of_mem _ hother)]
    rfl

/-- The strict walk accepts an encoding. -/
theorem walk_encodeTree {levels : Nat} (hlevels : (encodeTree tree).length ≤ levels)
    (hlimit : (encodeTree tree).length < lengthLimit) :
    walk levels (encodeTree tree) = some tree := by
  have hitem := isItem_encodeTree hlimit
  have hpos : 0 < (encodeTree tree).length := List.length_pos_iff.mpr hitem.1
  induction levels generalizing tree with
  | zero => omega
  | succ levels ih =>
    rw [walk, hitem.parse, bind_eq_bind, bind_some]
    cases tree with
    | data bytes =>
      have hle := length_le_encodeTree_data bytes
      have hencodes : Encodes 0x80 bytes (encodeTree (.data bytes)) :=
        encodes_encodeTree_data (by omega)
      rw [if_neg (by rw [isList_of_encodes_data hencodes]; decide),
        if_pos (hencodes.isData_iff.mpr rfl), hencodes.payload]
      rfl
    | list trees =>
      have hitems := hasItems_encodeTree hlimit
      have hread : readAll (walk levels) (trees.map encodeTree) = some trees := by
        refine readAll_map fun child hchild => ?_
        have hlt := length_lt_of_mem hchild
        have hchildItem : IsItem (encodeTree child) := isItem_encodeTree (by omega)
        exact ih (by omega) (by omega) hchildItem (List.length_pos_iff.mpr hchildItem.1)
      rw [if_pos hitems.isList, iterate_eq_toList hitem hitems.isList, hitems.toList, bind_eq_bind,
        bind_some, hread]
      rfl

theorem maxSize_le_lengthLimit : maxSize ≤ lengthLimit := by decide

/-- Writing and strict reading are inverse: a tree whose encoding fits into a vector is
written; what is written reads as the tree; and whatever a strict walk accepts is
written for one tree, and for no other. -/
theorem write_read_inverse :
    (∀ tree, (encodeTree tree).length < maxSize → write tree = some (encodeTree tree)) ∧
      (∀ tree x, write tree = some x → Reads tree x ∧ read x = some tree) ∧
      ∀ x tree, x.length < maxSize → read x = some tree →
        write tree = some x ∧ ∀ other, write other = some x → other = tree := by
  have hmax := maxSize_le_lengthLimit
  have hback : ∀ tree x, write tree = some x → Reads tree x ∧ read x = some tree := by
    intro tree x hwrite
    obtain ⟨rfl, hfits⟩ := write_eq_some.mp hwrite
    exact ⟨reads_encodeTree (by omega), walk_encodeTree le_rfl (by omega)⟩
  refine ⟨fun tree hfits => write_eq_some.mpr ⟨rfl, hfits⟩, hback, fun x tree hfits hread => ?_⟩
  refine ⟨write_eq_some.mpr ⟨(encodeTree_of_walk hread).symm, hfits⟩, fun other hother => ?_⟩
  have hsame := (hback other x hother).2
  rw [hread, Option.some.injEq] at hsame
  exact hsame.symm

/-- A list of a single byte and an empty list. -/
def pairTree : Tree := .list [.data [1], .list []]

theorem write_read_inverse_pair :
    write pairTree = some [0xc2, 1, 0xc0] ∧ Reads pairTree [0xc2, 1, 0xc0] ∧
      ∀ other, write other = some [0xc2, 1, 0xc0] → other = pairTree := by
  have hwrite : write pairTree = some [0xc2, 1, 0xc0] := by decide +kernel
  obtain ⟨-, hback, hunique⟩ := write_read_inverse
  obtain ⟨hreads, hread⟩ := hback pairTree _ hwrite
  exact ⟨hwrite, hreads, (hunique _ pairTree (by decide) hread).2⟩

end Skaled.Rlp
