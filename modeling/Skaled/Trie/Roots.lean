import Skaled.Trie.Building

/-! # Roots commit to their contents

A root determines the map or the list that it was made from, if the strings that are
hashed have different hashes (`roots_commit`). The counts of the source are 32 bits wide,
and for longer keys and lists this fails (`longer_inputs_share_roots`).
-/

namespace Skaled.Trie

open Rlp
open AList (ext lookup_empty singleton)

/-! ## The map of a list -/

theorem toUnsigned_lt (n : Int) : toUnsigned n < 2 ^ 32 := by
  unfold toUnsigned
  omega

theorem exists_appendInt {i : Nat} (hi : i < 2 ^ 32) : ∃ key, appendInt i = some key := by
  obtain ⟨key, hkey, _⟩ := appendInt_isItem (show i < 2 ^ 256 by omega)
  exact ⟨key, hkey⟩

theorem exists_orderedMap (items : List Bytes) (j : Nat) (map : Map Bytes Bytes) :
    ∃ result, orderedMap j items map = some result := by
  induction items generalizing j map with
  | nil => exact ⟨map, rfl⟩
  | cons item items ih =>
    obtain ⟨key, hkey⟩ := exists_appendInt (toUnsigned_lt j)
    rw [orderedMap, hkey]
    exact ih (j + 1) (map.insert key item)

variable {items : List Bytes} {j : Nat} {key : Bytes} {map map' : Map Bytes Bytes}

/-- Where the entries of the map come from. -/
theorem orderedMap_origin {result : Map Bytes Bytes} (h : orderedMap j items map = some result)
    {value : Bytes} (hvalue : result.lookup key = some value) :
    (value ∈ items ∧ key.length ≤ 5) ∨ map.lookup key = some value := by
  induction items generalizing j map with
  | nil =>
    cases h
    exact .inr hvalue
  | cons item items ih =>
    obtain ⟨position, hposition, h⟩ := Option.bind_eq_some_iff.mp h
    obtain ⟨hmem, hlength⟩ | hlookup := ih h
    · exact .inl ⟨List.mem_cons_of_mem _ hmem, hlength⟩
    · rcases AList.lookup_insert_eq_some hlookup with ⟨rfl, rfl⟩ | hold
      · have hlt := toUnsigned_lt j
        have hle := length_appendInt_le (by omega) hposition
        have hbytes : BigEndian.bytesRequired (toUnsigned j) ≤ 4 :=
          BigEndian.bytesRequired_le (by omega)
        exact .inl ⟨List.mem_cons_self, by omega⟩
      · exact .inr hold

/-- The item at a position, as long as positions do not repeat. -/
theorem orderedMap_lookup {result : Map Bytes Bytes} (h : orderedMap j items map = some result)
    (hlength : j + items.length ≤ 2 ^ 32) {i : Nat} (hi : i < 2 ^ 32)
    (hkey : appendInt i = some key) (hnew : j ≤ i → map.lookup key = none) :
    result.lookup key = if j ≤ i then items[i - j]? else map.lookup key := by
  induction items generalizing j map with
  | nil =>
    cases h
    split
    next hle => rw [hnew hle, List.getElem?_nil]
    next => rfl
  | cons item items ih =>
    rw [List.length_cons] at hlength
    obtain ⟨position, hposition, h⟩ := Option.bind_eq_some_iff.mp h
    rw [toUnsigned_of_lt (by omega)] at hposition
    have hsame : key = position ↔ i = j := by
      constructor
      · rintro rfl
        exact appendInt_inj (by omega) (by omega) (hkey.trans hposition.symm)
      · rintro rfl
        exact Option.some.inj (hkey.symm.trans hposition)
    rw [ih h (by omega) fun hle => ?_, AList.lookup_insert_eq_ite]
    · obtain hlt | rfl | hgt := Nat.lt_trichotomy i j
      · rw [if_neg (by omega), if_neg (by rw [hsame]; omega), if_neg (by omega)]
      · rw [if_neg (by omega), if_pos (hsame.mpr rfl), if_pos le_rfl, Nat.sub_self]
        rfl
      · rw [if_pos (by omega), if_pos (by omega), show i - j = i - (j + 1) + 1 by omega,
          List.getElem?_cons_succ]
    · rw [AList.lookup_insert_eq_ite, if_neg (by rw [hsame]; omega), hnew (by omega)]

theorem Keyed.ofItems (hitems : ∀ item ∈ items, item ≠ [])
    (h : orderedMap 0 items ∅ = some map) : Keyed map := by
  intro key value hvalue
  obtain ⟨hmem, hlength⟩ | hlookup := orderedMap_origin h hvalue
  · exact ⟨hitems value hmem, by omega⟩
  · rw [lookup_empty] at hlookup
    cases hlookup

theorem eq_of_orderedMap {a b : List Bytes} (ha : a.length ≤ 2 ^ 32) (hb : b.length ≤ 2 ^ 32)
    (hmap : orderedMap 0 a ∅ = some map) (hmap' : orderedMap 0 b ∅ = some map')
    (h : ∀ key, map.lookup key = map'.lookup key) : a = b := by
  apply List.ext_getElem?
  intro i
  obtain hi | hi := Nat.lt_or_ge i (2 ^ 32)
  · obtain ⟨key, hkey⟩ := exists_appendInt hi
    have hfirst := orderedMap_lookup hmap (by omega) hi hkey fun _ => lookup_empty key
    have hsecond := orderedMap_lookup hmap' (by omega) hi hkey fun _ => lookup_empty key
    rw [if_pos (Nat.zero_le i), Nat.sub_zero] at hfirst hsecond
    rw [← hfirst, h, hsecond]
  · rw [List.getElem?_eq_none (by omega), List.getElem?_eq_none (by omega)]

/-! ## Equal roots -/

theorem lookup_eq_of_valueAt {a b : Map Bytes Bytes} (ha : Keyed a) (hb : Keyed b)
    (h : ∀ key, valueAt (hexMap a) key = valueAt (hexMap b) key) (key : Bytes) :
    a.lookup key = b.lookup key := by
  have hkey := h (asNibbles key)
  unfold valueAt at hkey
  rw [lookup_hexMap, lookup_hexMap] at hkey
  cases hlookup : a.lookup key with
  | none =>
    cases hlookup' : b.lookup key with
    | none => rfl
    | some value =>
      rw [hlookup, hlookup'] at hkey
      exact absurd hkey.symm (hb key value hlookup').1
  | some value =>
    cases hlookup' : b.lookup key with
    | none =>
      rw [hlookup, hlookup'] at hkey
      exact absurd hkey (ha key value hlookup).1
    | some value' =>
      rw [hlookup, hlookup'] at hkey
      rw [show value = value' from hkey]

section

variable [Keccak]

/-- No two of these strings have the same hash. -/
def NoCollision (strings : List Bytes) : Prop :=
  ∀ x ∈ strings, ∀ y ∈ strings, sha3 x = sha3 y → x = y

/-- The trie behind a root. -/
theorem exists_node_of_hash256 (h : Keyed map) {root : H256} (hroot : hash256 map = some root) :
    ∃ node : Node, (∀ key, node.get key = valueAt (hexMap map) key) ∧ root = sha3 node.rlp ∧
      ∀ x ∈ node.hashed + {node.rlp}, x ∈ hashedStrings map ∧ x.length < maxSize := by
  obtain ⟨node, hget, hruns⟩ := hash256_runs (h.grouped fun _ _ _ => trivial)
  unfold hash256 hash256Logged at hroot
  unfold hashedStrings hash256Logged
  obtain ⟨_, hnone⟩ | ⟨log, hrun, _, hstrings⟩ := hruns []
  · rw [StateT.run, hnone] at hroot
    cases hroot
  · rw [StateT.run, hrun] at hroot ⊢
    exact ⟨node, hget, (Option.some.inj hroot).symm, hstrings⟩

/-- The root of a map determines the map. -/
theorem lookup_eq_of_hash256 {a b : Map Bytes Bytes} (ha : Keyed a) (hb : Keyed b)
    (hcollision : NoCollision (hashedStrings a ++ hashedStrings b)) {root : H256}
    (hroot : hash256 a = some root) (hroot' : hash256 b = some root) (key : Bytes) :
    a.lookup key = b.lookup key := by
  obtain ⟨node, hget, heq, hstrings⟩ := exists_node_of_hash256 ha hroot
  obtain ⟨other, hget', heq', hstrings'⟩ := exists_node_of_hash256 hb hroot'
  have hdistinct : Distinct (node.hashed + {node.rlp}) (other.hashed + {other.rlp}) := by
    intro x hx y hy
    exact hcollision x (List.mem_append_left _ (hstrings x hx).1) y
      (List.mem_append_right _ (hstrings' y hy).1)
  have hself : ∀ {node : Node}, node.rlp ∈ node.hashed + {node.rlp} := fun {node} =>
    Multiset.mem_add.mpr (.inr (Multiset.mem_singleton_self node.rlp))
  have hrlp := hdistinct _ hself _ hself (heq.symm.trans heq')
  have htree := encodeTree_inj (hstrings _ hself).2 hrlp
  have hnode := Node.tree_inj
    (fun x hx => (hstrings x (Multiset.mem_add.mpr (.inl hx))).2)
    (hdistinct.mono (Multiset.le_add_right _ _) (Multiset.le_add_right _ _)) htree
  refine lookup_eq_of_valueAt ha hb (fun key => ?_) key
  rw [← hget, hnode, hget']

/-- A map whose values are not too long has a root. -/
theorem isSome_hash256 (h : Keyed map)
    (hvalues : ∀ key value, map.lookup key = some value → value.length < Node.maxValue) :
    (hash256 map).isSome := by
  have hgrouped : Grouped False [] (hexMap map) := by
    refine h.grouped fun entry hentry hlong => ?_
    obtain ⟨key, _, hlookup⟩ := mem_hexMap hentry
    exact absurd (hvalues key entry.2 hlookup) (Nat.not_lt.mpr hlong)
  obtain ⟨node, _, hruns⟩ := hash256_runs hgrouped
  obtain ⟨hfalse, _⟩ | ⟨log, hrun, _⟩ := hruns []
  · exact hfalse.elim
  · unfold hash256 hash256Logged
    rw [StateT.run, hrun]
    rfl

theorem isSome_orderedTrieRoot (h : ∀ item ∈ items, item ≠ [] ∧ item.length < Node.maxValue) :
    (orderedTrieRoot items).isSome := by
  obtain ⟨map, hmap⟩ := exists_orderedMap items 0 ∅
  unfold orderedTrieRoot
  rw [hmap, Option.bind_eq_bind, Option.bind_some]
  refine isSome_hash256 (Keyed.ofItems (fun item hitem => (h item hitem).1) hmap) ?_
  intro key value hvalue
  obtain ⟨hmem, _⟩ | hlookup := orderedMap_origin hmap hvalue
  · exact (h value hmem).2
  · rw [lookup_empty] at hlookup
    cases hlookup

/-- The strings that `orderedTrieRoot` hashes. -/
def hashedItems (items : List Bytes) : List Bytes :=
  match orderedMap 0 items ∅ with
  | some map => hashedStrings map
  | none => []

/-- Roots commit to their contents, provided that no two of the strings that are hashed
have the same hash. The root of a map with values that are not empty and keys of at most
`2 ^ 30` bytes determines the map; the root of a list of at most `2 ^ 32` items that are not
empty determines the list. Such a map has a root unless its values are too long for
vectors. -/
theorem roots_commit :
    (∀ a b : Map Bytes Bytes, Keyed a → Keyed b →
      NoCollision (hashedStrings a ++ hashedStrings b) →
      ∀ root, hash256 a = some root → hash256 b = some root →
        ∀ key, a.lookup key = b.lookup key) ∧
      (∀ a b : List Bytes, (∀ item ∈ a, item ≠ []) → (∀ item ∈ b, item ≠ []) →
        a.length ≤ 2 ^ 32 → b.length ≤ 2 ^ 32 → NoCollision (hashedItems a ++ hashedItems b) →
        ∀ root, orderedTrieRoot a = some root → orderedTrieRoot b = some root → a = b) ∧
      ∀ a : Map Bytes Bytes, Keyed a →
        (∀ key value, a.lookup key = some value → value.length < Node.maxValue) →
        (hash256 a).isSome := by
  refine ⟨fun a b ha hb hcollision root hroot hroot' =>
    lookup_eq_of_hash256 ha hb hcollision hroot hroot', ?_, ?_⟩
  · intro a b hitems hitems' ha hb hcollision root hroot hroot'
    obtain ⟨map, hmap, hroot⟩ := Option.bind_eq_some_iff.mp hroot
    obtain ⟨map', hmap', hroot'⟩ := Option.bind_eq_some_iff.mp hroot'
    unfold hashedItems at hcollision
    rw [hmap, hmap'] at hcollision
    exact eq_of_orderedMap ha hb hmap hmap' (lookup_eq_of_hash256 (Keyed.ofItems hitems hmap)
      (Keyed.ofItems hitems' hmap') hcollision hroot hroot')
  · exact fun a ha hvalues => isSome_hash256 ha hvalues

end

/-- A string read as a number, for a hash. -/
@[reducible] def numberHash : Keccak := ⟨fun x => BitVec.ofNat 256 (BigEndian.decode x)⟩

/-- One map, with its entries in two orders. -/
def pairMap : Map Bytes Bytes := (singleton [1] [5]).insert [2] [6]
def pairMap' : Map Bytes Bytes := (singleton [2] [6]).insert [1] [5]

theorem keyed_insert_singleton {key' value value' : Bytes} (hkey : key.length ≤ 2 ^ 30)
    (hkey' : key'.length ≤ 2 ^ 30) (hvalue : value ≠ []) (hvalue' : value' ≠ []) :
    Keyed ((singleton key value).insert key' value') := by
  intro k v hlookup
  rcases AList.lookup_insert_eq_some hlookup with ⟨rfl, rfl⟩ | hold
  · exact ⟨hvalue', hkey'⟩
  · cases List.mem_singleton.mp (AList.lookup_eq_some_iff_mem.mp hold)
    exact ⟨hvalue, hkey⟩

theorem roots_commit_pair :
    pairMap.lookup [1] = pairMap'.lookup [1] ∧ ([[1], [2]] : List Bytes) = [[1], [2]] ∧
      (@hash256 numberHash pairMap).isSome := by
  have hkeyed : Keyed pairMap :=
    keyed_insert_singleton (by decide) (by decide) (by decide) (by decide)
  have hkeyed' : Keyed pairMap' :=
    keyed_insert_singleton (by decide) (by decide) (by decide) (by decide)
  obtain ⟨hmaps, hlists, hsome⟩ := @roots_commit numberHash
  refine ⟨?_, ?_, ?_⟩
  · refine hmaps pairMap pairMap' hkeyed hkeyed' ?_
      (5273397037061271854445925206103157059022245880242945163392#256) (by decide +kernel)
      (by decide +kernel) [1]
    unfold NoCollision
    decide +kernel
  · refine hlists [[1], [2]] [[1], [2]] (by decide) (by decide) (by decide) (by decide) ?_
      ((@orderedTrieRoot numberHash [[1], [2]]).getD 0) (by decide +kernel) (by decide +kernel)
    unfold NoCollision
    decide +kernel
  · refine hsome pairMap hkeyed fun key value hvalue => ?_
    have hmem := AList.lookup_eq_some_iff_mem.mp hvalue
    have hvalues : ∀ entry ∈ pairMap.entries, entry.2.length < Node.maxValue := by decide +kernel
    exact hvalues _ hmem

/-! ## Longer keys and lists -/

theorem asNibbles_append (bytes bytes' : Bytes) :
    asNibbles (bytes ++ bytes') = asNibbles bytes ++ asNibbles bytes' := by
  induction bytes with
  | nil => rfl
  | cons b bytes ih => rw [List.cons_append, asNibbles, asNibbles, ih]; rfl

section Fork

variable {front front' : Nibbles}

/-- Two keys that part after a common front. -/
def forkEntries (front : Nibbles) : List Entry :=
  [(front ++ asNibbles [0], [1]), (front ++ asNibbles [0x10], [2])]

theorem forkEntries_eq (front : Nibbles) :
    forkEntries front = [(front ++ [0, 0], [1]), (front ++ [1, 0], [2])] := rfl

theorem findSharedPre_fork (hfront : front.length = 2 ^ 31) {preLen : Nat}
    (hpre : preLen ≤ 2 ^ 31) :
    findSharedPre (front ++ [0, 0]) preLen [(front ++ [1, 0], [2])] (2 ^ 32 - 1) = 2 ^ 31 := by
  have hlength : toUnsigned ((2 ^ 31 + 2 : Nat)) = 2 ^ 31 + 2 := toUnsigned_of_lt (by decide)
  have hdrop : ∀ path, (front ++ path).drop preLen = front.drop preLen ++ path := fun path =>
    List.drop_append_of_le_length (by omega)
  simp only [findSharedPre, List.length_append, hfront, List.length_cons, List.length_nil,
    Nat.zero_add, Nat.reduceAdd, hlength]
  rw [if_neg (by decide), List.take_of_length_le (by simp [hfront]),
    List.take_of_length_le (by simp [hfront]), hdrop, hdrop, sharedLength_append,
    List.length_drop, hfront, show sharedLength [0, 0] [1, 0] = 0 from rfl]
  omega

theorem out_eq_pure {tree : Tree} {x : Bytes} (h : write tree = some x) : out tree = pure x := by
  unfold out
  rw [h]
  rfl

/-- The end of the shared part looks negative and is counted from behind: three nibbles are
left of the front. -/
theorem hexPrefixEncode_fork (hfront : front.length = 2 ^ 31) :
    hexPrefixEncode (front ++ [0, 0]) false (toSigned 0) (toSigned (2 ^ 31)) =
      hexPrefix false (front.take 3) := by
  have hlast : (if toSigned (2 ^ 31) < 0 then
      toUnsigned (((front ++ [0, 0]).length : Int) + 1 + toSigned (2 ^ 31))
      else toUnsigned (toSigned (2 ^ 31))) = 3 := by
    rw [List.length_append, hfront]
    decide
  rw [hexPrefixEncode_eq (toUnsigned_toSigned (by decide)) hlast (by decide)
    (by simp [hfront]) (by decide), List.drop_zero, Nat.sub_zero,
    List.take_append_of_le_length (by omega)]

theorem hashChildren_nil (hash256aux : List Entry → Nat → HashM Tree) (preLen : Nat)
    (nibbles : Nibbles) : hashChildren hash256aux preLen nibbles [] =
      pure (List.replicate nibbles.length (.data [])) := by
  induction nibbles with
  | nil => rfl
  | cons i nibbles ih =>
    simp only [hashChildren, List.takeWhile_nil, List.dropWhile_nil, ih]
    rfl

/-- A map of two keys with a common front. -/
def forkMap (front : Bytes) : Map Bytes Bytes :=
  (singleton (front ++ [0]) [1] : Map Bytes Bytes).insert (front ++ [0x10]) [2]

theorem hexMap_forkMap (front : Bytes) :
    hexMap (forkMap front) = forkEntries (asNibbles front) := by
  have hne : front ++ [0x10] ∉ (singleton (front ++ [0]) [1] : Map Bytes Bytes).keys := by
    rw [AList.keys_singleton]
    simp
  unfold hexMap forkMap
  rw [AList.entries_insert, List.kerase_of_notMem_keys hne]
  change OrderedMap.insert (asNibbles (front ++ [0x10])) [2] [(asNibbles (front ++ [0]), [1])] = _
  rw [asNibbles_append, asNibbles_append]
  have hlt : asNibbles front ++ asNibbles [0] < asNibbles front ++ asNibbles [0x10] :=
    List.append_left_lt (by decide)
  unfold OrderedMap.insert
  rw [if_neg (not_lt_of_gt hlt), if_neg hlt.ne']
  rfl

variable [Keccak]

/-- A short node is put in as it is. -/
theorem hash256aux_eq_pure {hash256rlp : List Entry → Nat → HashM Tree} {entries : List Entry}
    {preLen : Nat} {node : Tree} {x : Bytes} (hnode : hash256rlp entries preLen = pure node)
    (hwrite : write node = some x) (hshort : x.length < 32) :
    hash256aux hash256rlp entries preLen = pure node := by
  unfold hash256aux
  rw [hnode, pure_bind, out_eq_pure hwrite, pure_bind, if_pos hshort]

def forkLeaf (value : Bytes) : Tree := .list [.data [0x30], .data value]

def forkBranch : Tree :=
  .list ([forkLeaf [1], forkLeaf [2]] ++ List.replicate 14 (.data []) ++ [.data []])

theorem hash256rlp_leaf (hfront : front.length = 2 ^ 31) (levels : Nat) (i : Fin 16)
    (value : Bytes) :
    hash256rlp (levels + 1) [(front ++ [i, 0], value)] (2 ^ 31 + 1) = pure (forkLeaf value) := by
  have hdrop : (front ++ [i, 0]).drop (2 ^ 31 + 1) = [0] := by
    rw [← hfront, List.drop_length_add_append]
    rfl
  rw [hash256rlp, hexPrefixEncode_drop (by simp [hfront]) (by simp [hfront]), hdrop]
  rfl

theorem hash256rlp_branch (hfront : front.length = 2 ^ 31) (levels : Nat) :
    hash256rlp (levels + 2) (forkEntries front) (2 ^ 31) = pure forkBranch := by
  have hnext : toUnsigned ((2 ^ 31 : Nat) + 1) = 2 ^ 31 + 1 := by decide
  have hget : ∀ i : Fin 16, (front ++ [i, 0])[2 ^ 31]? = some i := fun i => by
    rw [← hfront, List.getElem?_append_right le_rfl, Nat.sub_self]
    rfl
  have hkey : ¬2 ^ 31 = List.length (front ++ [0, 0]) := by simp [hfront]
  have hchild : ∀ (i : Fin 16) (value x : Bytes), write (forkLeaf value) = some x →
      x.length < 32 → hashChild (hash256aux (hash256rlp (levels + 1)))
        [(front ++ [i, 0], value)] (2 ^ 31) = pure (forkLeaf value) := by
    intro i value x hwrite hshort
    rw [hashChild, if_neg (List.cons_ne_nil _ _), hnext]
    exact hash256aux_eq_pure (hash256rlp_leaf hfront levels i value) hwrite hshort
  rw [forkEntries_eq, hash256rlp]
  dsimp only
  rw [findSharedPre_fork hfront le_rfl, if_neg (lt_irrefl _), if_neg hkey, if_neg hkey,
    show List.finRange 16 = 0 :: 1 :: (List.finRange 16).drop 2 from rfl]
  simp only [hashChildren, List.takeWhile_cons, List.dropWhile_cons, List.takeWhile_nil,
    List.dropWhile_nil, hget, hashChildren_nil, Option.some.injEq, decide_true, decide_false,
    if_true, one_ne_zero, Bool.false_eq_true, if_false,
    hchild 0 [1] [0xc2, 0x30, 1] (by decide +kernel) (by decide),
    hchild 1 [2] [0xc2, 0x30, 2] (by decide +kernel) (by decide), pure_bind]
  rfl

theorem hash256rlp_fork (hfront : front.length = 2 ^ 31) (levels : Nat) :
    hash256rlp (levels + 3) (forkEntries front) 0 =
      pure (.list [.data (hexPrefix false (front.take 3)), forkBranch]) := by
  have hbranch := hash256aux_eq_pure (hash256rlp_branch hfront levels)
    (show write forkBranch = some (0xd5 :: 0xc2 :: 0x30 :: 1 :: 0xc2 :: 0x30 :: 2 ::
      List.replicate 15 0x80) by decide +kernel) (by decide)
  rw [forkEntries_eq] at hbranch ⊢
  rw [hash256rlp]
  dsimp only
  rw [findSharedPre_fork hfront (Nat.zero_le _), if_pos (by decide), hbranch, pure_bind,
    hexPrefixEncode_fork hfront]

theorem hash256M_forkMap {front : Bytes} (hfront : front.length = 2 ^ 30) :
    hash256M (forkMap front) =
      out (.list [.data (hexPrefix false ((asNibbles front).take 3)), forkBranch]) >>= hash := by
  have hne : (forkMap front).entries ≠ [] := List.cons_ne_nil _ _
  have hlength : (asNibbles front).length = 2 ^ 31 := by
    rw [length_asNibbles, hfront]
    rfl
  have hdepth : depth (forkEntries (asNibbles front)) = 2 ^ 31 + 3 := by
    simp [depth, forkEntries, hlength]
  unfold hash256M rlp256
  rw [if_neg hne, hexMap_forkMap, hdepth, hash256rlp_fork hlength, pure_bind]

end Fork

/-- Two maps that differ only in the value of a key are the same once it is written. -/
theorem insert_eq_of_erase (h : map.erase key = map'.erase key) (value : Bytes) :
    map.insert key value = map'.insert key value := by
  apply ext
  have hentries : List.kerase key map.entries = List.kerase key map'.entries :=
    congrArg AList.entries h
  rw [AList.entries_insert, AList.entries_insert, hentries]

theorem erase_insert_of_ne {key' : Bytes} (hne : key ≠ key') (value : Bytes) (map : Map Bytes Bytes)
    : (map.insert key' value).erase key = (map.erase key).insert key' value := by
  apply ext
  change List.kerase key (⟨key', value⟩ :: List.kerase key' map.entries) =
    ⟨key', value⟩ :: List.kerase key' (List.kerase key map.entries)
  rw [List.kerase_cons_ne hne, List.kerase_kerase]

/-- What was written at position zero is lost when a position comes out as zero again. -/
theorem orderedMap_eq_of_wraps {zero : Bytes} (hzero : appendInt 0 = some zero)
    (h : map.erase zero = map'.erase zero)
    (hwraps : ∃ i < items.length, toUnsigned ((j + i : Nat)) = 0) :
    orderedMap j items map = orderedMap j items map' := by
  induction items generalizing j map map' with
  | nil =>
    obtain ⟨i, hi, _⟩ := hwraps
    cases hi
  | cons item items ih =>
    obtain ⟨key, hkey⟩ := exists_appendInt (toUnsigned_lt j)
    rw [orderedMap, orderedMap, hkey, Option.bind_eq_bind, Option.bind_some, Option.bind_some]
    by_cases heq : zero = key
    · rw [insert_eq_of_erase (heq ▸ h)]
    · refine ih (by rw [erase_insert_of_ne heq, erase_insert_of_ne heq, h]) ?_
      obtain ⟨i, hi, hwraps⟩ := hwraps
      cases i with
      | zero =>
        rw [Nat.add_zero] at hwraps
        rw [hwraps] at hkey
        exact absurd (Option.some.inj (hzero.symm.trans hkey)) heq
      | succ i =>
        refine ⟨i, Nat.lt_of_succ_lt_succ hi, ?_⟩
        rwa [Nat.succ_add_eq_add_succ]

def manyItems (first : Bytes) : List Bytes := first :: List.replicate (2 ^ 32) [7]

theorem orderedMap_manyItems (first other : Bytes) :
    orderedMap 0 (manyItems first) ∅ = orderedMap 0 (manyItems other) ∅ := by
  have hzero : appendInt 0 = some [0x80] := rfl
  unfold manyItems
  rw [orderedMap, orderedMap]
  change (appendInt 0).bind _ = (appendInt 0).bind _
  rw [hzero, Option.bind_some, Option.bind_some]
  refine orderedMap_eq_of_wraps hzero ?_ ⟨2 ^ 32 - 1, ?_, rfl⟩
  · apply ext
    rfl
  · rw [List.length_replicate]
    decide

def longFront (b : UInt8) : Bytes := 0 :: 0 :: List.replicate (2 ^ 30 - 2) b

theorem length_longFront (b : UInt8) : (longFront b).length = 2 ^ 30 := by
  rw [longFront, List.length_cons, List.length_cons, List.length_replicate]
  rfl

theorem longFront_append_ne (x y : Bytes) : longFront 0 ++ x ≠ longFront 1 ++ y := by
  intro h
  have hfront := (List.append_inj h ((length_longFront 0).trans (length_longFront 1).symm)).1
  have hrest := (List.cons.inj (List.cons.inj hfront).2).2
  exact absurd ((List.replicate_inj.mp hrest).2.resolve_left (by decide)) (by decide)

/-- Longer keys and longer lists share their roots with others, whatever the hash function
is: maps of two keys of `2 ^ 30 + 1` bytes that agree in the first nibbles, and lists of
`2 ^ 32 + 1` items that differ in the first item only. -/
theorem longer_inputs_share_roots :
    (∀ _ : Keccak, (hash256 (forkMap (longFront 0))).isSome ∧
        hash256 (forkMap (longFront 0)) = hash256 (forkMap (longFront 1))) ∧
      (longFront 0 ++ [0]).length = 2 ^ 30 + 1 ∧
      (forkMap (longFront 0)).lookup (longFront 0 ++ [0]) = some [1] ∧
      (forkMap (longFront 1)).lookup (longFront 0 ++ [0]) = none ∧
      (∀ _ : Keccak, (orderedTrieRoot (manyItems [1])).isSome ∧
        orderedTrieRoot (manyItems [1]) = orderedTrieRoot (manyItems [2])) ∧
      manyItems [1] ≠ manyItems [2] := by
  refine ⟨fun _ => ?_, ?_, ?_, ?_, fun _ => ⟨isSome_orderedTrieRoot ?_, ?_⟩, ?_⟩
  · unfold hash256 hash256Logged
    rw [hash256M_forkMap (length_longFront 0), hash256M_forkMap (length_longFront 1)]
    have hwrite : write (.list [.data (hexPrefix false [0, 0, 0]), forkBranch]) =
        some (0xd9 :: 0x82 :: 0x10 :: 0 :: 0xd5 :: 0xc2 :: 0x30 :: 1 :: 0xc2 :: 0x30 :: 2 ::
          List.replicate 15 0x80) := by
      decide +kernel
    have htake : ∀ b, (asNibbles (longFront b)).take 3 = [0, 0, 0] := by
      intro b
      simp only [longFront, asNibbles, List.take_succ_cons, List.take_zero]
      rfl
    rw [htake, htake, out_eq_pure hwrite]
    exact ⟨rfl, rfl⟩
  · rw [List.length_append, length_longFront]
    rfl
  · unfold forkMap
    rw [AList.lookup_insert_ne (by simp)]
    exact List.dlookup_cons_eq _ _ _
  · unfold forkMap
    rw [AList.lookup_insert_ne (longFront_append_ne _ _)]
    exact (List.dlookup_cons_ne _ _ (longFront_append_ne _ _)).trans (List.dlookup_nil _)
  · intro item hitem
    obtain rfl | hitem := List.mem_cons.mp hitem
    · decide
    · rw [List.eq_of_mem_replicate hitem]
      decide
  · unfold orderedTrieRoot
    rw [orderedMap_manyItems [1] [2]]
  · intro h
    exact absurd (List.cons.inj h).1 (by decide)

end Skaled.Trie
