import Skaled.Lib.SortedList
import Skaled.Trie.Hash256

/-! # What `hash256` builds

The entries of a map, in the order of their keys, are grouped by prefix and then by
nibble. `hash256rlp_builds` says that what is written for a group is a trie of the group,
below the common prefix. The lengths of keys are those for which the 32-bit counts of the
source are exact.
-/

namespace Skaled.Trie

open Rlp
open List (append_assoc append_nil drop_left map_cons mem_cons_of_mem mem_cons_self)

/-! ## Groups of entries -/

/-- The value of a key, empty if there is none. -/
def valueAt (entries : List Entry) (key : Nibbles) : Bytes := (entries.lookup key).getD []

/-- Entries in the order of their keys, which start alike and are not too long. Values are
not too long either, unless a failure is allowed for. -/
structure Grouped (failing : Prop) (pre : Nibbles) (entries : List Entry) : Prop where
  sorted : OrderedMap.Sorted entries
  starts : ∀ entry ∈ entries, pre <+: entry.1
  short : ∀ entry ∈ entries, entry.1.length ≤ Node.maxPath
  light : ∀ entry ∈ entries, Node.maxValue ≤ entry.2.length → failing

/-- A trie of the entries, below what their keys have in common. -/
def Represents (node : Node) (pre : Nibbles) (entries : List Entry) : Prop :=
  ∀ key, node.get key = valueAt entries (pre ++ key)

variable {failing : Prop} {pre key : Nibbles} {entries rest : List Entry} {entry : Entry}
  {node : Node} {value : Bytes} {map : Map Bytes Bytes}

theorem Grouped.mono {part : List Entry} (h : Grouped failing pre entries)
    (hpart : part.Sublist entries) : Grouped failing pre part where
  sorted := h.sorted.sublist hpart
  starts entry hentry := h.starts entry (hpart.mem hentry)
  short entry hentry := h.short entry (hpart.mem hentry)
  light entry hentry := h.light entry (hpart.mem hentry)

theorem Grouped.extend {pre' : Nibbles} (h : Grouped failing pre entries)
    (hstarts : ∀ entry ∈ entries, pre' <+: entry.1) : Grouped failing pre' entries :=
  { h with starts := hstarts }

theorem exists_mem_of_valueAt (hsorted : OrderedMap.Sorted entries)
    (h : valueAt entries key ≠ []) : (key, valueAt entries key) ∈ entries := by
  unfold valueAt at h ⊢
  cases hlookup : entries.lookup key with
  | none =>
    rw [hlookup] at h
    exact absurd rfl h
  | some value => exact (OrderedMap.lookup_eq_some_iff_mem hsorted).mp hlookup

/-- A part of the entries says all about a key if none with this key is left out. -/
theorem valueAt_of_sublist {part : List Entry} (hsorted : OrderedMap.Sorted entries)
    (hpart : part.Sublist entries) (hall : ∀ entry ∈ entries, entry.1 = key → entry ∈ part) :
    valueAt part key = valueAt entries key := by
  have hlookup : part.lookup key = entries.lookup key := by
    apply Option.ext
    intro value
    rw [OrderedMap.lookup_eq_some_iff_mem (hsorted.sublist hpart),
      OrderedMap.lookup_eq_some_iff_mem hsorted]
    exact ⟨fun hmem => hpart.mem hmem, fun hmem => hall _ hmem rfl⟩
  rw [valueAt, hlookup, valueAt]

/-! ## What the keys share -/

theorem sharedLength_slice {first other : Nibbles} {x : Nat} (h : pre <+: first)
    (h' : pre <+: other) (hx : pre.length ≤ x) :
    pre.length + sharedLength ((first.take x).drop pre.length) ((other.take x).drop pre.length) =
      min x (sharedLength first other) := by
  obtain ⟨rest, rfl⟩ := h
  obtain ⟨rest', rfl⟩ := h'
  simp only [List.take_append, List.take_of_length_le hx, drop_left, sharedLength_take,
    sharedLength_append]
  omega

/-- The loop finds a number of nibbles that are shared with all entries. -/
theorem findSharedPre_spec {first : Nibbles} {sharedPre : Nat} (hfirst : pre <+: first)
    (hstarts : ∀ entry ∈ entries, pre <+: entry.1) (hpre : pre.length ≤ sharedPre)
    (hlength : first.length < 2 ^ 32) (hlengths : ∀ entry ∈ entries, entry.1.length < 2 ^ 32) :
    let found := findSharedPre first pre.length entries sharedPre
    pre.length ≤ found ∧ found ≤ sharedPre ∧
      ∀ entry ∈ entries, found ≤ sharedLength first entry.1 := by
  induction entries generalizing sharedPre with
  | nil => exact ⟨hpre, le_rfl, nofun⟩
  | cons entry entries ih =>
    rw [findSharedPre]
    split
    next hzero =>
      subst hzero
      exact ⟨hpre, le_rfl, fun _ _ => Nat.zero_le _⟩
    next =>
      have hentry := hstarts entry mem_cons_self
      have hle := le_sharedLength hfirst hentry
      have hshared := sharedLength_le first entry.1
      rw [toUnsigned_of_lt hlength, toUnsigned_of_lt (hlengths entry mem_cons_self)]
      dsimp only
      rw [sharedLength_slice hfirst hentry (by omega)]
      have hmin : min (min (min sharedPre (min first.length entry.1.length))
          (sharedLength first entry.1)) sharedPre =
            min sharedPre (sharedLength first entry.1) := by omega
      rw [hmin]
      obtain ⟨hfound, hfoundLe, hall⟩ := ih
        (fun e he => hstarts e (mem_cons_of_mem _ he))
        (show pre.length ≤ min sharedPre (sharedLength first entry.1) by omega)
        (fun e he => hlengths e (mem_cons_of_mem _ he))
      refine ⟨hfound, by omega, fun e he => ?_⟩
      obtain rfl | he := List.mem_cons.mp he
      · omega
      · exact hall e he

/-- What all keys of a group with several entries share, as the source finds it. -/
structure Shares (pre : Nibbles) (entries : List Entry) (first : Nibbles) (found : Nat) : Prop where
  le : pre.length ≤ found
  lt : found < 2 ^ 31
  leLength : found ≤ first.length
  starts : ∀ entry ∈ entries, first.take found <+: entry.1

theorem Grouped.shares {next : Entry} (h : Grouped failing pre ((key, value) :: next :: rest)) :
    Shares pre ((key, value) :: next :: rest) key
      (findSharedPre key pre.length (next :: rest) (2 ^ 32 - 1)) := by
  have hkey : pre <+: key := h.starts _ mem_cons_self
  have hshort : ∀ entry ∈ (key, value) :: next :: rest, entry.1.length ≤ 2 ^ 31 :=
    h.short
  have hkeyShort : key.length ≤ 2 ^ 31 := hshort _ mem_cons_self
  have hlater := fun entry (hentry : entry ∈ next :: rest) =>
    mem_cons_of_mem (key, value) hentry
  obtain ⟨hle, -, hall⟩ := findSharedPre_spec hkey
    (fun entry hentry => h.starts entry (hlater entry hentry))
    (show pre.length ≤ 2 ^ 32 - 1 by have := hkey.length_le; omega) (by omega)
    (fun entry hentry => by have := hshort entry (hlater entry hentry); omega)
  generalize findSharedPre key pre.length (next :: rest) (2 ^ 32 - 1) = found at *
  have hnext := hall next mem_cons_self
  have hleNext := sharedLength_le key next.1
  refine ⟨hle, ?_, by omega, fun other hother => ?_⟩
  · -- two different keys do not share all of the greatest length
    by_contra hge
    have hnextShort := hshort next (hlater next mem_cons_self)
    have htake := take_sharedLength key next.1
    rw [List.take_of_length_le (by omega), List.take_of_length_le (by omega)] at htake
    exact absurd htake (ne_of_lt ((List.pairwise_cons.mp h.sorted).1 next mem_cons_self))
  · obtain rfl | hother := List.mem_cons.mp hother
    · exact List.take_prefix _ _
    · have hshared := hall other hother
      have htake := congrArg (List.take found) (take_sharedLength key other.1)
      rw [List.take_take, List.take_take, Nat.min_eq_left hshared] at htake
      rw [htake]
      exact List.take_prefix _ _

/-! ## The children of a branch -/

theorem lt_of_append_lt {path path' : Nibbles} (h : pre ++ path < pre ++ path') : path < path' := by
  induction pre with
  | nil => exact h
  | cons a pre ih =>
    obtain hlt | ⟨_, hlt⟩ := List.cons_lt_cons_iff.mp h
    · exact absurd hlt (lt_irrefl a)
    · exact ih hlt

/-- The entries of one child, among entries that all go on. -/
structure Parted (failing : Prop) (pre nibbles : Nibbles) (entries : List Entry) : Prop extends
    Grouped failing pre entries where
  goesOn : ∀ entry ∈ entries, ∃ i ∈ nibbles, pre ++ [i] <+: entry.1

theorem getElem?_of_isPrefix {i : Fin 16} (h : pre ++ [i] <+: key) : key[pre.length]? = some i := by
  obtain ⟨rest, rfl⟩ := h
  simp

section

variable {pre nibbles : Nibbles} {entries : List Entry} {i : Fin 16}

/-- The predicate by which the source finds the end of a group. -/
def goesOnWith (pre : Nibbles) (i : Fin 16) (entry : Entry) : Bool := entry.1[pre.length]? = some i

theorem Parted.goesOnWith_iff (h : Parted failing pre nibbles entries) (hentry : entry ∈ entries) :
    goesOnWith pre i entry = true ↔ pre ++ [i] <+: entry.1 := by
  obtain ⟨j, _, hj⟩ := h.goesOn entry hentry
  unfold goesOnWith
  rw [decide_eq_true_eq]
  constructor
  · intro hi
    rw [getElem?_of_isPrefix hj, Option.some.injEq] at hi
    rwa [← hi]
  · exact getElem?_of_isPrefix

/-- Entries with a smaller nibble come first. -/
theorem Parted.le_of_lt (h : Parted failing pre nibbles entries) :
    entries.Pairwise fun entry entry' => ∀ i j, pre ++ [i] <+: entry.1 → pre ++ [j] <+: entry'.1 →
      i ≤ j := by
  refine h.sorted.imp fun {entry entry'} hlt i j hi hj => ?_
  obtain ⟨rest, hrest⟩ := hi
  obtain ⟨rest', hrest'⟩ := hj
  rw [← hrest, ← hrest', append_assoc, append_assoc] at hlt
  obtain hlt | ⟨heq, _⟩ := List.cons_lt_cons_iff.mp (lt_of_append_lt hlt)
  · exact hlt.le
  · exact heq.le

section

variable (h : Parted failing pre (i :: nibbles) entries)

include h

theorem Parted.notMem_dropWhile (hsorted : (i :: nibbles).Pairwise (· < ·)) :
    ∀ entry ∈ entries.dropWhile (goesOnWith pre i), goesOnWith pre i entry = false := by
  apply List.eq_false_of_mem_dropWhile
  refine List.Pairwise.imp_of_mem ?_ h.le_of_lt
  intro entry entry' hentry hentry' hle hi
  obtain ⟨j, hj, hprefix⟩ := h.goesOn entry hentry
  have hji := hle j i hprefix ((h.goesOnWith_iff hentry').mp hi)
  obtain rfl | hlater := List.mem_cons.mp hj
  · exact (h.goesOnWith_iff hentry).mpr hprefix
  · exact absurd hji (not_le_of_gt ((List.pairwise_cons.mp hsorted).1 j hlater))

theorem Parted.takeWhile : Grouped failing (pre ++ [i]) (entries.takeWhile (goesOnWith pre i)) :=
  (h.toGrouped.mono (List.takeWhile_sublist _)).extend fun _ hentry =>
    (h.goesOnWith_iff ((List.takeWhile_sublist _).mem hentry)).mp (List.mem_takeWhile_imp hentry)

theorem Parted.dropWhile (hsorted : (i :: nibbles).Pairwise (· < ·)) :
    Parted failing pre nibbles (entries.dropWhile (goesOnWith pre i)) := by
  refine { h.toGrouped.mono (List.dropWhile_sublist _) with goesOn := fun entry hentry => ?_ }
  have hmem := (List.dropWhile_sublist _).mem hentry
  obtain ⟨j, hj, hprefix⟩ := h.goesOn entry hmem
  obtain rfl | hlater := List.mem_cons.mp hj
  · have hnot := h.notMem_dropWhile hsorted entry hentry
    rw [(h.goesOnWith_iff hmem).mpr hprefix] at hnot
    cases hnot
  · exact ⟨j, hlater, hprefix⟩

end

/-- A key of the child for `i` is found in the group. -/
theorem Parted.valueAt_takeWhile (h : Parted failing pre (i :: nibbles) entries)
    (hsorted : (i :: nibbles).Pairwise (· < ·)) (key : Nibbles) :
    valueAt (entries.takeWhile (goesOnWith pre i)) (pre ++ [i] ++ key) =
      valueAt entries (pre ++ [i] ++ key) := by
  refine valueAt_of_sublist h.sorted (List.takeWhile_sublist _) fun entry hentry heq => ?_
  have hgoesOn := (h.goesOnWith_iff hentry).mpr (heq ▸ List.prefix_append (pre ++ [i]) key)
  rw [← List.takeWhile_append_dropWhile (p := goesOnWith pre i) (l := entries),
    List.mem_append] at hentry
  refine hentry.resolve_right fun hlater => ?_
  rw [h.notMem_dropWhile hsorted entry hlater] at hgoesOn
  cases hgoesOn

/-- A key of another child is found behind the group. -/
theorem Parted.valueAt_dropWhile (h : Parted failing pre (i :: nibbles) entries) {j : Fin 16}
    (hne : j ≠ i) (key : Nibbles) :
    valueAt (entries.dropWhile (goesOnWith pre i)) (pre ++ [j] ++ key) =
      valueAt entries (pre ++ [j] ++ key) := by
  refine valueAt_of_sublist h.sorted (List.dropWhile_sublist _) fun entry hentry heq => ?_
  rw [← List.takeWhile_append_dropWhile (p := goesOnWith pre i) (l := entries),
    List.mem_append] at hentry
  refine hentry.resolve_left fun hgroup => ?_
  have hi := getElem?_of_isPrefix (h.takeWhile.starts entry hgroup)
  rw [getElem?_of_isPrefix (heq ▸ List.prefix_append (pre ++ [j]) key)] at hi
  exact hne (Option.some.inj hi)

end

/-! ## The three kinds of nodes -/

theorem represents_leaf (h : Grouped failing pre [(key, value)]) :
    Represents (.leaf (key.drop pre.length) value) pre [(key, value)] := by
  obtain ⟨rest, rfl⟩ := h.starts _ mem_cons_self
  intro other
  unfold valueAt
  rw [drop_left, Node.get, OrderedMap.lookup_cons_eq_ite]
  by_cases heq : other = rest
  · rw [if_pos heq, if_pos (by rw [heq])]
    rfl
  · rw [if_neg heq, if_neg fun happend => heq (List.append_cancel_left happend)]
    rfl

theorem represents_extension {found : Nat} {child : Node} (hgrouped : Grouped failing pre entries)
    (hkey : (key, value) ∈ entries) (hshares : Shares pre entries key found)
    (hlt : pre.length < found) (h : Represents child (key.take found) entries) :
    Represents (.extension ((key.drop pre.length).take (found - pre.length)) child) pre
      entries := by
  obtain ⟨rest, hrest⟩ := hgrouped.starts _ hkey
  have htake : key.take found = pre ++ (key.drop pre.length).take (found - pre.length) := by
    dsimp only at hrest
    rw [← hrest, List.take_append, List.take_of_length_le hlt.le, drop_left]
  intro k
  by_cases hprefix : (key.drop pre.length).take (found - pre.length) <+: k
  · obtain ⟨k, rfl⟩ := hprefix
    rw [Node.get_extension_append, h, htake, append_assoc]
  · rw [Node.get_extension_of_not_prefix child hprefix]
    by_contra hne
    have hmem := exists_mem_of_valueAt hgrouped.sorted (Ne.symm hne)
    have hstarts := hshares.starts _ hmem
    rw [htake] at hstarts
    exact hprefix ((List.prefix_append_right_inj pre).mp hstarts)

theorem represents_branch {children : Fin 16 → Node}
    (hchildren : ∀ i, Represents (children i) (pre ++ [i]) entries)
    (hvalue : value = valueAt entries pre) : Represents (.branch children value) pre entries := by
  intro key
  cases key with
  | nil => rw [Node.get_branch_nil, hvalue, append_nil]
  | cons i key => rw [Node.get_branch_cons, hchildren i, append_assoc]; rfl

/-- Only the first entry can end here. -/
theorem Grouped.eq_of_ends (h : Grouped failing pre ((key, value) :: rest))
    (hentry : entry ∈ rest) : entry.1 ≠ pre := by
  intro heq
  have hlt : key < entry.1 := (List.pairwise_cons.mp h.sorted).1 entry hentry
  obtain ⟨more, hmore⟩ := h.starts _ mem_cons_self
  dsimp only at hmore
  rw [heq, ← hmore, ← append_nil pre, append_assoc] at hlt
  exact absurd (lt_of_append_lt hlt) (List.not_lt_nil _)

/-- The entries that the children of a branch are made of. -/
def goingOn (pre : Nibbles) (key : Nibbles) (value : Bytes) (rest : List Entry) : List Entry :=
  if pre.length = key.length then rest else (key, value) :: rest

theorem goingOn_sublist : (goingOn pre key value rest).Sublist ((key, value) :: rest) := by
  unfold goingOn
  split
  · exact List.sublist_cons_self _ _
  · exact List.Sublist.refl _

section

variable (h : Grouped failing pre ((key, value) :: rest))

include h

/-- These are the entries that do not end here. -/
theorem Grouped.mem_goingOn :
    entry ∈ goingOn pre key value rest ↔ entry ∈ (key, value) :: rest ∧ entry.1 ≠ pre := by
  have hstarts : pre <+: key := h.starts _ mem_cons_self
  unfold goingOn
  rw [List.mem_cons]
  split
  next hends =>
    have hkey := hstarts.eq_of_length hends
    constructor
    · exact fun hentry => ⟨.inr hentry, h.eq_of_ends hentry⟩
    · rintro ⟨rfl | hentry, hne⟩
      · exact absurd hkey.symm hne
      · exact hentry
  next hlonger =>
    rw [List.mem_cons]
    refine ⟨fun hentry => ⟨hentry, ?_⟩, And.left⟩
    obtain rfl | hentry := hentry
    · exact fun heq => hlonger (congrArg List.length heq).symm
    · exact h.eq_of_ends hentry

theorem Grouped.parted : Parted failing pre (List.finRange 16) (goingOn pre key value rest) := by
  refine { h.mono goingOn_sublist with goesOn := fun entry hentry => ?_ }
  obtain ⟨hmem, hne⟩ := h.mem_goingOn.mp hentry
  obtain ⟨more, hmore⟩ := h.starts entry hmem
  cases more with
  | nil => exact absurd (by rw [← hmore, append_nil]) hne
  | cons i more => exact ⟨i, List.mem_finRange i, more, by rw [← hmore, append_assoc]; rfl⟩

theorem Grouped.valueAt_goingOn (i : Fin 16) (other : Nibbles) :
    valueAt (goingOn pre key value rest) (pre ++ [i] ++ other) =
      valueAt ((key, value) :: rest) (pre ++ [i] ++ other) := by
  refine valueAt_of_sublist h.sorted goingOn_sublist fun entry hentry heq => ?_
  refine h.mem_goingOn.mpr ⟨hentry, fun hpre => ?_⟩
  have hlength := congrArg List.length (heq.symm.trans hpre)
  simp at hlength

theorem Grouped.valueAt_self :
    (if pre.length = key.length then value else []) = valueAt ((key, value) :: rest) pre := by
  split
  next hends =>
    have hkey : pre = key := (h.starts _ mem_cons_self).eq_of_length hends
    rw [valueAt, OrderedMap.lookup_cons_eq_ite, if_pos hkey]
    rfl
  next hlonger =>
    refine valueAt_of_sublist h.sorted (List.nil_sublist _) fun entry hentry heq => ?_
    have hgoesOn := h.mem_goingOn.not.mpr fun hboth => hboth.2 heq
    rw [goingOn, if_neg hlonger] at hgoesOn
    exact absurd hentry hgoesOn

end

/-! ## Maps -/

theorem lookup_hexEntries (entries : List (Σ _ : Bytes, Bytes)) (key : Bytes) :
    (entries.foldr (fun entry map => OrderedMap.insert (asNibbles entry.1) entry.2 map) []).lookup
      (asNibbles key) = entries.dlookup key := by
  induction entries with
  | nil => rfl
  | cons entry entries ih =>
    rw [List.foldr_cons, OrderedMap.lookup_insert, ih]
    by_cases h : key = entry.1
    · rw [if_pos (by rw [h]), h, List.dlookup_cons_eq]
    · rw [if_neg fun heq => h (asNibbles_inj heq), List.dlookup_cons_ne _ _ h]

theorem mem_hexEntries {entries : List (Σ _ : Bytes, Bytes)}
    (h : entry ∈ entries.foldr (fun entry map => OrderedMap.insert (asNibbles entry.1) entry.2 map)
      []) : ∃ key, entry.1 = asNibbles key := by
  induction entries with
  | nil => cases h
  | cons head entries ih =>
    obtain rfl | h := OrderedMap.mem_insert h
    · exact ⟨head.1, rfl⟩
    · exact ih h

theorem sorted_hexMap (map : Map Bytes Bytes) : OrderedMap.Sorted (hexMap map) := by
  unfold hexMap
  induction map.entries with
  | nil => exact List.Pairwise.nil
  | cons entry entries ih => exact ih.insert

theorem lookup_hexMap (map : Map Bytes Bytes) (key : Bytes) :
    (hexMap map).lookup (asNibbles key) = map.lookup key := lookup_hexEntries map.entries key

theorem mem_hexMap (h : entry ∈ hexMap map) :
    ∃ key, entry.1 = asNibbles key ∧ map.lookup key = some entry.2 := by
  obtain ⟨key, hkey⟩ := mem_hexEntries h
  refine ⟨key, hkey, ?_⟩
  rw [← lookup_hexMap, ← hkey]
  exact (OrderedMap.lookup_eq_some_iff_mem (sorted_hexMap map)).mpr h

/-- No value is empty and no key is longer than `2 ^ 30` bytes. -/
def Keyed (map : Map Bytes Bytes) : Prop :=
  ∀ key value, map.lookup key = some value → value ≠ [] ∧ key.length ≤ 2 ^ 30

theorem Keyed.grouped (h : Keyed map)
    (hlight : ∀ entry ∈ hexMap map, Node.maxValue ≤ entry.2.length → failing) :
    Grouped failing [] (hexMap map) where
  sorted := sorted_hexMap map
  starts entry _ := List.nil_prefix
  short entry hentry := by
    obtain ⟨key, hkey, hlookup⟩ := mem_hexMap hentry
    have hlength := (h key entry.2 hlookup).2
    unfold Node.maxPath
    rw [hkey, length_asNibbles]
    omega
  light := hlight

theorem length_lt_depth (h : entry ∈ entries) : entry.1.length < depth entries := by
  unfold depth
  induction entries with
  | nil => cases h
  | cons head entries ih =>
    rw [map_cons, List.foldr_cons]
    obtain rfl | h := List.mem_cons.mp h
    · omega
    · have := ih h
      omega

/-! ## The trie that is built -/

variable [Keccak]

/-- The program writes a trie of the entries, which fits into a vector unless a failure is
allowed for. -/
def Builds (failing : Prop) (x : HashM Tree) (pre : Nibbles) (entries : List Entry) : Prop :=
  ∃ node, Represents node pre entries ∧ (maxSize ≤ node.rlp.length → failing) ∧
    Runs failing x node.tree node.hashed

/-- The program writes what stands for a trie of the entries in the node above. -/
def Refers (failing : Prop) (x : HashM Tree) (pre : Nibbles) (entries : List Entry) : Prop :=
  ∃ node, Represents node pre entries ∧
    Runs failing x (ref node.tree) (node.own + node.hashed)

theorem hash256aux_refers {hash256rlp : List Entry → Nat → HashM Tree}
    {preLen : Nat} (h : Builds failing (hash256rlp entries preLen) pre entries) :
    Refers failing (hash256aux hash256rlp entries preLen) pre entries := by
  obtain ⟨node, hnode, hlong, hruns⟩ := h
  refine ⟨node, hnode, ?_⟩
  rw [add_comm]
  refine hruns.bind (Runs.out_bind hlong fun hfits => ?_)
  by_cases hshort : node.rlp.length < 32
  · rw [Node.ref_of_lt hshort, Node.own_of_lt hshort]
    change Runs failing (if node.rlp.length < 32 then _ else _) _ _
    rw [if_pos hshort]
    exact Runs.pure _
  · rw [Node.ref_of_not_lt hshort, Node.own_of_not_lt hshort]
    change Runs failing (if node.rlp.length < 32 then _ else _) _ _
    rw [if_neg hshort]
    exact (Runs.hash hfits).bind_pure fun h => Tree.data (toBigEndian h)

theorem ref_empty : ref Node.empty.tree = .data [] := by
  refine Node.ref_of_lt ?_
  unfold Node.rlp Node.tree
  rw [encodeTree]
  decide

theorem own_empty : Node.empty.own = 0 := by
  refine Node.own_of_lt ?_
  unfold Node.rlp Node.tree
  rw [encodeTree]
  decide

/-- The children of a branch, one for each nibble that is left. -/
theorem hashChildren_runs {hash256aux : List Entry → Nat → HashM Tree} {nibbles : Nibbles}
    (hsorted : nibbles.Pairwise (· < ·)) (h : Parted failing pre nibbles entries)
    (hfits : pre.length + 1 < 2 ^ 32)
    (haux : ∀ i group, group ≠ [] → group.Sublist entries → Grouped failing (pre ++ [i]) group →
      Refers failing (hash256aux group (pre.length + 1)) (pre ++ [i]) group) :
    ∃ children : Fin 16 → Node, (∀ i ∈ nibbles, Represents (children i) (pre ++ [i]) entries) ∧
      Runs failing (hashChildren hash256aux pre.length nibbles entries)
        (nibbles.map fun i => ref (children i).tree)
        (nibbles.map fun i => (children i).own + (children i).hashed).sum := by
  induction nibbles generalizing entries with
  | nil => exact ⟨fun _ => .empty, nofun, Runs.pure _⟩
  | cons i nibbles ih =>
    obtain ⟨hfirst, hrest⟩ := List.pairwise_cons.mp hsorted
    obtain ⟨children, hchildren, hruns⟩ := ih hrest (h.dropWhile hsorted)
      fun j group hne hsub => haux j group hne (hsub.trans (List.dropWhile_sublist _))
    have hchild : ∃ child, Represents child (pre ++ [i]) entries ∧
        Runs failing (hashChild hash256aux (entries.takeWhile (goesOnWith pre i)) pre.length)
          (ref child.tree) (child.own + child.hashed) := by
      unfold hashChild
      by_cases hempty : entries.takeWhile (goesOnWith pre i) = []
      · refine ⟨.empty, fun key => ?_, ?_⟩
        · rw [← h.valueAt_takeWhile hsorted, hempty]
          rfl
        · rw [if_pos hempty, ref_empty, own_empty]
          exact Runs.pure _
      · obtain ⟨child, hrepresents, hrun⟩ :=
          haux i _ hempty (List.takeWhile_sublist _) h.takeWhile
        refine ⟨child, fun key => ?_, ?_⟩
        · rw [hrepresents, h.valueAt_takeWhile hsorted]
        · rw [if_neg hempty, ← Nat.cast_succ, toUnsigned_of_lt hfits]
          exact hrun
    obtain ⟨child, hrepresents, hrun⟩ := hchild
    have hsame : Function.update children i child i = child := Function.update_self i child children
    have hothers : ∀ j ∈ nibbles, Function.update children i child j = children j := fun j hj =>
      Function.update_of_ne (ne_of_gt (hfirst j hj)) child children
    refine ⟨Function.update children i child, fun j hj => ?_, ?_⟩
    · obtain rfl | hj := List.mem_cons.mp hj
      · rwa [hsame]
      · rw [hothers j hj]
        intro key
        rw [hchildren j hj, h.valueAt_dropWhile (ne_of_gt (hfirst j hj))]
    · have hmap : ∀ {β : Type} (g : Node → β),
          nibbles.map (fun j => g (Function.update children i child j)) =
            nibbles.map fun j => g (children j) := fun g =>
        List.map_congr_left fun j hj => by rw [hothers j hj]
      rw [map_cons, map_cons, List.sum_cons, hsame, hmap fun node => ref node.tree,
        hmap fun node => node.own + node.hashed, hashChildren]
      refine hrun.bind ?_
      exact hruns.bind_pure fun children => ref child.tree :: children

/-- The entries of a group are written as a trie of theirs. -/
theorem hash256rlp_builds {levels : Nat} (h : Grouped failing pre entries) (hne : entries ≠ [])
    (hlevels : ∀ entry ∈ entries, entry.1.length < pre.length + levels) :
    Builds failing (hash256rlp levels entries pre.length) pre entries := by
  induction levels generalizing pre entries with
  | zero =>
    obtain ⟨entry, hentry⟩ := List.exists_mem_of_ne_nil entries hne
    have hle := (h.starts entry hentry).length_le
    have hlt := hlevels entry hentry
    omega
  | succ levels ih =>
    match entries, hne with
    | [(key, value)], _ =>
      have hlength : pre.length ≤ key.length := (h.starts _ mem_cons_self).length_le
      have hshort : key.length ≤ 2 ^ 31 := h.short _ mem_cons_self
      refine ⟨_, represents_leaf h, fun hlong => h.light _ mem_cons_self ?_, ?_⟩
      · by_contra hvalue
        refine absurd (Node.length_rlp_leaf ?_ (Nat.lt_of_not_le hvalue)) (Nat.not_lt.mpr hlong)
        exact (List.drop_sublist _ _).length_le.trans hshort
      · rw [hash256rlp, hexPrefixEncode_drop hlength (by omega)]
        exact Runs.pure _
    | (key, value) :: next :: rest, _ =>
      have hshares := h.shares
      rw [hash256rlp]
      dsimp only
      generalize findSharedPre key pre.length (next :: rest) (2 ^ 32 - 1) = found at *
      have hkey : ((key, value) : Entry) ∈ (key, value) :: next :: rest := mem_cons_self
      split
      next hlt =>
        have hlength : (key.take found).length = found := by
          rw [List.length_take, Nat.min_eq_left hshares.leLength]
        have hbuilds := ih (h.extend hshares.starts) (List.cons_ne_nil _ _) fun entry hentry => by
          have := hlevels entry hentry
          omega
        rw [hlength] at hbuilds
        obtain ⟨child, hchild, hruns⟩ := hash256aux_refers hbuilds
        refine ⟨_, represents_extension h hkey hshares hlt hchild, fun hlong => ?_, ?_⟩
        · refine absurd (Node.length_rlp_extension child ?_) (Nat.not_lt.mpr hlong)
          exact ((List.length_take_le _ _).trans (Nat.sub_le _ _)).trans hshares.lt.le
        · rw [hexPrefixEncode_take hlt.le hshares.leLength hshares.lt]
          exact hruns.bind_pure fun child => Tree.list [.data (hexPrefix false _), child]
      next hnot =>
        have hfits : pre.length + 1 < 2 ^ 32 := by
          have := hshares.le
          have := hshares.lt
          omega
        have haux : ∀ i group, group ≠ [] →
            group.Sublist (goingOn pre key value (next :: rest)) →
            Grouped failing (pre ++ [i]) group →
            Refers failing (hash256aux (hash256rlp levels) group (pre.length + 1)) (pre ++ [i])
              group := by
          intro i group hgroup hsub hgrouped
          have hlength : (pre ++ [i]).length = pre.length + 1 := by simp
          have hbuilds := ih hgrouped hgroup fun entry hentry => by
            have := hlevels entry (goingOn_sublist.mem (hsub.mem hentry))
            omega
          rw [hlength] at hbuilds
          exact hash256aux_refers hbuilds
        obtain ⟨children, hchildren, hruns⟩ :=
          hashChildren_runs (List.pairwise_lt_finRange 16) h.parted hfits haux
        refine ⟨.branch children _, represents_branch (fun i k => ?_) h.valueAt_self,
          fun hlong => ?_, ?_⟩
        · rw [hchildren i (List.mem_finRange i), h.valueAt_goingOn]
        · refine h.light _ hkey (Nat.le_of_not_lt fun hvalue => ?_)
          refine absurd (Node.length_rlp_branch children ?_) (Nat.not_lt.mpr hlong)
          split
          · exact hvalue
          · decide
        · rw [Node.hashed, Fin.sum_univ_def, Node.tree, List.ofFn_eq_map]
          exact hruns.bind_pure fun children =>
            Tree.list (children ++ [.data (if pre.length = key.length then value else [])])

/-- The trie whose root `hash256` returns. -/
theorem hash256_runs (h : Grouped failing [] (hexMap map)) :
    ∃ node : Node, (∀ key, node.get key = valueAt (hexMap map) key) ∧
      Runs failing (hash256M map) (sha3 node.rlp) (node.hashed + {node.rlp}) := by
  unfold hash256M rlp256
  by_cases hempty : map.entries = []
  · rw [if_pos hempty]
    have hnone : hexMap map = [] := by rw [hexMap, hempty, List.foldr_nil]
    refine ⟨.empty, fun key => by rw [hnone]; rfl, ?_⟩
    rw [Node.hashed, zero_add]
    exact Runs.out_bind (fun hlong => absurd hlong (by rw [encodeTree]; decide)) Runs.hash
  · rw [if_neg hempty]
    have hne : hexMap map ≠ [] := by
      intro hnone
      obtain ⟨entry, hentry⟩ := List.exists_mem_of_ne_nil _ hempty
      have hlookup := AList.lookup_eq_some_iff_mem.mpr hentry
      rw [← lookup_hexMap, hnone] at hlookup
      cases hlookup
    obtain ⟨node, hnode, hlong, hruns⟩ := hash256rlp_builds h hne fun entry hentry => by
      rw [List.length_nil, Nat.zero_add]
      exact length_lt_depth hentry
    refine ⟨node, hnode, ?_⟩
    rw [bind_assoc]
    exact hruns.bind (Runs.out_bind hlong Runs.hash)

end Skaled.Trie
