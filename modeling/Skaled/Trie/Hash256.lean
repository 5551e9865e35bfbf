import Skaled.Lib.AssocMap
import Skaled.Lib.OrderedMap
import Skaled.Trie.Encoding

/-! # The root of a map

`hash256` builds the trie of a map without a database: it walks over the entries in the
order of their keys and groups them by their next nibble. The result is the root of the
canonical trie. `none` stands for an exception of `RLPStream`, which cannot hold more than
a vector can.
-/

namespace Skaled.Trie

open Rlp

/-- An entry of a `HexMap`. -/
abbrev Entry := Nibbles × Bytes

/-- What was hashed so far is written down, to say what it means that no two of these
strings have the same hash. -/
abbrev HashM := StateT (List Bytes) Option

/-- `RLPStream::out` of a stream that a tree was written to. -/
def out (tree : Tree) : HashM Bytes := StateT.lift (write tree)

/-- The program returns this value, and among the strings that are written down when it
ends are these. It can fail only under the given condition. -/
def Runs {α : Type} (failing : Prop) (x : HashM α) (a : α) (strings : Multiset Bytes) : Prop :=
  ∀ log, (failing ∧ x log = none) ∨ ∃ log', x log = some (a, log') ∧ (∀ y ∈ log, y ∈ log') ∧
    ∀ y ∈ strings, y ∈ log' ∧ y.length < maxSize

namespace Runs

variable {α β : Type} {failing : Prop}

theorem pure (a : α) : Runs failing (Pure.pure a) a 0 := fun log =>
  .inr ⟨log, rfl, fun _ hy => hy, fun y hy => absurd hy (Multiset.notMem_zero y)⟩

variable {strings : Multiset Bytes}

theorem bind {x : HashM α} {f : α → HashM β} {a : α} {b : β} {strings' : Multiset Bytes}
    (hx : Runs failing x a strings) (hf : Runs failing (f a) b strings') :
    Runs failing (x >>= f) b (strings + strings') := by
  intro log
  have happly : (x >>= f) log = (x log).bind fun p => f p.1 p.2 := rfl
  obtain ⟨hfailing, hnone⟩ | ⟨log₁, hrun, hold, hnew⟩ := hx log
  · exact .inl ⟨hfailing, by rw [happly, hnone]; rfl⟩
  obtain ⟨hfailing, hnone⟩ | ⟨log₂, hrun', hold', hnew'⟩ := hf log₁
  · exact .inl ⟨hfailing, by rw [happly, hrun]; exact hnone⟩
  refine .inr ⟨log₂, by rw [happly, hrun]; exact hrun', fun y hy => hold' y (hold y hy),
    fun y hy => ?_⟩
  obtain hy | hy := Multiset.mem_add.mp hy
  · exact ⟨hold' y (hnew y hy).1, (hnew y hy).2⟩
  · exact hnew' y hy

theorem bind_pure {x : HashM α} {a : α} (hx : Runs failing x a strings) (g : α → β) :
    Runs failing (x >>= fun a => Pure.pure (g a)) (g a) strings := by
  have h := hx.bind (f := fun a => Pure.pure (g a)) (pure (g a))
  rwa [add_zero] at h

/-- What a stream holds is short enough from there on. -/
theorem out_bind {tree : Tree} {f : Bytes → HashM β} {b : β}
    (hlong : maxSize ≤ (encodeTree tree).length → failing)
    (hf : (encodeTree tree).length < maxSize → Runs failing (f (encodeTree tree)) b strings) :
    Runs failing (out tree >>= f) b strings := by
  intro log
  have happly : (out tree >>= f) log = (write tree).bind fun x => f x log := by
    unfold out
    cases write tree <;> rfl
  obtain hfits | hfits := Nat.lt_or_ge (encodeTree tree).length maxSize
  · rw [happly, write_eq_some.mpr ⟨rfl, hfits⟩]
    exact hf hfits log
  · rw [happly, write_eq, grown_of_le hfits]
    exact .inl ⟨hlong hfits, rfl⟩

end Runs

/-! ## The functions of the source -/

variable [Keccak]

def hash (x : Bytes) : HashM H256 := do
  modify (x :: ·)
  pure (sha3 x)

theorem Runs.hash {failing : Prop} {x : Bytes} (hfits : x.length < maxSize) :
    Runs failing (hash x) (sha3 x) {x} := fun log =>
  .inr ⟨x :: log, rfl, fun _ hy => List.mem_cons_of_mem x hy, fun y hy => by
    rw [Multiset.mem_singleton.mp hy]
    exact ⟨List.mem_cons_self, hfits⟩⟩

/-- The loop of `hash256rlp` that finds how many nibbles the first key shares with each
of the others. It stops when there is none. -/
def findSharedPre (first : Nibbles) (preLen : Nat) : List Entry → (sharedPre : Nat) → Nat
  | [], sharedPre => sharedPre
  | entry :: entries, sharedPre =>
    if sharedPre = 0 then sharedPre
    else
      let x := min sharedPre (min (toUnsigned first.length) (toUnsigned entry.1.length))
      let shared := preLen +
        sharedLength ((first.take x).drop preLen) ((entry.1.take x).drop preLen)
      findSharedPre first preLen entries (min shared sharedPre)

def hashChild (hash256aux : List Entry → Nat → HashM Tree) (group : List Entry) (preLen : Nat) :
    HashM Tree :=
  if group = [] then pure (.data []) else hash256aux group (toUnsigned (preLen + 1))

/-- The loop of `hash256rlp` over the children of a branch. The entries are sorted, so
those of a child follow each other. -/
def hashChildren (hash256aux : List Entry → Nat → HashM Tree) (preLen : Nat) :
    (nibbles : Nibbles) → List Entry → HashM (List Tree)
  | [], _ => pure []
  | i :: nibbles, entries => do
    let group := entries.takeWhile fun entry => entry.1[preLen]? = some i
    let child ← hashChild hash256aux group preLen
    let children ← hashChildren hash256aux preLen nibbles
      (entries.dropWhile fun entry => entry.1[preLen]? = some i)
    pure (child :: children)

/-- `hash256aux`: a node of less than 32 bytes is put in as it is. -/
def hash256aux (hash256rlp : List Entry → Nat → HashM Tree) (entries : List Entry)
    (preLen : Nat) : HashM Tree := do
  let node ← hash256rlp entries preLen
  let rlp ← out node
  if rlp.length < 32 then pure node
  else do
    let h ← hash rlp
    pure (.data (toBigEndian h))

/-- `hash256rlp` writes the node for the entries, which agree in their first `preLen`
nibbles. -/
def hash256rlp : (levels : Nat) → List Entry → (preLen : Nat) → HashM Tree
  | 0, _, _ => failure
  | _ + 1, [], _ => pure (.data [])
  | _ + 1, [(key, value)], preLen =>
    pure (.list [.data (hexPrefixEncode key true (toSigned preLen) (-1)), .data value])
  | levels + 1, (key, value) :: next :: rest, preLen => do
    let entries := (key, value) :: next :: rest
    let sharedPre := findSharedPre key preLen (next :: rest) (2 ^ 32 - 1)
    if preLen < sharedPre then do
      let child ← hash256aux (hash256rlp levels) entries sharedPre
      pure (.list [.data (hexPrefixEncode key false (toSigned preLen) (toSigned sharedPre)), child])
    else do
      let entries := if preLen = key.length then next :: rest else entries
      let children ← hashChildren (hash256aux (hash256rlp levels)) preLen (List.finRange 16)
        entries
      pure (.list (children ++ [.data (if preLen = key.length then value else [])]))

/-- Deep enough for the longest key. -/
def depth (entries : List Entry) : Nat := (entries.map fun entry => entry.1.length).foldr max 0 + 1

def hexMap (map : Map Bytes Bytes) : List Entry :=
  map.entries.foldr (fun entry entries => OrderedMap.insert (asNibbles entry.1) entry.2 entries) []

def rlp256 (map : Map Bytes Bytes) : HashM Bytes :=
  if map.entries = [] then out (.data [])
  else do
    let node ← hash256rlp (depth (hexMap map)) (hexMap map) 0
    out node

def hash256M (map : Map Bytes Bytes) : HashM H256 := do
  let rlp ← rlp256 map
  hash rlp

def hash256Logged (map : Map Bytes Bytes) : Option (H256 × List Bytes) := (hash256M map).run []

def hash256 (map : Map Bytes Bytes) : Option H256 := (hash256Logged map).map Prod.fst

def hashedStrings (map : Map Bytes Bytes) : List Bytes :=
  match hash256Logged map with
  | some (_, strings) => strings
  | none => []

/-- The map of `orderedTrieRoot`: the positions, as RLP, to the items. The position is an
`unsigned`. -/
def orderedMap : (j : Nat) → List Bytes → Map Bytes Bytes → Option (Map Bytes Bytes)
  | _, [], map => some map
  | j, item :: items, map => do
    let key ← appendInt (toUnsigned j)
    orderedMap (j + 1) items (map.insert key item)

def orderedTrieRoot (items : List Bytes) : Option H256 := do
  let map ← orderedMap 0 items ∅
  hash256 map

end Skaled.Trie
