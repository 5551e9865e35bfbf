import Mathlib.Algebra.BigOperators.Fin
import Mathlib.Algebra.Order.BigOperators.Group.Finset
import Skaled.RlpReader
import Skaled.Trie.Node

/-! # Tries as RLP

A node is written as a list: a leaf and an extension as two items, a branch as seventeen.
Where a node refers to another, that one stands there itself if it is shorter than 32
bytes, otherwise its hash. Provided that the hashes of the nodes below do not collide, a
node can be read off its list (`tree_inj`).
-/

namespace Skaled.Trie

open Rlp
open Multiset (le_add_left le_add_right mem_of_le)
open List (length_append length_nil ofFn)

/-! ## Lengths of encodings -/

theorem length_toBigEndian (word : U256) : (toBigEndian word).length = 32 :=
  BigEndian.length_encode 32 word.toNat

theorem toBigEndian_ne_nil (word : U256) : toBigEndian word ≠ [] := by
  intro h
  have hlength := congrArg List.length h
  rw [length_toBigEndian] at hlength
  cases hlength

theorem toBigEndian_inj {word word' : U256} (h : toBigEndian word = toBigEndian word') :
    word = word' := by
  have hdecode := congrArg BigEndian.decode h
  unfold toBigEndian at hdecode
  rw [BigEndian.decode_encode (by have := word.isLt; omega),
    BigEndian.decode_encode (by have := word'.isLt; omega)] at hdecode
  exact BitVec.eq_of_toNat_eq hdecode

theorem length_encodeTree_data_le (bytes : Bytes) (hfits : bytes.length < 2 ^ 64) :
    (encodeTree (.data bytes)).length ≤ bytes.length + 9 := by
  rw [encodeTree]
  split
  · omega
  · have := length_header_le 0x80 hfits
    rw [length_append]
    omega

theorem length_encodeTree_list_le (trees : List Tree)
    (hfits : (encodeTrees trees).length < 2 ^ 64) :
    (encodeTree (.list trees)).length ≤ (encodeTrees trees).length + 9 := by
  have := length_header_le 0xc0 hfits
  rw [encodeTree, length_append]
  omega

theorem length_encodeTree_pair_le (bytes : Bytes) (tree : Tree)
    (hfits : bytes.length + (encodeTree tree).length + 9 < 2 ^ 64) :
    (encodeTree (.list [.data bytes, tree])).length ≤
      bytes.length + (encodeTree tree).length + 18 := by
  have hdata := length_encodeTree_data_le bytes (by omega)
  have hitems : (encodeTrees [.data bytes, tree]).length ≤
      bytes.length + (encodeTree tree).length + 9 := by
    simp only [encodeTrees, length_append, length_nil]
    omega
  have hlist := length_encodeTree_list_le [.data bytes, tree] (by omega)
  omega

theorem length_encodeTrees_append (trees trees' : List Tree) :
    (encodeTrees (trees ++ trees')).length =
      (encodeTrees trees).length + (encodeTrees trees').length := by
  simp only [encodeTrees_eq, List.map_append, List.flatten_append, length_append]

theorem length_encodeTrees_le (trees : List Tree) (bound : Nat)
    (h : ∀ tree ∈ trees, (encodeTree tree).length ≤ bound) :
    (encodeTrees trees).length ≤ trees.length * bound := by
  induction trees with
  | nil => simp [encodeTrees]
  | cons tree trees ih =>
    have htree := h tree List.mem_cons_self
    have htrees := ih fun other hother => h other (List.mem_cons_of_mem _ hother)
    rw [encodeTrees, length_append, List.length_cons, Nat.succ_mul]
    omega

theorem encodeTree_inj {tree tree' : Tree} (hlimit : (encodeTree tree).length < maxSize)
    (h : encodeTree tree = encodeTree tree') : tree = tree' := by
  have hmax := maxSize_le_lengthLimit
  have hread := walk_encodeTree le_rfl (show (encodeTree tree).length < lengthLimit by omega)
  have hread' := walk_encodeTree le_rfl (show (encodeTree tree').length < lengthLimit by
    rw [← h]
    omega)
  rw [h, hread', Option.some.injEq] at hread
  exact hread.symm

/-! ## Nodes -/

variable [Keccak]

/-- What stands for a node in the node above it. -/
def ref (tree : Tree) : Tree :=
  if (encodeTree tree).length < 32 then tree else .data (toBigEndian (sha3 (encodeTree tree)))

namespace Node

def tree : Node → Tree
  | empty => .data []
  | leaf path value => .list [.data (hexPrefix true path), .data value]
  | extension path child => .list [.data (hexPrefix false path), ref child.tree]
  | branch children value =>
    .list (ofFn (fun n => ref (children n).tree) ++ [.data value])

def rlp (node : Node) : Bytes := encodeTree node.tree

/-- The node itself, if the node above it refers to it by its hash. -/
def own (node : Node) : Multiset Bytes := if node.rlp.length < 32 then 0 else {node.rlp}

def hashed : Node → Multiset Bytes
  | empty => 0
  | leaf _ _ => 0
  | extension _ child => child.own + child.hashed
  | branch children _ => ∑ n, ((children n).own + (children n).hashed)

end Node

theorem length_ref_le (tree : Tree) : (encodeTree (ref tree)).length ≤ 41 := by
  unfold ref
  split
  · omega
  · have := length_toBigEndian (sha3 (encodeTree tree))
    have := length_encodeTree_data_le (toBigEndian (sha3 (encodeTree tree))) (by omega)
    omega

namespace Node

theorem length_rlp_leaf {path : Nibbles} {value : Bytes} (hpath : path.length ≤ maxPath)
    (hvalue : value.length < maxValue) : (leaf path value).rlp.length < maxSize := by
  unfold maxPath at hpath
  unfold maxValue at hvalue
  have hlength := length_hexPrefix true path
  have hsecond := length_encodeTree_data_le value (by omega)
  have hpair := length_encodeTree_pair_le (hexPrefix true path) (.data value) (by omega)
  unfold maxSize
  rw [rlp, tree]
  omega

theorem length_rlp_extension {path : Nibbles} (child : Node) (hpath : path.length ≤ maxPath) :
    (extension path child).rlp.length < maxSize := by
  unfold maxPath at hpath
  have hlength := length_hexPrefix false path
  have hsecond := length_ref_le child.tree
  have hpair := length_encodeTree_pair_le (hexPrefix false path) (ref child.tree) (by omega)
  unfold maxSize
  rw [rlp, tree]
  omega

theorem length_rlp_branch (children : Fin 16 → Node) {value : Bytes}
    (hvalue : value.length < maxValue) : (branch children value).rlp.length < maxSize := by
  unfold maxValue at hvalue
  have hrefs : (encodeTrees (ofFn fun n => ref (children n).tree)).length ≤ 16 * 41 := by
    have h := length_encodeTrees_le (ofFn fun n => ref (children n).tree) 41 ?_
    · rwa [List.length_ofFn] at h
    · intro tree htree
      obtain ⟨n, rfl⟩ := List.mem_ofFn.mp htree
      exact length_ref_le _
  have hlast := length_encodeTree_data_le value (by omega)
  have hitems := length_encodeTrees_append (ofFn fun n => ref (children n).tree)
    [.data value]
  rw [encodeTrees, encodeTrees, List.append_nil] at hitems
  have hlist := length_encodeTree_list_le
    ((ofFn fun n => ref (children n).tree) ++ [.data value]) (by omega)
  unfold maxSize
  rw [rlp, tree]
  omega

variable {node : Node}

/-! ## Reading a node off its list -/

theorem ref_of_lt (h : node.rlp.length < 32) : ref node.tree = node.tree := if_pos h

theorem ref_of_not_lt (h : ¬ node.rlp.length < 32) :
    ref node.tree = .data (toBigEndian (sha3 node.rlp)) := if_neg h

theorem own_of_lt (h : node.rlp.length < 32) : node.own = 0 := if_pos h

theorem own_of_not_lt (h : ¬ node.rlp.length < 32) : node.own = {node.rlp} :=
  if_neg h

theorem mem_own (hlong : ¬ node.rlp.length < 32) : node.rlp ∈ node.own := by
  rw [own_of_not_lt hlong]
  exact Multiset.mem_singleton_self _

theorem tree_eq_data {bytes : Bytes} (h : node.tree = .data bytes) : bytes = [] := by
  cases node <;> simp_all [tree]

end Node

/-- No two of these strings have the same hash. -/
def Distinct (hashed hashed' : Multiset Bytes) : Prop :=
  ∀ x ∈ hashed, ∀ y ∈ hashed', sha3 x = sha3 y → x = y

theorem Distinct.mono {hashed hashed' part part' : Multiset Bytes}
    (h : Distinct hashed hashed') (hpart : part ≤ hashed) (hpart' : part' ≤ hashed') :
    Distinct part part' := fun x hx y hy =>
  h x (mem_of_le hpart hx) y (mem_of_le hpart' hy)

namespace Node

theorem tree_eq_of_ref {node other : Node} (hfits : ∀ x ∈ node.own, x.length < maxSize)
    (hdistinct : Distinct node.own other.own) (h : ref node.tree = ref other.tree) :
    node.tree = other.tree := by
  unfold ref at h
  split at h
  next hshort =>
    split at h
    next => exact h
    next => exact absurd (tree_eq_data h) (toBigEndian_ne_nil _)
  next hlong =>
    split at h
    next => exact absurd (tree_eq_data h.symm) (toBigEndian_ne_nil _)
    next hlong' =>
      have hhash := toBigEndian_inj (Tree.data.inj h)
      have hrlp := hdistinct _ (mem_own hlong) _ (mem_own hlong') hhash
      exact encodeTree_inj (hfits _ (mem_own hlong)) hrlp

/-- A branch has seventeen items. -/
theorem ne_branch {trees : List Tree} {children : Fin 16 → Node} {value : Bytes}
    (h : trees.length = 2) : Tree.list trees ≠ (branch children value).tree := by
  intro heq
  have hlength := congrArg List.length (Tree.list.inj heq)
  rw [h, length_append, List.length_ofFn] at hlength
  cases hlength

/-- A node can be read off its list, unless two nodes below have the same hash. -/
theorem tree_inj {node other : Node} (hfits : ∀ x ∈ node.hashed, x.length < maxSize)
    (hdistinct : Distinct node.hashed other.hashed) (h : node.tree = other.tree) :
    node = other := by
  induction node generalizing other with
  | empty => cases other <;> simp_all [tree]
  | leaf path value =>
    cases other with
    | empty => cases h
    | leaf path' value' =>
      simp only [tree, Tree.list.injEq, List.cons.injEq, Tree.data.injEq, and_true] at h
      rw [(hexPrefix_inj h.1).2, h.2]
    | extension path' child' =>
      simp only [tree, Tree.list.injEq, List.cons.injEq, Tree.data.injEq] at h
      cases (hexPrefix_inj h.1).1
    | branch children' value' => exact absurd h (ne_branch rfl)
  | extension path child ih =>
    cases other with
    | empty => cases h
    | leaf path' value' =>
      simp only [tree, Tree.list.injEq, List.cons.injEq, Tree.data.injEq] at h
      cases (hexPrefix_inj h.1).1
    | extension path' child' =>
      simp only [tree, Tree.list.injEq, List.cons.injEq, Tree.data.injEq, and_true] at h
      obtain ⟨hpath, href⟩ := h
      have htree := tree_eq_of_ref (fun x hx => hfits x (Multiset.mem_add.mpr (.inl hx)))
        (hdistinct.mono (le_add_right _ _) (le_add_right _ _)) href
      rw [(hexPrefix_inj hpath).2,
        ih (fun x hx => hfits x (Multiset.mem_add.mpr (.inr hx)))
          (hdistinct.mono (le_add_left _ _) (le_add_left _ _)) htree]
    | branch children' value' => exact absurd h (ne_branch rfl)
  | branch children value ih =>
    cases other with
    | empty => cases h
    | leaf path' value' | extension path' child' => exact absurd h.symm (ne_branch rfl)
    | branch children' value' =>
      have hitems := List.append_inj (Tree.list.inj h) (by simp)
      have hvalue := Tree.data.inj (List.cons.inj hitems.2).1
      have hrefs := congrFun (List.ofFn_injective hitems.1)
      have hpart := fun (children : Fin 16 → Node) n =>
        Finset.single_le_sum (f := fun n => (children n).own + (children n).hashed)
          (fun _ _ => Multiset.zero_le _) (Finset.mem_univ n)
      have hchildren : children = children' := by
        funext n
        have hdist := hdistinct.mono (hpart children n) (hpart children' n)
        have hfitsChild : ∀ x ∈ (children n).own + (children n).hashed,
            x.length < maxSize := fun x hx => hfits x (mem_of_le (hpart children n) hx)
        have htree := tree_eq_of_ref
          (fun x hx => hfitsChild x (Multiset.mem_add.mpr (.inl hx)))
          (hdist.mono (le_add_right _ _) (le_add_right _ _)) (hrefs n)
        exact ih n (fun x hx => hfitsChild x (Multiset.mem_add.mpr (.inr hx)))
          (hdist.mono (le_add_left _ _) (le_add_left _ _)) htree
      rw [hvalue, hchildren]

end Node

end Skaled.Trie
