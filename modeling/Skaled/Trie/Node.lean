import Skaled.Trie.Nibbles

/-! # Tries

A trie says of each key which value it has; the empty value stands for a key that is
absent. There are many tries for one map.
-/

namespace Skaled.Trie

inductive Node where
  | empty
  | leaf (path : Nibbles) (value : Bytes)
  | extension (path : Nibbles) (child : Node)
  | branch (children : Fin 16 → Node) (value : Bytes)

namespace Node

/-- The value of a key. -/
def get : Node → Nibbles → Bytes
  | empty, _ => []
  | leaf path value, key => if key = path then value else []
  | extension path child, key => if path <+: key then child.get (key.drop path.length) else []
  | branch _ value, [] => value
  | branch children _, n :: key => (children n).get key

variable {path key : Nibbles}

@[simp] theorem get_extension_append (path key : Nibbles) (child : Node) :
    (extension path child).get (path ++ key) = child.get key := by
  rw [get, if_pos (List.prefix_append path key), List.drop_left]

theorem get_extension_of_not_prefix (child : Node) (h : ¬ path <+: key) :
    (extension path child).get key = [] := if_neg h

@[simp] theorem get_branch_nil (children : Fin 16 → Node) (value : Bytes) :
    (branch children value).get [] = value := rfl

@[simp] theorem get_branch_cons (children : Fin 16 → Node) (value : Bytes) (n : Fin 16)
    (key : Nibbles) : (branch children value).get (n :: key) = (children n).get key := rfl

/-- Lengths of paths and values for which nodes fit into vectors. -/
def maxPath : Nat := 2 ^ 31
def maxValue : Nat := 2 ^ 63 - 2 ^ 31

end Node

end Skaled.Trie
