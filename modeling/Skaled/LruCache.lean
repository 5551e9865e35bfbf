import Skaled.Queue.Queue

/-! # The cache of recently used entries

`LruCache` keeps its entries in a list, the most recently used one first, and finds
them through an index of iterators into the list. An iterator is the address of a
node. What is done through an iterator to no node of the list, or to the last node
of an empty one, has no result.

The list and the index are coupled by every operation, and the keys are those of
the reference model, which is a list alone. An insertion moves a key that is there
already to the front, but leaves it its old value.
-/

namespace Skaled

structure LruNode (Key Value : Type) where
  id : Nat
  key : Key
  value : Value
  deriving DecidableEq, Repr

structure LruCache (Key Value : Type) where
  capacity : Nat
  data : List (LruNode Key Value) := []
  index : AList fun _ : Key => Nat := ∅
  /-- The address of the next node. -/
  nextId : Nat := 0

namespace LruCache

variable {Key Value : Type} {key : Key} {value : Value} {capacity : Nat}
  {c c' : LruCache Key Value} {node : LruNode Key Value} {data : List (LruNode Key Value)}

section

variable [DecidableEq Key]

/-! ## Operations -/

variable (c)

def size : Nat := c.index.entries.length

/-- `m_data.splice( m_data.begin(), m_data, it )`. -/
def splice (data : List (LruNode Key Value)) (it : Nat) : Option (List (LruNode Key Value)) := do
  let node ← data.find? (·.id = it)
  pure (node :: data.eraseP (·.id = it))

/-- `m_data.erase( it )`. -/
def eraseNode (data : List (LruNode Key Value)) (it : Nat) : Option (List (LruNode Key Value)) := do
  let _ ← data.find? (·.id = it)
  pure (data.eraseP (·.id = it))

/-- The last entry leaves the index and the list. -/
def evict : Option (LruCache Key Value) := do
  let back ← c.data.getLast?
  pure { c with index := c.index.erase back.key, data := c.data.dropLast }

def pushFront (key : Key) (val : Value) : LruCache Key Value :=
  { c with
    data := ⟨c.nextId, key, val⟩ :: c.data
    index := c.index.insert key c.nextId
    nextId := c.nextId + 1 }

def insert (key : Key) (val : Value) : Option (Nat × LruCache Key Value) := do
  let c ← match c.index.lookup key with
    | none => do
      let c ← if c.size = c.capacity then c.evict else pure c
      pure (c.pushFront key val)
    | some it => do
      let data ← splice c.data it
      pure { c with data }
  pure (c.size, c)

def remove (key : Key) : Option (Nat × LruCache Key Value) := do
  let c ← match c.index.lookup key with
    | none => pure c
    | some it => do
      let data ← eraseNode c.data it
      pure { c with data, index := c.index.erase key }
  pure (c.size, c)

def touch (key : Key) : Option (Bool × LruCache Key Value) :=
  match c.index.lookup key with
  | none => pure (false, c)
  | some it => do
    let data ← splice c.data it
    pure (true, { c with data })

def clear : LruCache Key Value := { c with data := [], index := ∅ }

def contains (key : Key) : Bool := (c.index.lookup key).isSome

/-- `contains` of a key and a value. -/
def containsValue [DecidableEq Value] (key : Key) (value : Value) : Option Bool :=
  match c.index.lookup key with
  | none => pure false
  | some it => do
    let node ← c.data.find? (·.id = it)
    pure (node.value = value)

inductive Op (Key Value : Type) where
  | insert (key : Key) (value : Value)
  | remove (key : Key)
  | touch (key : Key)
  | clear
  deriving DecidableEq, Repr

def apply (c : LruCache Key Value) : Op Key Value → Option (LruCache Key Value)
  | .insert key value => (c.insert key value).map (·.2)
  | .remove key => (c.remove key).map (·.2)
  | .touch key => (c.touch key).map (·.2)
  | .clear => some c.clear

variable {c}

def run (capacity : Nat) (ops : List (Op Key Value)) : Option (LruCache Key Value) :=
  ops.foldlM apply { capacity }

/-! ## The reference model -/

/-- The keys by the time of their last use. -/
def referenceStep (capacity : Nat) (held : List Key) : Op Key Value → List Key
  | .insert key _ => (key :: held.erase key).take capacity
  | .remove key => held.erase key
  | .touch key => if key ∈ held then key :: held.erase key else held
  | .clear => []

def reference (capacity : Nat) (ops : List (Op Key Value)) : List Key :=
  ops.foldl (referenceStep capacity) []

def Op.uses (key : Key) : Op Key Value → Bool
  | .insert k _ | .touch k => k = key
  | .remove _ | .clear => false

/-- A key comes to the front, and only a new one pushes the last out of a full list. -/
theorem take_front {held : List Key} (hlength : held.length ≤ capacity) (hpos : 1 ≤ capacity) :
    (key :: held.erase key).take capacity =
      if key ∈ held then key :: held.erase key
      else if held.length = capacity then key :: held.dropLast else key :: held := by
  split
  next hmem =>
    have hcount := List.length_pos_of_mem hmem
    apply List.take_of_length_le
    rw [List.length_cons, List.length_erase_of_mem hmem]
    omega
  next hfresh =>
    rw [List.erase_of_not_mem hfresh]
    split
    next hfull =>
      obtain ⟨room, rfl⟩ := Nat.exists_eq_add_of_le' hpos
      rw [List.take_succ_cons, List.dropLast_eq_take, hfull]
      rfl
    next hroom => exact List.take_of_length_le (Nat.lt_of_le_of_ne hlength hroom)

/-- The number of operations up to the last one that inserts or touches a key. -/
def lastUse (ops : List (Op Key Value)) (key : Key) : Nat :=
  ops.length - ops.reverse.findIdx (Op.uses key)

variable {ops : List (Op Key Value)} {op : Op Key Value} {held : List Key}

theorem lastUse_append : lastUse (ops ++ [op]) key =
    if op.uses key then ops.length + 1 else lastUse ops key := by
  unfold lastUse
  rw [List.reverse_append, List.reverse_singleton, List.singleton_append, List.findIdx_cons,
    List.length_append, List.length_singleton]
  cases op.uses key with
  | true => rfl
  | false => exact Nat.add_sub_add_right _ _ _

/-- The keys are in the order of their last use. -/
def ByUse (ops : List (Op Key Value)) (held : List Key) : Prop :=
  held.Pairwise fun newer older => lastUse ops older < lastUse ops newer

theorem ByUse.nodup (h : ByUse ops held) : held.Nodup := by
  apply List.Pairwise.imp _ h
  rintro newer _ hlt rfl
  exact Nat.lt_irrefl _ hlt

theorem ByUse.unused (h : ByUse ops held) (hunused : ∀ k ∈ held, op.uses k = false) :
    ByUse (ops ++ [op]) held := by
  apply List.Pairwise.imp_of_mem _ h
  intro newer older hnewer holder hlt
  rw [lastUse_append, lastUse_append, hunused newer hnewer, hunused older holder]
  exact hlt

/-- The key that an operation uses comes to the front. -/
theorem ByUse.front (h : ByUse ops held) (huses : ∀ k, op.uses k = decide (key = k)) :
    ByUse (ops ++ [op]) (key :: held.erase key) := by
  have hunused : ∀ k ∈ held.erase key, op.uses k = false := by
    intro k hk
    rw [huses]
    exact decide_eq_false (h.nodup.mem_erase_iff.mp hk).1.symm
  refine List.pairwise_cons.mpr ⟨?_, ByUse.unused (h.sublist List.erase_sublist) hunused⟩
  intro older holder
  rw [lastUse_append, lastUse_append, hunused older holder, huses, decide_eq_true rfl, if_pos rfl,
    if_neg nofun]
  exact Nat.lt_succ_of_le (Nat.sub_le _ _)

/-- The reference model has the most recently used keys first. -/
theorem reference_byUse (capacity : Nat) (ops : List (Op Key Value)) :
    ByUse ops (reference capacity ops) := by
  induction ops using List.reverseRecOn with
  | nil => exact List.Pairwise.nil
  | append_singleton ops op ih =>
    rw [reference, List.foldl_append]
    change ByUse _ (referenceStep capacity (reference capacity ops) op)
    cases op with
    | insert key value => exact (ih.front fun _ => rfl).sublist (List.take_sublist _ _)
    | remove key => exact ByUse.unused (ih.sublist List.erase_sublist) fun _ _ => rfl
    | touch key =>
      simp only [referenceStep]
      split
      next => exact ih.front fun _ => rfl
      next habsent =>
        refine ih.unused fun k hk => decide_eq_false ?_
        rintro rfl
        exact habsent hk
    | clear => exact List.Pairwise.nil

end

/-! ## The list and the index -/

def keys (c : LruCache Key Value) : List Key := c.data.map (·.key)

/-- The index has the iterators to all nodes, and there is room for them. -/
structure Coupled (c : LruCache Key Value) : Prop where
  ids : (c.data.map (·.id)).Nodup
  fresh : ∀ node ∈ c.data, node.id < c.nextId
  index : c.index.entries.Perm (c.data.map fun n => ⟨n.key, n.id⟩)
  bounded : c.data.length ≤ c.capacity

theorem Coupled.length_keys_le (h : c.Coupled) : c.keys.length ≤ c.capacity :=
  (List.length_map _).trans_le h.bounded

theorem Coupled.keys_perm (h : c.Coupled) : c.index.keys.Perm c.keys := by
  have hperm := h.index.map Sigma.fst
  rwa [List.map_map] at hperm

theorem Coupled.size_eq (h : c.Coupled) : c.size = c.data.length :=
  h.index.length_eq.trans (List.length_map _)

theorem Coupled.nodup (h : c.Coupled) : c.keys.Nodup :=
  h.keys_perm.nodup_iff.mp c.index.keys_nodup

theorem Coupled.reorder (h : c.Coupled) (hperm : data.Perm c.data) : Coupled { c with data } where
  ids := (hperm.map _).nodup_iff.mpr h.ids
  fresh node hnode := h.fresh node (hperm.mem_iff.mp hnode)
  index := h.index.trans (hperm.map _).symm
  bounded := hperm.length_eq.trans_le h.bounded

variable [DecidableEq Key]

theorem Coupled.contains_iff (h : c.Coupled) : c.contains key = true ↔ key ∈ c.keys := by
  rw [contains, AList.lookup_isSome, AList.mem_keys, h.keys_perm.mem_iff]

theorem Coupled.lookup_eq_none (h : c.Coupled) : c.index.lookup key = none ↔ key ∉ c.keys := by
  rw [← h.contains_iff, contains, Option.not_isSome_iff_eq_none]

/-- The iterator of a key points to the one node with that key. -/
theorem Coupled.find (h : c.Coupled) {it : Nat} (hsome : c.index.lookup key = some it) :
    ∃ node, key ∈ c.keys ∧ node.key = key ∧ node.id = it ∧
      c.data.find? (·.id = it) = some node ∧ c.data.Perm (node :: c.data.eraseP (·.id = it)) ∧
      (c.data.eraseP (·.id = it)).map (·.key) = c.keys.erase key := by
  rw [AList.lookup_eq_some_iff_mem, h.index.mem_iff, List.mem_map] at hsome
  obtain ⟨node, hnode, heq⟩ := hsome
  cases heq
  obtain ⟨newer, older, hdata⟩ := List.append_of_mem hnode
  have hids := h.ids
  have hkeys := h.nodup
  rw [hdata, List.map_append, List.map_cons, List.nodup_middle, List.nodup_cons] at hids
  rw [keys, hdata, List.map_append, List.map_cons, List.nodup_middle, List.nodup_cons] at hkeys
  have hother : ∀ n ∈ newer, ¬ decide (n.id = node.id) = true := by
    intro n hn heq
    exact hids.1 (List.mem_append_left _ (List.mem_map.mpr ⟨n, hn, of_decide_eq_true heq⟩))
  have herase : c.data.eraseP (·.id = node.id) = newer ++ older := by
    rw [hdata, List.eraseP_append_right _ hother, List.eraseP_cons_of_pos (by simp)]
  refine ⟨node, List.mem_map_of_mem hnode, rfl, rfl, ?_, ?_, ?_⟩
  · rw [hdata, List.find?_append, List.find?_eq_none.mpr hother, Option.none_or,
      List.find?_cons_of_pos (by simp)]
  · rw [herase, hdata]
    exact List.perm_middle
  · rw [herase, keys, hdata, List.map_append, List.map_append, List.map_cons,
      List.erase_append_right _ fun hmem => hkeys.1 (List.mem_append_left _ hmem),
      List.erase_cons_head]

/-! ## What the operations keep -/

theorem Coupled.drop (h : c.Coupled) (hperm : c.data.Perm (node :: data)) :
    Coupled { c with data, index := c.index.erase node.key } where
  ids := ((hperm.map _).nodup_iff.mp h.ids).of_cons
  fresh other hother := h.fresh other (hperm.mem_iff.mpr (List.mem_cons_of_mem _ hother))
  index := by
    have herased := (h.index.trans (hperm.map _)).kerase (a := node.key) c.index.nodupKeys
    simp only [List.map_cons, List.kerase_cons_eq] at herased
    exact herased
  bounded := (Nat.le_succ _).trans (hperm.length_eq.symm.trans_le h.bounded)

theorem Coupled.pushFront (h : c.Coupled) (hfresh : key ∉ c.keys)
    (hroom : c.data.length < c.capacity) (value : Value) : (c.pushFront key value).Coupled where
  ids := by
    refine List.nodup_cons.mpr ⟨?_, h.ids⟩
    intro hmem
    obtain ⟨node, hnode, hid⟩ := List.mem_map.mp hmem
    exact absurd hid (h.fresh node hnode).ne
  fresh node hnode := by
    rcases List.mem_cons.mp hnode with rfl | hold
    · exact Nat.lt_succ_self _
    · exact (h.fresh node hold).trans (Nat.lt_succ_self _)
  index := by
    have hnew : key ∉ c.index.keys := by
      rwa [h.keys_perm.mem_iff]
    change (⟨key, c.nextId⟩ :: c.index.entries.kerase key).Perm _
    rw [List.kerase_of_notMem_keys hnew]
    exact h.index.cons _
  bounded := hroom

/-- The last node of a full list makes room. -/
theorem Coupled.evict (h : c.Coupled) (hfull : c.data.length = c.capacity)
    (hpos : 1 ≤ c.capacity) : ∃ c', c.evict = some c' ∧ c'.Coupled ∧ c'.capacity = c.capacity ∧
      c'.data = c.data.dropLast := by
  cases hlast : c.data.getLast? with
  | none =>
    rw [List.getLast?_eq_none_iff.mp hlast, List.length_nil] at hfull
    omega
  | some back =>
    obtain ⟨newer, hdata⟩ := List.getLast?_eq_some_iff.mp hlast
    have hperm : c.data.Perm (back :: c.data.dropLast) := by
      rw [hdata, List.dropLast_concat]
      exact List.perm_append_singleton _ _
    refine ⟨_, ?_, h.drop hperm, rfl, rfl⟩
    rw [LruCache.evict, hlast]
    rfl

section

variable [DecidableEq Value]

theorem containsValue_pushFront (c : LruCache Key Value) :
    (c.pushFront key value).containsValue key value = some true := by
  simp [containsValue, LruCache.pushFront]

/-- The value that a key has after an insertion. A key that was there keeps its own. -/
theorem Coupled.insert (h : c.Coupled) (hpos : 1 ≤ c.capacity) (key : Key) (value : Value) :
    ∃ c', c.insert key value = some (c'.size, c') ∧ c'.Coupled ∧ c'.capacity = c.capacity ∧
      c'.keys = (key :: c.keys.erase key).take c.capacity ∧
      c'.containsValue key value =
        if c.contains key then c.containsValue key value else some true := by
  have hlength : c.keys.length = c.data.length := List.length_map _
  rw [take_front h.length_keys_le hpos, hlength]
  simp only [LruCache.insert]
  cases hlookup : c.index.lookup key with
  | some it =>
    obtain ⟨node, hmem, rfl, rfl, hfind, hperm, hkeys⟩ := h.find hlookup
    refine ⟨{ c with data := node :: c.data.eraseP (·.id = node.id) }, ?_, h.reorder hperm.symm,
      rfl, ?_, ?_⟩
    · simp only [splice, hfind]
      rfl
    · rw [if_pos hmem, ← hkeys]
      rfl
    · simp [containsValue, contains, hlookup, hfind]
  | none =>
    have hfresh := h.lookup_eq_none.mp hlookup
    have habsent : ¬ c.contains key = true := fun hmem => hfresh (h.contains_iff.mp hmem)
    rw [h.size_eq, if_neg habsent, if_neg hfresh]
    by_cases hfull : c.data.length = c.capacity
    · obtain ⟨c₁, hevict, hcoupled, hcapacity, hdata⟩ := h.evict hfull hpos
      have hkeys : c₁.keys = c.keys.dropLast := by
        rw [keys, hdata, List.map_dropLast]
        rfl
      refine ⟨c₁.pushFront key value, ?_, hcoupled.pushFront ?_ ?_ value, hcapacity, ?_,
        containsValue_pushFront c₁⟩
      · simp only [if_pos hfull, hevict]
        rfl
      · rw [hkeys]
        exact fun hmem => hfresh (List.mem_of_mem_dropLast hmem)
      · rw [hdata, hcapacity, List.length_dropLast]
        omega
      · rw [if_pos hfull, ← hkeys]
        rfl
    · have hroom := Nat.lt_of_le_of_ne h.bounded hfull
      refine ⟨c.pushFront key value, ?_, h.pushFront hfresh hroom value, rfl, ?_,
        containsValue_pushFront c⟩
      · simp only [if_neg hfull]
        rfl
      · rw [if_neg hfull]
        rfl

theorem Coupled.apply (h : c.Coupled) (hpos : 1 ≤ c.capacity) (op : Op Key Value) :
    ∃ c', c.apply op = some c' ∧ c'.Coupled ∧ c'.capacity = c.capacity ∧
      c'.keys = referenceStep c.capacity c.keys op := by
  cases op with
  | insert key value =>
    obtain ⟨c', hinsert, hcoupled, hcapacity, hkeys, -⟩ := h.insert hpos key value
    refine ⟨c', ?_, hcoupled, hcapacity, hkeys⟩
    rw [LruCache.apply, hinsert]
    rfl
  | remove key =>
    simp only [LruCache.apply, LruCache.remove, referenceStep]
    cases hlookup : c.index.lookup key with
    | none =>
      rw [List.erase_of_not_mem (h.lookup_eq_none.mp hlookup)]
      exact ⟨c, rfl, h, rfl, rfl⟩
    | some it =>
      obtain ⟨node, -, rfl, rfl, hfind, hperm, hkeys⟩ := h.find hlookup
      refine ⟨_, ?_, h.drop hperm, rfl, hkeys⟩
      simp only [eraseNode, hfind]
      rfl
  | touch key =>
    simp only [LruCache.apply, LruCache.touch, referenceStep]
    cases hlookup : c.index.lookup key with
    | none =>
      rw [if_neg (h.lookup_eq_none.mp hlookup)]
      exact ⟨c, rfl, h, rfl, rfl⟩
    | some it =>
      obtain ⟨node, hmem, rfl, rfl, hfind, hperm, hkeys⟩ := h.find hlookup
      refine ⟨_, ?_, h.reorder hperm.symm, rfl, ?_⟩
      · simp only [splice, hfind]
        rfl
      · rw [if_pos hmem, ← hkeys]
        rfl
  | clear => exact ⟨c.clear, rfl, ⟨List.nodup_nil, nofun, .nil, Nat.zero_le _⟩, rfl, rfl⟩

/-! ## Runs -/

/-- A run does not fail, the list and the index stay coupled, and the keys are those
of the reference model. -/
theorem run_spec (hpos : 1 ≤ capacity) (ops : List (Op Key Value)) :
    ∃ c, run capacity ops = some c ∧ c.Coupled ∧ c.capacity = capacity ∧
      c.keys = reference capacity ops := by
  induction ops using List.reverseRecOn with
  | nil => exact ⟨{ capacity }, rfl, ⟨List.nodup_nil, nofun, .nil, Nat.zero_le _⟩, rfl, rfl⟩
  | append_singleton ops op ih =>
    obtain ⟨c, hrun, hcoupled, rfl, hkeys⟩ := ih
    obtain ⟨c', happly, hcoupled', hcapacity', hkeys'⟩ := hcoupled.apply hpos op
    refine ⟨c', ?_, hcoupled', hcapacity', ?_⟩
    · rw [run, List.foldlM_append]
      change (run c.capacity ops).bind _ = _
      rw [hrun, Option.bind_some, List.foldlM_cons, happly]
      rfl
    · rw [hkeys', hkeys, reference, reference, List.foldl_append]
      rfl

/-- The cache holds the keys of the reference model, in a list and an index. -/
structure Agrees (capacity : Nat) (ops : List (Op Key Value)) (c : LruCache Key Value) :
    Prop where
  contains : ∀ key, c.contains key = true ↔ key ∈ reference capacity ops
  sameKeys : c.index.keys.Perm c.keys
  bounded : c.size ≤ capacity

/-- For a new key the one leaves whose last use, among `ops`, is the oldest. -/
def Evicts (ops : List (Op Key Value)) (c : LruCache Key Value) (key : Key)
    (c' : LruCache Key Value) : Prop :=
  ∃ oldest, c.contains oldest = true ∧
    (∀ other, c.contains other = true → other ≠ oldest → lastUse ops oldest < lastUse ops other) ∧
    ∀ other, c'.contains other = true ↔ other = key ∨ (c.contains other = true ∧ other ≠ oldest)

/-- After an insertion the key has the value. A new key takes the place of another one
if the cache is full. -/
structure Inserts (ops : List (Op Key Value)) (c : LruCache Key Value) (key : Key) (value : Value)
    (c' : LruCache Key Value) : Prop where
  found : c'.containsValue key value = some true
  evicts : c.size = c.capacity → c.contains key = false → Evicts ops c key c'

/-- The cache is a bounded map of the most recently used keys throughout a sequence
of operations. -/
def IsLru (capacity : Nat) (ops : List (Op Key Value)) : Prop :=
  ∀ prior later, ops = prior ++ later →
    ∃ c, run capacity prior = some c ∧ Agrees capacity prior c ∧
      ∀ key value rest, later = .insert key value :: rest →
        ∃ size c', c.insert key value = some (size, c') ∧ Inserts prior c key value c'

/-- An insertion of the sequence names a key that the cache has with another value. -/
def Replaces (capacity : Nat) (ops : List (Op Key Value)) : Prop :=
  ∃ prior key value later c, ops = prior ++ .insert key value :: later ∧
    run capacity prior = some c ∧ c.contains key = true ∧ c.containsValue key value = some false

end

theorem Coupled.evicts_oldest {ops : List (Op Key Value)} (h : c.Coupled)
    (horder : ByUse ops c.keys) (hpos : 1 ≤ c.capacity) (hfull : c.size = c.capacity)
    (habsent : c.contains key = false) (h' : c'.Coupled)
    (hkeys : c'.keys = (key :: c.keys.erase key).take c.capacity) : Evicts ops c key c' := by
  have hfresh : key ∉ c.keys := by
    rw [← h.contains_iff, habsent]
    exact Bool.false_ne_true
  have hlength : c.keys.length = c.capacity :=
    (List.length_map _).trans (h.size_eq.symm.trans hfull)
  have hne : c.keys ≠ [] := List.ne_nil_of_length_pos (hlength ▸ hpos)
  obtain ⟨newer, oldest, hlast⟩ := (List.eq_nil_or_concat' c.keys).resolve_left hne
  have hnodup := h.nodup
  rw [List.erase_of_not_mem hfresh, ← hlength, hlast, List.length_append, List.length_singleton,
    List.take_succ_cons, List.take_left] at hkeys
  rw [hlast, List.nodup_append] at hnodup
  rw [ByUse, hlast, List.pairwise_append] at horder
  have hheld : ∀ other, c.contains other = true ↔ other ∈ newer ∨ other = oldest :=
    fun other => by rw [h.contains_iff, hlast, List.mem_append, List.mem_singleton]
  refine ⟨oldest, (hheld _).mpr (.inr rfl), fun other hother hnot => ?_, fun other => ?_⟩
  · exact horder.2.2 other (((hheld other).mp hother).resolve_right hnot) _ List.mem_cons_self
  · rw [h'.contains_iff, hkeys, List.mem_cons, hheld]
    refine or_congr_right ⟨fun hmem => ⟨.inl hmem, ?_⟩, fun hmem => hmem.1.resolve_right hmem.2⟩
    exact hnodup.2.2 _ hmem _ List.mem_cons_self

variable [DecidableEq Value]

/-- The cache is such a map exactly for the sequences that replace no value. -/
theorem isLru_iff_not_replaces (hpos : 1 ≤ capacity) (ops : List (Op Key Value)) :
    IsLru capacity ops ↔ ¬ Replaces capacity ops := by
  constructor
  · rintro hlru ⟨prior, key, value, later, c, hops, hrun, hmem, hother⟩
    obtain ⟨c₁, hrun₁, -, hinsert⟩ := hlru prior _ hops
    cases hrun.symm.trans hrun₁
    obtain ⟨size, c', hc', hinserts⟩ := hinsert key value later rfl
    obtain ⟨c₁, hrun₁, hcoupled, rfl, -⟩ := run_spec hpos prior
    cases hrun.symm.trans hrun₁
    obtain ⟨c₁, hc₁, -, -, -, hvalue⟩ := hcoupled.insert hpos key value
    cases hc'.symm.trans hc₁
    rw [hinserts.found, hmem, if_pos rfl, hother] at hvalue
    cases hvalue
  · rintro hkept prior later rfl
    obtain ⟨c, hrun, hcoupled, rfl, hkeys⟩ := run_spec hpos prior
    refine ⟨c, hrun, ⟨fun key => ?_, hcoupled.keys_perm, ?_⟩, ?_⟩
    · rw [hcoupled.contains_iff, hkeys]
    · exact hcoupled.size_eq.trans_le hcoupled.bounded
    · rintro key value rest rfl
      obtain ⟨c', hinsert, hcoupled', -, hkeys', hvalue⟩ := hcoupled.insert hpos key value
      refine ⟨_, c', hinsert, hvalue.trans ?_, fun hfull habsent => ?_⟩
      · split
        next hmem =>
          obtain ⟨it, hlookup⟩ := Option.isSome_iff_exists.mp hmem
          obtain ⟨node, -, -, -, hfind, -⟩ := hcoupled.find hlookup
          have hsame : c.containsValue key value = some (decide (node.value = value)) := by
            simp [containsValue, hlookup, hfind]
          by_cases heq : node.value = value
          · rw [hsame, decide_eq_true heq]
          · rw [decide_eq_false heq] at hsame
            exact absurd ⟨prior, key, value, rest, c, rfl, hrun, hmem, hsame⟩ hkept
        next => rfl
      · exact hcoupled.evicts_oldest (hkeys ▸ reference_byUse _ _) hpos hfull habsent hcoupled'
          hkeys'

/-- A key that is pushed out, and one that is inserted again with its value. -/
theorem isLru_iff_not_replaces_sample :
    IsLru 1 [.insert 1 10, .insert 2 20, .insert 2 20] := by
  refine (isLru_iff_not_replaces (Nat.le_refl 1) _).mpr ?_
  rintro ⟨prior, key, value, later, c, hops, hrun, hmem, hother⟩
  rcases prior with _ | ⟨first, _ | ⟨second, _ | ⟨third, rest⟩⟩⟩
  · cases hops
    cases hrun
    exact absurd hmem (by decide)
  · cases hops
    cases hrun
    exact absurd hmem (by decide)
  · cases hops
    cases hrun
    exact absurd hother (by decide)
  · have hlength := congrArg List.length hops
    simp at hlength

/-- A key that is inserted with another value keeps the old one. -/
theorem insert_keeps_value : ¬ IsLru 1 [.insert 1 10, .insert 1 20] := by
  intro hlru
  obtain ⟨c, hrun, -, hinsert⟩ := hlru [.insert 1 10] [.insert 1 20] rfl
  cases hrun
  obtain ⟨size, c', hc', hinserts⟩ := hinsert 1 20 [] rfl
  cases hc'
  exact absurd hinserts.found (by decide)

/-! ## The dropped transactions of the queue -/

/-- What the queue does with a hash that it drops is an insertion. -/
theorem Coupled.noteDropped {c : LruCache H256 Bool} (h : c.Coupled)
    (hcapacity : c.capacity = TransactionQueue.maxDropped) (hash : H256) :
    ∃ c', c.insert hash true = some (c'.size, c') ∧ c'.Coupled ∧
      c'.keys = TransactionQueue.noteDropped hash c.keys := by
  have hpos : 1 ≤ c.capacity := by
    rw [hcapacity]
    decide
  obtain ⟨c', hinsert, hcoupled, -, hkeys, -⟩ := h.insert hpos hash true
  refine ⟨c', hinsert, hcoupled, ?_⟩
  rw [hkeys, take_front h.length_keys_le hpos, hcapacity]
  rfl

end LruCache

end Skaled
