import Mathlib.Algebra.BigOperators.Group.Multiset.Basic
import Mathlib.Data.List.TakeWhile
import Skaled.Queue.Queue

/-! # The indexes of the transaction queue

What it means that the containers and counters of the queue agree, and that the
parts of the operations keep it. A transaction that moves between `current` and
the future passes through states in which it is in one index and not in another;
so the parts of the invariant are kept apart, and each names the transactions it
is about.
-/

namespace Skaled

open Multiset (map_cons map_le_map mem_cons_self mem_of_le nodup_cons nodup_of_le)

/-- What the indexes know of an element; its category is not part of it. -/
def QueueNode.key (node : QueueNode) : Nat × PooledTransaction := (node.id, node.transaction)

namespace TransactionQueue

/-- The transactions of some elements. -/
def pending (nodes : List QueueNode) : Multiset PooledTransaction :=
  ↑(nodes.map fun node => node.transaction)

def futures (q : TransactionQueue) : Multiset PooledTransaction :=
  q.future.values.map (·.transaction)

def bytes (ts : Multiset PooledTransaction) : Nat := (ts.map (·.size)).sum

/-- The index by hash holds the elements of `current`. -/
def ByHash (index : Map H256 Nat) (nodes : List QueueNode) : Prop :=
  ∀ h id, index.lookup h = some id ↔
    ∃ node ∈ nodes, node.id = id ∧ node.transaction.hash = h

/-- The index by sender and nonce holds the elements of `current`. -/
def ByNonce (index : NestedMap Address U256 (Option Nat)) (nodes : List QueueNode) : Prop :=
  ∀ a n it, index.find a n = some it ↔ ∃ node ∈ nodes, it = some node.id ∧
    node.transaction.origin = a ∧ node.transaction.nonce = n

/-- Transactions that can be told apart by their hashes and by sender and nonce,
all valid and with a sender, and few enough for counters of 32 bits. -/
structure Distinct (ts : Multiset PooledTransaction) : Prop where
  hashes : (ts.map (·.hash)).Nodup
  places : (ts.map fun t => (t.origin, t.nonce)).Nodup
  senders : ∀ t ∈ ts, t.sender.isSome = true
  valid : ∀ t ∈ ts, t.isInvalid = false
  small : bytes ts < 2 ^ 32

/-- The elements of `current` have numbers of their own. -/
structure Numbered (nodes : List QueueNode) (nextId : Nat) : Prop where
  nodup : (nodes.map (·.id)).Nodup
  fresh : ∀ node ∈ nodes, node.id < nextId

/-- `current`, its indexes and its counter agree. -/
structure Linked (q : TransactionQueue) : Prop where
  numbered : Numbered q.current q.nextId
  byHash : ByHash q.currentByHash q.current
  byNonce : ByNonce q.currentByAddressAndNonce q.current
  noEmpty : q.currentByAddressAndNonce.NoEmpty
  counted : q.currentSizeBytes.toNat = bytes (pending q.current)

structure FutureCounted (q : TransactionQueue) (ts : Multiset PooledTransaction) : Prop where
  size : q.futureSize.toNat = ts.card
  bytes : q.futureSizeBytes.toNat = bytes ts

structure Stored (future : NestedMap Address U256 VerifiedTransaction) : Prop where
  keyed : ∀ a n v, future.find a n = some v → v.transaction.origin = a ∧ v.transaction.nonce = n
  noEmpty : future.NoEmpty

/-- All the containers and counters agree, except `known`. -/
structure Balanced (q : TransactionQueue) : Prop where
  linked : q.Linked
  stored : Stored q.future
  distinct : Distinct (pending q.current + q.futures)
  futureCounted : q.FutureCounted q.futures

/-- All the containers and counters agree. -/
structure Indexed (q : TransactionQueue) : Prop extends Balanced q where
  known : ∀ h, h ∈ q.known ↔ h ∈ (pending q.current + q.futures).map (·.hash)

variable {t : PooledTransaction} {q : TransactionQueue}

/-! ## Transactions -/

section Transactions

variable {ts ts' : Multiset PooledTransaction}

theorem bytes_cons (t : PooledTransaction) (ts : Multiset PooledTransaction) :
    bytes (t ::ₘ ts) = t.size + bytes ts := by
  rw [bytes, map_cons, Multiset.sum_cons, bytes]

theorem bytes_add (ts ts' : Multiset PooledTransaction) :
    bytes (ts + ts') = bytes ts + bytes ts' := by
  rw [bytes, Multiset.map_add, Multiset.sum_add, bytes, bytes]

theorem bytes_mono (hle : ts' ≤ ts) : bytes ts' ≤ bytes ts := by
  obtain ⟨rest, rfl⟩ := Multiset.le_iff_exists_add.mp hle
  rw [bytes_add]
  exact Nat.le_add_right _ _

theorem Distinct.mono (h : Distinct ts) (hle : ts' ≤ ts) : Distinct ts' where
  hashes := nodup_of_le (map_le_map hle) h.hashes
  places := nodup_of_le (map_le_map hle) h.places
  senders := fun t ht => h.senders t (mem_of_le hle ht)
  valid := fun t ht => h.valid t (mem_of_le hle ht)
  small := (bytes_mono hle).trans_lt h.small

/-- A transaction with a sender takes up space. -/
theorem Distinct.card_lt (h : Distinct ts) : ts.card < 2 ^ 32 := by
  have hle : ts.card ≤ bytes ts := by
    have hpos : ∀ t ∈ ts, 0 < t.size := fun t ht => t.size_pos (h.valid t ht) (h.senders t ht)
    clear h
    induction ts using Multiset.induction_on with
    | empty => rfl
    | cons t ts ih =>
      have hfirst := hpos t (mem_cons_self t ts)
      have hrest := ih fun u hu => hpos u (Multiset.mem_cons_of_mem hu)
      rw [Multiset.card_cons, bytes_cons]
      omega
  exact hle.trans_lt h.small

variable {nodes nodes' : List QueueNode}

theorem pending_of_keys
    (h : (nodes.map QueueNode.key).Perm (nodes'.map QueueNode.key)) :
    pending nodes = pending nodes' := by
  have hkeys := h.map Prod.snd
  rw [List.map_map, List.map_map] at hkeys
  exact Multiset.coe_eq_coe.mpr hkeys

theorem pending_le_of_sublist (h : nodes'.Sublist nodes) : pending nodes' ≤ pending nodes :=
  Multiset.coe_le.mpr (h.map _).subperm

theorem mem_pending : t ∈ pending nodes ↔ ∃ node ∈ nodes, node.transaction = t := by
  rw [pending, Multiset.mem_coe, List.mem_map]

end Transactions

/-! ## The multiset -/

/-- The queue with its elements in another order, or in other categories. -/
def rearranged (q : TransactionQueue) (nodes : List QueueNode) (engine : Nat → Nat) :
    TransactionQueue :=
  { q with current := nodes, engine }

section Nodes

theorem lessThrows_eq_false {x y : VerifiedTransaction} (hx : x.transaction.sender.isSome = true)
    (hy : y.transaction.sender.isSome = true) : lessThrows x y = false := by
  simp [lessThrows, Option.isNone_eq_false_iff.mpr hx, Option.isNone_eq_false_iff.mpr hy]

theorem lessThrows_comm (x y : VerifiedTransaction) : lessThrows x y = lessThrows y x := by
  rw [lessThrows, lessThrows, Bool.and_comm x.transaction.isReal, Bool.or_comm]

/-- Any two of these elements can be compared. -/
def Comparable (nodes : List QueueNode) : Prop :=
  nodes.Pairwise fun x y => lessThrows x.value y.value = false

theorem Comparable.perm {nodes nodes' : List QueueNode} (h : Comparable nodes)
    (hperm : nodes.Perm nodes') : Comparable nodes' :=
  hperm.pairwise h fun hxy => (lessThrows_comm _ _).trans hxy

variable {nodes : List QueueNode}

/-- An element that is alone is not compared. -/
theorem comparable_of_senders (h : 2 ≤ nodes.length →
    ∀ node ∈ nodes, node.transaction.sender.isSome = true) : Comparable nodes := by
  by_cases hlong : 2 ≤ nodes.length
  · exact List.pairwise_of_forall_mem_list fun x hx y hy =>
      lessThrows_eq_false (h hlong x hx) (h hlong y hy)
  · cases nodes with
    | nil => exact .nil
    | cons node rest =>
      rw [List.length_cons] at hlong
      obtain rfl := List.length_eq_zero_iff.mp (by omega : rest.length = 0)
      exact List.pairwise_singleton _ _

theorem upperBound_le (q : TransactionQueue) (v : VerifiedTransaction) :
    q.upperBound v ≤ q.current.length :=
  (List.takeWhile_sublist _).length_le

theorem fitsAt_upperBound (q : TransactionQueue) (v : VerifiedTransaction) :
    q.fitsAt v (q.upperBound v) = true := by
  have happend : q.current.takeWhile (fun node => !q.less v node.value) ++
      q.current.dropWhile (fun node => !q.less v node.value) = q.current :=
    List.takeWhile_append_dropWhile
  rw [fitsAt, upperBound]
  nth_rewrite 2 4 [← happend]
  rw [List.take_left, List.drop_left, Bool.and_eq_true, Option.all_eq_true, Option.all_eq_true]
  constructor
  · intro node hnode
    have hnot := List.mem_takeWhile_imp (List.mem_of_getLast? hnode)
    exact hnot
  · intro node hnode
    have hnot := List.head?_dropWhile_not (fun node => !q.less v node.value) q.current
    rw [hnode] at hnot
    exact Bool.not_eq_eq_eq_not.mp hnot

theorem place_spec (q : TransactionQueue) (v : VerifiedTransaction) :
    q.place v ≤ q.current.length ∧ q.fitsAt v (q.place v) = true := by
  have hupper := And.intro (upperBound_le q v) (fitsAt_upperBound q v)
  unfold place
  split
  next => exact hupper
  next =>
    rw [List.getD_eq_getElem?_getD]
    cases hplace : ((List.range (q.current.length + 1)).filter (q.fitsAt v))[
        q.engine 1 % ((List.range (q.current.length + 1)).filter (q.fitsAt v)).length]? with
    | none => exact hupper
    | some position =>
      obtain ⟨hrange, hfits⟩ := List.mem_filter.mp (List.mem_of_getElem? hplace)
      exact ⟨Nat.le_of_lt_succ (List.mem_range.mp hrange), hfits⟩

/-- An element that can be compared always finds a place. -/
theorem insertNode_run (node : QueueNode)
    (hnode : ∀ other ∈ q.current, lessThrows node.value other.value = false) :
    ∃ position ≤ q.current.length, (q.Sorted → position = q.upperBound node.value) ∧
      insertNode node q = .ok () { q with
        current := q.current.insertIdx position node
        engine := fun n => q.engine (n + 2) } := by
  have hfilter : q.current.filter (fun other => lessThrows node.value other.value) = [] :=
    List.filter_eq_nil_iff.mpr fun other hother => by
      rw [hnode other hother]
      exact Bool.false_ne_true
  refine ⟨q.place node.value, (place_spec q node.value).1, fun hsorted => if_pos hsorted, ?_⟩
  rw [insertNode, EStateM.get_bind]
  rw [hfilter, if_neg fun h => h.1 rfl]
  rfl

theorem emplace_run {v : VerifiedTransaction} (hv : v.transaction.sender.isSome = true)
    (hnodes : ∀ other ∈ q.current, other.transaction.sender.isSome = true) :
    ∃ position ≤ q.current.length, (q.Sorted → position = q.upperBound v) ∧
      emplace v q = .ok q.nextId { q with
        current := q.current.insertIdx position ⟨q.nextId, v⟩
        nextId := q.nextId + 1
        engine := fun n => q.engine (n + 2) } := by
  obtain ⟨position, hle, hsorted, hrun⟩ := insertNode_run ⟨q.nextId, v⟩
    fun other hother => lessThrows_eq_false hv (hnodes other hother)
  refine ⟨position, hle, hsorted, ?_⟩
  rw [emplace, EStateM.get_bind]
  rw [EStateM.bind_apply, hrun]
  rfl

theorem Numbered.cons {nextId : Nat} (h : Numbered nodes nextId)
    (v : VerifiedTransaction) : Numbered (⟨nextId, v⟩ :: nodes) (nextId + 1) where
  nodup := by
    rw [List.map_cons, List.nodup_cons]
    refine ⟨fun hmem => ?_, h.nodup⟩
    obtain ⟨node, hnode, hid⟩ := List.mem_map.mp hmem
    exact (h.fresh node hnode).ne hid
  fresh := by
    intro node hnode
    obtain rfl | hold := List.mem_cons.mp hnode
    · exact Nat.lt_succ_self _
    · exact (h.fresh node hold).trans (Nat.lt_succ_self _)

section Keys

variable {nodes nodes' : List QueueNode}
  (hkeys : (nodes.map QueueNode.key).Perm (nodes'.map QueueNode.key))

include hkeys

theorem exists_of_keys {P : Nat × PooledTransaction → Prop} :
    (∃ node ∈ nodes, P node.key) ↔ ∃ node ∈ nodes', P node.key := by
  have hmem (nodes : List QueueNode) :
      (∃ node ∈ nodes, P node.key) ↔ ∃ key ∈ nodes.map QueueNode.key, P key := by simp
  rw [hmem, hmem]
  simp only [hkeys.mem_iff]

theorem Numbered.of_keys {nextId : Nat} (h : Numbered nodes nextId) : Numbered nodes' nextId where
  nodup := by
    have hids := (hkeys.map Prod.fst).nodup_iff
    rw [List.map_map, List.map_map] at hids
    exact hids.mp h.nodup
  fresh := by
    intro node hnode
    obtain ⟨other, hother, hid⟩ :=
      (exists_of_keys hkeys (P := fun key => key.1 = node.id)).mpr ⟨node, hnode, rfl⟩
    exact hid ▸ h.fresh other hother

theorem ByHash.of_keys {index : Map H256 Nat} (h : ByHash index nodes) : ByHash index nodes' :=
  fun hash id => (h hash id).trans
    (exists_of_keys hkeys (P := fun key => key.1 = id ∧ key.2.hash = hash))

theorem ByNonce.of_keys {index : NestedMap Address U256 (Option Nat)} (h : ByNonce index nodes) :
    ByNonce index nodes' :=
  fun a n it => (h a n it).trans
    (exists_of_keys hkeys (P := fun key => it = some key.1 ∧ key.2.origin = a ∧ key.2.nonce = n))

end Keys

theorem Distinct.hash_ne (h : Distinct (t ::ₘ pending nodes)) :
    ∀ other ∈ nodes, other.transaction.hash ≠ t.hash := by
  intro other hother heq
  have hnodup := h.hashes
  rw [map_cons, nodup_cons] at hnodup
  exact hnodup.1 (Multiset.mem_map.mpr ⟨_, mem_pending.mpr ⟨other, hother, rfl⟩, heq⟩)

theorem Distinct.place_ne (h : Distinct (t ::ₘ pending nodes)) : ∀ other ∈ nodes,
      (other.transaction.origin, other.transaction.nonce) ≠ (t.origin, t.nonce) := by
  intro other hother heq
  have hnodup := h.places
  rw [map_cons, nodup_cons] at hnodup
  exact hnodup.1 (Multiset.mem_map.mpr ⟨_, mem_pending.mpr ⟨other, hother, rfl⟩, heq⟩)

/-- A new element enters the index by hash. -/
theorem ByHash.insert {index : Map H256 Nat} (h : ByHash index nodes) (node : QueueNode)
    (hnew : ∀ other ∈ nodes, other.transaction.hash ≠ node.transaction.hash) :
    ByHash (index.insert node.transaction.hash node.id) (node :: nodes) := by
  intro hash id
  rw [AList.lookup_insert_eq_ite]
  simp only [List.mem_cons, exists_eq_or_imp]
  split
  next heq =>
    subst heq
    constructor
    · rintro hid
      exact .inl ⟨Option.some.inj hid, rfl⟩
    · rintro (⟨rfl, -⟩ | ⟨other, hother, -, hhash⟩)
      · rfl
      · exact absurd hhash (hnew other hother)
  next hne =>
    rw [h hash id]
    constructor
    · exact .inr
    · rintro (⟨-, heq⟩ | hold)
      · exact absurd heq.symm hne
      · exact hold

theorem ByNonce.assign {index : NestedMap Address U256 (Option Nat)}
    (h : ByNonce index nodes) (node : QueueNode)
    (hnew : ∀ other ∈ nodes, (other.transaction.origin, other.transaction.nonce) ≠
      (node.transaction.origin, node.transaction.nonce)) :
    ByNonce (index.assign node.transaction.origin node.transaction.nonce
      (some node.id)) (node :: nodes) := by
  intro a n it
  rw [NestedMap.find_assign]
  simp only [List.mem_cons, exists_eq_or_imp]
  split
  next heq =>
    obtain ⟨rfl, rfl⟩ := heq
    constructor
    · intro hit
      exact .inl ⟨(Option.some.inj hit).symm, rfl, rfl⟩
    · rintro (⟨rfl, -, -⟩ | ⟨other, hother, -, horigin, hnonce⟩)
      · rfl
      · exact absurd (Prod.ext horigin hnonce) (hnew other hother)
  next hne =>
    rw [h a n it]
    constructor
    · exact .inr
    · rintro (⟨-, horigin, hnonce⟩ | hold)
      · exact absurd ⟨horigin.symm, hnonce.symm⟩ hne
      · exact hold

end Nodes

/-! ## Counters -/

variable {counter : UInt32} {Value : Type}

theorem toNat_add_size {size : Nat} (h : counter.toNat + size < 2 ^ 32) :
    (counter + UInt32.ofNat size).toNat = counter.toNat + size := by
  rw [UInt32.toNat_add, UInt32.toNat_ofNat']
  omega

theorem toNat_sub_size {size : Nat} (h : size ≤ counter.toNat) :
    (counter - UInt32.ofNat size).toNat = counter.toNat - size := by
  have hlt := counter.toNat_lt
  rw [UInt32.toNat_sub, UInt32.toNat_ofNat']
  omega

theorem toNat_add_one (h : counter.toNat + 1 < 2 ^ 32) : (counter + 1).toNat = counter.toNat + 1 :=
  toNat_add_size h

theorem toNat_sub_one (h : 1 ≤ counter.toNat) : (counter - 1).toNat = counter.toNat - 1 :=
  toNat_sub_size h

/-! ## Into current -/

/-- The queue while a new element looks for its place. -/
def opened (q : TransactionQueue) (t : PooledTransaction) : TransactionQueue :=
  { q with
    currentByAddressAndNonce := q.currentByAddressAndNonce.insertNew t.origin t.nonce none }

/-- The queue with a new element at the given place. -/
def placed (q : TransactionQueue) (t : PooledTransaction) (position : Nat) : TransactionQueue :=
  { q with
    current := q.current.insertIdx position ⟨q.nextId, ⟨t, 0⟩⟩
    currentByAddressAndNonce :=
      (q.currentByAddressAndNonce.insertNew t.origin t.nonce none).assign t.origin t.nonce
        (some q.nextId)
    currentByHash := q.currentByHash.insert t.hash q.nextId
    currentSizeBytes := q.currentSizeBytes + UInt32.ofNat t.size
    nextId := q.nextId + 1
    engine := fun n => q.engine (n + 2) }

theorem putCurrent_run (hsenders : ∀ u ∈ t ::ₘ pending q.current, u.sender.isSome = true) :
    ∃ position ≤ q.current.length,
      ((q.opened t).Sorted → position = (q.opened t).upperBound ⟨t, 0⟩) ∧
      putCurrent t.origin t q = .ok () (q.placed t position) := by
  have hnodes : ∀ other ∈ (q.opened t).current, other.transaction.sender.isSome = true :=
    fun other hother => hsenders _ (Multiset.mem_cons_of_mem (mem_pending.mpr ⟨other, hother, rfl⟩))
  obtain ⟨position, hle, hsorted, hrun⟩ := emplace_run (q := q.opened t) (v := ⟨t, 0⟩)
    (hsenders t (mem_cons_self _ _)) hnodes
  refine ⟨position, hle, hsorted, ?_⟩
  rw [putCurrent, EStateM.modify_bind]
  rw [EStateM.bind_apply]
  unfold opened at hrun
  rw [hrun]
  rfl

variable {position : Nat}

theorem current_placed_perm (hle : position ≤ q.current.length) :
    (q.placed t position).current.Perm (⟨q.nextId, ⟨t, 0⟩⟩ :: q.current) :=
  List.perm_insertIdx _ _ hle

theorem pending_placed (hle : position ≤ q.current.length) :
    pending (q.placed t position).current = t ::ₘ pending q.current :=
  pending_of_keys ((current_placed_perm hle).map _)

theorem Linked.placed (h : q.Linked) (hdistinct : Distinct (t ::ₘ pending q.current))
    (hle : position ≤ q.current.length) : (q.placed t position).Linked := by
  have hkeys := (current_placed_perm (t := t) hle).symm.map QueueNode.key
  have hplace := hdistinct.place_ne
  have hnone : q.currentByAddressAndNonce.find t.origin t.nonce = none := by
    cases hfind : q.currentByAddressAndNonce.find t.origin t.nonce with
    | none => rfl
    | some it =>
      obtain ⟨other, hother, -, horigin, hnonce⟩ := (h.byNonce _ _ _).mp hfind
      exact absurd (Prod.ext horigin hnonce) (hplace other hother)
  refine ⟨(h.numbered.cons ⟨t, 0⟩).of_keys hkeys, ?_, ?_, ?_, ?_⟩
  · exact (h.byHash.insert ⟨q.nextId, ⟨t, 0⟩⟩ hdistinct.hash_ne).of_keys hkeys
  · have hnonce := (h.byNonce.assign ⟨q.nextId, ⟨t, 0⟩⟩ hplace).of_keys hkeys
    intro a n it
    rw [← hnonce a n it]
    simp only [TransactionQueue.placed, NestedMap.insertNew_of_none hnone, NestedMap.find_assign]
    split <;> simp_all
  · simp only [TransactionQueue.placed, NestedMap.insertNew_of_none hnone]
    exact h.noEmpty.assign.assign
  · have hsmall := hdistinct.small
    rw [bytes_cons] at hsmall
    rw [pending_placed hle, bytes_cons]
    refine (toNat_add_size ?_).trans ?_
    · rw [h.counted]
      omega
    · rw [h.counted, Nat.add_comm]

/-! ## Entries in the order of their keys -/

theorem orderedEntries_perm (m : Map U256 Value) : (orderedEntries m).Perm m.entries :=
  List.perm_insertionSort _ _

theorem mem_orderedEntries {m : Map U256 Value} {entry : Σ _ : U256, Value} :
    entry ∈ orderedEntries m ↔ m.lookup entry.1 = some entry.2 := by
  rw [(orderedEntries_perm m).mem_iff, AList.lookup_eq_some_iff_mem]

theorem orderedEntries_nodup (m : Map U256 Value) : ((orderedEntries m).map Sigma.fst).Nodup :=
  ((orderedEntries_perm m).map Sigma.fst).nodup_iff.mpr m.nodupKeys

end TransactionQueue

end Skaled
