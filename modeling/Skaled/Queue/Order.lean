import Mathlib.Data.Prod.Lex
import Skaled.Lib.SortedList
import Skaled.Queue.Indexes

/-! # The order of the pending transactions

`PriorityCompare` compares ranks: category, distance from the sender's lowest
nonce, gas price. The distance depends on the sender's other transactions, so a
change of the index may change the order of elements that are already in their
places. Two transactions of one sender always compare by their nonces; two of
different senders compare as before if the lowest nonces of both are as before.
-/

namespace Skaled.TransactionQueue

variable {q q' : TransactionQueue}

/-! ## The lowest nonce -/

section First

variable {a : Address} {n : U256}

theorem orderedEntries_pairwise {Value : Type} (m : Map U256 Value) :
    (orderedEntries m).Pairwise fun x y => x.1.toNat ≤ y.1.toNat := by
  have htotal : Std.Total fun x y : Σ _ : U256, Value => x.1.toNat ≤ y.1.toNat :=
    ⟨fun x y => Nat.le_total x.1.toNat y.1.toNat⟩
  have htrans : IsTrans (Σ _ : U256, Value) fun x y => x.1.toNat ≤ y.1.toNat :=
    ⟨fun _ _ _ => Nat.le_trans⟩
  exact List.pairwise_insertionSort _ m.entries

theorem orderedEntries_strict {Value : Type} (m : Map U256 Value) :
    (orderedEntries m).Pairwise fun x y => x.1.toNat < y.1.toNat := by
  have hne := List.pairwise_map.mp (orderedEntries_nodup m)
  refine ((orderedEntries_pairwise m).and hne).imp fun {x y} h => ?_
  exact Nat.lt_of_le_of_ne h.1 fun heq => h.2 (BitVec.eq_of_toNat_eq heq)

/-- The lowest nonce is one of the sender's and below all others. -/
theorem firstNonce_spec (hn : (q.currentByAddressAndNonce.find a n).isSome = true) :
    (q.currentByAddressAndNonce.find a (q.firstNonce a)).isSome = true ∧
      (q.firstNonce a).toNat ≤ n.toNat := by
  obtain ⟨it, hfind⟩ := Option.isSome_iff_exists.mp hn
  obtain ⟨queue, hqueue, hentry⟩ := Option.bind_eq_some_iff.mp hfind
  have hmem : ⟨n, it⟩ ∈ orderedEntries queue := mem_orderedEntries.mpr hentry
  have hsorted := orderedEntries_pairwise queue
  cases hordered : orderedEntries queue with
  | nil =>
    rw [hordered] at hmem
    cases hmem
  | cons first rest =>
    have hfirst : q.firstNonce a = first.1 := by
      rw [firstNonce, hqueue]
      dsimp only
      rw [hordered]
      rfl
    rw [hordered] at hmem hsorted
    have hin : queue.lookup first.1 = some first.2 :=
      mem_orderedEntries.mp (hordered ▸ List.mem_cons_self)
    rw [hfirst, NestedMap.find, hqueue, Option.bind_some, hin]
    refine ⟨rfl, ?_⟩
    obtain heq | hlater := List.mem_cons.mp hmem
    · rw [← heq]
    · exact (List.pairwise_cons.mp hsorted).1 _ hlater

theorem firstNonce_eq
    (hfirst : (q'.currentByAddressAndNonce.find a (q.firstNonce a)).isSome = true)
    (hle : ∀ n, (q'.currentByAddressAndNonce.find a n).isSome = true →
      (q.firstNonce a).toNat ≤ n.toNat) : q'.firstNonce a = q.firstNonce a := by
  obtain ⟨hmem, hbelow⟩ := firstNonce_spec hfirst
  exact BitVec.eq_of_toNat_eq (Nat.le_antisymm hbelow (hle _ hmem))

theorem firstNonce_congr
    (hkeys : ∀ n, (q'.currentByAddressAndNonce.find a n).isSome =
      (q.currentByAddressAndNonce.find a n).isSome)
    (hn : (q.currentByAddressAndNonce.find a n).isSome = true) :
    q'.firstNonce a = q.firstNonce a := by
  refine firstNonce_eq ?_ fun m hm => ?_
  · rw [hkeys]
    exact (firstNonce_spec hn).1
  · rw [hkeys] at hm
    exact (firstNonce_spec hm).2

/-- A sender whose lowest nonce is not erased keeps it. -/
theorem firstNonce_erased {b : Address} {gone : U256 → Prop} [DecidablePred gone]
    (hfind : ∀ a n, q'.currentByAddressAndNonce.find a n =
      if a = b ∧ gone n then none else q.currentByAddressAndNonce.find a n)
    (hn : (q.currentByAddressAndNonce.find a n).isSome = true)
    (hstays : ¬ (a = b ∧ gone (q.firstNonce a))) : q'.firstNonce a = q.firstNonce a := by
  refine firstNonce_eq ?_ fun m hm => ?_
  · rw [hfind, if_neg hstays]
    exact (firstNonce_spec hn).1
  · rw [hfind] at hm
    split at hm
    next => cases hm
    next => exact (firstNonce_spec hm).2

end First

/-! ## Ranks -/

section Rank

variable {x y : VerifiedTransaction}

theorem isReal_of_sender {t : PooledTransaction} (hsender : t.sender.isSome = true)
    (hvalid : t.isInvalid = false) : t.isReal = true := by
  have hnull : t.isNull = false := by
    by_contra hnot
    rw [t.null_sender (Bool.eq_true_of_not_eq_false hnot)] at hsender
    cases hsender
  rw [PooledTransaction.isReal, hnull, hvalid]
  rfl

/-- What `PriorityCompare` compares, smaller ranks first. -/
def rank (q : TransactionQueue) (v : VerifiedTransaction) : ℤ ×ₗ ℕ ×ₗ ℤ :=
  toLex (-v.category,
    toLex ((q.height v.transaction).toNat, -(v.transaction.gasPrice.toNat : ℤ)))

theorem less_iff_rank (hx : x.transaction.isReal = true) (hy : y.transaction.isReal = true) :
    q.less x y = true ↔ q.rank x < q.rank y := by
  rw [less, hx, hy]
  simp only [rank, Prod.Lex.toLex_lt_toLex, Bool.or_eq_true, Bool.and_eq_true, decide_eq_true_eq]
  omega

theorem less_eq_false_iff_rank (hx : x.transaction.isReal = true)
    (hy : y.transaction.isReal = true) : q.less y x = false ↔ q.rank x ≤ q.rank y := by
  rw [← Bool.not_eq_true, less_iff_rank hy hx, not_lt]

/-- Both transactions are in the index, where the lowest nonce of the sender is. -/
theorem toNat_height {t : PooledTransaction}
    (ht : (q.currentByAddressAndNonce.find t.origin t.nonce).isSome = true) :
    (q.height t).toNat = t.nonce.toNat - (q.firstNonce t.origin).toNat ∧
      (q.firstNonce t.origin).toNat ≤ t.nonce.toNat := by
  have hle := (firstNonce_spec ht).2
  exact ⟨BitVec.toNat_sub_of_le hle, hle⟩

section

variable
  (hx : (q.currentByAddressAndNonce.find x.transaction.origin x.transaction.nonce).isSome = true)
  (hy : (q.currentByAddressAndNonce.find y.transaction.origin y.transaction.nonce).isSome = true)

include hx hy

/-- Two transactions of one sender in one category compare by their nonces. -/
theorem rank_lt_of_nonce (horigin : x.transaction.origin = y.transaction.origin)
    (hnonce : x.transaction.nonce.toNat < y.transaction.nonce.toNat)
    (hcategory : y.category ≤ x.category) : q.rank x < q.rank y := by
  obtain ⟨hheightx, hlex⟩ := toNat_height hx
  obtain ⟨hheighty, hley⟩ := toNat_height hy
  rw [horigin] at hheightx hlex
  simp only [rank, Prod.Lex.toLex_lt_toLex, hheightx, hheighty]
  omega

/-- The comparison of two transactions in two states. -/
theorem rank_le_congr
    (hx' : (q'.currentByAddressAndNonce.find x.transaction.origin
      x.transaction.nonce).isSome = true)
    (hy' : (q'.currentByAddressAndNonce.find y.transaction.origin
      y.transaction.nonce).isSome = true)
    (hfirst : x.transaction.origin ≠ y.transaction.origin →
      q'.firstNonce x.transaction.origin = q.firstNonce x.transaction.origin ∧
      q'.firstNonce y.transaction.origin = q.firstNonce y.transaction.origin) :
    q'.rank x ≤ q'.rank y ↔ q.rank x ≤ q.rank y := by
  by_cases horigin : x.transaction.origin = y.transaction.origin
  · obtain ⟨hheightx, hlex⟩ := toNat_height hx
    obtain ⟨hheighty, hley⟩ := toNat_height hy
    obtain ⟨hheightx', hlex'⟩ := toNat_height hx'
    obtain ⟨hheighty', hley'⟩ := toNat_height hy'
    rw [horigin] at hheightx hlex hheightx' hlex'
    simp only [rank, Prod.Lex.toLex_le_toLex, hheightx, hheighty, hheightx', hheighty']
    omega
  · obtain ⟨hfirstx, hfirsty⟩ := hfirst horigin
    rw [rank, rank, rank, rank, height, height, height, height, hfirstx, hfirsty]

end

end Rank

/-! ## Queues in order -/

/-- `current` is sorted, in each sender's order of nonces. -/
structure Ordered (q : TransactionQueue) : Prop where
  sorted : q.Sorted
  nonces : q.current.Pairwise fun x y =>
    x.transaction.origin = y.transaction.origin →
      x.transaction.nonce.toNat < y.transaction.nonce.toNat
  nonneg : ∀ node ∈ q.current, 0 ≤ node.value.category

/-- The elements of `current` are transactions, and the index has them. -/
structure Present (q : TransactionQueue) (nodes : List QueueNode) : Prop where
  real : ∀ node ∈ nodes, node.transaction.isReal = true
  found : ∀ node ∈ nodes, (q.currentByAddressAndNonce.find node.transaction.origin
    node.transaction.nonce).isSome = true

theorem sorted_iff_rank (h : q.Present q.current) :
    q.Sorted ↔ q.current.Pairwise fun x y => q.rank x.value ≤ q.rank y.value := by
  apply List.Pairwise.iff_of_mem
  intro x y hx hy
  exact less_eq_false_iff_rank (h.real x hx) (h.real y hy)

/-- Elements may leave, if the lowest nonces of the senders of the others stay. -/
theorem Ordered.of_sublist (h : q.Ordered) (hpresent : q.Present q.current)
    (hpresent' : q'.Present q'.current) (hsublist : q'.current.Sublist q.current)
    (hfirst : ∀ x ∈ q'.current, ∀ y ∈ q'.current,
      x.transaction.origin ≠ y.transaction.origin →
        q'.firstNonce x.transaction.origin = q.firstNonce x.transaction.origin) :
    q'.Ordered := by
  refine ⟨(sorted_iff_rank hpresent').mpr ?_, h.nonces.sublist hsublist,
    fun node hnode => h.nonneg node (hsublist.subset hnode)⟩
  have hranks := ((sorted_iff_rank hpresent).mp h.sorted).sublist hsublist
  refine hranks.imp_of_mem fun {x y} hx hy hle => ?_
  have hcongr := rank_le_congr (hpresent.found x (hsublist.subset hx))
    (hpresent.found y (hsublist.subset hy)) (hpresent'.found x hx) (hpresent'.found y hy)
    fun hne => ⟨hfirst x hx y hy hne, hfirst y hy x hx hne.symm⟩
  exact hcongr.mpr hle

/-- A new element goes behind the last one it is not less than. Its category fits
in with the other transactions of its sender. -/
theorem Ordered.insert (h : q.Ordered) {node : QueueNode} (engine : Nat → Nat)
    (hpresent : q.Present (node :: q.current)) (hnonneg : 0 ≤ node.value.category)
    (hcategory : ∀ other ∈ q.current,
      other.transaction.origin = node.transaction.origin →
        (node.transaction.nonce.toNat < other.transaction.nonce.toNat ∧
          other.value.category ≤ node.value.category) ∨
        (other.transaction.nonce.toNat < node.transaction.nonce.toNat ∧
          node.value.category ≤ other.value.category)) :
    (q.rearranged (q.current.insertIdx (q.upperBound node.value) node) engine).Ordered := by
  have hold : q.Present q.current :=
    ⟨fun other hother => hpresent.real other (List.mem_cons_of_mem _ hother),
      fun other hother => hpresent.found other (List.mem_cons_of_mem _ hother)⟩
  have hperm := List.perm_insertIdx node q.current (upperBound_le q node.value)
  have hranks := (sorted_iff_rank hold).mp h.sorted
  have hreal := hpresent.real node List.mem_cons_self
  have hfound := hpresent.found node List.mem_cons_self
  have hbefore : ∀ x ∈ q.current.takeWhile (fun x => !q.less node.value x.value),
      x ∈ q.current ∧ q.rank x.value ≤ q.rank node.value := by
    intro x hx
    have hmem := (List.takeWhile_sublist _).subset hx
    have hless := List.mem_takeWhile_imp hx
    rw [Bool.not_eq_true'] at hless
    exact ⟨hmem, (less_eq_false_iff_rank (hold.real x hmem) hreal).mp hless⟩
  have hafter : ∀ y ∈ q.current.dropWhile (fun x => !q.less node.value x.value),
      y ∈ q.current ∧ q.rank node.value < q.rank y.value := by
    intro y hy
    have hmem := (List.dropWhile_sublist _).subset hy
    refine ⟨hmem, (less_iff_rank hreal (hold.real y hmem)).mp ?_⟩
    have hnot := List.eq_false_of_mem_dropWhile (hranks.imp_of_mem fun {x y} hx hy hle hless => by
      rw [Bool.not_eq_true'] at hless ⊢
      rw [less_eq_false_iff_rank (hold.real y hy) hreal] at hless
      exact (less_eq_false_iff_rank (hold.real x hx) hreal).mpr (hle.trans hless)) y hy
    rwa [Bool.not_eq_false'] at hnot
  refine ⟨(sorted_iff_rank ⟨fun x hx => ?_, fun x hx => ?_⟩).mpr ?_, ?_, fun x hx => ?_⟩
  · exact hpresent.real x (hperm.mem_iff.mp hx)
  · exact hpresent.found x (hperm.mem_iff.mp hx)
  · exact hranks.insertIdx_takeWhile (fun x hx => (hbefore x hx).2) fun y hy => (hafter y hy).2.le
  · refine h.nonces.insertIdx_takeWhile (fun x hx horigin => ?_) fun y hy horigin => ?_
    · obtain ⟨hmem, hle⟩ := hbefore x hx
      obtain ⟨hlater, hless⟩ | ⟨hearlier, -⟩ := hcategory x hmem horigin
      · have hlt := rank_lt_of_nonce hfound (hold.found x hmem) horigin.symm hlater hless
        exact absurd hle hlt.not_ge
      · exact hearlier
    · obtain ⟨hmem, hlt⟩ := hafter y hy
      obtain ⟨hlater, -⟩ | ⟨hearlier, hless⟩ := hcategory y hmem horigin.symm
      · exact hlater
      · have hgt := rank_lt_of_nonce (hold.found y hmem) hfound horigin.symm hearlier hless
        exact absurd hlt hgt.not_gt
  · obtain rfl | hmem := List.mem_cons.mp (hperm.mem_iff.mp hx)
    · exact hnonneg
    · exact h.nonneg x hmem

theorem Linked.present (h : q.Linked) (hdistinct : Distinct (pending q.current)) :
    q.Present q.current where
  real := fun node hnode => isReal_of_sender
    (hdistinct.senders _ (mem_pending.mpr ⟨node, hnode, rfl⟩))
    (hdistinct.valid _ (mem_pending.mpr ⟨node, hnode, rfl⟩))
  found := fun node hnode => by
    rw [(h.byNonce _ _ _).mpr ⟨node, hnode, rfl, rfl, rfl⟩]
    rfl

/-- A transaction of the sender and nonce can enter without changing the order of
the others: either none of the sender's pending transactions has a higher nonce,
or those that have are in no category above zero and the new nonce is not the
sender's lowest while other senders wait. -/
def Insertable (q : TransactionQueue) (a : Address) (n : U256) : Prop :=
  ∀ node ∈ q.current, node.transaction.origin = a →
    n.toNat < node.transaction.nonce.toNat → node.value.category ≤ 0 ∧
      ((∃ lower ∈ q.current, lower.transaction.origin = a ∧
        lower.transaction.nonce.toNat < n.toNat) ∨
      ∀ other ∈ q.current, other.transaction.origin = a)

section Insertion

variable {t : PooledTransaction}

theorem find_placed (q : TransactionQueue) (t : PooledTransaction) (position : Nat) (a : Address)
    (n : U256) : ((q.placed t position).currentByAddressAndNonce.find a n).isSome =
      ((q.opened t).currentByAddressAndNonce.find a n).isSome := by
  rw [Bool.eq_iff_iff, opened, placed, NestedMap.isSome_find_assign,
    NestedMap.isSome_find_insertNew, ← or_assoc, or_self]

theorem Ordered.opened (h : q.Ordered) (hpresent : q.Present q.current)
    (hnew : q.Insertable t.origin t.nonce) : (q.opened t).Ordered := by
  have hpresent' : (q.opened t).Present (q.opened t).current :=
    ⟨hpresent.real, fun node hnode =>
      NestedMap.isSome_find_insertNew.mpr (.inr (hpresent.found node hnode))⟩
  refine h.of_sublist hpresent hpresent' (.refl _) fun x hx y hy hne => ?_
  have hfirst := firstNonce_spec (hpresent.found x hx)
  refine firstNonce_eq (NestedMap.isSome_find_insertNew.mpr (.inr hfirst.1)) fun n hn => ?_
  obtain ⟨horigin, rfl⟩ | hold := NestedMap.isSome_find_insertNew.mp hn
  · by_cases hlater : t.nonce.toNat < x.transaction.nonce.toNat
    · obtain ⟨-, ⟨lower, hlower, hsame, hless⟩ | hall⟩ := hnew x hx horigin hlater
      · have hfound := hpresent.found lower hlower
        rw [hsame, ← horigin] at hfound
        exact (firstNonce_spec hfound).2.trans hless.le
      · exact absurd (horigin.trans (hall y hy).symm) hne
    · exact hfirst.2.trans (Nat.le_of_not_lt hlater)
  · exact (firstNonce_spec hold).2

theorem Ordered.placed (h : q.Ordered) (hlinked : q.Linked)
    (hdistinct : Distinct (t ::ₘ pending q.current)) (hnew : q.Insertable t.origin t.nonce)
    {position : Nat} (hposition : (q.opened t).Sorted → position = (q.opened t).upperBound ⟨t, 0⟩) :
    (q.placed t position).Ordered := by
  have hpresent := hlinked.present (hdistinct.mono (Multiset.le_cons_self _ _))
  have hopened := h.opened hpresent hnew
  obtain rfl := hposition hopened.sorted
  have hcons : (q.opened t).Present (⟨q.nextId, ⟨t, 0⟩⟩ :: (q.opened t).current) := by
    constructor
    · intro node hnode
      obtain rfl | hold := List.mem_cons.mp hnode
      · exact isReal_of_sender (hdistinct.senders t (Multiset.mem_cons_self _ _))
          (hdistinct.valid t (Multiset.mem_cons_self _ _))
      · exact hpresent.real node hold
    · intro node hnode
      obtain rfl | hold := List.mem_cons.mp hnode
      · exact NestedMap.isSome_find_insertNew.mpr (.inl ⟨rfl, rfl⟩)
      · exact NestedMap.isSome_find_insertNew.mpr (.inr (hpresent.found node hold))
  have hinsert := hopened.insert (fun n => q.engine (n + 2)) hcons le_rfl
    fun other hother horigin => by
      obtain hless | heq | hgreater := Nat.lt_trichotomy t.nonce.toNat
        other.transaction.nonce.toNat
      · exact .inl ⟨hless, (hnew other hother horigin hless).1⟩
      · exact absurd (Prod.ext horigin (BitVec.eq_of_toNat_eq heq.symm))
          (hdistinct.place_ne other hother)
      · exact .inr ⟨hgreater, h.nonneg other hother⟩
  have hperm := List.perm_insertIdx (⟨q.nextId, ⟨t, 0⟩⟩ : QueueNode) q.current
    (upperBound_le (q.opened t) ⟨t, 0⟩)
  refine hinsert.of_sublist ⟨fun node hnode => hcons.real node (hperm.mem_iff.mp hnode),
    fun node hnode => hcons.found node (hperm.mem_iff.mp hnode)⟩ ⟨fun node hnode =>
      hcons.real node (hperm.mem_iff.mp hnode), fun node hnode => ?_⟩ (.refl _)
    fun x hx _ _ _ => ?_
  · rw [find_placed]
    exact hcons.found node (hperm.mem_iff.mp hnode)
  · exact firstNonce_congr (find_placed q t _ _) (hcons.found x (hperm.mem_iff.mp hx))

/-- The transaction with a higher nonce that comes next. -/
theorem Insertable.next (h : q.Insertable t.origin t.nonce) {position : Nat}
    (hle : position ≤ q.current.length) {n : U256} (hless : t.nonce.toNat < n.toNat) :
    (q.placed t position).Insertable t.origin n := by
  have hperm := current_placed_perm (t := t) hle
  intro node hnode horigin hlater
  refine ⟨?_, .inl ⟨⟨q.nextId, ⟨t, 0⟩⟩, hperm.mem_iff.mpr List.mem_cons_self, rfl, hless⟩⟩
  obtain rfl | hold := List.mem_cons.mp (hperm.mem_iff.mp hnode)
  · exact le_rfl
  · exact (h node hold horigin (hless.trans hlater)).1

end Insertion

/-- `current` and the index by sender and nonce are as they were. -/
structure SameCurrent (q q' : TransactionQueue) : Prop where
  current : q'.current = q.current
  index : q'.currentByAddressAndNonce = q.currentByAddressAndNonce

theorem SameCurrent.refl (q : TransactionQueue) : SameCurrent q q := ⟨rfl, rfl⟩

theorem SameCurrent.trans {q q' q'' : TransactionQueue} (h : SameCurrent q q')
    (h' : SameCurrent q' q'') : SameCurrent q q'' :=
  ⟨h'.current.trans h.current, h'.index.trans h.index⟩

theorem Ordered.congr (h : q.Ordered) (hsame : SameCurrent q q') : q'.Ordered := by
  obtain ⟨hcurrent, hindex⟩ := hsame
  have hfirst : q'.firstNonce = q.firstNonce := by
    funext a
    rw [firstNonce, firstNonce, hindex]
  have hheight : q'.height = q.height := by
    funext t
    rw [height, height, hfirst]
  have hless : q'.less = q.less := by
    funext x y
    rw [less, less, hheight]
  refine ⟨?_, hcurrent ▸ h.nonces, hcurrent ▸ h.nonneg⟩
  rw [Sorted, hcurrent, hless]
  exact h.sorted

theorem Insertable.congr {a : Address} {n : U256} (h : q.Insertable a n)
    (hsame : SameCurrent q q') : q'.Insertable a n := by
  rw [Insertable, hsame.current]
  exact h

/-- An element can leave without changing the order of the others: it is not the
first one of its sender, or the only one, or there are no other senders. -/
def Removable (q : TransactionQueue) (node : QueueNode) : Prop :=
  (∃ lower ∈ q.current,
    lower.transaction.origin = node.transaction.origin ∧
      lower.transaction.nonce.toNat < node.transaction.nonce.toNat) ∨
  (∀ other ∈ q.current,
    other.transaction.origin = node.transaction.origin → other = node) ∨
  ∀ other ∈ q.current, other.transaction.origin = node.transaction.origin

/-- The transaction with the hash can leave without changing the order. -/
def Droppable (q : TransactionQueue) (hash : H256) : Prop :=
  ∀ node ∈ q.current, node.transaction.hash = hash → q.Removable node

theorem Droppable.congr {hash : H256} (h : q.Droppable hash) (hsame : SameCurrent q q') :
    q'.Droppable hash := by
  simp only [Droppable, Removable, hsame.current]
  exact h

/-- The last element of a queue in order. -/
theorem Ordered.removable_of_last (h : q.Ordered) {node : QueueNode}
    (hlast : q.current.getLast? = some node) : q.Removable node := by
  obtain ⟨before, hcurrent⟩ := List.getLast?_eq_some_iff.mp hlast
  by_cases hother : ∃ other ∈ before,
      other.transaction.origin = node.transaction.origin
  · obtain ⟨other, hmem, horigin⟩ := hother
    have hnonces := h.nonces
    rw [hcurrent, List.pairwise_append] at hnonces
    refine .inl ⟨other, ?_, horigin, hnonces.2.2 other hmem node List.mem_cons_self horigin⟩
    rw [hcurrent]
    exact List.mem_append_left _ hmem
  · refine .inr (.inl fun other hmem horigin => ?_)
    rw [hcurrent, List.mem_append, List.mem_singleton] at hmem
    exact hmem.resolve_left fun hbefore => hother ⟨other, hbefore, horigin⟩

end Skaled.TransactionQueue
