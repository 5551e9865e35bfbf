import Skaled.Queue.Order

/-! # Moving transactions between the containers

What removing a transaction, marking transactions as future, dropping future
ones and changing categories do to the containers. An element leaves `current`
and the index by hash at once, but its sender's map only at the end; so the index
by sender and nonce is followed apart from the queue that holds it.
-/

namespace Skaled.TransactionQueue

open EStateM (bind_apply get_bind modify_apply modify_bind)
open Multiset (add_cons card_cons card_map cons_add cons_coe le_add_left le_add_right le_cons_self
  map_add map_cons)
open NestedMap (dropEmpty find_dropEmpty find_eraseAt find_foldl_eraseAt insertNew_of_none)

/-! ## From the future into current -/

/-- The limits are set once. -/
structure SameLimits (q q' : TransactionQueue) : Prop where
  limit : q'.limit = q.limit
  futureLimit : q'.futureLimit = q.futureLimit
  currentSizeBytesLimit : q'.currentSizeBytesLimit = q.currentSizeBytesLimit
  futureSizeBytesLimit : q'.futureSizeBytesLimit = q.futureSizeBytesLimit

theorem SameLimits.refl (q : TransactionQueue) : SameLimits q q := ⟨rfl, rfl, rfl, rfl⟩

variable {q q' q'' : TransactionQueue} {a : Address} {nonce : U256} {v : VerifiedTransaction}
  {node : QueueNode} {index : NestedMap Address U256 (Option Nat)}

theorem SameLimits.trans (h : SameLimits q q') (h' : SameLimits q' q'') : SameLimits q q'' :=
  ⟨h'.limit.trans h.limit, h'.futureLimit.trans h.futureLimit,
    h'.currentSizeBytesLimit.trans h.currentSizeBytesLimit,
    h'.futureSizeBytesLimit.trans h.futureSizeBytesLimit⟩

section Promote

variable {rest : Multiset PooledTransaction} {moved : List (Σ _ : U256, VerifiedTransaction)}

def promoted (q : TransactionQueue) (v : VerifiedTransaction) (position : Nat) :
    TransactionQueue :=
  { q.placed v.transaction position with
    futureSizeBytes := q.futureSizeBytes - UInt32.ofNat v.transaction.size
    futureSize := q.futureSize - 1 }

theorem promote_run (hsenders : ∀ u ∈ v.transaction ::ₘ pending q.current, u.sender.isSome = true) :
    ∃ position ≤ q.current.length,
      ((q.opened v.transaction).Sorted →
        position = (q.opened v.transaction).upperBound ⟨v.transaction, 0⟩) ∧
      promote v.transaction.origin v q = .ok () (q.promoted v position) := by
  obtain ⟨position, hle, hsorted, hrun⟩ := putCurrent_run hsenders
  refine ⟨position, hle, hsorted, ?_⟩
  rw [promote, bind_apply, hrun]
  rfl

theorem Linked.promoted (h : q.Linked) (hdistinct : Distinct (v.transaction ::ₘ pending q.current))
    {position : Nat} (hle : position ≤ q.current.length) : (q.promoted v position).Linked :=
  { h.placed hdistinct hle with }

theorem FutureCounted.less {q' : TransactionQueue} {t : PooledTransaction}
    (h : q.FutureCounted (t ::ₘ rest)) (hsize' : q'.futureSize = q.futureSize - 1)
    (hbytes' : q'.futureSizeBytes = q.futureSizeBytes - UInt32.ofNat t.size) :
    q'.FutureCounted rest := by
  have hsize := h.size
  have hbytes := h.bytes
  rw [card_cons] at hsize
  rw [bytes_cons] at hbytes
  constructor
  · rw [hsize', toNat_sub_one (by omega)]
    omega
  · rw [hbytes', toNat_sub_size (by omega)]
    omega

/-- The loop of `makeCurrent_WITH_LOCK`. -/
theorem promote_forM (hlinked : q.Linked)
    (horigin : ∀ entry ∈ moved, entry.2.transaction.origin = a)
    (hdistinct : Distinct
      (pending q.current + (↑(moved.map fun entry => entry.2.transaction) + rest)))
    (hcounted : q.FutureCounted (↑(moved.map fun entry => entry.2.transaction) + rest)) :
    ∃ q', moved.forM (fun entry => promote a entry.2) q = .ok () q' ∧ q'.Linked ∧
      pending q'.current =
        ↑(moved.map fun entry => entry.2.transaction) + pending q.current ∧
      q'.FutureCounted rest ∧ q'.future = q.future ∧ q'.known = q.known ∧ SameLimits q q' ∧
      (∀ node ∈ q.current, node ∈ q'.current) ∧
      (q.Ordered → moved.Pairwise (fun x y =>
          x.2.transaction.nonce.toNat < y.2.transaction.nonce.toNat) →
        (∀ entry, moved.head? = some entry → q.Insertable a entry.2.transaction.nonce) →
        q'.Ordered) := by
  induction moved generalizing q with
  | nil =>
    exact ⟨q, rfl, hlinked, (zero_add _).symm, by simpa using hcounted, rfl, rfl, .refl q,
      fun _ hnode => hnode, fun hordered _ _ => hordered⟩
  | cons entry moved ih =>
    obtain rfl := horigin entry List.mem_cons_self
    have hall : pending q.current +
        (↑((entry :: moved).map fun entry => entry.2.transaction) + rest) =
        (entry.2.transaction ::ₘ pending q.current) +
          (↑(moved.map fun entry => entry.2.transaction) + rest) := by
      rw [List.map_cons, ← cons_coe, cons_add, add_cons, cons_add]
    rw [hall] at hdistinct
    have hown := hdistinct.mono (le_add_right _ _)
    obtain ⟨position, hle, hposition, hrun⟩ := promote_run hown.senders
    have hpending : pending (q.promoted entry.2 position).current =
        entry.2.transaction ::ₘ pending q.current := pending_placed hle
    obtain ⟨q', hrest, hlinked', hpending', hcounted', hfuture, hknown, hlimits, hkept,
        hordered⟩ := ih (q := q.promoted entry.2 position) (hlinked.promoted hown hle)
        (fun other hother => horigin other (List.mem_cons_of_mem _ hother))
        (by rw [hpending]; exact hdistinct)
        (FutureCounted.less (by
          rwa [List.map_cons, ← cons_coe, cons_add] at hcounted) rfl rfl)
    refine ⟨q', ?_, hlinked', ?_, hcounted', hfuture, hknown, { hlimits with },
      fun node hnode => hkept node ?_, ?_⟩
    · change (promote _ entry.2 >>= fun _ => moved.forM _) q = _
      rw [bind_apply, hrun]
      exact hrest
    · rw [hpending', hpending, List.map_cons, ← cons_coe, cons_add, add_cons]
    · exact (current_placed_perm hle).mem_iff.mpr (List.mem_cons_of_mem _ hnode)
    · intro hstart hnonces hhead
      obtain ⟨hfirst, hlater⟩ := List.pairwise_cons.mp hnonces
      have hnew := hhead entry rfl
      have hplaced := hstart.placed hlinked hown hnew hposition
      refine hordered (hplaced.congr ⟨rfl, rfl⟩) hlater fun next hnext => ?_
      have hless := hfirst next (List.mem_of_head? hnext)
      exact (hnew.next hle hless).congr ⟨rfl, rfl⟩

theorem consecutive_sublist : (consecutive nonce moved).Sublist moved := by
  induction moved generalizing nonce with
  | nil => exact .slnil
  | cons entry rest ih =>
    rw [consecutive]
    split
    next => exact ih.cons_cons entry
    next => exact List.nil_sublist _

theorem nonce_of_head_consecutive {entry : Σ _ : U256, VerifiedTransaction}
    (h : (consecutive nonce moved).head? = some entry) : entry.2.transaction.nonce = nonce := by
  cases moved with
  | nil => cases h
  | cons first rest =>
    rw [consecutive] at h
    split at h
    next hnonce =>
      cases h
      exact hnonce
    next => cases h

/-- Some entries of the future, all of one sender. -/
structure Taken (q : TransactionQueue) (a : Address)
    (moved : List (Σ _ : U256, VerifiedTransaction)) : Prop where
  nodup : (moved.map Sigma.fst).Nodup
  found : ∀ entry ∈ moved, q.future.find a entry.1 = some entry.2

def withoutEntries (future : NestedMap Address U256 VerifiedTransaction) (a : Address)
    (moved : List (Σ _ : U256, VerifiedTransaction)) :
    NestedMap Address U256 VerifiedTransaction :=
  dropEmpty (moved.foldl (fun m entry => m.eraseAt a entry.1) future) a

theorem Taken.futures (h : q.Taken a moved) :
    q.futures = ↑(moved.map fun entry => entry.2.transaction) +
      (withoutEntries q.future a moved).values.map (·.transaction) := by
  rw [TransactionQueue.futures, NestedMap.values_foldl_eraseAt h.nodup h.found, map_add,
    withoutEntries, NestedMap.values_dropEmpty, Multiset.map_coe, List.map_map]
  rfl

theorem Stored.withoutEntries (h : Stored q.future) : Stored (withoutEntries q.future a moved) where
  keyed := by
    intro b n v hfind
    rw [TransactionQueue.withoutEntries, find_dropEmpty, find_foldl_eraseAt] at hfind
    split at hfind
    next => cases hfind
    next => exact h.keyed b n v hfind
  noEmpty := NestedMap.NoEmpty.dropEmpty (h.noEmpty.but a).foldl_eraseAt

/-- What `makeCurrent_WITH_LOCK` does, whichever transactions it moves. -/
structure MadeCurrent (t : PooledTransaction) (q q' : TransactionQueue) : Prop where
  balanced : q'.Balanced
  all : pending q'.current + q'.futures = pending q.current + q.futures
  futures : q'.futures ≤ q.futures
  entered : pending q'.current ≤ pending q.current + q.futures.filter (·.origin = t.origin)
  known : q'.known = q.known
  limits : SameLimits q q'
  kept : ∀ node ∈ q.current, node ∈ q'.current
  nothing : (q.future.find t.origin (t.nonce + 1)).isSome = false → q' = q
  ordered : q.Ordered → ((q.future.find t.origin (t.nonce + 1)).isSome = true →
    q.Insertable t.origin (t.nonce + 1)) → q'.Ordered

theorem makeCurrent_run (h : q.Balanced) (t : PooledTransaction) :
    ∃ q', makeCurrent t q = .ok () q' ∧ MadeCurrent t q q' := by
  have hnothing : MadeCurrent t q q :=
    ⟨h, rfl, le_rfl, le_add_right _ _, rfl, .refl q, fun _ hnode => hnode, fun _ => rfl,
      fun hordered _ => hordered⟩
  rw [makeCurrent, get_bind]
  cases hqueue : q.future.lookup t.origin with
  | none => exact ⟨q, rfl, hnothing⟩
  | some queue =>
    dsimp only
    split
    next hsome =>
      generalize hmoved : consecutive (t.nonce + 1)
        ((orderedEntries queue).dropWhile (·.1 ≠ t.nonce + 1)) = moved
      have hsublist : moved.Sublist (orderedEntries queue) := by
        rw [← hmoved]
        exact consecutive_sublist.trans (List.dropWhile_sublist _)
      have htaken : q.Taken t.origin moved := by
        refine ⟨(orderedEntries_nodup queue).sublist (hsublist.map _), fun entry hentry => ?_⟩
        rw [NestedMap.find, hqueue, Option.bind_some]
        exact mem_orderedEntries.mp (hsublist.subset hentry)
      have hfutures := htaken.futures
      have hdistinct := h.distinct
      have hcounted := h.futureCounted
      rw [hfutures] at hdistinct hcounted
      obtain ⟨q', hrun, hlinked, hpending, hcounted', hfuture, hknown, hlimits, hkeeps,
          hordered⟩ := promote_forM h.linked
          (fun entry hentry => (h.stored.keyed _ _ _ (htaken.found entry hentry)).1)
          hdistinct hcounted
      rw [bind_apply, hrun]
      refine ⟨_, rfl, ?_⟩
      dsimp only [modify_apply]
      rw [hfuture]
      have hall : pending q'.current +
          (withoutEntries q.future t.origin moved).values.map (·.transaction) =
          pending q.current + q.futures := by
        rw [hpending, hfutures, add_assoc, add_left_comm]
      have hkept : Distinct (pending q'.current +
          (withoutEntries q.future t.origin moved).values.map (·.transaction)) := by
        rw [hall]
        exact h.distinct
      refine ⟨⟨{ hlinked with }, h.stored.withoutEntries, hkept, hcounted'.size,
        hcounted'.bytes⟩, hall, ?_, ?_, hknown, { hlimits with }, hkeeps, fun hnone => ?_,
        fun hstart hnew => ?_⟩
      · rw [hfutures]
        exact le_add_left _ _
      · rw [hpending, add_comm]
        refine Multiset.add_le_add_left (Multiset.le_filter.mpr ⟨?_, fun u hu => ?_⟩)
        · rw [hfutures]
          exact le_add_right _ _
        · obtain ⟨entry, hentry, rfl⟩ := List.mem_map.mp (Multiset.mem_coe.mp hu)
          exact (h.stored.keyed _ _ _ (htaken.found entry hentry)).1
      · rw [NestedMap.find, hqueue, Option.bind_some, hsome] at hnone
        cases hnone
      · have hnonces : moved.Pairwise fun x y =>
            x.2.transaction.nonce.toNat < y.2.transaction.nonce.toNat := by
          refine ((orderedEntries_strict queue).sublist hsublist).imp_of_mem
            fun {x y} hx hy hless => ?_
          rwa [(h.stored.keyed _ _ _ (htaken.found x hx)).2,
            (h.stored.keyed _ _ _ (htaken.found y hy)).2]
        refine (hordered hstart hnonces fun entry hentry => ?_).congr ⟨rfl, rfl⟩
        rw [nonce_of_head_consecutive (hmoved ▸ hentry)]
        apply hnew
        rw [NestedMap.find, hqueue]
        exact hsome
    next => exact ⟨q, rfl, hnothing⟩

end Promote

/-! ## Out of current -/

section Take

variable {nodes : List QueueNode} {nextId : Nat}

theorem Numbered.eq_of_id (h : Numbered nodes nextId) {other : QueueNode} (hnode : node ∈ nodes)
    (hother : other ∈ nodes) (hid : other.id = node.id) : other = node :=
  List.inj_on_of_nodup_map h.nodup hother hnode hid

theorem deref_run (h : Numbered q.current q.nextId) (hnode : node ∈ q.current) :
    deref node.id q = .ok node q := by
  have hfind : q.current.find? (·.id = node.id) = some node := by
    cases hfound : q.current.find? (·.id = node.id) with
    | none =>
      have hnot := List.find?_eq_none.mp hfound node hnode
      simp at hnot
    | some other =>
      have hid : other.id = node.id := by simpa using List.find?_some hfound
      rw [h.eq_of_id hnode (List.mem_of_find?_eq_some hfound) hid]
  rw [deref, get_bind]
  rw [hfind]
  rfl

theorem Numbered.perm_cons_eraseP (h : Numbered nodes nextId) (hnode : node ∈ nodes) :
    nodes.Perm (node :: nodes.eraseP (·.id = node.id)) := by
  obtain ⟨other, before, after, -, hid, hnodes, herase⟩ :=
    List.exists_of_eraseP (p := (·.id = node.id)) hnode (by simp)
  have hother : other = node :=
    h.eq_of_id hnode (by simp [hnodes]) (by simpa using hid)
  rw [herase]
  conv_lhs => rw [hnodes, hother]
  exact List.perm_middle

theorem Numbered.tail (h : Numbered (node :: nodes) nextId) : Numbered nodes nextId where
  nodup := by
    have hnodup := h.nodup
    rw [List.map_cons, List.nodup_cons] at hnodup
    exact hnodup.2
  fresh := fun other hother => h.fresh other (List.mem_cons_of_mem _ hother)

theorem ByHash.erase {index : Map H256 Nat} (h : ByHash index (node :: nodes))
    (hnew : ∀ other ∈ nodes, other.transaction.hash ≠ node.transaction.hash) :
    ByHash (index.erase node.transaction.hash) nodes := by
  intro hash id
  rw [AList.lookup_erase_eq_ite]
  split
  next heq =>
    constructor
    · exact nofun
    · rintro ⟨other, hother, -, hhash⟩
      exact absurd (hhash.trans heq) (hnew other hother)
  next hne =>
    rw [h hash id]
    simp only [List.mem_cons, exists_eq_or_imp]
    constructor
    · rintro (⟨-, hhash⟩ | hold)
      · exact absurd hhash.symm hne
      · exact hold
    · exact .inr

theorem ByNonce.erase (h : ByNonce index (node :: nodes))
    (hnew : ∀ other ∈ nodes, (other.transaction.origin, other.transaction.nonce) ≠
      (node.transaction.origin, node.transaction.nonce)) :
    ByNonce (index.eraseAt node.transaction.origin node.transaction.nonce) nodes := by
  intro a n it
  rw [find_eraseAt]
  split
  next heq =>
    constructor
    · intro hnone
      cases hnone
    · rintro ⟨other, hother, -, horigin, hnonce⟩
      exact absurd (Prod.ext (horigin.trans heq.1) (hnonce.trans heq.2)) (hnew other hother)
  next hne =>
    rw [h a n it]
    simp only [List.mem_cons, exists_eq_or_imp]
    constructor
    · rintro (⟨-, horigin, hnonce⟩ | hold)
      · exact absurd ⟨horigin.symm, hnonce.symm⟩ hne
      · exact hold
    · exact .inr

/-- `Linked`, with an index by sender and nonce in which the map of one sender may
be empty. -/
structure LinkedBut (q : TransactionQueue) (index : NestedMap Address U256 (Option Nat))
    (a : Address) : Prop where
  numbered : Numbered q.current q.nextId
  byHash : ByHash q.currentByHash q.current
  byNonce : ByNonce index q.current
  noEmpty : index.NoEmptyBut a
  counted : q.currentSizeBytes.toNat = bytes (pending q.current)

theorem Linked.but (h : q.Linked) (a : Address) : q.LinkedBut q.currentByAddressAndNonce a :=
  ⟨h.numbered, h.byHash, h.byNonce, h.noEmpty.but a, h.counted⟩

theorem LinkedBut.linked (h : q.LinkedBut index a)
    (hindex : q.currentByAddressAndNonce = index.dropEmpty a) : q.Linked where
  numbered := h.numbered
  byHash := h.byHash
  byNonce := by
    intro b n it
    rw [hindex, find_dropEmpty]
    exact h.byNonce b n it
  noEmpty := by
    rw [hindex]
    exact .dropEmpty h.noEmpty
  counted := h.counted

/-- The queue without an element, but for its sender's map. -/
def unlinked (q : TransactionQueue) (node : QueueNode) : TransactionQueue :=
  { q with
    currentByHash := q.currentByHash.erase node.transaction.hash
    currentSizeBytes := q.currentSizeBytes - UInt32.ofNat node.transaction.size
    current := q.current.eraseP (·.id = node.id) }

theorem pending_unlinked (h : Numbered q.current q.nextId) (hnode : node ∈ q.current) :
    pending q.current = node.transaction ::ₘ pending (q.unlinked node).current :=
  pending_of_keys ((h.perm_cons_eraseP hnode).map _)

theorem LinkedBut.unlinked (h : q.LinkedBut index node.transaction.origin)
    (hnode : node ∈ q.current) (hdistinct : Distinct (pending q.current)) :
    (q.unlinked node).LinkedBut
      (index.eraseAt node.transaction.origin node.transaction.nonce)
      node.transaction.origin := by
  have hkeys := (h.numbered.perm_cons_eraseP hnode).map QueueNode.key
  have hpending := pending_unlinked h.numbered hnode
  have hcounted := h.counted
  rw [hpending] at hdistinct hcounted
  rw [bytes_cons] at hcounted
  refine ⟨(h.numbered.of_keys hkeys).tail, (h.byHash.of_keys hkeys).erase hdistinct.hash_ne,
    (h.byNonce.of_keys hkeys).erase hdistinct.place_ne, h.noEmpty.eraseAt, ?_⟩
  refine (toNat_sub_size (by omega)).trans ?_
  omega

end Take

/-! ## Removing a transaction -/

/-- Transactions only leave. -/
structure Shrinks (q q' : TransactionQueue) : Prop where
  current : pending q'.current ≤ pending q.current
  futures : q'.futures ≤ q.futures
  limits : SameLimits q q'

theorem Shrinks.refl (q : TransactionQueue) : Shrinks q q := ⟨le_rfl, le_rfl, .refl q⟩

theorem Shrinks.trans (h : Shrinks q q') (h' : Shrinks q' q'') : Shrinks q q'' :=
  ⟨h'.current.trans h.current, h'.futures.trans h.futures, h.limits.trans h'.limits⟩

theorem known_erase {all rest : Multiset PooledTransaction} {t : PooledTransaction}
    {known : Finset H256} (hall : all = t ::ₘ rest) (hdistinct : Distinct all)
    (hknown : ∀ h, h ∈ known ↔ h ∈ all.map (·.hash)) (h : H256) :
    h ∈ known.erase t.hash ↔ h ∈ rest.map (·.hash) := by
  have hnodup := hdistinct.hashes
  rw [hall, map_cons, Multiset.nodup_cons] at hnodup
  rw [Finset.mem_erase, hknown, hall, map_cons, Multiset.mem_cons]
  constructor
  · rintro ⟨hne, heq | hmem⟩
    · exact absurd heq hne
    · exact hmem
  · intro hmem
    exact ⟨fun heq => hnodup.1 (heq ▸ hmem), .inr hmem⟩

def removed (q : TransactionQueue) (node : QueueNode) : TransactionQueue :=
  { q.unlinked node with
    currentByAddressAndNonce := (q.currentByAddressAndNonce.eraseAt
      node.transaction.origin node.transaction.nonce).dropEmpty
        node.transaction.origin
    known := q.known.erase node.transaction.hash }

theorem remove_run (h : q.Linked) (hnode : node ∈ q.current) :
    remove node.transaction.hash q = .ok true (q.removed node) := by
  have hlookup : q.currentByHash.lookup node.transaction.hash = some node.id :=
    (h.byHash _ _).mpr ⟨node, hnode, rfl, rfl⟩
  have hsender :
      (q.currentByAddressAndNonce.lookup node.transaction.origin).isNone = false := by
    have hfind := (h.byNonce _ _ _).mpr ⟨node, hnode, rfl, rfl, rfl⟩
    obtain ⟨queue, hqueue, -⟩ := Option.bind_eq_some_iff.mp hfind
    rw [hqueue]
    rfl
  rw [remove, get_bind]
  rw [hlookup]
  dsimp only
  rw [bind_apply, deref_run h.numbered hnode]
  dsimp only
  rw [get_bind]
  rw [hsender, if_neg Bool.false_ne_true]
  rfl

theorem Indexed.removed (h : q.Indexed) (hnode : node ∈ q.current) : (q.removed node).Indexed := by
  have hpending := pending_unlinked h.linked.numbered hnode
  have hall : pending q.current + q.futures =
      node.transaction ::ₘ (pending (q.removed node).current + q.futures) := by
    rw [hpending, cons_add]
    rfl
  have hbut : (q.removed node).LinkedBut _ node.transaction.origin :=
    { (h.linked.but _).unlinked hnode (h.distinct.mono (le_add_right _ _)) with }
  refine ⟨⟨hbut.linked rfl, h.stored, h.distinct.mono ?_, h.futureCounted.size,
    h.futureCounted.bytes⟩, known_erase hall h.distinct h.known⟩
  rw [hall]
  exact le_cons_self _ _

theorem shrinks_removed (h : q.Linked) (hnode : node ∈ q.current) : Shrinks q (q.removed node) := by
  refine ⟨?_, le_rfl, rfl, rfl, rfl, rfl⟩
  rw [pending_unlinked h.numbered hnode]
  exact le_cons_self _ _

theorem Balanced.present (h : q.Balanced) : q.Present q.current :=
  h.linked.present (h.distinct.mono (le_add_right _ _))

theorem Numbered.ne_of_mem_eraseP {nodes : List QueueNode} {nextId : Nat}
    (h : Numbered nodes nextId) (hnode : node ∈ nodes) {other : QueueNode}
    (hother : other ∈ nodes.eraseP (·.id = node.id)) : other ≠ node := by
  have hnodup := (((h.perm_cons_eraseP hnode).map (·.id)).nodup_iff).mp h.nodup
  rw [List.map_cons, List.nodup_cons] at hnodup
  rintro rfl
  exact hnodup.1 (List.mem_map_of_mem hother)

theorem Ordered.removed (hordered : q.Ordered) (h : q.Indexed) (hnode : node ∈ q.current)
    (hremovable : q.Removable node) : (q.removed node).Ordered := by
  have hpresent := h.present
  have hfind : ∀ a n, (q.removed node).currentByAddressAndNonce.find a n =
      if a = node.transaction.origin ∧ n = node.transaction.nonce then none
      else q.currentByAddressAndNonce.find a n := by
    intro a n
    rw [TransactionQueue.removed, find_dropEmpty, find_eraseAt]
  have hsublist : (q.removed node).current.Sublist q.current := List.eraseP_sublist
  refine hordered.of_sublist hpresent (h.removed hnode).present hsublist fun x hx y hy hne => ?_
  refine firstNonce_erased hfind (hpresent.found x (hsublist.subset hx)) ?_
  rintro ⟨horigin, hfirst⟩
  obtain ⟨lower, hlower, hsame, hless⟩ | honly | hall := hremovable
  · have hfound := hpresent.found lower hlower
    rw [hsame, ← horigin] at hfound
    have hle := (firstNonce_spec hfound).2
    rw [hfirst] at hle
    omega
  · exact h.linked.numbered.ne_of_mem_eraseP hnode hx (honly x (hsublist.subset hx) horigin)
  · exact hne (horigin.trans (hall y (hsublist.subset hy)).symm)

/-- `remove_WITH_LOCK`, of any hash. -/
theorem remove_any (h : q.Indexed) (hash : H256) :
    ∃ found q', remove hash q = .ok found q' ∧ q'.Indexed ∧ Shrinks q q' ∧
      (q.Ordered → q.Droppable hash → q'.Ordered) := by
  cases hlookup : q.currentByHash.lookup hash with
  | none =>
    refine ⟨false, q, ?_, h, .refl q, fun hordered _ => hordered⟩
    rw [remove, get_bind]
    rw [hlookup]
    rfl
  | some id =>
    obtain ⟨node, hnode, -, rfl⟩ := (h.linked.byHash _ _).mp hlookup
    exact ⟨true, q.removed node, remove_run h.linked hnode, h.removed hnode,
      shrinks_removed h.linked hnode,
      fun hordered hremovable => hordered.removed h hnode (hremovable node hnode rfl)⟩

/-! ## Dropping a future transaction -/

/-- The queue without one of its future transactions. -/
def forgotten (q : TransactionQueue) (a : Address) (nonce : U256) (v : VerifiedTransaction)
    (engine : Nat → Nat) : TransactionQueue :=
  { q with
    futureSize := q.futureSize - 1
    futureSizeBytes := q.futureSizeBytes - UInt32.ofNat v.transaction.size
    known := q.known.erase v.transaction.hash
    future := withoutEntries q.future a [⟨nonce, v⟩]
    engine }

theorem futures_forgotten (hfind : q.future.find a nonce = some v) (engine : Nat → Nat) :
    q.futures = v.transaction ::ₘ (q.forgotten a nonce v engine).futures := by
  have htaken : q.Taken a [⟨nonce, v⟩] := by
    refine ⟨List.nodup_singleton _, fun entry hentry => ?_⟩
    rw [List.mem_singleton.mp hentry]
    exact hfind
  exact htaken.futures

theorem Indexed.forgotten (h : q.Indexed) (hfind : q.future.find a nonce = some v)
    (engine : Nat → Nat) : (q.forgotten a nonce v engine).Indexed := by
  have hfutures := futures_forgotten hfind engine
  have hall : pending q.current + q.futures = v.transaction ::ₘ
      (pending q.current + (q.forgotten a nonce v engine).futures) := by
    rw [hfutures, add_cons]
  have hcounted := h.futureCounted
  rw [hfutures] at hcounted
  refine ⟨⟨{ h.linked with }, h.stored.withoutEntries, h.distinct.mono ?_,
    hcounted.less rfl rfl⟩, known_erase hall h.distinct h.known⟩
  rw [hall]
  exact le_cons_self _ _

theorem shrinks_forgotten (hfind : q.future.find a nonce = some v) (engine : Nat → Nat) :
    Shrinks q (q.forgotten a nonce v engine) := by
  refine ⟨le_rfl, ?_, rfl, rfl, rfl, rfl⟩
  rw [futures_forgotten hfind engine]
  exact le_cons_self _ _

/-- The first lines of `import`. -/
theorem takeFuture_run (h : q.Indexed) (a : Address) (nonce : U256) :
    ∃ q', takeFuture a nonce q = .ok () q' ∧ q'.Indexed ∧ Shrinks q q' ∧ SameCurrent q q' ∧
      q'.dropped = q.dropped ∧ (q.future.find a nonce = none → q' = q) ∧
      ∀ v, q.future.find a nonce = some v → q'.known = q.known.erase v.transaction.hash ∧
        q'.future.find a nonce = none := by
  rw [takeFuture, get_bind]
  cases hfind : q.future.find a nonce with
  | none => exact ⟨q, rfl, h, .refl q, .refl q, rfl, fun _ => rfl, nofun⟩
  | some v =>
    refine ⟨q.forgotten a nonce v q.engine, ?_, h.forgotten hfind _, shrinks_forgotten hfind _,
      ⟨rfl, rfl⟩, rfl, nofun, fun v' hv => ?_⟩
    · dsimp only
      rw [(h.stored.keyed a nonce v hfind).2]
      rfl
    · cases hv
      refine ⟨rfl, ?_⟩
      change (withoutEntries q.future a [⟨nonce, v⟩]).find a nonce = none
      rw [withoutEntries, find_dropEmpty, find_foldl_eraseAt, if_pos ⟨rfl, by simp⟩]

theorem futureTooLarge_eq_false : q.futureTooLarge = false ↔
    q.futureSize.toNat ≤ q.futureLimit.toNat ∧
      q.futureSizeBytes.toNat ≤ q.futureSizeBytesLimit.toNat := by
  simp only [futureTooLarge, Bool.or_eq_false_iff, decide_eq_false_iff_not,
    UInt32.lt_iff_toNat_lt, Nat.not_lt]

theorem currentTooLarge_eq_false : q.currentTooLarge = false ↔
    q.current.length ≤ q.limit.toNat ∧
      q.currentSizeBytes.toNat ≤ q.currentSizeBytesLimit.toNat := by
  simp only [currentTooLarge, Bool.or_eq_false_iff, decide_eq_false_iff_not,
    UInt32.lt_iff_toNat_lt, Nat.not_lt]

theorem exists_future (h : q.Balanced) (hlarge : q.futureTooLarge = true) :
    q.future.entries ≠ [] := by
  intro hempty
  have hnone : q.futures = 0 := by
    rw [futures, show q.future = ∅ from AList.ext hempty]
    rfl
  have hsize := h.futureCounted.size
  have hbytes := h.futureCounted.bytes
  rw [hnone] at hsize hbytes
  rw [futureTooLarge, Bool.or_eq_true, decide_eq_true_eq, decide_eq_true_eq, UInt32.lt_iff_toNat_lt,
    UInt32.lt_iff_toNat_lt, hsize, hbytes] at hlarge
  exact hlarge.elim (Nat.not_lt_zero _) (Nat.not_lt_zero _)

/-- One round of the loop of `setFuture_WITH_LOCK`. -/
theorem dropFuture_run (h : q.Indexed) (hlarge : q.futureTooLarge = true) :
    ∃ q', dropFuture q = .ok () q' ∧ q'.Indexed ∧ Shrinks q q' ∧ q'.futures < q.futures ∧
      SameCurrent q q' := by
  have hpos := List.length_pos_iff.mpr (exists_future h.toBalanced hlarge)
  have hlt := Nat.mod_lt (q.engine 0) hpos
  obtain ⟨⟨a, queue⟩, hentry⟩ : ∃ entry,
      q.future.entries[q.engine 0 % q.future.entries.length]? = some entry :=
    ⟨_, List.getElem?_eq_getElem hlt⟩
  have hqueue : q.future.lookup a = some queue :=
    AList.lookup_eq_some_iff_mem.mpr (List.mem_of_getElem? hentry)
  obtain ⟨⟨nonce, v⟩, hlast⟩ : ∃ entry, (orderedEntries queue).getLast? = some entry := by
    refine ⟨_, List.getLast?_eq_some_getLast fun hnil => h.stored.noEmpty a queue hqueue ?_⟩
    have hperm := orderedEntries_perm queue
    rw [hnil] at hperm
    exact hperm.nil_eq.symm
  have hfind : q.future.find a nonce = some v := by
    rw [NestedMap.find, hqueue, Option.bind_some]
    exact mem_orderedEntries.mp (List.mem_of_getLast? hlast)
  refine ⟨q.forgotten a nonce v fun n => q.engine (n + 1), ?_, h.forgotten hfind _,
    shrinks_forgotten hfind _, ?_, rfl, rfl⟩
  · rw [dropFuture, get_bind]
    rw [hentry]
    dsimp only
    rw [hlast]
    rfl
  · conv_rhs => rw [futures_forgotten hfind fun n => q.engine (n + 1)]
    exact Multiset.lt_cons_self _ _

/-! ## Loops that drop transactions -/

/-- A loop whose body keeps an invariant and makes a number smaller ends, and its
condition no longer holds. -/
theorem loopWhile_run {condition : TransactionQueue → Bool} {body : M Unit}
    {Inv : TransactionQueue → Prop} (size : TransactionQueue → Nat)
    (hbody : ∀ q, Inv q → condition q = true →
      ∃ q', body q = .ok () q' ∧ Inv q' ∧ size q' < size q)
    {rounds : Nat} (hinv : Inv q) (hrounds : size q ≤ rounds) :
    ∃ q', loopWhile condition body rounds q = .ok () q' ∧ Inv q' ∧ condition q' = false ∧
      (condition q = false → q' = q) := by
  induction rounds generalizing q with
  | zero =>
    cases hcondition : condition q with
    | false =>
      refine ⟨q, ?_, hinv, hcondition, fun _ => rfl⟩
      rw [loopWhile, get_bind]
      rw [hcondition]
      rfl
    | true =>
      obtain ⟨q', -, -, hless⟩ := hbody q hinv hcondition
      omega
  | succ rounds ih =>
    rw [loopWhile, get_bind]
    cases hcondition : condition q with
    | false => exact ⟨q, rfl, hinv, hcondition, fun _ => rfl⟩
    | true =>
      obtain ⟨q', hrun, hinv', hless⟩ := hbody q hinv hcondition
      obtain ⟨q'', hrest, hinv'', hdone, -⟩ := ih hinv' (by omega)
      refine ⟨q'', ?_, hinv'', hdone, nofun⟩
      rw [if_pos rfl, bind_apply, hrun]
      exact hrest

theorem dropFuture_loop (h : q.Indexed) :
    ∃ q', loopWhile futureTooLarge dropFuture (q.future.values.card + 1) q = .ok () q' ∧
      (q'.Indexed ∧ Shrinks q q' ∧ SameCurrent q q') ∧ q'.futureTooLarge = false ∧
      (q.futureTooLarge = false → q' = q) := by
  refine loopWhile_run (fun q => q.future.values.card) (fun q₁ hinv hlarge => ?_)
    ⟨h, .refl q, .refl q⟩ (Nat.le_succ _)
  obtain ⟨q₂, hrun, hindexed, hshrinks, hless, hsame⟩ := dropFuture_run hinv.1 hlarge
  refine ⟨q₂, hrun, ⟨hindexed, hinv.2.1.trans hshrinks, hinv.2.2.trans hsame⟩, ?_⟩
  have hcard := Multiset.card_lt_card hless
  rwa [futures, futures, card_map, card_map] at hcard

theorem exists_pending (h : q.Linked) (hlarge : q.currentTooLarge = true) : q.current ≠ [] := by
  intro hempty
  have hcounted := h.counted
  rw [hempty] at hcounted
  rw [currentTooLarge, Bool.or_eq_true, decide_eq_true_eq, decide_eq_true_eq,
    UInt32.lt_iff_toNat_lt, hcounted, hempty] at hlarge
  exact hlarge.elim (Nat.not_lt_zero _) (Nat.not_lt_zero _)

/-- One round of the loop of `manageImport_WITH_LOCK`. -/
theorem dropCurrent_run (h : q.Indexed) (hlarge : q.currentTooLarge = true) :
    ∃ q', dropCurrent q = .ok () q' ∧ q'.Indexed ∧ Shrinks q q' ∧
      q'.current.length < q.current.length ∧ (q.Ordered → q'.Ordered) := by
  have hlast := List.getLast?_eq_some_getLast (exists_pending h.linked hlarge)
  generalize q.current.getLast (exists_pending h.linked hlarge) = node at hlast
  have hnode : node ∈ q.current := List.mem_of_getLast? hlast
  refine ⟨q.removed node, ?_, h.removed hnode, shrinks_removed h.linked hnode, ?_,
    fun hordered => hordered.removed h hnode (hordered.removable_of_last hlast)⟩
  · rw [dropCurrent, get_bind]
    rw [hlast]
    dsimp only
    rw [bind_apply, remove_run h.linked hnode]
    rfl
  · rw [(h.linked.numbered.perm_cons_eraseP hnode).length_eq]
    exact Nat.lt_succ_self _

theorem dropCurrent_loop (h : q.Indexed) :
    ∃ q', loopWhile currentTooLarge dropCurrent (q.current.length + 1) q = .ok () q' ∧
      (q'.Indexed ∧ Shrinks q q' ∧ (q.Ordered → q'.Ordered)) ∧ q'.currentTooLarge = false ∧
      (q.currentTooLarge = false → q' = q) := by
  refine loopWhile_run (fun q => q.current.length) (fun q₁ hinv hlarge => ?_)
    ⟨h, .refl q, id⟩ (Nat.le_succ _)
  obtain ⟨hindexed₁, hshrinks₁, hordered₁⟩ := hinv
  obtain ⟨q₂, hrun, hindexed, hshrinks, hless, hordered⟩ := dropCurrent_run hindexed₁ hlarge
  exact ⟨q₂, hrun, ⟨hindexed, hshrinks₁.trans hshrinks, fun hq => hordered (hordered₁ hq)⟩, hless⟩

/-! ## Into the future -/

def demoted (q : TransactionQueue) (a : Address) (node : QueueNode) : TransactionQueue :=
  { q.unlinked node with
    futureSizeBytes := q.futureSizeBytes + UInt32.ofNat node.transaction.size
    future := q.future.insertNew a node.transaction.nonce ⟨node.transaction, 0⟩
    futureSize := q.futureSize + 1 }

theorem demote_run (h : Numbered q.current q.nextId) (hnode : node ∈ q.current) (a : Address) :
    demote a (some node.id) q = .ok () (q.demoted a node) := by
  rw [demote, bind_apply, deref_run h hnode]
  rfl

/-- All agrees, but that the map of one sender may be out of date. -/
structure BalancedBut (q : TransactionQueue) (index : NestedMap Address U256 (Option Nat))
    (a : Address) : Prop where
  linked : q.LinkedBut index a
  stored : Stored q.future
  distinct : Distinct (pending q.current + q.futures)
  futureCounted : q.FutureCounted q.futures

/-- A transaction that waits in `current` is not in the future. -/
theorem find_future_eq_none (hstored : Stored q.future)
    (hdistinct : Distinct (pending q.current + q.futures)) (hnode : node ∈ q.current) :
    q.future.find node.transaction.origin node.transaction.nonce = none := by
  cases hfind : q.future.find node.transaction.origin node.transaction.nonce with
  | none => rfl
  | some v =>
    obtain ⟨horigin, hnonce⟩ := hstored.keyed _ _ _ hfind
    have hmem : v.transaction ∈ q.futures :=
      Multiset.mem_map_of_mem _ (NestedMap.mem_values.mpr ⟨_, _, hfind⟩)
    have hplaces := hdistinct.places
    rw [map_add, Multiset.nodup_add] at hplaces
    have hboth := Multiset.disjoint_left.mp hplaces.2.2
      (Multiset.mem_map_of_mem _ (mem_pending.mpr ⟨node, hnode, rfl⟩))
      (Multiset.mem_map.mpr ⟨_, hmem, Prod.ext horigin hnonce⟩)
    exact hboth.elim

theorem all_demoted (hnumbered : Numbered q.current q.nextId)
    (hnone : q.future.find a node.transaction.nonce = none) (hnode : node ∈ q.current) :
    (q.demoted a node).futures = node.transaction ::ₘ q.futures ∧
      pending (q.demoted a node).current + (q.demoted a node).futures =
        pending q.current + q.futures := by
  have hfutures : (q.demoted a node).futures = node.transaction ::ₘ q.futures := by
    rw [futures, demoted, insertNew_of_none hnone, NestedMap.values_assign hnone, map_cons]
    rfl
  refine ⟨hfutures, ?_⟩
  rw [hfutures, pending_unlinked hnumbered hnode, add_cons, cons_add]
  rfl

variable {moved : List (Σ _ : U256, Option Nat)}

theorem BalancedBut.demoted
    (h : q.BalancedBut index node.transaction.origin) (hnode : node ∈ q.current) :
    (q.demoted node.transaction.origin node).BalancedBut
      (index.eraseAt node.transaction.origin node.transaction.nonce)
      node.transaction.origin := by
  have hnone := find_future_eq_none h.stored h.distinct hnode
  obtain ⟨hfutures, hall⟩ := all_demoted h.linked.numbered hnone hnode
  have hdistinct : Distinct (pending (q.demoted node.transaction.origin node).current +
      (q.demoted node.transaction.origin node).futures) := by
    rw [hall]
    exact h.distinct
  have hnew := hdistinct.mono (le_add_left _ _)
  have hcard := hnew.card_lt
  have hsmall := hnew.small
  rw [hfutures, card_cons, ← h.futureCounted.size] at hcard
  rw [hfutures, bytes_cons, ← h.futureCounted.bytes] at hsmall
  refine ⟨{ h.linked.unlinked hnode (h.distinct.mono (le_add_right _ _)) with }, ⟨?_, ?_⟩,
    hdistinct, ⟨?_, ?_⟩⟩
  · intro b n v hfind
    simp only [TransactionQueue.demoted, insertNew_of_none hnone, NestedMap.find_assign] at hfind
    split at hfind
    next heq =>
      cases hfind
      exact ⟨heq.1.symm, heq.2.symm⟩
    next => exact h.stored.keyed b n v hfind
  · simp only [TransactionQueue.demoted, insertNew_of_none hnone]
    exact h.stored.noEmpty.assign
  · rw [hfutures, card_cons, ← h.futureCounted.size]
    exact toNat_add_one hcard
  · rw [hfutures, bytes_cons, ← h.futureCounted.bytes]
    refine (toNat_add_size (by omega)).trans ?_
    omega

/-- What the loop of `setFuture_WITH_LOCK` leaves alone. -/
structure SameQueue (q q' : TransactionQueue) : Prop where
  all : pending q'.current + q'.futures = pending q.current + q.futures
  sublist : q'.current.Sublist q.current
  known : q'.known = q.known
  index : q'.currentByAddressAndNonce = q.currentByAddressAndNonce
  limits : SameLimits q q'

theorem SameQueue.refl (q : TransactionQueue) : SameQueue q q :=
  ⟨rfl, .refl _, rfl, rfl, .refl q⟩

theorem SameQueue.trans (h : SameQueue q q') (h' : SameQueue q' q'') : SameQueue q q'' :=
  ⟨h'.all.trans h.all, h'.sublist.trans h.sublist, h'.known.trans h.known,
    h'.index.trans h.index, h.limits.trans h'.limits⟩

theorem sameQueue_demoted (hnumbered : Numbered q.current q.nextId)
    (hnone : q.future.find a node.transaction.nonce = none) (hnode : node ∈ q.current) :
    SameQueue q (q.demoted a node) :=
  ⟨(all_demoted hnumbered hnone hnode).2, List.eraseP_sublist, rfl, rfl, rfl, rfl, rfl, rfl⟩

/-- The loop of `setFuture_WITH_LOCK`. -/
theorem demote_forM (h : q.BalancedBut index a) (hnodup : (moved.map Sigma.fst).Nodup)
    (hfound : ∀ entry ∈ moved, index.find a entry.1 = some entry.2) :
    ∃ q', moved.forM (fun entry => demote a entry.2) q = .ok () q' ∧
      q'.BalancedBut (moved.foldl (fun m entry => m.eraseAt a entry.1) index) a ∧
      SameQueue q q' := by
  induction moved generalizing q index with
  | nil => exact ⟨q, rfl, h, .refl q⟩
  | cons entry moved ih =>
    obtain ⟨node, hnode, hit, rfl, hnonce⟩ :=
      (h.linked.byNonce _ _ _).mp (hfound entry List.mem_cons_self)
    rw [List.map_cons, List.nodup_cons] at hnodup
    have hstep := h.demoted hnode
    rw [hnonce] at hstep
    have hsame := sameQueue_demoted h.linked.numbered
      (find_future_eq_none h.stored h.distinct hnode) hnode
    obtain ⟨q', hrest, hbalanced, hqueue⟩ := ih hstep hnodup.2 fun other hother => by
      rw [find_eraseAt, if_neg, hfound other (List.mem_cons_of_mem _ hother)]
      rintro ⟨-, heq⟩
      exact hnodup.1 (heq ▸ List.mem_map_of_mem hother)
    refine ⟨q', ?_, hbalanced, hsame.trans hqueue⟩
    change (demote _ entry.2 >>= fun _ => moved.forM _) q = _
    rw [hit, bind_apply, demote_run h.linked.numbered hnode]
    exact hrest

def touched (q : TransactionQueue) (a : Address) : TransactionQueue :=
  { q with future := q.future.insert a ((q.future.lookup a).getD ∅) }

theorem demote_touched (h : Numbered q.current q.nextId)
    (hnone : q.future.find a node.transaction.nonce = none) (hnode : node ∈ q.current) :
    demote a (some node.id) (q.touched a) = demote a (some node.id) q := by
  rw [demote_run h hnode, demote_run (q := q.touched a) h hnode]
  simp only [demoted, touched, NestedMap.insertNew_insert_getD hnone]
  rfl

theorem forM_demote_touched (h : q.BalancedBut index a) (hne : moved ≠ [])
    (hfound : ∀ entry ∈ moved, index.find a entry.1 = some entry.2) :
    moved.forM (fun entry => demote a entry.2) (q.touched a) =
      moved.forM (fun entry => demote a entry.2) q := by
  cases moved with
  | nil => exact absurd rfl hne
  | cons entry moved =>
    obtain ⟨node, hnode, hit, rfl, -⟩ :=
      (h.linked.byNonce _ _ _).mp (hfound entry List.mem_cons_self)
    change (demote _ entry.2 >>= fun _ => moved.forM _) (q.touched _) =
      (demote _ entry.2 >>= fun _ => moved.forM _) q
    rw [bind_apply, bind_apply, hit, demote_touched h.linked.numbered
      (find_future_eq_none h.stored h.distinct hnode) hnode]

/-- The queue once the entries that moved have left their sender's map. -/
def settled (q : TransactionQueue) (a : Address) (moved : List (Σ _ : U256, Option Nat)) :
    TransactionQueue :=
  { q with
    currentByAddressAndNonce := dropEmpty
      (moved.foldl (fun m entry => m.eraseAt a entry.1) q.currentByAddressAndNonce) a }

theorem Indexed.settled (h : q.Indexed) (hbut : q'.BalancedBut
      (moved.foldl (fun m entry => m.eraseAt a entry.1) q.currentByAddressAndNonce) a)
    (hsame : SameQueue q q') : (q'.settled a moved).Indexed := by
  have hlinked : (q'.settled a moved).LinkedBut _ a := { hbut.linked with }
  refine ⟨⟨hlinked.linked ?_, hbut.stored, hbut.distinct, { hbut.futureCounted with }⟩,
    fun hash => ?_⟩
  · rw [TransactionQueue.settled, hsame.index]
  · change hash ∈ q'.known ↔ hash ∈ (pending q'.current + q'.futures).map (·.hash)
    rw [hsame.known, hsame.all]
    exact h.known hash

theorem mem_entriesFrom {Value : Type} (m : Map U256 Value) (cutoff n : U256) :
    n ∈ ((orderedEntries m).filter fun entry => cutoff.toNat ≤ entry.1.toNat).map Sigma.fst ↔
      cutoff.toNat ≤ n.toNat ∧ (m.lookup n).isSome = true := by
  constructor
  · intro hmem
    obtain ⟨entry, hentry, rfl⟩ := List.mem_map.mp hmem
    obtain ⟨hin, hle⟩ := List.mem_filter.mp hentry
    rw [mem_orderedEntries.mp hin]
    exact ⟨decide_eq_true_eq.mp hle, rfl⟩
  · rintro ⟨hle, hsome⟩
    obtain ⟨value, hvalue⟩ := Option.isSome_iff_exists.mp hsome
    refine List.mem_map.mpr
      ⟨⟨n, value⟩, List.mem_filter.mpr ⟨mem_orderedEntries.mpr hvalue, ?_⟩, rfl⟩
    exact decide_eq_true_eq.mpr hle

/-- The transactions that stay are those in front of the ones that move, so their
sender's lowest nonce stays. -/
theorem Ordered.settled (hordered : q.Ordered) (h : q.Balanced) (cutoff : U256)
    (hsettled : (q'.settled a moved).Balanced) (hsame : SameQueue q q')
    (hmoved : ∀ n, n ∈ moved.map Sigma.fst ↔
      cutoff.toNat ≤ n.toNat ∧ (q.currentByAddressAndNonce.find a n).isSome = true) :
    (q'.settled a moved).Ordered := by
  have hfind : ∀ b n, (q'.settled a moved).currentByAddressAndNonce.find b n =
      if b = a ∧ n ∈ moved.map Sigma.fst then none
      else q.currentByAddressAndNonce.find b n := by
    intro b n
    rw [TransactionQueue.settled, find_dropEmpty, find_foldl_eraseAt, hsame.index]
  have hpresent := h.present
  refine hordered.of_sublist hpresent hsettled.present hsame.sublist fun x hx y hy _ => ?_
  have hxfound := hpresent.found x (hsame.sublist.subset hx)
  refine firstNonce_erased hfind hxfound ?_
  rintro ⟨rfl, hmem⟩
  have hle := ((hmoved _).mp hmem).1.trans (firstNonce_spec hxfound).2
  have hxfound' := hsettled.present.found x hx
  rw [hfind, if_pos ⟨rfl, (hmoved _).mpr ⟨hle, hxfound⟩⟩] at hxfound'
  cases hxfound'

/-- What `setFuture_WITH_LOCK` does. -/
structure MadeFuture (q q' : TransactionQueue) : Prop where
  indexed : q'.Indexed
  sublist : q'.current.Sublist q.current
  limits : SameLimits q q'
  ordered : q.Ordered → q'.Ordered
  known : (pending q.current + q.futures).card ≤ q.futureLimit.toNat →
    bytes (pending q.current + q.futures) ≤ q.futureSizeBytesLimit.toNat → q'.known = q.known

theorem setFuture_run (h : q.Indexed) (hash : H256) :
    ∃ q', setFuture hash q = .ok () q' ∧ MadeFuture q q' ∧
      (q.futureTooLarge = false → q'.futureTooLarge = false) := by
  rw [setFuture, get_bind]
  cases hlookup : q.currentByHash.lookup hash with
  | none => exact ⟨q, rfl, ⟨h, .refl _, .refl q, id, fun _ _ => rfl⟩, id⟩
  | some id =>
    obtain ⟨node, hnode, rfl, -⟩ := (h.linked.byHash _ _).mp hlookup
    have hfind := (h.linked.byNonce _ _ _).mpr ⟨node, hnode, rfl, rfl, rfl⟩
    obtain ⟨queue, hqueue, hentry⟩ := Option.bind_eq_some_iff.mp hfind
    dsimp only
    rw [bind_apply, deref_run h.linked.numbered hnode]
    dsimp only
    rw [get_bind]
    rw [hqueue, Option.getD_some, modify_bind]
    generalize hmoved : (orderedEntries queue).filter
      (fun entry => node.transaction.nonce.toNat ≤ entry.1.toNat) = moved
    have hsublist : moved.Sublist (orderedEntries queue) := hmoved ▸ List.filter_sublist
    have hfound : ∀ entry ∈ moved, q.currentByAddressAndNonce.find
        node.transaction.origin entry.1 = some entry.2 := by
      intro entry hentry
      rw [NestedMap.find, hqueue, Option.bind_some]
      exact mem_orderedEntries.mp (hsublist.subset hentry)
    have hne : moved ≠ [] := by
      have hmem : ⟨node.transaction.nonce, some node.id⟩ ∈ moved := by
        rw [← hmoved, List.mem_filter]
        exact ⟨mem_orderedEntries.mpr hentry, by simp⟩
      exact List.ne_nil_of_mem hmem
    have hbut : q.BalancedBut q.currentByAddressAndNonce node.transaction.origin :=
      ⟨h.linked.but _, h.stored, h.distinct, h.futureCounted⟩
    obtain ⟨q₁, hrun, hbut₁, hsame⟩ :=
      demote_forM hbut ((orderedEntries_nodup queue).sublist (hsublist.map _)) hfound
    rw [← forM_demote_touched hbut hne hfound] at hrun
    unfold touched at hrun
    have hindexed := h.settled hbut₁ hsame
    obtain ⟨q', hloop, ⟨hindexed', hshrinks, hcurrent⟩, hlarge, hnone⟩ := dropFuture_loop hindexed
    refine ⟨q', ?_, ⟨hindexed', ?_, hsame.limits.trans { hshrinks.limits with },
      fun hordered => ?_, fun hcount hbytes => ?_⟩, fun _ => hlarge⟩
    · rw [bind_apply, hrun]
      exact hloop
    · rw [hcurrent.current]
      exact hsame.sublist
    · refine (hordered.settled h.toBalanced node.transaction.nonce hindexed.toBalanced hsame
        fun n => ?_).congr hcurrent
      rw [NestedMap.find, hqueue, Option.bind_some, ← hmoved]
      exact mem_entriesFrom queue node.transaction.nonce n
    · -- there is room for all, so nothing is dropped
      have hle : q₁.futures ≤ pending q.current + q.futures :=
        hsame.all ▸ le_add_left _ _
      rw [hnone (futureTooLarge_eq_false.mpr ?_)]
      · exact hsame.known
      · rw [hindexed.futureCounted.size, hindexed.futureCounted.bytes]
        change q₁.futures.card ≤ q₁.futureLimit.toNat ∧
          bytes q₁.futures ≤ q₁.futureSizeBytesLimit.toNat
        rw [hsame.limits.futureLimit, hsame.limits.futureSizeBytesLimit]
        exact ⟨(Multiset.card_le_card hle).trans hcount, (bytes_mono hle).trans hbytes⟩

end Skaled.TransactionQueue
