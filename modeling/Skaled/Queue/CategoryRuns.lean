import Skaled.Queue.IndexRuns

/-! # Categories partition the queue

The heights that the comparison looks at change while transactions are in the
multiset, and the order of one category is lost with them. The order of the
categories is not: a search may end at a wrong place, but the elements on both
sides of that place were compared, and categories are compared first. Only null
and invalid transactions, which the comparison takes for the beginning of a
category, do not fit in.
-/

namespace Skaled

open EStateM (Triple Invariant bind_apply get_bind)

/-- The operation brings in no transaction that is null or invalid. -/
def QueueOp.BringsReal : QueueOp → Prop
  | .importTransaction t _ _ => t.hasZeroSignature = true ∨ t.isReal = true
  | _ => True

namespace TransactionQueue

section Partition

variable {q : TransactionQueue}

def RealFuture (future : NestedMap Address U256 VerifiedTransaction) : Prop :=
  ∀ a n v, future.find a n = some v → v.transaction.isReal = true

/-- What every operation keeps, also when it fails. A transaction without sender
cannot be compared with others, so it is alone. -/
structure InCategories (q : TransactionQueue) : Prop where
  byCategory : ByCategory q.current
  real : ∀ node ∈ q.current, node.transaction.isReal = true
  senders : 2 ≤ q.current.length →
    ∀ node ∈ q.current, node.transaction.sender.isSome = true
  future : RealFuture q.future

theorem InCategories.shrink (h : q.InCategories) {q' : TransactionQueue}
    (hcurrent : q'.current.Sublist q.current) (hfuture : RealFuture q'.future) :
    q'.InCategories where
  byCategory := h.byCategory.sublist hcurrent
  real node hnode := h.real node (hcurrent.subset hnode)
  senders hlong node hnode :=
    h.senders (hlong.trans hcurrent.length_le) node (hcurrent.subset hnode)
  future := hfuture

/-! ## A new element -/

variable {node : QueueNode} {t : PooledTransaction}

section

variable (h : q.InCategories) (hnode : node.transaction.isReal = true)

include h hnode

theorem InCategories.insert : ByCategory (q.current.insertIdx (q.place node.value) node) := by
  obtain ⟨hle, hfits⟩ := place_spec q node.value
  rw [fitsAt, Bool.and_eq_true, Option.all_eq_true, Option.all_eq_true] at hfits
  have hold := h.byCategory
  rw [ByCategory, ← List.take_append_drop (q.place node.value) q.current,
    ← List.isChain_iff_pairwise, List.isChain_append] at hold
  rw [ByCategory, List.insertIdx_eq_take_drop hle, ← List.isChain_iff_pairwise, List.isChain_append,
    List.isChain_cons]
  refine ⟨hold.1, ⟨fun y hy => ?_, hold.2.1⟩, fun x hx y hy => ?_⟩
  · have hreal := h.real y (List.mem_of_mem_drop (List.mem_of_mem_head? hy))
    exact (notBelow_of_less hnode hreal).1 (hfits.2 y hy)
  · obtain rfl : node = y := Option.some.inj hy
    have hreal := h.real x (List.mem_of_mem_take (List.mem_of_getLast? hx))
    have hnot := hfits.1 x hx
    rw [Bool.not_eq_true'] at hnot
    exact (notBelow_of_less hnode hreal).2 hnot

/-- If a transaction without sender would come to others, every comparison throws. -/
theorem InCategories.throws
    (hmissing : ¬ ∀ other ∈ node :: q.current, other.transaction.sender.isSome = true) :
    q.current.filter (fun other => lessThrows node.value other.value) = q.current := by
  refine List.filter_eq_self.mpr fun other hother => ?_
  rw [lessThrows, hnode, h.real other hother, Bool.and_self, Bool.true_and, Bool.or_eq_true,
    ← Option.not_isSome, ← Option.not_isSome, Bool.not_eq_true', Bool.not_eq_true']
  by_contra hboth
  rw [not_or, Bool.not_eq_false, Bool.not_eq_false] at hboth
  refine hmissing fun x hx => ?_
  obtain rfl | hx := List.mem_cons.mp hx
  · exact hboth.1
  · -- two elements have senders, and a single one is `other`
    by_cases hlong : 2 ≤ q.current.length
    · exact h.senders hlong x hx
    · obtain ⟨only, honly⟩ := List.length_eq_one_iff.mp
        (by have := List.length_pos_of_mem hx; omega : q.current.length = 1)
      rw [honly, List.mem_singleton] at hx hother
      rw [hx, ← hother]
      exact hboth.2

theorem InCategories.inserted
    (engine : Nat → Nat)
    (hsenders : q.current ≠ [] →
      ∀ other ∈ node :: q.current, other.transaction.sender.isSome = true) :
    (q.rearranged (q.current.insertIdx (q.place node.value) node) engine).InCategories := by
  have hperm := List.perm_insertIdx node q.current (place_spec q node.value).1
  refine ⟨h.insert hnode, fun x hx => ?_, fun hlong x hx => ?_, h.future⟩
  · obtain rfl | hx := List.mem_cons.mp (hperm.mem_iff.mp hx)
    · exact hnode
    · exact h.real x hx
  · refine hsenders (fun hempty => ?_) x (hperm.mem_iff.mp hx)
    change 2 ≤ (q.current.insertIdx (q.place node.value) node).length at hlong
    rw [hperm.length_eq, hempty] at hlong
    exact absurd hlong (Nat.lt_irrefl 1)

end

theorem insertNode_keeps (hnode : node.transaction.isReal = true) :
    Invariant InCategories (insertNode node) := by
  intro q h
  rw [insertNode, get_bind]
  by_cases hthrows : q.current.filter (fun other => lessThrows node.value other.value) ≠ [] ∧
      ((q.current.filter fun other => lessThrows node.value other.value).length =
        q.current.length ∨ q.engine 0 % 2 = 1)
  · rw [if_pos hthrows]
    exact h
  · rw [if_neg hthrows]
    refine h.inserted hnode _ fun hne => ?_
    by_contra hmissing
    rw [h.throws hnode hmissing] at hthrows
    exact hthrows ⟨hne, .inl rfl⟩

/-! ## The parts of the operations -/

variable {future : NestedMap Address U256 VerifiedTransaction}

theorem RealFuture.eraseAt (h : RealFuture future) (a : Address) (n : U256) :
    RealFuture (future.eraseAt a n) := by
  intro b m v hfind
  rw [NestedMap.find_eraseAt] at hfind
  split at hfind
  next => cases hfind
  next => exact h b m v hfind

theorem RealFuture.dropEmpty (h : RealFuture future) (a : Address) :
    RealFuture (future.dropEmpty a) := by
  intro b m v hfind
  rw [NestedMap.find_dropEmpty] at hfind
  exact h b m v hfind

/-- Elements may leave, and the indexes and counters may change. -/
theorem modify_keeps {g : TransactionQueue → TransactionQueue}
    (hcurrent : ∀ q, (g q).current.Sublist q.current)
    (hfuture : ∀ q, RealFuture q.future → RealFuture (g q).future) :
    Invariant InCategories (modify g : M Unit) :=
  .modify fun q h => h.shrink (hcurrent q) (hfuture q h.future)

theorem putCurrent_keeps (a : Address) (ht : t.isReal = true) :
    Invariant InCategories (putCurrent a t) := by
  refine .bind (modify_keeps (fun _ => .refl _) fun _ => id) fun _ => .bind ?_ fun handle =>
    modify_keeps (fun _ => .refl _) fun _ => id
  exact .get_bind fun q _ => .bind (insertNode_keeps ht) fun _ =>
    .bind (modify_keeps (fun _ => .refl _) fun _ => id) fun _ => .pure _

theorem RealFuture.foldl_eraseAt {Value : Type} {entries : List (Σ _ : U256, Value)}
    (h : RealFuture future) (a : Address) :
    RealFuture (entries.foldl (fun m entry => m.eraseAt a entry.1) future) := by
  induction entries generalizing future with
  | nil => exact h
  | cons entry rest ih => exact ih (h.eraseAt a entry.1)

theorem makeCurrent_keeps (t : PooledTransaction) : Invariant InCategories (makeCurrent t) := by
  refine .get_bind fun q h => ?_
  cases hqueue : q.future.lookup t.origin with
  | none => exact .pure _
  | some queue =>
    refine .ite (.bind (Triple.forM fun entry hentry => ?_) fun _ =>
      modify_keeps (fun _ => .refl _) fun _ hfuture => (hfuture.foldl_eraseAt _).dropEmpty _)
      (.pure _)
    have hmem := (List.dropWhile_sublist _).subset (consecutive_sublist.subset hentry)
    have hreal := h.future t.origin entry.1 entry.2 (by
      rw [NestedMap.find, hqueue]
      exact mem_orderedEntries.mp hmem)
    exact .bind (putCurrent_keeps _ hreal) fun _ => modify_keeps (fun _ => .refl _) fun _ => id

theorem deref_bind_keeps {α : Type} {id : Nat} {f : QueueNode → M α}
    (hf : ∀ node, node.transaction.isReal = true →
      Invariant InCategories (f node)) :
    Invariant InCategories (deref id >>= f) := by
  intro q h
  rw [bind_apply, deref, get_bind]
  cases hfind : q.current.find? (·.id = id) with
  | none => exact h
  | some node => exact hf node (h.real node (List.mem_of_find?_eq_some hfind)) q h

theorem remove_keeps (hash : H256) : Invariant InCategories (remove hash) := by
  refine .get_bind fun q _ => ?_
  cases q.currentByHash.lookup hash with
  | none => exact .pure _
  | some handle =>
    refine deref_bind_keeps fun node _ => .get_bind fun q' _ => ?_
    have htaken : Invariant InCategories (do
        modify fun q => { q with
          currentByAddressAndNonce := (q.currentByAddressAndNonce.eraseAt
            node.transaction.origin node.transaction.nonce).dropEmpty
            node.transaction.origin
          currentSizeBytes := q.currentSizeBytes - UInt32.ofNat node.transaction.size
          current := q.current.eraseP (·.id = handle)
          currentByHash := q.currentByHash.erase hash
          known := q.known.erase hash }
        pure true : M Bool) :=
      .bind (modify_keeps (fun _ => List.eraseP_sublist) fun _ => id) fun _ => .pure _
    exact .ite (.bind (.throw _) fun _ => htaken) htaken

theorem demote_keeps (a : Address) (handle : Option Nat) :
    Invariant InCategories (demote a handle) := by
  cases handle with
  | none => exact .throw _
  | some id =>
    refine deref_bind_keeps fun node hreal => .modify fun q h => h.shrink List.eraseP_sublist ?_
    intro b n v hfind
    change (q.future.insertNew _ _ _).find b n = some v at hfind
    rw [NestedMap.insertNew] at hfind
    split at hfind
    next => exact h.future b n v hfind
    next =>
      rw [NestedMap.find_assign] at hfind
      split at hfind
      next => exact Option.some.inj hfind ▸ hreal
      next => exact h.future b n v hfind

theorem loopWhile_keeps {condition : TransactionQueue → Bool} {body : M Unit}
    (hbody : Invariant InCategories body) (rounds : Nat) :
    Invariant InCategories (loopWhile condition body rounds) := by
  induction rounds with
  | zero => exact .get_bind fun q _ => .ite (.throw _) (.pure _)
  | succ rounds ih => exact .get_bind fun q _ => .ite (.bind hbody fun _ => ih) (.pure _)

theorem dropFuture_keeps : Invariant InCategories dropFuture := by
  intro q h
  rw [dropFuture, get_bind]
  cases q.future.entries[q.engine 0 % q.future.entries.length]? with
  | none => exact h
  | some entry =>
    dsimp only
    cases (orderedEntries entry.2).getLast? with
    | none => exact h
    | some last => exact h.shrink (.refl _) ((h.future.eraseAt _ _).dropEmpty _)

theorem dropCurrent_keeps : Invariant InCategories dropCurrent := by
  refine .get_bind fun q _ => ?_
  cases q.current.getLast? with
  | none => exact .throw _
  | some node => exact .bind (remove_keeps _) fun _ => .pure _

theorem setFuture_keeps (hash : H256) : Invariant InCategories (setFuture hash) := by
  refine .get_bind fun q _ => ?_
  cases q.currentByHash.lookup hash with
  | none => exact .pure _
  | some handle =>
    refine deref_bind_keeps fun node _ => .get_bind fun q' _ => .bind ?_ fun _ =>
      .bind (Triple.forM fun entry _ => demote_keeps _ _) fun _ =>
      .bind (modify_keeps (fun _ => .refl _) fun _ => id) fun _ =>
      .get_bind fun _ _ => loopWhile_keeps dropFuture_keeps _
    -- the sender's map of future transactions may be created
    refine modify_keeps (fun _ => .refl _) fun q h b n v hfind => h b n v ?_
    rw [NestedMap.find, AList.lookup_insert_eq_ite] at hfind
    split at hfind
    next heq =>
      rw [NestedMap.find, heq]
      cases hlookup : q.future.lookup node.transaction.origin with
      | none =>
        rw [hlookup] at hfind
        cases hfind
      | some queue => rwa [hlookup] at hfind
    next => exact hfind

/-! ## The operations -/

theorem tryImport_keeps (hash : H256) (ht : t.isReal = true) :
    Invariant InCategories (tryImport hash t) := by
  refine .get_bind fun q _ => .ite (.pure _) (.ite (.pure _) (.bind ?_ fun _ =>
    .get_bind fun _ _ => .bind (loopWhile_keeps dropCurrent_keeps _) fun _ => .pure _))
  exact .get_bind fun _ _ => .ite (.pure _) (.bind (putCurrent_keeps _ ht) fun _ =>
    .bind (makeCurrent_keeps t) fun _ => modify_keeps (fun _ => .refl _) fun _ => id)

theorem check_keeps (hash : H256) (ik : IfDropped) : Invariant InCategories (check hash ik) := by
  intro q h
  rw [check, get_bind]
  by_cases hknown : hash ∈ q.known
  · rw [if_pos hknown]
    exact h
  · rw [if_neg hknown]
    by_cases hdropped : hash ∈ q.dropped
    · rw [if_pos hdropped]
      exact h.shrink (.refl _) h.future
    · rw [if_neg hdropped]
      exact h

theorem importTransaction_keeps (ht : t.hasZeroSignature = true ∨ t.isReal = true) (ik : IfDropped)
    (isFuture : Bool) : Invariant InCategories (importTransaction t ik isFuture) := by
  unfold importTransaction
  split
  next => exact .pure _
  next hzero =>
  have hreal := ht.resolve_left hzero
  refine .bind ?_ fun _ => .bind (check_keeps _ _) fun result => ?_
  · refine .get_bind fun q _ => ?_
    cases q.future.find t.origin t.nonce with
    | none => exact .pure _
    | some v => exact modify_keeps (fun _ => .refl _) fun _ h => (h.eraseAt _ _).dropEmpty _
  · cases result with
    | success =>
      refine .bind (Triple.tryCatch (tryImport_keeps _ hreal) fun failure => ?_) fun _ =>
        ?_
      · cases failure with
        | invalidSignature => exact Invariant.pure _
        | undefined | endless => exact Invariant.throw _
      · exact .ite (.bind (setFuture_keeps _) fun _ => .pure _) (.pure _)
    | malformed | sameNonceAlreadyInQueue | alreadyKnown | alreadyInChain | zeroSignature =>
      exact .pure _

theorem drop_keeps (hash : H256) : Invariant InCategories (drop hash) :=
  .get_bind fun _ _ => .ite (.bind (modify_keeps (fun _ => .refl _) fun _ => id) fun _ =>
    .bind (remove_keeps _) fun _ => .pure _) (.pure _)

theorem dropGood_keeps (t : PooledTransaction) : Invariant InCategories (dropGood t) := by
  have hlast : Invariant InCategories (do
      if t.hash ∈ (← get).known then do
        let _ ← remove t.hash : M Unit) :=
    .get_bind fun _ _ => .ite (.bind (remove_keeps _) fun _ => .pure _) (.pure _)
  exact .ite (.bind (makeCurrent_keeps t) fun _ => hlast) hlast

theorem clear_keeps : Invariant InCategories clear :=
  modify_keeps (fun _ => List.nil_sublist _) fun _ _ _ _ _ hfind => nomatch hfind

theorem extract_keeps (count position : Nat) :
    Triple InCategories (extract count position)
      (fun found q => q.InCategories ∧ ∀ node ∈ found, node.transaction.isReal = true)
      fun _ => InCategories := by
  intro q h
  obtain ⟨found, rest, engine, hrun, hperm, hrest⟩ := extract_run count position q
  rw [hrun]
  refine ⟨h.shrink hrest h.future, fun node hnode => ?_⟩
  exact h.real node (hperm.mem_iff.mp (List.mem_append_left _ hnode))

theorem topTransactions_keeps (limit : Nat) (maxCategory setCategory : Int) :
    Invariant InCategories (topTransactions limit maxCategory setCategory) := by
  have htake : Invariant InCategories (takeTop limit maxCategory setCategory) := by
    refine .get_bind fun q h => .bind (fun _ _ => h.shrink (.refl _) h.future) fun _ =>
      .ite ?_ (.pure _)
    refine Triple.bind (extract_keeps _ _) fun found q' hfound => ?_
    have hput : Invariant InCategories
        (found.forM fun node => insertNode (node.withCategory setCategory)) :=
      Triple.forM fun node hnode => insertNode_keeps (hfound.2 node hnode)
    exact hput.bind (fun _ => .pure _) q' hfound.1
  exact .bind htake fun top => .get_bind fun q _ =>
    .ite (.bind (.throw _) fun _ => .pure _) (.pure _)

/-! ## Runs -/

theorem run_keeps {op : QueueOp} (hop : op.BringsReal) : Invariant InCategories op.run := by
  cases op with
  | importTransaction t ik isFuture =>
    exact .bind (importTransaction_keeps hop ik isFuture) fun _ => .pure _
  | setFuture hash => exact .bind (setFuture_keeps hash) fun _ => .pure _
  | drop hash => exact .bind (drop_keeps hash) fun _ => .pure _
  | dropGood t => exact .bind (dropGood_keeps t) fun _ => .pure _
  | topTransactions limit maxCategory setCategory =>
    exact .bind (topTransactions_keeps limit maxCategory setCategory) fun _ => .pure _
  | clear => exact .bind clear_keeps fun _ => .pure _

/-- The queue after some operations, whether they returned or threw. -/
def reached (q : TransactionQueue) (ops : List QueueOp) : TransactionQueue :=
  ops.foldl (fun q op => (op.run q).state) q

theorem InCategories.reached (h : q.InCategories) {ops : List QueueOp}
    (hops : ∀ op ∈ ops, op.BringsReal) : (q.reached ops).InCategories := by
  induction ops generalizing q with
  | nil => exact h
  | cons op ops ih =>
    exact ih ((run_keeps (hops op List.mem_cons_self)).state h)
      fun other hother => hops other (List.mem_cons_of_mem _ hother)

/-- The elements with a category up to a given one. -/
def upTo (q : TransactionQueue) (maxCategory : Int) : List QueueNode :=
  q.current.filter fun node => node.value.category ≤ maxCategory

def beyond (q : TransactionQueue) (maxCategory : Int) : List QueueNode :=
  q.current.filter fun node => maxCategory < node.value.category

/-- The first transactions up to `maxCategory` are returned and get their new
category, and all others stay as they are. -/
structure MovesTop (q : TransactionQueue) (limit : Nat) (maxCategory setCategory : Int)
    (top : List PooledTransaction) (q' : TransactionQueue) : Prop where
  returned : top.Perm (((q.upTo maxCategory).take limit).map (·.transaction))
  moved : q'.current.Perm (((q.upTo maxCategory).take limit).map (·.withCategory setCategory) ++
    (q.beyond maxCategory ++ (q.upTo maxCategory).drop limit))
  rest : q' = q.rearranged q'.current q'.engine

structure CategoriesPartition (q : TransactionQueue) : Prop where
  byCategory : ByCategory q.current
  top : ∀ limit maxCategory setCategory, 0 ≤ setCategory → q.FollowsOn limit →
    ∃ top q', topTransactions limit maxCategory setCategory q = .ok top q' ∧
      MovesTop q limit maxCategory setCategory top q'

theorem InCategories.split (h : q.InCategories) (maxCategory : Int) :
    q.upTo maxCategory = q.below maxCategory ∧ q.beyond maxCategory = q.above maxCategory := by
  have habove : ∀ node ∈ q.above maxCategory, maxCategory < node.value.category :=
    fun node hnode => category_above h.real hnode
  have hbelow : ∀ node ∈ q.below maxCategory, node.value.category ≤ maxCategory :=
    fun node hnode => category_below h.real h.byCategory hnode
  rw [upTo, beyond, ← above_append_below q maxCategory, List.filter_append, List.filter_append]
  constructor
  · rw [List.filter_eq_nil_iff.mpr, List.filter_eq_self.mpr, List.nil_append]
    · exact fun node hnode => decide_eq_true (hbelow node hnode)
    · intro node hnode hle
      exact absurd (of_decide_eq_true hle) (Int.not_le.mpr (habove node hnode))
  · rw [List.filter_eq_self.mpr, List.filter_eq_nil_iff.mpr, List.append_nil]
    · intro node hnode hlt
      exact absurd (of_decide_eq_true hlt) (Int.not_lt.mpr (hbelow node hnode))
    · exact fun node hnode => decide_eq_true (habove node hnode)

theorem InCategories.partition (h : q.InCategories) : CategoriesPartition q where
  byCategory := h.byCategory
  top limit maxCategory setCategory hset hfollows := by
    obtain ⟨top, nodes, engine, hrun, -, htop, htook⟩ := takeTop_run
      (comparable_of_senders h.senders) h.real limit maxCategory setCategory
    refine ⟨_, _, topTransactions_eq h.senders hrun htop, ?_, ?_, rfl⟩
    · rw [(h.split maxCategory).1, ← htook.listed h.byCategory (.inr hfollows)]
      exact List.mergeSort_perm _ _
    · rw [(h.split maxCategory).1, (h.split maxCategory).2]
      exact htook.moved h.byCategory hset hfollows

/-- From the queue as it is constructed, with any limits. -/
theorem initial_categoriesPartition (limit futureLimit currentLimitBytes futureLimitBytes : UInt32)
    (engine : Nat → Nat) (ops : List QueueOp) (hops : ∀ op ∈ ops, op.BringsReal) :
    ((initial limit futureLimit currentLimitBytes futureLimitBytes engine).reached
      ops).CategoriesPartition := by
  have hinitial : (initial limit futureLimit currentLimitBytes futureLimitBytes
      engine).InCategories :=
    ⟨.nil, nofun, nofun, nofun⟩
  exact (hinitial.reached hops).partition

theorem initial_categoriesPartition_sample :
    (sampleQueue.reached
      [.importTransaction (sampleTransaction 1 (some 5) 5 1) .ignore false,
        .importTransaction (sampleTransaction 2 (some 6) 3 7) .ignore false,
        .topTransactions 1 0 1]).CategoriesPartition := by
  refine initial_categoriesPartition 10 10 1000 1000 (fun _ => 0) _ fun op hop => ?_
  obtain rfl | rfl | rfl : op = _ ∨ op = _ ∨ op = _ := by simpa using hop
  · exact .inr rfl
  · exact .inr rfl
  · trivial

/-- A transaction whose bytes could not be read, as `restartMining` may import it. -/
def unreadable : PooledTransaction :=
  { hash := 7, sender := some maxAddress, nonce := 0, gasPrice := 0, size := 1, isNull := false
    isInvalid := true, size_pos := nofun, null_sender := nofun }

/-- An invalid transaction is not below its own category. -/
theorem invalid_transaction_not_listed :
    ¬ (sampleQueue.reached
      [.importTransaction unreadable .retry false]).CategoriesPartition := by
  intro h
  obtain ⟨top, q', hrun, hmoves⟩ := h.top 1 1 0 (by decide) (fun _ _ => by rfl)
  have hnone : (topTransactions 1 1 0 (sampleQueue.reached
      [.importTransaction unreadable .retry false])).value? = some [] := by
    decide +kernel
  rw [hrun] at hnone
  obtain rfl := Option.some.inj hnone
  have hone : (sampleQueue.reached
      [.importTransaction unreadable .retry false]).upTo 1 = [⟨0, ⟨unreadable, 0⟩⟩] := by
    decide +kernel
  have hlength := hmoves.returned.length_eq
  rw [hone] at hlength
  cases hlength

end Partition

end TransactionQueue

end Skaled
