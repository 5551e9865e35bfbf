import Skaled.Queue.IndexRuns

/-! # The pending queue and its order

The comment at the multiset says that updating the minimal nonce of an account
does not affect the order. It does when the first transaction of a sender leaves
while others of the same sender and of other senders stay, or when one with a
lower nonce comes: all distances of that sender change, and those of the others do
not. Apart from that, and from categories that turn a sender's nonces around, the
order is kept, and the top transactions are listed by nonce and without gaps.
-/

namespace Skaled

/-- A listed transaction comes with all pending ones of its sender and category
that have lower nonces, except those to be avoided. -/
def OmitsNoLower (nodes : List QueueNode) (avoid : Finset H256) (top : List PooledTransaction) :
    Prop :=
  ∀ node ∈ nodes, node.transaction ∈ top → ∀ lower ∈ nodes,
    lower.transaction.origin = node.transaction.origin →
    lower.value.category = node.value.category →
    lower.transaction.nonce.toNat < node.transaction.nonce.toNat →
    lower.transaction.hash ∉ avoid → lower.transaction ∈ top

/-- What `topTransactions` with categories returns in this state. -/
def ListsWell (q : TransactionQueue) (limit : Nat) (maxCategory setCategory : Int) : Prop :=
  ∃ top q', TransactionQueue.topTransactions limit maxCategory setCategory q = .ok top q' ∧
    TransactionQueue.InNonceOrder top ∧ OmitsNoLower q.current ∅ top

/-- The pending transactions are in priority order, and the top ones are listed by
nonce and without gaps. -/
structure InPriorityOrder (q : TransactionQueue) : Prop where
  sorted : q.Sorted
  avoiding : ∀ limit avoid,
    TransactionQueue.InNonceOrder (q.topTransactionsAvoiding limit avoid) ∧
      OmitsNoLower q.current avoid (q.topTransactionsAvoiding limit avoid)
  top : ∀ limit maxCategory setCategory, setCategory < 0 →
    ListsWell q limit maxCategory setCategory

def QueueOp.ListsWell (q : TransactionQueue) : QueueOp → Prop
  | .topTransactions limit maxCategory setCategory =>
    Skaled.ListsWell q limit maxCategory setCategory
  | _ => True

namespace TransactionQueue

section Listing

variable {q : TransactionQueue}

/-- The first transactions of a list in nonce order leave no lower nonce out. -/
theorem mem_take_of_lower {ts : List PooledTransaction} (hts : InNonceOrder ts) {limit : Nat}
    {t u : PooledTransaction} (ht : t ∈ ts.take limit) (hu : u ∈ ts) (horigin : u.origin = t.origin)
    (hless : u.nonce.toNat < t.nonce.toNat) : u ∈ ts.take limit := by
  rw [InNonceOrder, ← List.take_append_drop limit ts, List.pairwise_append] at hts
  rw [← List.take_append_drop limit ts, List.mem_append] at hu
  refine hu.resolve_right fun hdrop => ?_
  exact absurd (hts.2.2 t ht u hdrop horigin.symm) (Nat.not_lt.mpr hless.le)

theorem Ordered.inNonceOrder (h : q.Ordered) : InNonceOrder (q.current.map (·.transaction)) :=
  List.pairwise_map.mpr h.nonces

theorem Ordered.avoiding (h : q.Ordered) (limit : Nat) (avoid : Finset H256) :
    InNonceOrder (q.topTransactionsAvoiding limit avoid) ∧
      OmitsNoLower q.current avoid (q.topTransactionsAvoiding limit avoid) := by
  have hfiltered : InNonceOrder
      ((q.current.map (·.transaction)).filter (·.hash ∉ avoid)) :=
    h.inNonceOrder.sublist List.filter_sublist
  refine ⟨hfiltered.sublist (List.take_sublist _ _), ?_⟩
  intro node _ hlisted lower hlower horigin _ hless havoid
  refine mem_take_of_lower hfiltered hlisted ?_ horigin hless
  exact List.mem_filter.mpr ⟨List.mem_map_of_mem hlower, decide_eq_true havoid⟩

theorem Indexed.eq_of_transaction (h : q.Indexed) {x y : QueueNode} (hx : x ∈ q.current)
    (hy : y ∈ q.current) (heq : x.transaction = y.transaction) : x = y :=
  List.inj_on_of_nodup_map h.agree.oneByHash hx hy (congrArg PooledTransaction.hash heq)

theorem Ordered.listsWell (hordered : q.Ordered) (h : q.Indexed) {limit : Nat}
    {maxCategory setCategory : Int} (hfollows : setCategory < 0 ∨ q.FollowsOn limit) :
    ListsWell q limit maxCategory setCategory := by
  obtain ⟨top, q', hrun, hlisted⟩ := topTransactions_run h limit maxCategory setCategory
  refine ⟨top, q', hrun, hlisted.inNonceOrder, ?_⟩
  have hperm := hlisted.listed hordered hfollows
  have hpresent := h.present
  intro node hnode hin lower hlower horigin hcategory hless _
  rw [hperm.mem_iff, List.map_take] at hin ⊢
  -- the listed element is below the category, so the lower one is too
  have hbelow : InNonceOrder ((q.below maxCategory).map (·.transaction)) :=
    List.pairwise_map.mpr (hordered.nonces.sublist (List.dropWhile_sublist _))
  refine mem_take_of_lower hbelow hin (List.mem_map_of_mem ?_) horigin hless
  obtain ⟨same, hsame, heq⟩ := List.mem_map.mp ((List.take_sublist _ _).subset hin)
  obtain rfl := h.eq_of_transaction ((List.dropWhile_sublist _).subset hsame) hnode heq
  have hle := category_below hpresent.real (hordered.byCategory hpresent) hsame
  rw [← above_append_below q maxCategory, List.mem_append] at hlower
  refine hlower.resolve_left fun habove => ?_
  have hgreater := category_above hpresent.real habove
  omega

theorem Ordered.inPriorityOrder (hordered : q.Ordered) (h : q.Indexed) : InPriorityOrder q :=
  ⟨hordered.sorted, hordered.avoiding, fun _ _ _ hset => hordered.listsWell h (.inl hset)⟩

end Listing

/-! ## Runs -/

/-- The queue is in priority order before and after every operation, and what the
operations list is in order too. -/
def InOrderThroughout (q : TransactionQueue) : List QueueOp → Prop
  | [] => InPriorityOrder q
  | op :: ops => InPriorityOrder q ∧ op.ListsWell q ∧ ∃ result q', op.run q = .ok result q' ∧
      InOrderThroughout q' ops

variable {q : TransactionQueue}

theorem inOrderThroughout (h : q.Indexed) (hordered : q.Ordered) {ops : List QueueOp}
    (hkeeps : q.EachStep (fun q op => op.Allowed q ∧ op.KeepsOrder q) ops) :
    q.InOrderThroughout ops := by
  induction ops generalizing q with
  | nil => exact hordered.inPriorityOrder h
  | cons op ops ih =>
    obtain ⟨⟨hallowed, hsafe⟩, hrest⟩ := hkeeps
    obtain ⟨result, q', hrun, hkept, -, hordered'⟩ := run_kept h hallowed
    refine ⟨hordered.inPriorityOrder h, ?_, result, q', hrun,
      ih hkept.indexed (hordered' hordered hsafe) (hrest result q' hrun)⟩
    cases op with
    | topTransactions limit maxCategory setCategory =>
      exact hordered.listsWell h (hsafe.imp_right And.left)
    | importTransaction _ _ _ | setFuture _ | drop _ | dropGood _ | clear => trivial

/-- From the queue as it is constructed, with any limits. -/
theorem initial_inOrderThroughout
    (limit futureLimit currentLimitBytes futureLimitBytes : UInt32) (engine : Nat → Nat)
    (ops : List QueueOp)
    (hkeeps : (initial limit futureLimit currentLimitBytes futureLimitBytes engine).EachStep
      (fun q op => op.Allowed q ∧ op.KeepsOrder q) ops) :
    (initial limit futureLimit currentLimitBytes futureLimitBytes engine).InOrderThroughout ops :=
  inOrderThroughout
    (indexed_cleared (initial limit futureLimit currentLimitBytes futureLimitBytes engine))
    (ordered_of_nil rfl) hkeeps

theorem InOrderThroughout.final {ops : List QueueOp} (h : q.InOrderThroughout ops) :
    ∃ q', runAll ops q = .ok () q' ∧ InPriorityOrder q' := by
  induction ops generalizing q with
  | nil => exact ⟨q, rfl, h⟩
  | cons op ops ih =>
    obtain ⟨-, -, result, q₁, hrun, hrest⟩ := h
    rw [runAll_cons hrun]
    exact ih hrest

instance (a : Address) (n : U256) : Decidable (q.Insertable a n) :=
  inferInstanceAs (Decidable (∀ _ ∈ _, _))

/-- Transactions of two senders. -/
abbrev sampleImports : List QueueOp :=
  [.importTransaction (sampleTransaction 1 (some 5) 5 1) .ignore false,
    .importTransaction (sampleTransaction 2 (some 5) 6 9) .ignore false,
    .importTransaction (sampleTransaction 3 (some 7) 10 5) .ignore false]

/-- Two senders wait, and the top of the queue gets a category of its own. -/
theorem initial_inOrderThroughout_sample :
    sampleQueue.InOrderThroughout
      (sampleImports ++ [.topTransactions 10 0 1]) := by
  refine initial_inOrderThroughout 10 10 1000 1000 (fun _ => 0) _ ⟨⟨.inr ⟨rfl, rfl, by decide⟩,
    .inr (.inr ⟨nofun, by decide⟩)⟩, fun _ q₁ hrun₁ => ?_⟩
  obtain rfl : _ = q₁ := congrArg EStateM.Result.state hrun₁
  refine ⟨⟨.inr ⟨rfl, rfl, by decide +kernel⟩, .inr (.inr ⟨by decide +kernel, by decide⟩)⟩,
    fun _ q₂ hrun₂ => ?_⟩
  obtain rfl : _ = q₂ := congrArg EStateM.Result.state hrun₂
  refine ⟨⟨.inr ⟨rfl, rfl, by decide +kernel⟩, .inr (.inr ⟨by decide +kernel, by decide⟩)⟩,
    fun _ q₃ hrun₃ => ?_⟩
  obtain rfl : _ = q₃ := congrArg EStateM.Result.state hrun₃
  refine ⟨⟨trivial, .inr ⟨?_, by decide, by decide +kernel⟩⟩, fun _ _ _ => trivial⟩
  unfold FollowsOn
  decide +kernel

/-- When the first transaction of a sender is done, the next one moves up to the
height of another sender's transaction that pays less and stays behind it. -/
theorem dropGood_breaks_order :
    ¬ sampleQueue.InOrderThroughout
      (sampleImports ++ [.dropGood (sampleTransaction 1 (some 5) 5 1)]) := by
  intro h
  obtain ⟨q', hrun, hordered⟩ := h.final
  have hbad : ¬ (runAll (sampleImports ++ [.dropGood (sampleTransaction 1 (some 5) 5 1)])
      sampleQueue).state.Sorted := by
    decide +kernel
  rw [hrun] at hbad
  exact hbad hordered.sorted

end TransactionQueue

end Skaled
