import Skaled.Queue.IndexMoves

/-! # Transactions change their category

`topTransactions` takes elements out of `current`, in the order of the multiset,
and puts them back in another category. The indexes do not notice it. The order
stays if the iterator goes on, from an element that was taken out, to the one that
followed it, and if the new category lies between those of the elements in front
and those that stay behind.
-/

namespace Skaled.TransactionQueue

open EStateM (bind_apply bind_ok get_bind set_bind)

section Categories

variable {q : TransactionQueue}

theorem Indexed.rearranged (h : q.Indexed) {nodes : List QueueNode}
    (hkeys : (q.current.map QueueNode.key).Perm (nodes.map QueueNode.key)) (engine : Nat → Nat) :
    (q.rearranged nodes engine).Indexed := by
  have hpending : pending nodes = pending q.current := (pending_of_keys hkeys).symm
  obtain ⟨⟨⟨hnumbered, hhash, hnonce, hempty, hcounted⟩, hstored, hdistinct, hsize, hbytes⟩,
    hknown⟩ := h
  refine ⟨⟨⟨hnumbered.of_keys hkeys, hhash.of_keys hkeys, hnonce.of_keys hkeys, hempty, ?_⟩,
    hstored, ?_, hsize, hbytes⟩, fun hash => ?_⟩
  · exact hcounted.trans (congrArg bytes hpending.symm)
  · change Distinct (pending nodes + q.futures)
    rwa [hpending]
  · change hash ∈ q.known ↔ hash ∈ (pending nodes + q.futures).map (·.hash)
    rw [hpending]
    exact hknown hash

/-- The loop that takes elements out only takes elements out. -/
theorem extract_run (count position : Nat) (q : TransactionQueue) :
    ∃ found rest engine, extract count position q = .ok found (q.rearranged rest engine) ∧
      (found ++ rest).Perm q.current ∧ rest.Sublist q.current := by
  induction count generalizing position q with
  | zero => exact ⟨[], q.current, q.engine, rfl, .refl _, .refl _⟩
  | succ count ih =>
    rw [extract, get_bind]
    cases hnode : q.current[position]? with
    | none => exact ⟨[], q.current, q.engine, rfl, .refl _, .refl _⟩
    | some node =>
      dsimp only
      obtain ⟨found, rest, engine, hrun, hperm, hrest⟩ :=
        ih (if q.engine 0 = 0 then position else q.engine 0 - 1)
          (q.rearranged (q.current.eraseIdx position) fun n => q.engine (n + 1))
      refine ⟨node :: found, rest, engine, ?_, ?_, hrest.trans (List.eraseIdx_sublist _ _)⟩
      · rw [set_bind]
        unfold rearranged at hrun
        rw [bind_apply, hrun]
        rfl
      · obtain ⟨hlt, rfl⟩ := List.getElem?_eq_some_iff.mp hnode
        exact (hperm.cons _).trans (List.getElem_cons_eraseIdx_perm hlt)

/-- The iterator goes on to the element that followed the one taken out. -/
theorem extract_inOrder {count : Nat} {before after : List QueueNode}
    (hcurrent : q.current = before ++ after) (hengine : ∀ n < count, q.engine n = 0) :
    ∃ engine, extract count before.length q =
      .ok (after.take count) (q.rearranged (before ++ after.drop count) engine) := by
  induction count generalizing q after with
  | zero =>
    refine ⟨q.engine, ?_⟩
    rw [List.drop_zero, ← hcurrent]
    rfl
  | succ count ih =>
    rw [extract, get_bind]
    cases after with
    | nil =>
      refine ⟨q.engine, ?_⟩
      rw [List.append_nil] at hcurrent
      rw [hcurrent, List.getElem?_eq_none le_rfl, List.take_nil, List.drop_nil,
        List.append_nil, ← hcurrent]
      rfl
    | cons node after =>
      obtain ⟨engine, hrun⟩ := @ih
        (q.rearranged (before ++ after) fun n => q.engine (n + 1)) after rfl
        fun n hn => hengine (n + 1) (Nat.succ_lt_succ hn)
      refine ⟨engine, ?_⟩
      rw [hcurrent, List.getElem?_append_right le_rfl, Nat.sub_self, List.getElem?_cons_zero]
      dsimp only
      rw [set_bind]
      rw [List.eraseIdx_append_of_length_le le_rfl, Nat.sub_self, List.eraseIdx_cons_zero,
        hengine 0 (Nat.succ_pos _), if_pos rfl, bind_apply]
      unfold rearranged at hrun
      rw [hrun]
      rfl

/-- The category of an element does not matter to the index. -/
theorem Present.of_keys {nodes nodes' : List QueueNode} (h : q.Present nodes)
    (hkeys : (nodes.map QueueNode.key).Perm (nodes'.map QueueNode.key)) : q.Present nodes' := by
  constructor
  · intro node hnode
    obtain ⟨other, hother, heq⟩ :=
      (exists_of_keys hkeys (P := fun key => key.2 = node.transaction)).mpr
        ⟨node, hnode, rfl⟩
    exact heq ▸ h.real other hother
  · intro node hnode
    obtain ⟨other, hother, heq⟩ :=
      (exists_of_keys hkeys (P := fun key => key.2 = node.transaction)).mpr
        ⟨node, hnode, rfl⟩
    exact heq ▸ h.found other hother

/-- An element fits into a category: the others of its sender are in it or on its
right side. -/
def FitsCategory (nodes : List QueueNode) (category : Int) (node : QueueNode) : Prop :=
  ∀ other ∈ nodes, other.transaction.origin = node.transaction.origin →
    (node.transaction.nonce.toNat < other.transaction.nonce.toNat ∧
      other.value.category ≤ category) ∨
    (other.transaction.nonce.toNat < node.transaction.nonce.toNat ∧
      category ≤ other.value.category)

/-- The loop that puts them back in another category. -/
theorem insertNode_forM {found : List QueueNode} (setCategory : Int)
    (hcomparable : Comparable (found ++ q.current)) :
    ∃ nodes engine, found.forM (fun node => insertNode (node.withCategory setCategory)) q =
        .ok () (q.rearranged nodes engine) ∧
      nodes.Perm (found.map (·.withCategory setCategory) ++ q.current) ∧
      (q.Ordered → q.Present (found ++ q.current) → 0 ≤ setCategory →
        found.Pairwise (fun x y =>
          x.transaction.origin = y.transaction.origin →
            x.transaction.nonce.toNat < y.transaction.nonce.toNat) →
        (∀ node ∈ found, FitsCategory q.current setCategory node) →
        (q.rearranged nodes engine).Ordered) := by
  induction found generalizing q with
  | nil => exact ⟨q.current, q.engine, rfl, .refl _, fun hordered _ _ _ _ => hordered⟩
  | cons node found ih =>
    obtain ⟨hnode, hothers⟩ := List.pairwise_cons.mp hcomparable
    obtain ⟨position, hle, hposition, hrun⟩ := insertNode_run (node.withCategory setCategory)
      fun other hother => hnode other (List.mem_append_right _ hother)
    have hperm := List.perm_insertIdx (node.withCategory setCategory) q.current hle
    have hmiddle := (hperm.append_left found).trans List.perm_middle
    have hmoved' : Comparable (node.withCategory setCategory :: (found ++ q.current)) :=
      List.pairwise_cons.mpr ⟨hnode, hothers⟩
    obtain ⟨nodes, engine, hrest, hnodes, hordered⟩ :=
      @ih (q.rearranged (q.current.insertIdx position (node.withCategory setCategory))
          fun n => q.engine (n + 2))
        (hmoved'.perm hmiddle.symm)
    have hmoved : ((node :: found ++ q.current).map QueueNode.key).Perm
        ((found ++ q.current.insertIdx position (node.withCategory setCategory)).map
          QueueNode.key) :=
      (hmiddle.map QueueNode.key).symm
    refine ⟨nodes, engine, ?_, hnodes.trans ((hperm.append_left _).trans List.perm_middle),
      fun hstart hpresent hnonneg hnonces hfits => ?_⟩
    · change (insertNode _ >>= fun _ => found.forM _) q = _
      rw [bind_apply, hrun]
      exact hrest
    · obtain ⟨hfirst, hlater⟩ := List.pairwise_cons.mp hnonces
      obtain rfl := hposition hstart.sorted
      have hcons : q.Present (node.withCategory setCategory :: q.current) :=
        ⟨fun other hother => by
          obtain rfl | hold := List.mem_cons.mp hother
          · exact hpresent.real node List.mem_cons_self
          · exact hpresent.real other (List.mem_append_right _ hold), fun other hother => by
          obtain rfl | hold := List.mem_cons.mp hother
          · exact hpresent.found node List.mem_cons_self
          · exact hpresent.found other (List.mem_append_right _ hold)⟩
      have hstep := hstart.insert (fun n => q.engine (n + 2)) hcons hnonneg
        (hfits node List.mem_cons_self)
      have hpresent' := hpresent.of_keys hmoved
      refine hordered hstep ⟨hpresent'.real, hpresent'.found⟩ hnonneg hlater
        fun next hnext other hother horigin => ?_
      obtain rfl | hold := List.mem_cons.mp (hperm.mem_iff.mp hother)
      · exact .inr ⟨hfirst next hnext horigin, le_rfl⟩
      · exact hfits next (List.mem_cons_of_mem _ hnext) other hold horigin

/-! ## The elements below a category -/

def NotBelow (x y : QueueNode) : Prop := y.value.category ≤ x.value.category

instance : Trans NotBelow NotBelow NotBelow := ⟨fun hxy hyz => Int.le_trans hyz hxy⟩

/-- Elements of higher categories come first. -/
def ByCategory (nodes : List QueueNode) : Prop := nodes.Pairwise NotBelow

theorem notBelow_of_less {x y : QueueNode} (hx : x.transaction.isReal = true)
    (hy : y.transaction.isReal = true) :
    (q.less x.value y.value = true → NotBelow x y) ∧
      (q.less x.value y.value = false → NotBelow y x) := by
  rw [less_iff_rank hx hy, less_eq_false_iff_rank hy hx, rank, rank,
    Prod.Lex.toLex_lt_toLex, Prod.Lex.toLex_le_toLex, NotBelow, NotBelow]
  constructor <;> omega

theorem Ordered.byCategory (h : q.Ordered) (hpresent : q.Present q.current) :
    ByCategory q.current :=
  h.sorted.imp_of_mem fun {x y} hx hy hless =>
    (notBelow_of_less (hpresent.real y hy) (hpresent.real x hx)).2 hless

/-- The elements of the category or lower ones. -/
def below (q : TransactionQueue) (maxCategory : Int) : List QueueNode :=
  q.current.dropWhile fun node => q.less node.value (dummy maxCategory)

/-- The elements of higher categories. -/
def above (q : TransactionQueue) (maxCategory : Int) : List QueueNode :=
  q.current.takeWhile fun node => q.less node.value (dummy maxCategory)

theorem above_append_below (q : TransactionQueue) (maxCategory : Int) :
    q.above maxCategory ++ q.below maxCategory = q.current :=
  List.takeWhile_append_dropWhile

theorem less_dummy {v : VerifiedTransaction} (hreal : v.transaction.isReal = true)
    (maxCategory : Int) : q.less v (dummy maxCategory) = decide (maxCategory < v.category) := by
  rw [less, hreal]
  rfl

variable {maxCategory : Int}

theorem category_above (hreal : ∀ node ∈ q.current, node.transaction.isReal = true)
    {node : QueueNode} (hnode : node ∈ q.above maxCategory) :
    maxCategory < node.value.category := by
  have hless := List.mem_takeWhile_imp hnode
  rw [less_dummy (hreal node ((List.takeWhile_sublist _).subset hnode))] at hless
  exact decide_eq_true_eq.mp hless

theorem category_below (hreal : ∀ node ∈ q.current, node.transaction.isReal = true)
    (hcategory : ByCategory q.current) {node : QueueNode} (hnode : node ∈ q.below maxCategory) :
    node.value.category ≤ maxCategory := by
  have hless := List.eq_false_of_mem_dropWhile (hcategory.imp_of_mem
    fun {x y} hx hy hle hy' => by
      rw [less_dummy (hreal y hy), decide_eq_true_eq] at hy'
      rw [less_dummy (hreal x hx), decide_eq_true_eq]
      exact hy'.trans_le hle) node hnode
  rw [less_dummy (hreal node ((List.dropWhile_sublist _).subset hnode)),
    decide_eq_false_iff_not] at hless
  exact Int.not_lt.mp hless

theorem lowerBound_eq (hreal : ∀ node ∈ q.current, node.transaction.isReal = true)
    (hcategory : ByCategory q.current) (maxCategory : Int) :
    q.lowerBound (dummy maxCategory) = (q.above maxCategory).length := by
  refine if_pos fun node hnode => ?_
  rw [less_dummy (hreal node ((List.dropWhile_sublist _).subset hnode)), decide_eq_false_iff_not]
  exact Int.not_lt.mpr (category_below hreal hcategory hnode)

/-! ## Taking the top -/

/-- When elements are taken out, the iterator goes on to the one that followed. -/
def FollowsOn (q : TransactionQueue) (limit : Nat) : Prop := ∀ n < limit, q.engine (n + 1) = 0

/-- The new category is not below the ones it is for, nor above those in front. -/
def CategoryFits (q : TransactionQueue) (maxCategory setCategory : Int) : Prop :=
  maxCategory ≤ setCategory ∧
    ∀ node ∈ q.current, maxCategory < node.value.category → setCategory ≤ node.value.category

/-- What is left of a queue in order when the top is taken out, and why the top
fits in again. -/
theorem Ordered.withoutTop (h : q.Ordered) (hpresent : q.Present q.current) (limit : Nat)
    {setCategory : Int} (engine : Nat → Nat) (hfits : q.CategoryFits maxCategory setCategory) :
    (q.rearranged (q.above maxCategory ++ (q.below maxCategory).drop limit) engine).Ordered ∧
      ∀ node ∈ (q.below maxCategory).take limit, FitsCategory
        (q.above maxCategory ++ (q.below maxCategory).drop limit) setCategory node := by
  have hsublist : (q.above maxCategory ++ (q.below maxCategory).drop limit).Sublist q.current := by
    rw [← above_append_below q maxCategory]
    exact (List.Sublist.refl _).append (List.drop_sublist limit _)
  have hnonces := h.nonces
  rw [← above_append_below q maxCategory, List.pairwise_append] at hnonces
  obtain ⟨-, hlast, hboth⟩ := hnonces
  rw [← List.take_append_drop limit (q.below maxCategory), List.pairwise_append] at hlast
  constructor
  · refine h.of_sublist hpresent ⟨fun node hnode => hpresent.real node (hsublist.subset hnode),
      fun node hnode => hpresent.found node (hsublist.subset hnode)⟩ hsublist ?_
    exact fun _ _ _ _ _ => rfl
  · intro node hnode other hother horigin
    obtain hin | hin := List.mem_append.mp hother
    · refine .inr ⟨hboth other hin node ((List.take_sublist limit _).subset hnode) horigin, ?_⟩
      exact hfits.2 other ((List.takeWhile_sublist _).subset hin) (category_above hpresent.real hin)
    · refine .inl ⟨hlast.2.2 node hnode other hin horigin.symm, ?_⟩
      have hbelow := (List.drop_sublist limit _).subset hin
      exact (category_below hpresent.real (h.byCategory hpresent) hbelow).trans hfits.1

/-- What `topTransactions_WITH_LOCK` does up to the sorting. -/
structure TookTop (limit : Nat) (maxCategory setCategory : Int) (q : TransactionQueue)
    (top : List PooledTransaction) (q' : TransactionQueue) : Prop where
  listed : ByCategory q.current → setCategory < 0 ∨ q.FollowsOn limit →
    top = ((q.below maxCategory).take limit).map (·.transaction)
  moved : ByCategory q.current → 0 ≤ setCategory → q.FollowsOn limit →
    q'.current.Perm (((q.below maxCategory).take limit).map (·.withCategory setCategory) ++
      (q.above maxCategory ++ (q.below maxCategory).drop limit))
  ordered : q.Present q.current → q.Ordered →
    setCategory < 0 ∨ q.FollowsOn limit ∧ q.CategoryFits maxCategory setCategory → q'.Ordered

theorem takeTop_run (hcomparable : Comparable q.current)
    (hreal : ∀ node ∈ q.current, node.transaction.isReal = true) (limit : Nat)
    (maxCategory setCategory : Int) :
    ∃ top nodes engine, takeTop limit maxCategory setCategory q =
        .ok top (q.rearranged nodes engine) ∧
      (q.current.map QueueNode.key).Perm (nodes.map QueueNode.key) ∧
      (↑top : Multiset PooledTransaction) ≤ pending q.current ∧
      TookTop limit maxCategory setCategory q top (q.rearranged nodes engine) := by
  rw [takeTop, get_bind]
  rw [set_bind]
  split
  next hset =>
    obtain ⟨found, rest, engine, hextract, hperm, -⟩ := extract_run limit
      (q.lowerBound (dummy maxCategory)) (q.rearranged q.current fun n => q.engine (n + 1))
    obtain ⟨nodes, engine', hinsert, hnodes, hordered⟩ :=
      insertNode_forM (q := q.rearranged rest engine) setCategory (hcomparable.perm hperm.symm)
    have hkeys : (nodes.map QueueNode.key).Perm ((found ++ rest).map QueueNode.key) := by
      have hmapped := hnodes.map QueueNode.key
      rw [List.map_append, List.map_map] at hmapped
      rw [List.map_append]
      exact hmapped
    -- with the iterator going on as it should, the loop takes what is at the top
    have hinOrder : ByCategory q.current → q.FollowsOn limit →
        found = (q.below maxCategory).take limit ∧
          rest = q.above maxCategory ++ (q.below maxCategory).drop limit := by
      intro hstart hfollows
      obtain ⟨engine₁, hextract₁⟩ := extract_inOrder
        (q := q.rearranged q.current fun n => q.engine (n + 1))
        (above_append_below q maxCategory).symm hfollows
      rw [lowerBound_eq hreal hstart, hextract₁] at hextract
      cases hextract
      exact ⟨rfl, rfl⟩
    refine ⟨found.map (·.transaction), nodes, engine', ?_, ?_, ?_, ?_, ?_, ?_⟩
    · unfold rearranged at hextract
      rw [bind_ok hextract]
      unfold rearranged at hinsert
      rw [bind_apply, hinsert]
      rfl
    · exact (hkeys.trans (hperm.map _)).symm
    · have hpending : pending (found ++ rest) = pending q.current :=
        pending_of_keys (hperm.map _)
      rw [← hpending]
      exact pending_le_of_sublist (List.sublist_append_left found rest)
    · intro hstart hfollows
      rw [(hinOrder hstart (hfollows.resolve_left (Int.not_lt.mpr hset))).1]
    · intro hstart _ hfollows
      obtain ⟨rfl, rfl⟩ := hinOrder hstart hfollows
      exact hnodes
    · intro hpresent hstart hfits
      obtain ⟨hfollows, hcategory⟩ := hfits.resolve_left (Int.not_lt.mpr hset)
      obtain ⟨rfl, rfl⟩ := hinOrder (hstart.byCategory hpresent) hfollows
      obtain ⟨hrest, hfit⟩ := hstart.withoutTop hpresent limit engine hcategory
      have hboth : q.Present ((q.below maxCategory).take limit ++
          (q.above maxCategory ++ (q.below maxCategory).drop limit)) :=
        ⟨fun node hnode => hpresent.real node (hperm.mem_iff.mp hnode),
          fun node hnode => hpresent.found node (hperm.mem_iff.mp hnode)⟩
      have hsublist : ((q.below maxCategory).take limit).Sublist q.current :=
        (List.take_sublist limit _).trans (List.dropWhile_sublist _)
      exact (hordered hrest ⟨hboth.real, hboth.found⟩ hset (hstart.nonces.sublist hsublist)
        hfit).congr ⟨rfl, rfl⟩
  next hset =>
    refine ⟨_, q.current, _, rfl, .refl _, ?_, fun hstart _ => ?_,
      fun _ hnonneg => absurd hnonneg hset, fun _ hstart _ => hstart.congr ⟨rfl, rfl⟩⟩
    · exact pending_le_of_sublist ((List.take_sublist _ _).trans (List.drop_sublist _ _))
    · rw [lowerBound_eq hreal hstart]
      nth_rewrite 1 [← above_append_below q maxCategory]
      rw [List.drop_left]

/-! ## Sorting the result -/

def InNonceOrder (top : List PooledTransaction) : Prop :=
  top.Pairwise fun x y => x.origin = y.origin → x.nonce.toNat < y.nonce.toNat

/-- The order of the sort: what stands for no transaction comes first. -/
theorem not_less_iff (x y : PooledTransaction) : (!q.less ⟨y, 0⟩ ⟨x, 0⟩) = true ↔
    x.isReal = false ∨ y.isReal = true ∧ q.rank ⟨x, 0⟩ ≤ q.rank ⟨y, 0⟩ := by
  rw [Bool.not_eq_true']
  cases hx : x.isReal with
  | false => cases hy : y.isReal <;> simp [less, hx, hy]
  | true =>
    cases hy : y.isReal with
    | false => simp [less, hx, hy]
    | true =>
      rw [less_eq_false_iff_rank (by exact hx) (by exact hy)]
      simp

theorem stableSort_pairwise (q : TransactionQueue) (top : List PooledTransaction) :
    (q.stableSort top).Pairwise fun x y =>
      x.isReal = false ∨ y.isReal = true ∧ q.rank ⟨x, 0⟩ ≤ q.rank ⟨y, 0⟩ := by
  have hsorted : (q.stableSort top).Pairwise fun x y => (!q.less ⟨y, 0⟩ ⟨x, 0⟩) = true := by
    apply List.pairwise_mergeSort
    · intro x y z hxy hyz
      rw [not_less_iff] at hxy hyz ⊢
      obtain hx | ⟨hy, hle⟩ := hxy
      · exact .inl hx
      · obtain hy' | ⟨hz, hle'⟩ := hyz
        · rw [hy] at hy'
          cases hy'
        · exact .inr ⟨hz, hle.trans hle'⟩
    · intro x y
      rw [Bool.or_eq_true, not_less_iff, not_less_iff]
      cases hx : x.isReal with
      | false => exact .inl (.inl rfl)
      | true =>
        cases hy : y.isReal with
        | false => exact .inr (.inl rfl)
        | true => exact (le_total _ _).imp (fun h => .inr ⟨rfl, h⟩) fun h => .inr ⟨rfl, h⟩
  exact hsorted.imp fun {x y} h => (not_less_iff x y).mp h

theorem inNonceOrder_stableSort {top : List PooledTransaction} (hreal : ∀ t ∈ top, t.isReal = true)
    (hfound : ∀ t ∈ top, (q.currentByAddressAndNonce.find t.origin t.nonce).isSome = true)
    (hplaces : (top.map fun t => (t.origin, t.nonce)).Nodup) : InNonceOrder (q.stableSort top) := by
  have hperm : (q.stableSort top).Perm top := List.mergeSort_perm _ _
  have hplaces' := (hperm.map fun t => (t.origin, t.nonce)).nodup_iff.mpr hplaces
  refine ((stableSort_pairwise q top).and (List.pairwise_map.mp hplaces')).imp_of_mem
    fun {x y} hx hy ⟨hle, hne⟩ horigin => ?_
  have hx := hperm.mem_iff.mp hx
  have hy := hperm.mem_iff.mp hy
  obtain hno | ⟨-, hle⟩ := hle
  · rw [hreal x hx] at hno
    cases hno
  · obtain hless | heq | hgreater := Nat.lt_trichotomy x.nonce.toNat y.nonce.toNat
    · exact hless
    · exact absurd (Prod.ext horigin (BitVec.eq_of_toNat_eq heq)) hne
    · have hlt : q.rank ⟨y, 0⟩ < q.rank ⟨x, 0⟩ :=
        rank_lt_of_nonce (hfound y hy) (hfound x hx) horigin.symm hgreater (le_refl 0)
      exact absurd hle hlt.not_ge

structure ListedTop (limit : Nat) (maxCategory setCategory : Int) (q : TransactionQueue)
    (top : List PooledTransaction) (q' : TransactionQueue) : Prop where
  indexed : q'.Indexed
  shrinks : Shrinks q q'
  inNonceOrder : InNonceOrder top
  listed : q.Ordered → setCategory < 0 ∨ q.FollowsOn limit →
    top.Perm (((q.below maxCategory).take limit).map (·.transaction))
  ordered : q.Ordered →
    setCategory < 0 ∨ q.FollowsOn limit ∧ q.CategoryFits maxCategory setCategory → q'.Ordered

/-- The sorting compares elements only if there are two. -/
theorem topTransactions_eq {limit : Nat} {setCategory : Int} {top : List PooledTransaction}
    {q' : TransactionQueue} (hsenders : 2 ≤ q.current.length →
      ∀ node ∈ q.current, node.transaction.sender.isSome = true)
    (hrun : takeTop limit maxCategory setCategory q = .ok top q')
    (htop : (↑top : Multiset PooledTransaction) ≤ pending q.current) :
    topTransactions limit maxCategory setCategory q = .ok (q'.stableSort top) q' := by
  have hthrows : ¬ (2 ≤ top.length ∧
      (top.any fun x => top.any fun y => lessThrows ⟨x, 0⟩ ⟨y, 0⟩) = true ∧
      q'.engine 0 % 2 = 1) := by
    rintro ⟨hlong, hany, -⟩
    have hcard := Multiset.card_le_card htop
    rw [Multiset.coe_card, pending, Multiset.coe_card, List.length_map] at hcard
    have hsender : ∀ x ∈ top, x.sender.isSome = true := by
      intro x hx
      obtain ⟨node, hnode, rfl⟩ := mem_pending.mp (Multiset.mem_of_le htop hx)
      exact hsenders (hlong.trans hcard) node hnode
    obtain ⟨x, hx, hany⟩ := List.any_eq_true.mp hany
    obtain ⟨y, hy, hbad⟩ := List.any_eq_true.mp hany
    rw [lessThrows_eq_false (hsender x hx) (hsender y hy)] at hbad
    cases hbad
  rw [topTransactions, bind_ok hrun]
  rw [get_bind]
  rw [if_neg hthrows]
  rfl

theorem topTransactions_run (h : q.Indexed) (limit : Nat) (maxCategory setCategory : Int) :
    ∃ top q', topTransactions limit maxCategory setCategory q = .ok top q' ∧
      ListedTop limit maxCategory setCategory q top q' := by
  have hcurrent : Distinct (pending q.current) := h.distinct.mono (Multiset.le_add_right _ _)
  have hpresent := h.present
  have hsenders : 2 ≤ q.current.length →
      ∀ node ∈ q.current, node.transaction.sender.isSome = true :=
    fun _ node hnode => hcurrent.senders _ (mem_pending.mpr ⟨node, hnode, rfl⟩)
  obtain ⟨top, nodes, engine, hrun, hkeys, htop, htook⟩ := takeTop_run
    (comparable_of_senders hsenders) hpresent.real limit maxCategory setCategory
  have hdistinct := hcurrent.mono htop
  have hsorted : InNonceOrder ((q.rearranged nodes engine).stableSort top) := by
    refine inNonceOrder_stableSort (fun t ht =>
      isReal_of_sender (hdistinct.senders t ht) (hdistinct.valid t ht)) (fun t ht => ?_) ?_
    · obtain ⟨node, hnode, rfl⟩ := mem_pending.mp (Multiset.mem_of_le htop ht)
      exact hpresent.found node hnode
    · have hplaces := hdistinct.places
      rwa [Multiset.map_coe, Multiset.coe_nodup] at hplaces
  refine ⟨_, q.rearranged nodes engine, topTransactions_eq hsenders hrun htop,
    h.rearranged hkeys engine, ⟨(pending_of_keys hkeys).ge, le_rfl, rfl, rfl, rfl, rfl⟩, hsorted,
    fun hordered hfollows => ?_, htook.ordered hpresent⟩
  rw [← htook.listed (hordered.byCategory hpresent) hfollows]
  exact List.mergeSort_perm _ _

end Categories

end Skaled.TransactionQueue
