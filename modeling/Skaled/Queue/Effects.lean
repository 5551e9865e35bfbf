import Skaled.Queue.IndexRuns

/-! # What imports and drops leave behind

An import that fails should leave the queue as it was, and one that succeeds
should bring its transaction in. `import` however takes a future transaction of the
same sender and nonce out before it looks at the hash, and the limits may push out
the very transaction that was added. `drop` reaches the pending transactions only:
a future one stays, and stays known.
-/

namespace Skaled

open EStateM (bind_apply bind_eq_ok get_bind modify_bind)

/-- What an operation promises. An import that fails changes nothing but the order
of the dropped hashes. -/
def QueueOp.TakesEffect (q : TransactionQueue) : QueueOp → Prop
  | .importTransaction t ik isFuture => ∃ result q',
      TransactionQueue.importTransaction t ik isFuture q = .ok result q' ∧
        (result ≠ .success → ∃ dropped, q' = { q with dropped }) ∧
        (result = .success → t.hash ∈ q'.known)
  | .drop h => h ∈ q.known → ∃ q', TransactionQueue.drop h q = .ok () q' ∧ h ∉ q'.known ∧
      ∀ t isFuture result q'', t.hash = h →
        TransactionQueue.importTransaction t .ignore isFuture q' = .ok result q'' →
        result ≠ .success
  | _ => True

/-- An import that replaces no future transaction in vain and finds room; a drop
that is not for a future transaction. -/
def QueueOp.Effective (q : TransactionQueue) : QueueOp → Prop
  | .importTransaction t ik isFuture => q.Replaces t ik ∧ q.Room t isFuture
  | .drop h => ∀ u ∈ q.futures, u.hash ≠ h
  | _ => True

namespace TransactionQueue

variable {q : TransactionQueue}

theorem mem_noteDropped (h : H256) (dropped : List H256) : h ∈ noteDropped h dropped := by
  unfold noteDropped
  split
  next => exact List.mem_cons_self
  next => split <;> exact List.mem_cons_self

theorem takeFuture_dropped {a : Address} {nonce : U256} {q' : TransactionQueue}
    (hrun : takeFuture a nonce q = .ok () q') : q'.dropped = q.dropped := by
  rw [takeFuture, get_bind] at hrun
  cases hfind : q.future.find a nonce with
  | none | some v =>
    rw [hfind] at hrun
    cases hrun
    rfl

/-- A dropped transaction is not imported again. -/
theorem import_of_dropped {t : PooledTransaction} (hdropped : t.hash ∈ q.dropped)
    {isFuture : Bool} {result : ImportResult} {q' : TransactionQueue}
    (hrun : importTransaction t .ignore isFuture q = .ok result q') : result ≠ .success := by
  rw [importTransaction] at hrun
  split at hrun
  next =>
    cases hrun
    decide
  next =>
    obtain ⟨_, q₁, htake, hrun⟩ := bind_eq_ok.mp hrun
    obtain ⟨checked, q₂, hcheck, hrun⟩ := bind_eq_ok.mp hrun
    obtain ⟨checked', dropped, hcheck', -, hwhy⟩ := check_run q₁ t.hash .ignore
    rw [hcheck'] at hcheck
    cases hcheck
    have hrefused := hwhy.mpr (.inr ⟨takeFuture_dropped htake ▸ hdropped, rfl⟩)
    cases checked <;> first | exact absurd rfl hrefused | (cases hrun; decide)

theorem drop_forgets (h : q.Indexed) {hash : H256} (hcurrent : ∀ u ∈ q.futures, u.hash ≠ hash)
    (hknown : hash ∈ q.known) : ∃ q', drop hash q = .ok () q' ∧ hash ∉ q'.known ∧
      hash ∈ q'.dropped := by
  obtain ⟨u, hu, rfl⟩ := Multiset.mem_map.mp ((h.known hash).mp hknown)
  obtain ⟨node, hnode, rfl⟩ := mem_pending.mp
    ((Multiset.mem_add.mp hu).resolve_right fun hfuture => hcurrent u hfuture rfl)
  have hremove := remove_run (h.withDropped
    (noteDropped node.transaction.hash q.dropped)).linked hnode
  refine ⟨removed { q with dropped := noteDropped node.transaction.hash q.dropped } node,
    ?_, Finset.notMem_erase _ _, mem_noteDropped _ q.dropped⟩
  rw [TransactionQueue.drop, get_bind, if_pos hknown, modify_bind, bind_apply, hremove]
  rfl

theorem takesEffect (h : q.Indexed) {op : QueueOp} (hallowed : op.Allowed q)
    (heffective : op.Effective q) : op.TakesEffect q := by
  cases op with
  | importTransaction t ik isFuture =>
    obtain ⟨result, q', hrun, himported⟩ := importTransaction_run h ik isFuture
      (hallowed.imp_right fun ⟨hvalid, hsender, hbytes⟩ => ⟨hsender, hvalid, hbytes⟩)
    exact ⟨result, q', hrun, himported.refused heffective.1, himported.taken heffective.2⟩
  | drop hash =>
    intro hknown
    obtain ⟨q', hrun, hforgotten, hdropped⟩ := drop_forgets h heffective hknown
    refine ⟨q', hrun, hforgotten, fun t isFuture result q'' hhash hagain => ?_⟩
    exact import_of_dropped (hhash ▸ hdropped) hagain
  | setFuture _ | dropGood _ | topTransactions _ _ _ | clear => trivial

/-! ## Runs -/

theorem eachStep_takesEffect (h : q.Indexed) {ops : List QueueOp}
    (heffective : q.EachStep (fun q op => op.Allowed q ∧ op.Effective q) ops) :
    q.EachStep QueueOp.TakesEffect ops := by
  induction ops generalizing q with
  | nil => trivial
  | cons op ops ih =>
    obtain ⟨⟨hallowed, hop⟩, hrest⟩ := heffective
    refine ⟨takesEffect h hallowed hop, fun result q' hrun => ?_⟩
    obtain ⟨result', q₁, hrun₁, hkept, -⟩ := run_kept h hallowed
    rw [hrun₁] at hrun
    cases hrun
    exact ih hkept.indexed (hrest _ _ hrun₁)

/-- From the queue as it is constructed, with any limits. -/
theorem initial_takesEffect
    (limit futureLimit currentLimitBytes futureLimitBytes : UInt32) (engine : Nat → Nat)
    (ops : List QueueOp)
    (heffective : (initial limit futureLimit currentLimitBytes futureLimitBytes engine).EachStep
      (fun q op => op.Allowed q ∧ op.Effective q) ops) :
    (initial limit futureLimit currentLimitBytes futureLimitBytes engine).EachStep
      QueueOp.TakesEffect ops :=
  eachStep_takesEffect
    (indexed_cleared (initial limit futureLimit currentLimitBytes futureLimitBytes engine))
    heffective

theorem initial_takesEffect_sample :
    sampleQueue.EachStep QueueOp.TakesEffect
      [.importTransaction (sampleTransaction 1 (some 5) 3 7) .ignore false, .drop 1] := by
  refine initial_takesEffect 10 10 1000 1000 (fun _ => 0) _
    ⟨⟨.inr ⟨rfl, rfl, by decide⟩, ?_, by decide, by decide, by simp⟩, fun _ q₁ hrun => ?_⟩
  · intro v hfind
    cases hfind
  obtain rfl : _ = q₁ := congrArg EStateM.Result.state hrun
  refine ⟨⟨trivial, ?_⟩, fun _ _ _ => trivial⟩
  change ∀ u ∈ futures _, u.hash ≠ 1
  decide +kernel

/-- A future transaction that is dropped stays known. -/
theorem drop_keeps_future :
    ¬ sampleQueue.EachStep QueueOp.TakesEffect
      [.importTransaction (sampleTransaction 1 (some 5) 3 7) .ignore true, .drop 1] := by
  intro h
  obtain ⟨result, q₁, hrun⟩ : ∃ result q₁, QueueOp.run
      (.importTransaction (sampleTransaction 1 (some 5) 3 7) .ignore true)
      sampleQueue = .ok result q₁ := ⟨_, _, rfl⟩
  obtain rfl : _ = q₁ := congrArg EStateM.Result.state hrun
  obtain ⟨q', hdrop, hforgotten, -⟩ := (h.2 result _ hrun).1 (by decide +kernel)
  obtain rfl : _ = q' := congrArg EStateM.Result.state hdrop
  exact hforgotten (by decide +kernel)

end TransactionQueue

end Skaled
