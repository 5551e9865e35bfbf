import Skaled.Block.Inclusion
import Skaled.Evm.Rounds
import Skaled.State.Programs

/-! # Going on with a block after a crash

Every executed transaction of a block is committed on its own, with its hash and
the receipts so far. After a crash in the middle of a block the same list comes
again, and what was executed already is taken from the receipts.

The number of transactions that is returned in the end is not the one of a run
without the crash. The transactions that were executed before the crash are
counted twice: once with their receipts and once by the caller.
-/

namespace Skaled

open EStateM (bind_apply bind_eq_ok get_apply throw_apply)

variable {env : EnvInfo} {machine : Machine} {e : Executive} {s s' : State} {gasPrice : U256}
  {active : Bool} {t : Transaction} {transactions : List Transaction}

/-! ## The hash that is saved -/

namespace State

abbrev KeepsLastHash {α : Type} (hash : H256) (x : M α) : Prop :=
  EStateM.Invariant (·.db.getLastExecutedTransactionHash = hash) x

/-! A removal from the store and a write to it do not touch the hash. -/

@[simp] theorem getLastExecutedTransactionHash_kill (db : OverlayDB) (a : Address) :
    (db.kill a).getLastExecutedTransactionHash = db.getLastExecutedTransactionHash := by
  unfold OverlayDB.kill
  split
  next => rfl
  next => split <;> rfl

@[simp] theorem getLastExecutedTransactionHash_killAuxiliary (db : OverlayDB) (a : Address) :
    (db.killAuxiliary a).getLastExecutedTransactionHash = db.getLastExecutedTransactionHash := by
  unfold OverlayDB.killAuxiliary
  split
  next => rfl
  next => split <;> rfl

theorem getLastExecutedTransactionHash_insertSlots (a : Address)
    (slots : List (Σ _ : U256, U256)) (db : OverlayDB) :
    (slots.foldl (fun db slot => db.insertStorage a slot.1 slot.2)
      db).getLastExecutedTransactionHash = db.getLastExecutedTransactionHash := by
  induction slots generalizing db with
  | nil => rfl
  | cons slot rest ih =>
    rw [List.foldl_cons, ih]
    rfl

section

variable [Keccak] {hash : H256}

theorem lastHash_kept : Kept (fun _ => True) (·.db.getLastExecutedTransactionHash = hash) where
  within := fun h hwithin =>
    (congrArg (·.db.getLastExecutedTransactionHash) hwithin.shared).trans h
  absent := fun h _ _ _ => h
  found := fun h _ _ _ => h
  cachedSlot := fun _ h _ _ => h
  cachedCode := fun h _ _ => h
  logged := fun _ _ => logged_of (fun _ => trivial) (fun _ _ => trivial) _

theorem keepsLastHash_clearSlot (a : Address) (slot : U256 × U256) :
    KeepsLastHash hash (clearSlot a slot) :=
  .bind (.bind (.modify fun _ h => h) fun _ => .get_bind fun _ _ =>
    .bind (.modify fun _ h => h) fun _ => .modify fun _ h => h) fun _ => .modify fun _ h => h

theorem keepsLastHash_clearStorage (a : Address) : KeepsLastHash hash (clearStorage a) := by
  refine lastHash_kept.field (.throw _) fun acc => ?_
  refine .bind (.modify fun _ h => h) fun _ => .get_bind fun _ _ => .ite (.pure _) ?_
  refine .bind (Kept.storageWithoutLock a) fun _ => .bind ?_ fun _ => .modify fun _ h => h
  exact EStateM.Triple.forM fun _ _ => keepsLastHash_clearSlot _ _

theorem keepsLastHash_commitAccount (P : Patches) (a : Address) (acc : Account) :
    KeepsLastHash hash (commitAccount P a acc) := by
  refine .ite (.ite ?_ ?_) (.pure _)
  · refine .bind (.modify fun s h => by simpa using h) fun _ => ?_
    exact .ite (keepsLastHash_clearStorage a) (.pure _)
  · cases acc.encode with
    | none => exact .throw _
    | some record =>
      refine .modify fun s h => .trans ?_ h
      dsimp only
      split
      next => exact getLastExecutedTransactionHash_insertSlots a _ _
      next => exact getLastExecutedTransactionHash_insertSlots a _ _

theorem commit_keep_lastHash {P : Patches} {u : Unit}
    (hrun : commit P .keepEmptyAccounts s = .ok u s') :
    s'.db.disk.lastExecutedTransactionHash = s.db.getLastExecutedTransactionHash := by
  unfold commit at hrun
  simp only [bind_apply, get_apply, reduceCtorEq, if_false] at hrun
  cases hlock : s.writeLock with
  | false => simp [hlock, bind_apply, throw_apply] at hrun
  | true =>
    cases hversion : s.checkVersion with
    | false =>
      simp [hlock, hversion, bind_apply, get_apply, throw_apply] at hrun
    | true =>
      simp only [hlock, hversion, Bool.true_eq_false, if_false, bind_apply,
        get_apply] at hrun
      cases hloop : (s.cache.entries.forM fun entry => commitAccount P entry.1 entry.2) s with
      | error failure s₁ => simp [hloop] at hrun
      | ok u s₁ =>
        simp only [hloop] at hrun
        have hkeeps : KeepsLastHash s.db.getLastExecutedTransactionHash
            (s.cache.entries.forM fun entry => commitAccount P entry.1 entry.2) :=
          EStateM.Triple.forM fun entry _ => keepsLastHash_commitAccount P entry.1 entry.2
        rw [← (EStateM.Result.ok.inj hrun).2]
        exact hkeeps.ok rfl hloop

theorem commit_lastHash {P : Patches} {behaviour : CommitBehaviour} {u : Unit}
    (hrun : commit P behaviour s = .ok u s') :
    s'.db.disk.lastExecutedTransactionHash = s.db.getLastExecutedTransactionHash := by
  cases behaviour with
  | removeEmptyAccounts =>
    rw [commit_removeEmptyAccounts] at hrun
    have hkeep := commit_keep_lastHash hrun
    exact hkeep
  | keepEmptyAccounts => exact commit_keep_lastHash hrun

end

variable [Keccak]

/-- A transaction that was executed and committed is the last one on disk. -/
theorem execute_lastHash (hrun : execute env machine t .committed s = .ok e s') :
    s'.db.disk.lastExecutedTransactionHash = t.hash := by
  obtain ⟨⟨e₁, statusCode⟩, s₁, _, hclose⟩ := bind_eq_ok.mp hrun
  obtain ⟨_, s₂, hcommitted, hpure⟩ := bind_eq_ok.mp hclose
  obtain ⟨_, s₃, _, hrest⟩ := bind_eq_ok.mp hcommitted
  obtain ⟨_, s₄, hmodify, hcommit⟩ := bind_eq_ok.mp hrest
  rw [← (EStateM.Result.ok.inj hpure).2, commit_lastHash hcommit,
    ← (EStateM.Result.ok.inj hmodify).2]
  rfl

end State

/-! ## Executed transactions use gas -/

section

/-- Every transaction has to pay for something. -/
def EVMSchedule.Charges (schedule : EVMSchedule) : Prop :=
  0 < schedule.txGas ∧ 0 < schedule.txCreateGas

theorem Transaction.baseGasRequired_pos {schedule : EVMSchedule} (hcharges : schedule.Charges)
    (t : Transaction) : 0 < t.baseGasRequired schedule := by
  have hfold : ∀ (data : Bytes) (g : Nat), g ≤ data.foldl
      (fun g byte => g + if byte ≠ 0 then schedule.txDataNonZeroGas else schedule.txDataZeroGas)
      g := by
    intro data
    induction data with
    | nil => exact fun g => Nat.le_refl g
    | cons byte rest ih => exact fun g => Nat.le_trans (Nat.le_add_right g _) (ih _)
  refine Nat.lt_of_lt_of_le ?_ (hfold t.data _)
  split
  next => exact hcharges.2
  next => exact hcharges.1

theorem State.gasUsedForSkippedTransaction_pos {chainId gasUsed : Nat} {hash : H256}
    (hskip : gasUsedForSkippedTransaction chainId hash = some gasUsed) :
    0 < gasUsed ∧ gasUsed < 2 ^ 256 := by
  have hall : ∀ entry ∈ txnsToSkipExecution, 0 < entry.2 ∧ entry.2 < 2 ^ 256 := by decide
  obtain ⟨before, after, hlist, _⟩ := List.lookup_eq_some_iff.mp hskip
  exact hall ((chainId, hash), gasUsed) (by simp [hlist])

variable [Keccak]

theorem State.gasUsedBy_ne_zero (hmachine : machine.Frugal) (hcharges : env.evmSchedule.Charges)
    (hrun : State.execute env machine t .committed s = .ok e s') : State.gasUsedBy env t e ≠ 0 := by
  unfold State.gasUsedBy
  cases hskip : State.gasUsedForSkippedTransaction env.chainParams.chainID t.hash with
  | some gasUsed =>
    obtain ⟨hpos, hlt⟩ := State.gasUsedForSkippedTransaction_pos hskip
    intro hzero
    have htoNat := congrArg BitVec.toNat hzero
    rw [BitVec.toNat_ofNat, Nat.mod_eq_of_lt hlt] at htoNat
    exact absurd htoNat (by simpa using hpos.ne')
  | none =>
    have hgas := State.execute_gas hmachine (t.baseGasRequired_pos hcharges)
      (by rw [State.ifShouldSkipExecution, hskip]; rfl) hrun
    intro hzero
    rw [Executive.gasUsed, BitVec.sub_eq_iff_eq_add, zero_add] at hzero
    rw [hzero] at hgas
    exact BitVec.lt_irrefl _ hgas

/-- Whatever code runs, a transaction that is executed uses gas. -/
theorem State.execute_uses_gas (config : VMConfig) (block : BlockWords)
    (charging : { schedule : EVMSchedule // schedule.Charges })
    (current : { schedule // schedule ∈ VMSchedule.standard }) :
    EStateM.Returns (State.gasUsedBy { env with evmSchedule := charging } t · ≠ 0)
      (State.execute { env with evmSchedule := charging }
        (machine.running (LegacyVM.exec config block current.1.forVersion)) t .committed) := by
  have hfrugal := LegacyVM.exec_frugal machine config block current.2
  exact fun _ _ _ => State.gasUsedBy_ne_zero hfrugal charging.2

theorem Block.attempt_executed_spec {receipt : TransactionReceipt} {used : U256}
    (hattempt : Block.attempt env machine s t = .executed receipt used s') :
    s'.db.disk.lastExecutedTransactionHash = t.hash ∧
      (machine.Frugal → env.evmSchedule.Charges → used ≠ 0) := by
  unfold Block.attempt at hattempt
  split at hattempt
  next => simp at hattempt
  next =>
    split at hattempt
    next e s₁ hrun =>
      obtain ⟨rfl, rfl, rfl⟩ := Attempt.executed.inj hattempt
      refine ⟨?_, fun hmachine hcharges => State.gasUsedBy_ne_zero hmachine hcharges hrun⟩
      rw [← State.execute_lastHash hrun]
      unfold State.createStateModifyCopyAndPassLock
      split <;> rfl
    next => split at hattempt <;> simp at hattempt

end

/-! ## Counting bad transactions

The number of bad transactions can be read off the block. With the patch the
transactions that are too cheap are counted, without it those whose receipt
repeats the gas of the one before. -/

def repeats : U256 → List TransactionReceipt → Nat
  | _, [] => 0
  | gasUsed, receipt :: rest =>
    (receipt.gasUsed == gasUsed).toNat + repeats receipt.gasUsed rest

theorem repeats_append (gasUsed : U256) (receipts : List TransactionReceipt)
    (receipt : TransactionReceipt) :
    repeats gasUsed (receipts ++ [receipt]) = repeats gasUsed receipts +
      (receipt.gasUsed == (receipts.getLast?.map (·.gasUsed)).getD gasUsed).toNat := by
  induction receipts generalizing gasUsed with
  | nil => simp [repeats]
  | cons head rest ih =>
    rw [List.cons_append, repeats, repeats, ih, Nat.add_assoc]
    cases rest with
    | nil => rfl
    | cons next rest =>
      rw [List.getLast?_cons_cons, List.getLast?_eq_some_getLast (List.cons_ne_nil next rest)]
      rfl

namespace Block

def countBad (active : Bool) (gasPrice : U256) (b : Block) : Nat :=
  if active then b.transactions.countP (·.isTooCheap gasPrice) else repeats 0 b.receipts

theorem countBad_add (active : Bool) (gasPrice : U256) (b : Block) (t : Transaction)
    (receipt : TransactionReceipt) :
    (b.add t receipt).countBad active gasPrice = b.countBad active gasPrice +
      (if active then t.isTooCheap gasPrice else receipt.gasUsed == b.gasUsed).toNat := by
  cases active with
  | true =>
    simp only [countBad, add, if_true, List.countP_append, List.countP_singleton]
    cases t.isTooCheap gasPrice <;> rfl
  | false => exact repeats_append 0 b.receipts receipt

end Block

namespace Sync

variable [Keccak] {sync sync' : Sync} {index : Nat}

/-- The results agree with the block, apart from bad transactions that were not
counted. -/
structure Counts (active : Bool) (gasPrice : U256) (sync : Sync) (uncounted : Nat) : Prop where
  receipts : sync.receipts = sync.block.receipts
  countBad : sync.countBad + uncounted = sync.block.countBad active gasPrice

/-- A transaction that is processed is counted exactly if it is bad. -/
theorem Processed.counts (hmachine : machine.Frugal) (hcharges : env.evmSchedule.Charges)
    {uncounted : Nat} (hcounts : sync.Counts active gasPrice uncounted)
    (h : Processed env machine active gasPrice sync t sync') :
    sync'.Counts active gasPrice uncounted := by
  obtain ⟨hreceipts, hbad⟩ := hcounts
  cases h with
  | unchecked => exact ⟨hreceipts, hbad⟩
  | tooCheap hcheap =>
    cases active with
    | false => exact ⟨hreceipts, hbad⟩
    | true =>
      refine ⟨congrArg (· ++ [nullReceipt env 0]) hreceipts, ?_⟩
      change sync.countBad + 1 + uncounted = (sync.block.add t _).countBad true gasPrice
      rw [Block.countBad_add, if_pos rfl, hcheap, ← hbad, Nat.add_right_comm]
      rfl
  | @executed receipt used state hprice hattempt =>
    refine ⟨congrArg (· ++ [receipt]) hreceipts, ?_⟩
    change sync.countBad + uncounted =
      ({ sync.block with state }.add t receipt).countBad active gasPrice
    rw [Block.countBad_add, hbad]
    have hgood : (if active then t.isTooCheap gasPrice
        else receipt.gasUsed == sync.block.gasUsed) = false := by
      cases active with
      | true =>
        cases hcheap : t.isTooCheap gasPrice with
        | false => rfl
        | true =>
          rw [(Transaction.of_isTooCheap hcheap).2.2] at hprice
          exact absurd hprice (by decide)
      | false =>
        have hgas := (Block.attempt_executed hattempt).2
        have hused := (Block.attempt_executed_spec hattempt).2 hmachine hcharges
        rw [hgas]
        simpa using hused
    rw [show (if active then t.isTooCheap gasPrice else receipt.gasUsed ==
      Block.gasUsed { sync.block with state }) = false from hgood]
    rfl
  | skipped => exact ⟨hreceipts, hbad⟩
  | @kept state hactive =>
    subst hactive
    refine ⟨congrArg (· ++ [nullReceipt env sync.block.gasUsed]) hreceipts, ?_⟩
    change sync.countBad + 1 + uncounted =
      ({ sync.block with state }.add t _).countBad false gasPrice
    rw [Block.countBad_add, Nat.add_right_comm, hbad]
    simp [nullReceipt, Block.gasUsed, Block.countBad]

omit [Keccak] in
/-- A saved receipt is taken over without being counted. -/
theorem Counts.add {uncounted : Nat} (h : sync.Counts active gasPrice uncounted)
    (receipt : TransactionReceipt) :
    ∃ uncounted', (sync.add t receipt).Counts active gasPrice uncounted' := by
  refine ⟨uncounted + (if active then t.isTooCheap gasPrice
      else receipt.gasUsed == sync.block.gasUsed).toNat,
    congrArg (· ++ [receipt]) h.receipts, ?_⟩
  change _ = (sync.block.add t receipt).countBad active gasPrice
  rw [Block.countBad_add, ← h.countBad, Nat.add_assoc]
  rfl

/-- Without a catch-up everything is counted. -/
theorem Counts.processAll (hmachine : machine.Frugal) (hcharges : env.evmSchedule.Charges)
    {catchUp : Option (List Transaction × List TransactionReceipt)} {uncounted : Nat}
    (hcounts : sync.Counts active gasPrice uncounted)
    (hrun : Sync.processAll env machine (.all active) gasPrice catchUp index transactions sync =
      some sync') :
    ∃ uncounted', sync'.Counts active gasPrice uncounted' ∧
      (catchUp = none → uncounted' = uncounted) := by
  induction transactions generalizing index sync uncounted with
  | nil =>
    simp only [Sync.processAll, Option.some.injEq] at hrun
    exact ⟨uncounted, hrun ▸ hcounts, fun _ => rfl⟩
  | cons t rest ih =>
    cases catchUp with
    | none =>
      obtain ⟨next, hstep, hrest⟩ := Option.bind_eq_some_iff.mp hrun
      exact ih ((processed_of_process hstep).counts hmachine hcharges hcounts) hrest
    | some catchUp =>
      obtain ⟨missing, saved⟩ := catchUp
      simp only [Sync.processAll] at hrun
      split at hrun
      next =>
        obtain ⟨next, hstep, hrest⟩ := Option.bind_eq_some_iff.mp hrun
        exact ih ((processed_of_process hstep).counts hmachine hcharges hcounts) hrest
      next =>
        obtain ⟨next, hstep, hrest⟩ := Option.bind_eq_some_iff.mp hrun
        obtain ⟨receipt, _, rfl⟩ := Option.map_eq_some_iff.mp hstep
        obtain ⟨uncounted₁, hnext⟩ := hcounts.add receipt
        obtain ⟨uncounted', hcounts', _⟩ := ih hnext hrest
        exact ⟨uncounted', hcounts', fun heq => by cases heq⟩

end Sync

/-! ## Crashes -/

section

variable [Keccak] (env : EnvInfo) (machine : Machine) (skip : SkipInvalid) (gasPrice : U256)

/-- The program stopped right after the commit of an executed transaction, and
was started again with what is on disk. -/
structure Crash (s : State) (transactions : List Transaction) (restarted : State) : Prop where
  executed : ∃ passed t missing sync receipt used state,
    transactions = passed ++ t :: missing ∧
    Sync.processAll env machine skip gasPrice none 0 passed ⟨⟨startState s, [], []⟩, [], 0⟩ =
      some sync ∧
    (t.isInvalid || t.externalGas.isSome) = true ∧ t.isTooCheap gasPrice = false ∧
    Block.attempt { env with gasUsed := sync.block.gasUsed } machine sync.block.state t =
      .executed receipt used state ∧
    restarted.db = { disk := state.db.disk }

structure SameOutcome (run run' : Block × Nat) : Prop where
  transactions : run'.1.transactions = run.1.transactions
  receipts : run'.1.receipts = run.1.receipts
  accounts : ∀ a, run'.1.state.db.lookup a = run.1.state.db.lookup a
  codes : ∀ a, run'.1.state.db.lookupAuxiliary a = run.1.state.db.lookupAuxiliary a
  storage : ∀ a key, run'.1.state.db.lookupStorage a key = run.1.state.db.lookupStorage a key
  count : run'.2 = run.2

end

section

variable [Keccak] {restarted : State}

theorem syncEveryone_counts (hmachine : machine.Frugal) (hcharges : env.evmSchedule.Charges)
    {vecMissing : Option (List Transaction)} {block : Block} {receipts : List TransactionReceipt}
    {count : Nat}
    (hrun : syncEveryone env machine (.all active) gasPrice s transactions vecMissing =
      some (block, receipts, count)) :
    ∃ uncounted, count = block.receipts.length - (block.countBad active gasPrice - uncounted) ∧
      (vecMissing = none → uncounted = 0) := by
  have hloop : ∃ catchUp state sync,
      Sync.processAll env machine (.all active) gasPrice catchUp 0 transactions
        ⟨⟨state, [], []⟩, [], 0⟩ = some sync ∧
      block = { sync.block with state := sync.block.state.releaseWriteLock } ∧
      count = sync.receipts.length - sync.countBad ∧ (vecMissing = none → catchUp = none) := by
    cases vecMissing with
    | none =>
      obtain ⟨sync, hsync, hblock, _, hcount⟩ := syncEveryone_eq_some hrun
      exact ⟨none, _, sync, hsync, hblock, hcount, fun _ => rfl⟩
    | some missing =>
      simp only [syncEveryone] at hrun
      split at hrun
      next =>
        obtain ⟨⟨catchUp, state⟩, _, hrest⟩ := Option.bind_eq_some_iff.mp hrun
        obtain ⟨sync, hsync, heq⟩ := Option.bind_eq_some_iff.mp hrest
        simp only [Option.some.injEq, Prod.mk.injEq] at heq
        obtain ⟨rfl, rfl, rfl⟩ := heq
        exact ⟨_, _, sync, hsync, rfl, rfl, nofun⟩
      next => simp at hrun
  obtain ⟨catchUp, state, sync, hsync, rfl, rfl, hcatchUp⟩ := hloop
  have hinitial : (⟨⟨state, [], []⟩, [], 0⟩ : Sync).Counts active gasPrice 0 := by
    refine ⟨rfl, ?_⟩
    cases active <;> rfl
  obtain ⟨uncounted, hcounts, hnone⟩ := hinitial.processAll hmachine hcharges hsync
  refine ⟨uncounted, ?_, fun hmissing => hnone (hcatchUp hmissing)⟩
  have hbad : sync.countBad = sync.block.countBad active gasPrice - uncounted := by
    rw [← hcounts.countBad, Nat.add_sub_cancel]
  rw [hcounts.receipts, hbad]
  rfl

/-- Without a catch-up `Block::syncEveryone` returns the number of transactions that are
not bad, whatever code they run. -/
theorem syncEveryone_count (config : VMConfig) (words : BlockWords)
    (charging : { schedule : EVMSchedule // schedule.Charges })
    (current : { schedule // schedule ∈ VMSchedule.standard }) :
    match syncEveryone { env with evmSchedule := charging }
        (machine.running (LegacyVM.exec config words current.1.forVersion))
        (.all active) gasPrice s transactions none with
    | some (block, _, count) => count = block.receipts.length - block.countBad active gasPrice
    | none => True := by
  have hfrugal := LegacyVM.exec_frugal machine config words current.2
  split
  next hrun =>
    obtain ⟨uncounted, hcount, hzero⟩ := syncEveryone_counts hfrugal charging.2 hrun
    rwa [hzero rfl, Nat.sub_zero] at hcount
  next => trivial

theorem Crash.lastHash {skip : SkipInvalid}
    (h : Crash env machine skip gasPrice s transactions restarted) :
    ∃ t ∈ transactions, restarted.db.getLastExecutedTransactionHash = t.hash := by
  obtain ⟨passed, t, missing, sync, receipt, used, state, rfl, _, _, _, hattempt, hdb⟩ :=
    h.executed
  refine ⟨t, by simp, ?_⟩
  rw [hdb, ← (Block.attempt_executed_spec hattempt).1]
  rfl

/-- A block is not gone on with if its last executed transaction is in the chain
already. -/
theorem importTransactionsAsBlock_first {skip : SkipInvalid} {isKnownTransaction : H256 → Bool}
    {run : Block × Nat}
    (hfirst : ∀ t ∈ transactions, t.hash = s.db.getLastExecutedTransactionHash →
      isKnownTransaction t.hash = true)
    (hrun : importTransactionsAsBlock env machine skip gasPrice isKnownTransaction s transactions =
      some run) :
    ∃ receipts, syncEveryone env machine skip gasPrice s transactions none =
      some (run.1, receipts, run.2) := by
  unfold importTransactionsAsBlock at hrun
  cases hfound : transactions.findIdx? (·.hash = s.db.getLastExecutedTransactionHash) with
  | none =>
    simp only [hfound] at hrun
    obtain ⟨⟨block, receipts, count⟩, hsync, heq⟩ := Option.bind_eq_some_iff.mp hrun
    obtain rfl := Option.some.inj heq
    exact ⟨receipts, hsync⟩
  | some found =>
    obtain ⟨hlt, hhash, _⟩ := List.findIdx?_eq_some_iff_getElem.mp hfound
    have hlast := of_decide_eq_true hhash
    have hknown := hfirst _ (List.getElem_mem hlt) hlast
    rw [hlast] at hknown
    simp only [hfound, hknown, if_true] at hrun
    obtain ⟨⟨block, receipts, count⟩, hsync, heq⟩ := Option.bind_eq_some_iff.mp hrun
    obtain rfl := Option.some.inj heq
    exact ⟨receipts, hsync⟩

end

/-- After a crash in the middle of a block, the run that goes on with it never
comes to the same transactions, receipts, accounts and count as the run without
the crash. -/
theorem not_sameOutcome_of_crash [Keccak] (env : EnvInfo) (machine : Machine) (active : Bool)
    (gasPrice : U256) (isKnownTransaction : H256 → Bool) (s restarted : State)
    (transactions : List Transaction) (run : Block × Nat) (hmachine : machine.Frugal)
    (hcharges : env.evmSchedule.Charges)
    (hfirst : ∀ t ∈ transactions, t.hash = s.db.getLastExecutedTransactionHash →
      isKnownTransaction t.hash = true)
    (hrun : importTransactionsAsBlock env machine (.all active) gasPrice isKnownTransaction s
      transactions = some run)
    (hcrash : Crash env machine (.all active) gasPrice s transactions restarted)
    (hnew : isKnownTransaction restarted.db.getLastExecutedTransactionHash = false) :
    ¬ ∃ run', importTransactionsAsBlock env machine (.all active) gasPrice isKnownTransaction
        restarted transactions = some run' ∧ SameOutcome run run' := by
  rintro ⟨run', hresumed, hsame⟩
  obtain ⟨t, hmem, hlast⟩ := hcrash.lastHash
  -- the first run counts every bad transaction
  obtain ⟨receipts, hsync⟩ := importTransactionsAsBlock_first hfirst hrun
  obtain ⟨uncounted, hcount, huncounted⟩ := syncEveryone_counts hmachine hcharges hsync
  -- the second one finds the last executed transaction and counts at most as many
  cases hfound : transactions.findIdx? (·.hash = restarted.db.getLastExecutedTransactionHash) with
  | none =>
    have hall := List.findIdx?_eq_none_iff.mp hfound t hmem
    exact absurd hlast.symm (of_decide_eq_false hall)
  | some found =>
    simp only [importTransactionsAsBlock, hfound] at hresumed
    rw [hnew, if_neg Bool.false_ne_true] at hresumed
    obtain ⟨⟨block', receipts', count'⟩, hsync', heq'⟩ := Option.bind_eq_some_iff.mp hresumed
    obtain rfl := Option.some.inj heq'
    obtain ⟨uncounted', hcount', _⟩ := syncEveryone_counts hmachine hcharges hsync'
    have hbad : block'.countBad active gasPrice = run.1.countBad active gasPrice := by
      rw [Block.countBad, Block.countBad, hsame.transactions, hsame.receipts]
    have hlength : block'.receipts.length = run.1.receipts.length := by rw [hsame.receipts]
    have hequal : count' + (found + 1) = run.2 := hsame.count
    have hzero := huncounted rfl
    omega

/-! ## A sample crash -/

/-- Two calls that are executed. -/
def sampleCalls : List Transaction :=
  [{ sampleCall 0 0 with hash := 1 }, { sampleCall 1 0 with hash := 2 }]

def Attempt.disk : Attempt → Disk
  | .executed _ _ s | .rejected s => s.db.disk
  | .ended => {}

def Attempt.isExecuted : Attempt → Bool
  | .executed _ _ _ => true
  | _ => false

/-- The first of the two calls, on a new node. -/
def sampleAttempt : Attempt :=
  letI := State.sampleKeccak
  Block.attempt { sampleBlockEnv with gasUsed := 0 } idleMachine (startState State.sampleState)
    { sampleCall 0 0 with hash := 1 }

/-- The node after a crash behind the first call. -/
def sampleRestarted : State := { State.sampleState with db := { disk := sampleAttempt.disk } }

theorem idleMachine_frugal : idleMachine.Frugal := fun _ gas => BitVec.le_refl gas

theorem sampleRestarted_crash (active : Bool) :
    letI := State.sampleKeccak
    Crash sampleBlockEnv idleMachine (.all active) 0 State.sampleState sampleCalls
      sampleRestarted := by
  let _ := State.sampleKeccak
  have hexecuted : sampleAttempt.isExecuted = true := by decide +kernel
  cases hattempt : sampleAttempt with
  | executed receipt used state =>
    refine ⟨[], _, _, _, receipt, used, state, rfl, rfl, rfl, rfl, hattempt, ?_⟩
    rw [sampleRestarted, hattempt]
    rfl
  | rejected state | ended => simp [hattempt, Attempt.isExecuted] at hexecuted

theorem not_sameOutcome_of_crash_sample :
    letI := State.sampleKeccak
    ∃ run, importTransactionsAsBlock sampleBlockEnv idleMachine (.all true) 0 (fun _ => false)
        State.sampleState sampleCalls = some run ∧
      ¬ ∃ run', importTransactionsAsBlock sampleBlockEnv idleMachine (.all true) 0
        (fun _ => false) sampleRestarted sampleCalls = some run' ∧ SameOutcome run run' := by
  let _ := State.sampleKeccak
  have hruns : (importTransactionsAsBlock sampleBlockEnv idleMachine (.all true) 0
      (fun _ => false) State.sampleState sampleCalls).isSome := by decide +kernel
  obtain ⟨run, hrun⟩ := Option.isSome_iff_exists.mp hruns
  exact ⟨run, hrun, not_sameOutcome_of_crash sampleBlockEnv idleMachine true 0 (fun _ => false)
    State.sampleState sampleRestarted sampleCalls run idleMachine_frugal
    ⟨by decide, by decide⟩ (by decide) hrun (sampleRestarted_crash true) rfl⟩

/-- Two transactions succeed, but the run that goes on behind the first one says
that there were three. -/
theorem sample_crash_counts_twice :
    letI := State.sampleKeccak
    let summary (run : Block × Nat) := (run.1.transactions, run.1.receipts.map (·.gasUsed), run.2)
    Crash sampleBlockEnv idleMachine (.all true) 0 State.sampleState sampleCalls sampleRestarted ∧
      (importTransactionsAsBlock sampleBlockEnv idleMachine (.all true) 0 (fun _ => false)
        State.sampleState sampleCalls).map summary = some (sampleCalls, [21000, 42000], 2) ∧
      (importTransactionsAsBlock sampleBlockEnv idleMachine (.all true) 0 (fun _ => false)
        sampleRestarted sampleCalls).map summary = some (sampleCalls, [21000, 42000], 3) := by
  let _ := State.sampleKeccak
  exact ⟨sampleRestarted_crash true, by decide +kernel, by decide +kernel⟩

end Skaled
