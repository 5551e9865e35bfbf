import Skaled.Block.Block
import Skaled.State.Operations

/-! # Which transactions a block contains

With the patch that skips invalid transactions a block is meant to contain the
transactions that are well formed, pay enough and can be executed, and nothing
else. It does, as long as no transaction of the list pays too little: those are
put into the block with an empty receipt.
-/

namespace Skaled

/-- The transaction brings its gas, or pays what the block asks for. -/
def Transaction.meetsPrice (gasPrice : U256) (t : Transaction) : Bool :=
  match t.externalGas with
  | some mined => mined.isSome || gasPrice ≤ t.gasPrice
  | none => false

/-- A transaction that belongs in a block, with its receipt and the gas it
used. -/
structure Included where
  transaction : Transaction
  receipt : TransactionReceipt
  gasUsed : U256

section

variable [Keccak] (env : EnvInfo) (machine : Machine) (gasPrice : U256)

/-- The transactions of a list that belong in a block: those that meet the price
and are executed, each in the state and with the gas that the ones before it
leave. -/
def belonging : State → U256 → List Transaction → Option (List Included)
  | _, _, [] => some []
  | s, gasUsed, t :: rest =>
    if !t.isInvalid && !t.meetsPrice gasPrice then belonging s gasUsed rest
    else
      match Block.attempt { env with gasUsed } machine s t with
      | .executed receipt used s' =>
        (belonging s' receipt.gasUsed rest).map (⟨t, receipt, used⟩ :: ·)
      | .rejected s' => belonging s' gasUsed rest
      | .ended => none

end

/-- A block holds what belongs in it. -/
structure Correct (gasPrice : U256) (approved : List Transaction) (included : List Included)
    (block : Block) (count : Nat) : Prop where
  transactions : block.transactions = included.map (·.transaction)
  sublist : block.transactions.Sublist approved
  wellFormed : ∀ t ∈ block.transactions, t.isInvalid = false ∧ t.meetsPrice gasPrice = true
  receipts : block.receipts = included.map (·.receipt)
  nondecreasing : (block.receipts.map (·.gasUsed)).IsChain (· ≤ ·)
  count : count = included.length

/-! ## What belongs in a block -/

variable {env : EnvInfo} {machine : Machine} {gasPrice gasUsed : U256} {s s' : State}
  {t : Transaction} {transactions : List Transaction} {included : List Included}
  {sync sync' : Sync}

section

theorem State.receipt_gasUsed (e : Executive) (status : Bool) :
    (State.receipt env t e status).gasUsed = env.gasUsed + State.gasUsedBy env t e := by
  unfold State.receipt State.gasUsedBy
  cases State.gasUsedForSkippedTransaction env.chainParams.chainID t.hash <;> rfl

/-- A valid transaction whose gas was checked is too cheap, or it meets the
price. -/
theorem Transaction.isTooCheap_eq (hvalid : t.isInvalid = false)
    (hchecked : t.externalGas.isNone = false) : t.isTooCheap gasPrice = !t.meetsPrice gasPrice := by
  cases hgas : t.externalGas with
  | none => simp [hgas] at hchecked
  | some mined =>
    cases mined with
    | none =>
      simp only [isTooCheap, hvalid, hasExternalGas, meetsPrice, hgas, Except.toOption,
        Option.isSome_none, Bool.not_false, Bool.true_and, BEq.rfl, Bool.false_or]
      rw [← decide_not, decide_eq_decide, BitVec.not_le]
    | some gas => simp [isTooCheap, hvalid, hasExternalGas, meetsPrice, hgas, Except.toOption]

theorem Transaction.of_isTooCheap (hcheap : t.isTooCheap gasPrice = true) :
    t.isInvalid = false ∧ t.externalGas.isNone = false ∧ t.meetsPrice gasPrice = false := by
  have hvalid : t.isInvalid = false := by
    simp only [isTooCheap, Bool.and_eq_true, Bool.not_eq_true'] at hcheap
    exact hcheap.1.1
  have hchecked : t.externalGas.isNone = false := by
    cases hgas : t.externalGas with
    | none => simp [isTooCheap, hasExternalGas, hgas, Except.toOption] at hcheap
    | some mined => rfl
  rw [isTooCheap_eq hvalid hchecked] at hcheap
  exact ⟨hvalid, hchecked, by simpa using hcheap⟩

variable [Keccak]

theorem Block.attempt_executed {receipt : TransactionReceipt} {used : U256}
    (hattempt : Block.attempt env machine s t = .executed receipt used s') :
    t.isInvalid = false ∧ receipt.gasUsed = env.gasUsed + used := by
  unfold Block.attempt at hattempt
  split at hattempt
  next => simp at hattempt
  next hvalid =>
    split at hattempt
    next e s'' _ =>
      simp only [Attempt.executed.injEq] at hattempt
      obtain ⟨rfl, rfl, _⟩ := hattempt
      exact ⟨by simpa using hvalid, State.receipt_gasUsed e _⟩
    next => split at hattempt <;> simp at hattempt

section

variable (h : belonging env machine gasPrice s gasUsed transactions = some included)

include h

theorem belonging_spec :
    (included.map (·.transaction)).Sublist transactions ∧
      ∀ x ∈ included, x.transaction.isInvalid = false ∧
        x.transaction.meetsPrice gasPrice = true := by
  induction transactions generalizing s gasUsed included with
  | nil =>
    simp only [belonging, Option.some.injEq] at h
    subst h
    simp
  | cons t rest ih =>
    simp only [belonging] at h
    split at h
    next =>
      obtain ⟨hsublist, hmem⟩ := ih h
      exact ⟨hsublist.cons t, hmem⟩
    next hprice =>
      split at h
      next receipt used s' hattempt =>
        obtain ⟨tail, htail, rfl⟩ := Option.map_eq_some_iff.mp h
        obtain ⟨hsublist, hmem⟩ := ih htail
        obtain ⟨hvalid, _⟩ := Block.attempt_executed hattempt
        refine ⟨hsublist.cons_cons t, fun x hx => ?_⟩
        rcases List.mem_cons.mp hx with rfl | hx
        · exact ⟨hvalid, by simpa [hvalid] using hprice⟩
        · exact hmem x hx
      next =>
        obtain ⟨hsublist, hmem⟩ := ih h
        exact ⟨hsublist.cons t, hmem⟩
      next => simp at h

/-- The cumulative gas does not decrease as long as its sum fits in a word. -/
theorem belonging_isChain_iff :
    (gasUsed :: included.map (·.receipt.gasUsed)).IsChain (· ≤ ·) ↔
      gasUsed.toNat + (included.map (·.gasUsed.toNat)).sum < 2 ^ 256 := by
  induction transactions generalizing s gasUsed included with
  | nil =>
    simp only [belonging, Option.some.injEq] at h
    subst h
    simpa using gasUsed.isLt
  | cons t rest ih =>
    simp only [belonging] at h
    split at h
    next => exact ih h
    next =>
      split at h
      next receipt used s' hattempt =>
        obtain ⟨tail, htail, rfl⟩ := Option.map_eq_some_iff.mp h
        obtain ⟨_, hgas⟩ := Block.attempt_executed hattempt
        have hgas : receipt.gasUsed = gasUsed + used := hgas
        have hfit := used.isLt
        have hlt := gasUsed.isLt
        rw [List.map_cons, List.isChain_cons_cons, ih htail, List.map_cons, List.sum_cons, hgas,
          BitVec.le_def, BitVec.toNat_add]
        dsimp only
        omega
      next => exact ih h
      next => simp at h

end

end

/-! ## One transaction of the loop -/

namespace Sync

/-- The same loop with another state. -/
def withState (sync : Sync) (state : State) : Sync :=
  { sync with block := { sync.block with state } }

variable [Keccak] {active : Bool}

/-- What the loop makes of a transaction that was not executed before. -/
inductive Processed (env : EnvInfo) (machine : Machine) (active : Bool) (gasPrice : U256)
    (sync : Sync) (t : Transaction) : Sync → Prop where
  | unchecked (hvalid : t.isInvalid = false) (hgas : t.externalGas = none) :
      Processed env machine active gasPrice sync t sync
  | tooCheap (hcheap : t.isTooCheap gasPrice = true) :
      Processed env machine active gasPrice sync t (sync.refuse env (.all active) t)
  | executed {receipt : TransactionReceipt} {used : U256} {state : State}
      (hprice : t.meetsPrice gasPrice = true)
      (hattempt : Block.attempt { env with gasUsed := sync.block.gasUsed } machine
        sync.block.state t = .executed receipt used state) :
      Processed env machine active gasPrice sync t ((sync.withState state).add t receipt)
  | skipped {state : State} (hprice : t.isInvalid = true ∨ t.meetsPrice gasPrice = true)
      (hactive : active = true)
      (hattempt : Block.attempt { env with gasUsed := sync.block.gasUsed } machine
        sync.block.state t = .rejected state) :
      Processed env machine active gasPrice sync t (sync.withState state)
  | kept {state : State} (hactive : active = false)
      (hattempt : Block.attempt { env with gasUsed := sync.block.gasUsed } machine
        sync.block.state t = .rejected state) :
      Processed env machine active gasPrice sync t
        { (sync.withState state).add t (nullReceipt env sync.block.gasUsed) with
          countBad := sync.countBad + 1 }

theorem processed_of_execute (hprice : t.isInvalid = true ∨ t.meetsPrice gasPrice = true)
    (hrun : sync.execute env machine (.all active) t = some sync') :
    Processed env machine active gasPrice sync t sync' := by
  obtain ⟨⟨block, rejected⟩, hblock, heq⟩ := Option.bind_eq_some_iff.mp hrun
  rw [Option.some.injEq] at heq
  unfold Block.execute at hblock
  split at hblock
  next receipt used state hattempt =>
    rw [Option.some.injEq, Prod.mk.injEq] at hblock
    obtain ⟨rfl, rfl⟩ := hblock
    have hvalid := (Block.attempt_executed hattempt).1
    rw [← heq]
    convert Processed.executed (by simpa [hvalid] using hprice) hattempt using 1
    simp [withState, add, Block.add]
  next state hattempt =>
    rw [Option.some.injEq, Prod.mk.injEq] at hblock
    obtain ⟨rfl, rfl⟩ := hblock
    rw [← heq]
    cases active with
    | true => exact .skipped hprice rfl hattempt
    | false =>
      convert Processed.kept rfl hattempt using 1
      simp [SkipInvalid.all, withState, add, Block.add]
  next => simp at hblock

theorem processed_of_process
    (hrun : sync.process env machine (.all active) gasPrice t = some sync') :
    Processed env machine active gasPrice sync t sync' := by
  unfold process at hrun
  split at hrun
  next hunchecked =>
    rw [Option.some.injEq] at hrun
    subst hrun
    simp only [Bool.and_eq_true, Bool.not_eq_true', Option.isNone_iff_eq_none] at hunchecked
    exact .unchecked hunchecked.1 hunchecked.2
  next hchecked =>
    split at hrun
    next hcheap =>
      rw [Option.some.injEq] at hrun
      subst hrun
      exact .tooCheap hcheap
    next hcheap =>
      apply processed_of_execute _ hrun
      cases hvalid : t.isInvalid with
      | true => exact .inl rfl
      | false =>
        have hgas : t.externalGas.isNone = false := by
          simpa [hvalid, Option.isSome_iff_ne_none] using hchecked
        rw [Transaction.isTooCheap_eq hvalid hgas] at hcheap
        exact .inr (by simpa using hcheap)

end Sync

/-! ## Whole blocks -/

section

theorem Block.gasUsed_add (b : Block) (t : Transaction) (receipt : TransactionReceipt) :
    (b.add t receipt).gasUsed = receipt.gasUsed := by
  simp [Block.gasUsed, Block.add]

variable [Keccak] {index : Nat}

/-- Without transactions that are too cheap, the loop adds what belongs in the
block. -/
theorem processAll_belonging
    (hcheap : ∀ t ∈ transactions, t.isTooCheap gasPrice = false)
    (hrun : Sync.processAll env machine (.all true) gasPrice none index transactions sync =
      some sync') :
    ∃ included, belonging env machine gasPrice sync.block.state sync.block.gasUsed transactions =
        some included ∧
      sync'.block.transactions = sync.block.transactions ++ included.map (·.transaction) ∧
      sync'.block.receipts = sync.block.receipts ++ included.map (·.receipt) ∧
      sync'.receipts = sync.receipts ++ included.map (·.receipt) ∧
      sync'.countBad = sync.countBad := by
  induction transactions generalizing index sync with
  | nil =>
    simp only [Sync.processAll, Option.some.injEq] at hrun
    subst hrun
    exact ⟨[], rfl, by simp, by simp, by simp, rfl⟩
  | cons t rest ih =>
    obtain ⟨next, hstep, hrest⟩ := Option.bind_eq_some_iff.mp hrun
    obtain ⟨included, hbelonging, htransactions, hblock, hreceipts, hbad⟩ :=
      ih (fun t' ht' => hcheap t' (List.mem_cons_of_mem _ ht')) hrest
    have hnot := hcheap t List.mem_cons_self
    rw [belonging]
    cases Sync.processed_of_process hstep with
    | unchecked hvalid hgas =>
      rw [if_pos (by simp [hvalid, Transaction.meetsPrice, hgas])]
      exact ⟨included, hbelonging, htransactions, hblock, hreceipts, hbad⟩
    | tooCheap hcheap =>
      rw [hnot] at hcheap
      exact absurd hcheap (by decide)
    | @executed receipt used state hprice hattempt =>
      rw [if_neg (by simp [hprice]), hattempt]
      rw [Sync.add, Block.gasUsed_add] at hbelonging
      refine ⟨⟨t, receipt, used⟩ :: included, ?_, ?_, ?_, ?_, hbad⟩
      · exact congrArg (Option.map _) hbelonging
      · rw [htransactions]
        simp [Sync.add, Block.add, Sync.withState]
      · rw [hblock]
        simp [Sync.add, Block.add, Sync.withState]
      · rw [hreceipts]
        simp [Sync.add, Sync.withState]
    | skipped hprice _ hattempt =>
      rw [if_neg (by rcases hprice with h | h <;> simp [h]), hattempt]
      exact ⟨included, hbelonging, htransactions, hblock, hreceipts, hbad⟩
    | kept hactive _ => exact absurd hactive (by decide)

/-- Nothing is taken out of a block. -/
theorem Sync.Processed.mem_transactions {active : Bool} {t' : Transaction}
    (h : Sync.Processed env machine active gasPrice sync t sync')
    (hmem : t' ∈ sync.block.transactions) : t' ∈ sync'.block.transactions := by
  cases h with
  | unchecked => exact hmem
  | tooCheap hcheap =>
    unfold Sync.refuse
    split
    next => exact List.mem_append_left _ hmem
    next => exact hmem
  | executed => exact List.mem_append_left _ hmem
  | skipped => exact hmem
  | kept => exact List.mem_append_left _ hmem

theorem mem_transactions_of_processAll {active : Bool}
    (hrun : Sync.processAll env machine (.all active) gasPrice none index transactions sync =
      some sync') (hmem : t ∈ sync.block.transactions) : t ∈ sync'.block.transactions := by
  induction transactions generalizing index sync with
  | nil =>
    simp only [Sync.processAll, Option.some.injEq] at hrun
    exact hrun ▸ hmem
  | cons t' rest ih =>
    obtain ⟨next, hstep, hrest⟩ := Option.bind_eq_some_iff.mp hrun
    exact ih hrest ((Sync.processed_of_process hstep).mem_transactions hmem)

/-- With the patch, a transaction that is too cheap is in the block. -/
theorem tooCheap_mem_transactions (hmem : t ∈ transactions) (hcheap : t.isTooCheap gasPrice = true)
    (hrun : Sync.processAll env machine (.all true) gasPrice none index transactions sync =
      some sync') : t ∈ sync'.block.transactions := by
  induction transactions generalizing index sync with
  | nil => simp at hmem
  | cons t' rest ih =>
    obtain ⟨next, hstep, hrest⟩ := Option.bind_eq_some_iff.mp hrun
    rcases List.mem_cons.mp hmem with rfl | hmem
    · apply mem_transactions_of_processAll hrest
      obtain ⟨hvalid, hchecked, _⟩ := Transaction.of_isTooCheap hcheap
      have hstep : sync.process env machine (.all true) gasPrice t = some next := hstep
      simp only [Sync.process, hchecked, hcheap, Bool.and_false, Bool.false_eq_true, ↓reduceIte,
        Option.some.injEq] at hstep
      rw [← hstep]
      exact List.mem_append_right _ List.mem_cons_self
    · exact ih hmem hrest

/-- The state in which a block that is not caught up starts. -/
def startState (s : State) : State :=
  { syncState s with db := (syncState s).db.setPartialTransactionReceipts [] }

theorem syncEveryone_eq_some {skip : SkipInvalid} {block : Block}
    {receipts : List TransactionReceipt} {count : Nat}
    (hrun : syncEveryone env machine skip gasPrice s transactions none =
      some (block, receipts, count)) :
    ∃ sync, Sync.processAll env machine skip gasPrice none 0 transactions
        ⟨⟨startState s, [], []⟩, [], 0⟩ = some sync ∧
      block = { sync.block with state := sync.block.state.releaseWriteLock } ∧
      receipts = sync.receipts ∧ count = sync.receipts.length - sync.countBad := by
  obtain ⟨sync, hsync, heq⟩ := Option.bind_eq_some_iff.mp hrun
  simp only [Option.some.injEq, Prod.mk.injEq] at heq
  obtain ⟨rfl, rfl, rfl⟩ := heq
  exact ⟨sync, hsync, rfl, rfl, rfl⟩

end

/-- With the patch that skips invalid transactions, a block holds what belongs in
it exactly if no transaction of the list is too cheap and the gas that is used
adds up to less than a word. -/
theorem correct_iff_no_tooCheap [Keccak] (env : EnvInfo) (machine : Machine) (gasPrice : U256)
    (s : State) (approved : List Transaction) (block : Block) (receipts : List TransactionReceipt)
    (count : Nat)
    (hrun : syncEveryone env machine (.all true) gasPrice s approved none =
      some (block, receipts, count)) :
    (∃ included, belonging env machine gasPrice (startState s) 0 approved = some included ∧
      Correct gasPrice approved included block count) ↔
    (∀ t ∈ approved, t.isTooCheap gasPrice = false) ∧
      ∀ included, belonging env machine gasPrice (startState s) 0 approved = some included →
        (included.map (·.gasUsed.toNat)).sum < 2 ^ 256 := by
  obtain ⟨sync, hsync, rfl, rfl, rfl⟩ := syncEveryone_eq_some hrun
  -- the gas before the first transaction is zero, so that it can be put in front
  have hchain : ∀ {included : List Included},
      belonging env machine gasPrice (startState s) 0 approved = some included →
      ((included.map (·.receipt.gasUsed)).IsChain (· ≤ ·) ↔
        (included.map (·.gasUsed.toNat)).sum < 2 ^ 256) := by
    intro included hbelonging
    have hfits := belonging_isChain_iff hbelonging
    cases included with
    | nil => simp
    | cons x rest =>
      rw [List.map_cons, List.isChain_cons_cons,
        and_iff_right (BitVec.le_def.mpr (Nat.zero_le _))] at hfits
      simpa using hfits
  constructor
  · rintro ⟨included, hbelonging, hcorrect⟩
    refine ⟨fun t hmem => ?_, fun included' hincluded' => ?_⟩
    · cases hcheap : t.isTooCheap gasPrice with
      | false => rfl
      | true =>
        obtain ⟨_, hprice⟩ :=
          hcorrect.wellFormed t (tooCheap_mem_transactions hmem hcheap hsync)
        rw [(Transaction.of_isTooCheap hcheap).2.2] at hprice
        exact absurd hprice (by decide)
    · rw [hbelonging, Option.some.injEq] at hincluded'
      subst hincluded'
      have hnondecreasing := hcorrect.nondecreasing
      rw [hcorrect.receipts, List.map_map] at hnondecreasing
      exact (hchain hbelonging).mp hnondecreasing
  · rintro ⟨hcheap, hfits⟩
    obtain ⟨included, hbelonging, htransactions, hblock, hreceipts, hbad⟩ :=
      processAll_belonging hcheap hsync
    simp only [List.nil_append] at htransactions hblock hreceipts
    obtain ⟨hsublist, hmem⟩ := belonging_spec hbelonging
    refine ⟨included, hbelonging, htransactions, htransactions ▸ hsublist, ?_, hblock, ?_, ?_⟩
    · intro t ht
      rw [htransactions] at ht
      obtain ⟨x, hx, rfl⟩ := List.mem_map.mp ht
      exact hmem x hx
    · rw [hblock, List.map_map]
      exact (hchain hbelonging).mpr (hfits included hbelonging)
    · simp [hreceipts, hbad]

/-! ## Sample blocks -/

/-- A machine on which every frame stops at once. -/
def idleMachine : Machine where
  exec _ gas := .returned gas []
  evmSchedule _ := {}
  isPrecompiled _ _ := false
  precompiledExecutionAllowedFrom _ _ _ := true
  costOfPrecompiled _ _ _ := 0
  executePrecompiled _ _ _ _ := (true, [])
  lastHash _ := 0

def sampleBlockEnv : EnvInfo :=
  { number := 1
    author := 8
    gasLimit := 1000000
    patches := State.samplePatches
    chainParams := { experimentalForkBlock := 100 } }

/-- A message call of address 9. -/
def sampleCall (nonce gasPrice : U256) : Transaction :=
  { nonce
    sender := 9
    receiveAddress := 7
    nonPowGas := 30000
    ownGasPrice := gasPrice
    signature := some ⟨1, 1⟩
    chainId := some 0 }

/-- Calls with a nonce that fits, with one that does not, and bytes that are no
transaction. -/
def sampleList : List Transaction :=
  [sampleCall 0 0, sampleCall 5 0, { type := .invalid }, sampleCall 1 0]

theorem correct_iff_no_tooCheap_sample :
    letI := State.sampleKeccak
    ∃ block receipts count included,
      syncEveryone sampleBlockEnv idleMachine (.all true) 0 State.sampleState sampleList none =
        some (block, receipts, count) ∧
      belonging sampleBlockEnv idleMachine 0 (startState State.sampleState) 0 sampleList =
        some included ∧
      Correct 0 sampleList included block count := by
  let _ := State.sampleKeccak
  have hruns : (syncEveryone sampleBlockEnv idleMachine (.all true) 0 State.sampleState sampleList
      none).isSome := by decide +kernel
  obtain ⟨⟨block, receipts, count⟩, hrun⟩ := Option.isSome_iff_exists.mp hruns
  have hsum : (belonging sampleBlockEnv idleMachine 0 (startState State.sampleState) 0
      sampleList).map (fun included => (included.map (·.gasUsed.toNat)).sum) = some 42000 := by
    decide +kernel
  obtain ⟨included, hbelonging, hcorrect⟩ := (correct_iff_no_tooCheap sampleBlockEnv idleMachine 0
    State.sampleState sampleList block receipts count hrun).mpr
      ⟨by decide +kernel, fun included hincluded => by
        rw [hincluded, Option.map_some, Option.some.injEq] at hsum
        rw [hsum]
        norm_num⟩
  exact ⟨block, receipts, count, included, hrun, hbelonging, hcorrect⟩

/-- A block with a price of 1: behind a call that brings its gas, one that pays
nothing is put into the block as well. Its receipt starts the gas at zero
again. -/
theorem sample_tooCheap_in_block :
    letI := State.sampleKeccak
    let mined : Transaction := { sampleCall 0 0 with externalGas := some (some 30000) }
    let cheap := sampleCall 1 0
    (syncEveryone sampleBlockEnv idleMachine (.all true) 1 State.sampleState [mined, cheap]
        none).map (fun r => (r.1.transactions, r.1.receipts.map (·.gasUsed), r.2.2)) =
      some ([mined, cheap], [21000, 0], 1) ∧
    cheap.isInvalid = false ∧ cheap.hasExternalGas = .ok false ∧ cheap.gasPrice < 1 := by
  decide +kernel

end Skaled
