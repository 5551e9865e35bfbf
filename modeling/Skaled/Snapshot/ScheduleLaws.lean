import Skaled.Snapshot.Schedule

/-! # The schedule of snapshots and crashes

The schedule that the timestamps of the blocks ask for, as a function of the
number of blocks, and the node that follows it through imports and crashes. A
crash loses a snapshot when it comes after the block was stored and before the
snapshot that was due: afterwards the agent takes the next block instead.
-/

namespace Skaled

/-! ## The directory -/

/-- Block numbers, greatest first, without zero. -/
structure Descending (taken : List Nat) : Prop where
  pairwise : taken.Pairwise (· > ·)
  notMem : 0 ∉ taken

/-- The directory has the last snapshots, at least two of them if there are, and
the snapshot of block zero. -/
def Keeps (dir : SnapshotDir) (taken : List Nat) : Prop :=
  ∃ m, 2 ≤ m ∧ dir.numbers = taken.take m ++ [0]

theorem mem_take_two {taken : List Nat} {i number : Nat} (h : taken[i]? = some number)
    (hi : i < 2) : number ∈ taken.take 2 := by
  rw [List.mem_iff_getElem?]
  exact ⟨i, by rw [List.getElem?_take_of_lt hi, h]⟩

namespace Keeps

variable {dir : SnapshotDir} {taken : List Nat}

theorem ordered_eq {m : Nat} (hdesc : Descending taken)
    (h : dir.numbers = taken.take m ++ [0]) : dir.ordered = taken.take m := by
  have hfilter : (taken.take m ++ [0]).filter (· ≠ 0) = taken.take m := by
    rw [List.filter_append, List.filter_eq_self.mpr]
    · simp
    · intro number hnumber
      have hmem := List.mem_of_mem_take hnumber
      simpa using fun heq : number = 0 => hdesc.notMem (heq ▸ hmem)
  rw [SnapshotDir.ordered, h, hfilter]
  exact (hdesc.pairwise.take.imp fun {a b} hab => Nat.le_of_lt hab).insertionSort_eq

theorem getLatestSnapshots (h : Keeps dir taken) (hdesc : Descending taken) :
    dir.getLatestSnapshots = ((taken[1]?).getD 0, (taken[0]?).getD 0) := by
  obtain ⟨m, hm, hnumbers⟩ := h
  obtain ⟨m, rfl⟩ := Nat.exists_eq_add_of_le' hm
  rw [SnapshotDir.getLatestSnapshots, ordered_eq hdesc hnumbers]
  match taken with
  | [] => rfl
  | [second] => rfl
  | second :: first :: rest => rfl

variable {number : Nat}

/-- The last two snapshots are not among those that are deleted. -/
theorem notMem_drop {m : Nat} (hdesc : Descending taken) (hnumber : number ∈ taken.take 2)
    (hm : 2 ≤ m) : number ∉ (taken.take m).drop 2 := by
  have hsplit := hdesc.pairwise.take (i := m)
  rw [← List.take_append_drop 2 (taken.take m), List.take_take, Nat.min_eq_left hm,
    List.pairwise_append] at hsplit
  intro hmem
  exact Nat.lt_irrefl _ (hsplit.2.2 number hnumber number hmem)

theorem leave (h : Keeps dir taken) (hdesc : Descending taken) :
    Keeps (dir.leaveNLastSnapshots 2) taken := by
  obtain ⟨m, hm, hnumbers⟩ := h
  refine ⟨2, Nat.le_refl 2, ?_⟩
  have hzero : 0 ∉ (taken.take m).drop 2 :=
    fun hmem => hdesc.notMem (List.mem_of_mem_take (List.mem_of_mem_drop hmem))
  have hkept : (taken.take 2).filter (· ∉ (taken.take m).drop 2) = taken.take 2 := by
    rw [List.filter_eq_self]
    intro number hnumber
    exact decide_eq_true (notMem_drop hdesc hnumber hm)
  have hdeleted : ((taken.take m).drop 2).filter (· ∉ (taken.take m).drop 2) = [] := by
    rw [List.filter_eq_nil_iff]
    intro number hnumber
    simpa using hnumber
  have hsplit : taken.take m = taken.take 2 ++ (taken.take m).drop 2 := by
    conv_lhs => rw [← List.take_append_drop 2 (taken.take m), List.take_take, Nat.min_eq_left hm]
  unfold SnapshotDir.leaveNLastSnapshots
  dsimp only
  rw [ordered_eq hdesc hnumbers, hnumbers]
  generalize (taken.take m).drop 2 = deleted at *
  rw [hsplit, List.filter_append, List.filter_append, hkept, hdeleted, List.append_nil]
  simp [hzero]

theorem leave_hashed (h : Keeps dir taken) (hdesc : Descending taken)
    (hnumber : number ∈ taken.take 2) (hhashed : number ∈ dir.hashed) :
    number ∈ (dir.leaveNLastSnapshots 2).hashed := by
  obtain ⟨m, hm, hnumbers⟩ := h
  unfold SnapshotDir.leaveNLastSnapshots
  dsimp only
  rw [ordered_eq hdesc hnumbers, List.mem_filter]
  exact ⟨hhashed, decide_eq_true (notMem_drop hdesc hnumber hm)⟩

theorem mem (h : Keeps dir taken) (hnumber : number ∈ taken.take 2) : number ∈ dir.numbers := by
  obtain ⟨m, hm, hnumbers⟩ := h
  rw [hnumbers]
  apply List.mem_append_left
  exact (List.take_subset_take_left taken hm) hnumber

theorem doSnapshot (h : Keeps dir taken) (hnew : ∀ n ∈ taken, n < number) (hpos : number ≠ 0) :
    ∃ dir', dir.doSnapshot number = some dir' ∧ dir'.hashed = dir.hashed ∧
      Keeps dir' (number :: taken) := by
  obtain ⟨m, hm, hnumbers⟩ := h
  have hnotMem : number ∉ dir.numbers := by
    rw [hnumbers, List.mem_append]
    rintro (hmem | hmem)
    · exact Nat.lt_irrefl _ (hnew number (List.mem_of_mem_take hmem))
    · exact hpos (List.mem_singleton.mp hmem)
  refine ⟨{ dir with numbers := number :: dir.numbers }, if_neg hnotMem, rfl, m + 1, by omega, ?_⟩
  rw [List.take_succ_cons, List.cons_append, ← hnumbers]

end Keeps

/-! ## The schedule -/

/-- The chain and the blocks of which snapshots were made, last one first. -/
structure SnapshotPlan where
  taken : List Nat
  blocks : List SealedBlock

section Plan

variable (config : SnapshotConfig) (timestamp : Nat → Nat)

/-- The time of the last snapshot; before there is any, the time of the first
block. -/
def lastTime : List Nat → Nat
  | [] => timestamp 1
  | number :: _ => timestamp number

def Due (taken : List Nat) (number : Nat) : Prop :=
  0 < config.snapshotIntervalSec ∧
    lastTime timestamp taken / config.snapshotIntervalSec.toNat <
      timestamp number / config.snapshotIntervalSec.toNat

instance (taken : List Nat) (number : Nat) : Decidable (Due config timestamp taken number) :=
  inferInstanceAs (Decidable (_ ∧ _))

/-- The snapshot whose hash is the state root of the block: the last one once
the next one is due, until then the one before it. -/
def rootSnapshot (taken : List Nat) (number : Nat) : Option Nat :=
  if Due config timestamp taken number then taken[0]? else taken[1]?

def plannedRoot (plan : SnapshotPlan) (number : Nat) : H256 :=
  if config.overrideStateRoot plan.blocks ≠ 0 then config.overrideStateRoot plan.blocks
  else match rootSnapshot config timestamp plan.taken number with
    | some snapshot => config.snapshotHash snapshot
    | none => match plan.blocks.getLast? with
      | some block => block.stateRoot
      | none => emptyStrHash

/-- The schedule after a number of blocks. -/
def plan : Nat → SnapshotPlan
  | 0 => ⟨[], []⟩
  | k + 1 =>
    { taken := if Due config timestamp (plan k).taken (k + 1) then (k + 1) :: (plan k).taken
        else (plan k).taken
      blocks := (plan k).blocks ++
        [{ timestamp := timestamp (k + 1)
           stateRoot := plannedRoot config timestamp (plan k) (k + 1) }] }

end Plan

variable {config : SnapshotConfig} {timestamp : Nat → Nat}

@[simp] theorem length_plan (k : Nat) : (plan config timestamp k).blocks.length = k := by
  induction k with
  | zero => rfl
  | succ k ih => simp [plan, ih]

variable {n k : Nat}

theorem rootSnapshot_mem {taken : List Nat} {number : Nat}
    (h : rootSnapshot config timestamp taken number = some n) : n ∈ taken := by
  unfold rootSnapshot at h
  split at h
  · exact List.mem_of_getElem? h
  · exact List.mem_of_getElem? h

theorem plan_taken_le (h : n ∈ (plan config timestamp k).taken) : 0 < n ∧ n ≤ k := by
  induction k with
  | zero => cases h
  | succ k ih =>
    rw [plan] at h
    split at h
    · obtain rfl | h := List.mem_cons.mp h
      · omega
      · have := ih h
        omega
    · have := ih h
      omega

theorem plan_descending (k : Nat) : Descending (plan config timestamp k).taken := by
  refine ⟨?_, fun hzero => absurd (plan_taken_le hzero).1 (Nat.lt_irrefl 0)⟩
  induction k with
  | zero => exact .nil
  | succ k ih =>
    rw [plan]
    split
    · refine .cons (fun n hn => ?_) ih
      exact Nat.lt_succ_of_le (plan_taken_le hn).2
    · exact ih

theorem plan_timestamp (hpos : 0 < n) (hle : n ≤ k) :
    ((plan config timestamp k).blocks[n - 1]?).map (·.timestamp) = some (timestamp n) := by
  induction k with
  | zero => omega
  | succ k ih =>
    rw [plan]
    by_cases hlast : n = k + 1
    · subst hlast
      simp
    · rw [List.getElem?_append_left (by simp; omega)]
      exact ih (by omega)

theorem mem_plan_taken (h : n ∈ (plan config timestamp k).taken) {j : Nat} (hle : k ≤ j) :
    n ∈ (plan config timestamp j).taken := by
  induction hle with
  | refl => exact h
  | step _ ih =>
    rw [plan]
    split
    · exact .tail _ ih
    · exact ih

/-! ## The node -/

theorem SnapshotDir.mem_computeSnapshotHash {dir : SnapshotDir} {number n : Nat} :
    n ∈ (dir.computeSnapshotHash number).hashed ↔ n = number ∨ n ∈ dir.hashed := by
  unfold SnapshotDir.computeSnapshotHash
  split
  · next hmem =>
      refine ⟨.inr, ?_⟩
      rintro (rfl | h)
      · exact hmem
      · exact h
  · exact List.mem_cons

@[simp] theorem SnapshotDir.numbers_computeSnapshotHash (dir : SnapshotDir) (number : Nat) :
    (dir.computeSnapshotHash number).numbers = dir.numbers := by
  unfold SnapshotDir.computeSnapshotHash
  split <;> rfl

/-- A block number as the agent keeps it. -/
def hashNumber : Option Nat → Int
  | some number => number
  | none => -1

namespace SnapshotNode

variable {node : SnapshotNode}

/-- What is on disk follows the schedule. -/
structure Persisted (config : SnapshotConfig) (timestamp : Nat → Nat) (node : SnapshotNode)
    (k : Nat) : Prop where
  blocks : node.blocks = (plan config timestamp k).blocks
  taken : node.taken = (plan config timestamp k).taken
  dir : 0 < config.snapshotIntervalSec → 0 < k → Keeps node.dir node.taken
  first : k = 0 → node.dir.numbers = [] ∨ node.dir.numbers = [0]
  hashed : ∀ n, node.taken[1]? = some n → n ∈ node.dir.hashed

def ThreadFor (dir : SnapshotDir) (thread last : Option Nat) : Prop :=
  (thread = none ∧ ∀ n, last = some n → n ∈ dir.hashed) ∨ thread = last

/-- The agent in memory knows when the last snapshot was made. -/
structure Timed (config : SnapshotConfig) (timestamp : Nat → Nat) (node : SnapshotNode)
    (k : Nat) : Prop extends Persisted config timestamp node k where
  keeps : 0 < config.snapshotIntervalSec → Keeps node.dir node.taken
  time : 0 < config.snapshotIntervalSec →
    node.agent.lastSnapshotCreationTime = lastTime timestamp node.taken

/-- The agent in memory follows the schedule. -/
structure Ready (config : SnapshotConfig) (timestamp : Nat → Nat) (node : SnapshotNode)
    (k : Nat) : Prop extends Timed config timestamp node k where
  withHash : node.agent.lastSnapshotedBlockWithHash = hashNumber node.taken[1]?
  thread : ThreadFor node.dir node.agent.hashComputing node.taken[0]?

/-- The node between two imports. -/
inductive Follows (config : SnapshotConfig) (timestamp : Nat → Nat) (node : SnapshotNode) :
    Nat → Prop
  | created (hnode : Persisted config timestamp node 0) (hagent : node.agent = {})
      (hinited : node.agentInited = false) : Follows config timestamp node 0
  | running {k : Nat} (hready : Ready config timestamp node k) (hinited : node.agentInited = true) :
      Follows config timestamp node k

/-- Without an interval there are no snapshots. -/
theorem plan_taken_of_disabled (h : ¬ 0 < config.snapshotIntervalSec) (k : Nat) :
    (plan config timestamp k).taken = [] := by
  induction k with
  | zero => rfl
  | succ k ih =>
    rw [plan]
    exact (if_neg fun hdue : Due _ _ _ _ => h hdue.1).trans ih

namespace Persisted

variable (h : Persisted config timestamp node k)

include h

theorem number_eq : node.number = k := by
  rw [number, h.blocks, length_plan]

theorem descending : Descending node.taken := h.taken ▸ plan_descending k

theorem taken_le {n : Nat} (hn : n ∈ node.taken) : 0 < n ∧ n ≤ k := by
  rw [h.taken] at hn
  exact plan_taken_le hn

theorem plan_taken : (plan config timestamp (k + 1)).taken =
    if Due config timestamp node.taken (k + 1) then (k + 1) :: node.taken else node.taken := by
  rw [h.taken]
  rfl

/-- The agent does not matter for what is on disk. -/
theorem congr {node' : SnapshotNode} (hblocks : node'.blocks = node.blocks)
    (htaken : node'.taken = node.taken) (hdir : node'.dir = node.dir) :
    Persisted config timestamp node' k where
  blocks := hblocks.trans h.blocks
  taken := htaken.trans h.taken
  dir := by rw [hdir, htaken]; exact h.dir
  first := hdir ▸ h.first
  hashed := by rw [hdir, htaken]; exact h.hashed

theorem timestampOf {n : Nat} (hpos : 0 < n) (hle : n ≤ k) : node.timestampOf n = timestamp n := by
  rw [SnapshotNode.timestampOf, h.blocks, plan_timestamp hpos hle, Option.getD_some]

end Persisted

/-! ### Starting -/

/-- The node after a thread was started, if one is needed. -/
theorem startHashComputingThreadIfNeeded_eq (node : SnapshotNode) :
    node.startHashComputingThreadIfNeeded =
      { node with
        agent.hashComputing :=
          if node.dir.getLatestSnapshots.2 ∈ node.dir.hashed then node.agent.hashComputing
          else some node.dir.getLatestSnapshots.2 } := by
  unfold startHashComputingThreadIfNeeded startHashComputingThread
  split
  · rfl
  · rfl

theorem threadFor_last (dir : SnapshotDir) (last : Nat) :
    ThreadFor dir (if last ∈ dir.hashed then none else some last) (some last) := by
  split
  · next hlast => exact .inl ⟨rfl, fun n hn => Option.some.inj hn ▸ hlast⟩
  · exact .inr rfl

/-- What the agent reads from the directory: no snapshot, one, or more. -/
theorem initFromSnapshots_eq {taken : List Nat} {t : Nat} (hagent : node.agent = {})
    (hlatest : node.dir.getLatestSnapshots = ((taken[1]?).getD 0, (taken[0]?).getD 0))
    (hmem : ∀ n ∈ taken, 0 < n ∧ node.timestampOf n = timestamp n)
    (ht : taken = [] → t = timestamp 1) :
    ∃ thread, ThreadFor node.dir thread taken[0]? ∧
      node.initFromSnapshots t =
        { node with
          agent :=
            { lastSnapshotCreationTime := lastTime timestamp taken
              lastSnapshotedBlockWithHash := hashNumber taken[1]?
              hashComputing := thread } } := by
  unfold initFromSnapshots
  simp only [startHashComputingThreadIfNeeded_eq, hlatest, hagent]
  match taken with
  | [] =>
    refine ⟨none, .inr rfl, ?_⟩
    rw [ht rfl]
    rfl
  | [second] =>
    obtain ⟨hsecond, htime⟩ := hmem second (by simp)
    refine ⟨_, threadFor_last node.dir second, ?_⟩
    simp [hsecond.ne', htime, lastTime, hashNumber]
  | second :: first :: rest =>
    obtain ⟨_, htime⟩ := hmem second (by simp)
    obtain ⟨hfirst, _⟩ := hmem first (by simp)
    refine ⟨_, threadFor_last node.dir second, ?_⟩
    simp [hfirst.ne', htime, lastTime, hashNumber]

theorem initFromSnapshots_ready (h : Persisted config timestamp node k)
    (hkeeps : Keeps node.dir node.taken) (hagent : node.agent = {})
    {t : Nat} (ht : node.taken = [] → t = timestamp 1) :
    Ready config timestamp (node.initFromSnapshots t) k := by
  have hmem : ∀ n ∈ node.taken, 0 < n ∧ node.timestampOf n = timestamp n :=
    fun n hn => ⟨(h.taken_le hn).1, h.timestampOf (h.taken_le hn).1 (h.taken_le hn).2⟩
  obtain ⟨thread, hthread, heq⟩ :=
    initFromSnapshots_eq hagent (hkeeps.getLatestSnapshots h.descending) hmem ht
  rw [heq]
  exact ⟨⟨h.congr rfl rfl rfl, fun _ => hkeeps, fun _ => rfl⟩, rfl, hthread⟩

theorem Ready.inited (h : Ready config timestamp node k) (inited : Bool) :
    Ready config timestamp { node with agentInited := inited } k :=
  ⟨⟨h.congr rfl rfl rfl, h.keeps, h.time⟩, h.withHash, h.thread⟩

/-- Without an interval the agent stays as it was made. -/
theorem Persisted.ready_of_disabled (h : Persisted config timestamp node k)
    (hdisabled : config.snapshotIntervalSec ≤ 0) (hagent : node.agent = {}) :
    Ready config timestamp node k := by
  have hnot := Int.not_lt.mpr hdisabled
  have htaken : node.taken = [] := h.taken.trans (plan_taken_of_disabled hnot k)
  refine ⟨⟨h, fun hpos => absurd hpos hnot, fun hpos => absurd hpos hnot⟩, ?_, ?_⟩
  · rw [hagent, htaken]
    rfl
  · rw [hagent, htaken]
    exact .inr rfl

/-- The snapshot of block zero. -/
theorem Persisted.doSnapshotAndComputeHash (h : Persisted config timestamp node 0) :
    Persisted config timestamp (node.doSnapshotAndComputeHash 0) 0 ∧
      Keeps (node.doSnapshotAndComputeHash 0).dir (node.doSnapshotAndComputeHash 0).taken ∧
      (node.doSnapshotAndComputeHash 0).agent = node.agent := by
  have hnumbers : (node.doSnapshotAndComputeHash 0).dir.numbers = [0] := by
    unfold SnapshotNode.doSnapshotAndComputeHash SnapshotDir.doSnapshot
    obtain hempty | hzero := h.first rfl
    · simp [hempty]
    · simp [hzero]
  have hsame : (node.doSnapshotAndComputeHash 0).blocks = node.blocks ∧
      (node.doSnapshotAndComputeHash 0).taken = node.taken ∧
      (node.doSnapshotAndComputeHash 0).agent = node.agent := by
    unfold SnapshotNode.doSnapshotAndComputeHash
    split
    · exact ⟨rfl, rfl, rfl⟩
    · exact ⟨rfl, rfl, rfl⟩
  obtain ⟨hblocks, htaken, hagent⟩ := hsame
  have hnone : (node.doSnapshotAndComputeHash 0).taken = [] := htaken.trans h.taken
  refine ⟨⟨hblocks.trans h.blocks, hnone, fun _ hpos => absurd hpos (Nat.lt_irrefl 0),
    fun _ => .inr hnumbers, ?_⟩, ?_, hagent⟩
  · rw [hnone]
    exact nofun
  · rw [hnone]
    exact ⟨2, Nat.le_refl 2, hnumbers⟩

/-- The first import makes the snapshot of block zero. -/
theorem Follows.beginImport (h : Follows config timestamp node k) :
    Ready config timestamp (node.beginImport config (timestamp (k + 1))) k := by
  cases h with
  | created hnode hagent hinited =>
    unfold SnapshotNode.beginImport initAgent
    rw [if_neg (by simp [hinited]), if_pos rfl]
    apply Ready.inited
    split
    · next hdisabled => exact hnode.ready_of_disabled hdisabled hagent
    · obtain ⟨hzero, hkeeps, hsame⟩ := hnode.doSnapshotAndComputeHash
      exact initFromSnapshots_ready hzero hkeeps (hsame.trans hagent) fun _ => rfl
  | running hready hinited =>
    rw [SnapshotNode.beginImport, if_pos hinited]
    exact hready

/-- A new start. -/
theorem Persisted.restart (h : Persisted config timestamp node k) :
    Follows config timestamp (node.restart config) k := by
  have hnode : Persisted config timestamp { node with agent := {}, agentInited := false } k :=
    h.congr rfl rfl rfl
  unfold SnapshotNode.restart
  dsimp only
  rw [hnode.number_eq]
  by_cases hk : k = 0
  · subst hk
    exact .created hnode rfl rfl
  · rw [if_pos hk, initAgent, if_neg hk]
    refine .running (Ready.inited ?_ true) rfl
    split
    · next hdisabled => exact hnode.ready_of_disabled hdisabled rfl
    · next henabled =>
        have hpos := Nat.pos_of_ne_zero hk
        exact initFromSnapshots_ready hnode (hnode.dir (Int.not_le.mp henabled) hpos) rfl
          fun _ => hnode.timestampOf Nat.one_pos hpos

/-! ### Finishing the hash -/

/-- Waiting for the thread adds a hash, and nothing else. -/
theorem join_spec (node : SnapshotNode) :
    node.join.blocks = node.blocks ∧ node.join.taken = node.taken ∧
      node.join.dir.numbers = node.dir.numbers ∧
      (∀ n, n ∈ node.dir.hashed ∨ node.agent.hashComputing = some n →
        n ∈ node.join.dir.hashed) ∧
      node.join.agent = { node.agent with hashComputing := none } := by
  unfold join
  cases hthread : node.agent.hashComputing with
  | none =>
    refine ⟨rfl, rfl, rfl, fun n hn => hn.resolve_right nofun, ?_⟩
    dsimp only
    rcases hagent : node.agent with ⟨time, withHash, thread⟩
    rw [hagent] at hthread
    cases hthread
    rfl
  | some number =>
    refine ⟨rfl, rfl, SnapshotDir.numbers_computeSnapshotHash _ _, fun n hn => ?_, rfl⟩
    rw [SnapshotDir.mem_computeSnapshotHash]
    exact hn.symm.imp_left fun h => (Option.some.inj h).symm

theorem Keeps.congr {dir dir' : SnapshotDir} {taken : List Nat} (h : Keeps dir taken)
    (hnumbers : dir'.numbers = dir.numbers) : Keeps dir' taken := by
  obtain ⟨m, hm, heq⟩ := h
  exact ⟨m, hm, hnumbers.trans heq⟩

theorem Persisted.join (h : Persisted config timestamp node k) :
    Persisted config timestamp node.join k := by
  obtain ⟨hblocks, htaken, hnumbers, hhashed, _⟩ := node.join_spec
  refine ⟨hblocks.trans h.blocks, htaken.trans h.taken, fun hpos hk => ?_,
    fun hk => hnumbers ▸ h.first hk, fun n hn => hhashed n (.inl (h.hashed n (htaken ▸ hn)))⟩
  rw [htaken]
  exact Keeps.congr (h.dir hpos hk) hnumbers

/-- A crash at a point where the disk follows the schedule. -/
theorem Persisted.crash (h : Persisted config timestamp node k) (hashWritten : Bool) :
    Follows config timestamp (node.crash config hashWritten) k := by
  unfold SnapshotNode.crash
  apply Persisted.restart
  split
  · exact h.join
  · exact h

/-- The agent knows when a snapshot is due. -/
theorem isTimeToDoSnapshot_iff (number : Nat) (htime : 0 < config.snapshotIntervalSec →
      node.agent.lastSnapshotCreationTime = lastTime timestamp node.taken) :
    (0 < config.snapshotIntervalSec ∧
        node.isTimeToDoSnapshot config (timestamp number) = true) ↔
      Due config timestamp node.taken number := by
  refine and_congr_right fun hpos => ?_
  rw [SnapshotNode.isTimeToDoSnapshot, decide_eq_true_iff, htime hpos]

/-- The block is about to be sealed. -/
structure Sealing (config : SnapshotConfig) (timestamp : Nat → Nat) (node : SnapshotNode)
    (k : Nat) : Prop extends Timed config timestamp node k where
  root : node.agent.lastSnapshotedBlockWithHash =
    hashNumber (rootSnapshot config timestamp node.taken (k + 1))
  available : ∀ n, rootSnapshot config timestamp node.taken (k + 1) = some n →
    n ∈ node.dir.numbers ∧ n ∈ node.dir.hashed
  thread : if Due config timestamp node.taken (k + 1) then
      node.agent.hashComputing = none ∧ ∀ n, node.taken[0]? = some n → n ∈ node.dir.hashed
    else ThreadFor node.dir node.agent.hashComputing node.taken[0]?

/-- The hash of the last snapshot is there once the thread has ended. -/
theorem Ready.join_hashed (h : Ready config timestamp node k) {n : Nat}
    (hn : node.taken[0]? = some n) : n ∈ node.join.dir.hashed := by
  obtain ⟨_, _, _, hhashed, _⟩ := node.join_spec
  obtain ⟨_, hthere⟩ | hthread := h.thread
  · exact hhashed n (.inl (hthere n hn))
  · exact hhashed n (.inr (hthread.trans hn))

theorem Ready.finish (h : Ready config timestamp node k) :
    Sealing config timestamp
      (node.finishHashComputingAndUpdateHashesIfNeeded config (timestamp (k + 1))) k := by
  unfold finishHashComputingAndUpdateHashesIfNeeded
  by_cases hdue : Due config timestamp node.taken (k + 1)
  · rw [if_pos ((isTimeToDoSnapshot_iff _ h.time).mpr hdue)]
    have hroot : rootSnapshot config timestamp node.taken (k + 1) = node.taken[0]? := if_pos hdue
    have hpersisted := h.toPersisted.join
    obtain ⟨_, htaken, hnumbers, _, hagent⟩ := node.join_spec
    have hkeeps := Keeps.congr (h.keeps hdue.1) hnumbers
    have hlast := fun n hn => h.join_hashed (n := n) hn
    have htime : node.join.agent.lastSnapshotCreationTime = lastTime timestamp node.taken := by
      rw [hagent]
      exact h.time hdue.1
    have hfree : node.join.agent.hashComputing = none := by rw [hagent]
    dsimp only
    rw [hkeeps.getLatestSnapshots h.descending]
    cases hsome : node.taken[0]? with
    | none =>
      rw [if_neg (by simp)]
      refine ⟨⟨hpersisted, fun _ => htaken ▸ hkeeps, fun _ => htaken ▸ htime⟩, ?_, ?_, ?_⟩
      · have hempty : node.taken = [] := by simpa using hsome
        rw [htaken, hagent, hroot, hsome, h.withHash, hempty]
        rfl
      · rw [htaken, hroot, hsome]
        exact nofun
      · rw [htaken, if_pos hdue]
        exact ⟨hfree, hlast⟩
    | some last =>
      have hmem := mem_take_two hsome Nat.two_pos
      have hpos := h.taken_le (List.mem_of_mem_take hmem)
      rw [if_pos (by simpa using hpos.1.ne')]
      have hleave := hkeeps.leave h.descending
      have hkept : ∀ {n : Nat}, n ∈ node.taken.take 2 → n ∈ node.join.dir.hashed →
          n ∈ (node.join.dir.leaveNLastSnapshots 2).hashed := hkeeps.leave_hashed h.descending
      refine ⟨⟨⟨hpersisted.blocks, hpersisted.taken, fun _ _ => htaken ▸ hleave, ?_, ?_⟩,
        fun _ => htaken ▸ hleave, fun _ => htaken ▸ htime⟩, ?_, ?_, ?_⟩
      · rintro rfl
        omega
      · intro n hn
        have hsecond := hpersisted.hashed n hn
        rw [htaken] at hn
        exact hkept (mem_take_two hn Nat.one_lt_two) hsecond
      · rw [htaken, hroot, hsome]
        rfl
      · rw [htaken, hroot, hsome]
        rintro n ⟨⟩
        exact ⟨hleave.mem hmem, hkept hmem (hlast last hsome)⟩
      · rw [htaken, if_pos hdue]
        exact ⟨hfree, fun n hn => hkept (mem_take_two hn Nat.two_pos) (hlast n hn)⟩
  · rw [if_neg (mt (isTimeToDoSnapshot_iff _ h.time).mp hdue)]
    have hroot : rootSnapshot config timestamp node.taken (k + 1) = node.taken[1]? := if_neg hdue
    refine ⟨h.toTimed, ?_, ?_, ?_⟩
    · rw [hroot]
      exact h.withHash
    · rw [hroot]
      intro n hn
      have hpos : 0 < config.snapshotIntervalSec := by
        by_contra hdisabled
        rw [h.taken, plan_taken_of_disabled hdisabled] at hn
        cases hn
      exact ⟨(h.keeps hpos).mem (mem_take_two hn Nat.one_lt_two), h.hashed n hn⟩
    · rw [if_neg hdue]
      exact h.thread

/-! ### Sealing and storing the block -/

/-- A thread is started for the last snapshot, unless one is there or its hash
is. -/
theorem Timed.startHashComputingThreadIfFree (h : Timed config timestamp node k)
    (hpos : 0 < config.snapshotIntervalSec)
    (hwithHash : node.agent.lastSnapshotedBlockWithHash = hashNumber node.taken[1]?)
    (hthread : node.agent.hashComputing = none ∨
      ThreadFor node.dir node.agent.hashComputing node.taken[0]?) :
    Ready config timestamp node.startHashComputingThreadIfFree k := by
  have hlatest := (h.keeps hpos).getLatestSnapshots h.descending
  unfold SnapshotNode.startHashComputingThreadIfFree
  rw [hlatest]
  cases htaken : node.taken[0]? with
  | none =>
    rw [if_neg (by simp)]
    rw [htaken] at hthread
    obtain hnone | hthread := hthread
    · exact ⟨h, hwithHash, htaken ▸ .inr hnone⟩
    · exact ⟨h, hwithHash, htaken ▸ hthread⟩
  | some last =>
    rw [htaken] at hthread
    by_cases hfree : node.agent.hashComputing = none
    · have hlast : last ≠ 0 := (h.taken_le (List.mem_of_getElem? htaken)).1.ne'
      rw [if_pos ⟨by rw [hfree]; rfl, hlast⟩, startHashComputingThreadIfNeeded_eq,
        hlatest, htaken, hfree]
      refine ⟨⟨h.congr rfl rfl rfl, h.keeps, h.time⟩, hwithHash, ?_⟩
      rw [htaken]
      exact threadFor_last node.dir last
    · rw [if_neg fun hboth => hfree (Option.isNone_iff_eq_none.mp hboth.1)]
      exact ⟨h, hwithHash, htaken ▸ hthread.resolve_left hfree⟩

namespace Sealing

variable (h : Sealing config timestamp node k)

include h

/-- The state root is the one of the schedule. -/
theorem stateRootToSet :
    node.stateRootToSet config =
      some (plannedRoot config timestamp (plan config timestamp k) (k + 1)) := by
  unfold SnapshotNode.stateRootToSet plannedRoot
  dsimp only
  rw [h.root, h.blocks, ← h.taken]
  cases hroot : rootSnapshot config timestamp node.taken (k + 1) with
  | none =>
    rw [if_neg (by decide)]
    cases (plan config timestamp k).blocks.getLast? with
    | none | some block => rfl
  | some n =>
    obtain ⟨hnumbers, hhashed⟩ := h.available n hroot
    have hpos : 0 < n := (h.taken_le (rootSnapshot_mem hroot)).1
    have hhash : node.getSnapshotHash config n = some (config.snapshotHash n) := by
      have hW : ¬ (node.agent.lastSnapshotedBlockWithHash < (n : Int) ∧ n ≠ 0) := by
        rw [h.root, hroot]
        exact fun hlt => absurd hlt.1 (Int.lt_irrefl _)
      rw [getSnapshotHash, if_neg hW, if_neg (not_not_intro hnumbers),
        if_neg (not_not_intro hhashed)]
    rw [if_pos (show 0 < hashNumber (some n) from Int.natCast_pos.mpr hpos)]
    change Option.map _ (node.getSnapshotHash config n) = _
    rw [hhash]
    rfl

/-- The block is stored, and its snapshot is still to come. -/
theorem storeBlock : node.storeBlock config (timestamp (k + 1)) =
    some { node with blocks := (plan config timestamp (k + 1)).blocks } := by
  rw [SnapshotNode.storeBlock, h.stateRootToSet, Option.map_some, h.blocks]
  rfl

/-- Without a snapshot due, nothing is missing on disk, and the agent is as before. -/
theorem stored (hdue : ¬ Due config timestamp node.taken (k + 1)) :
    Ready config timestamp { node with blocks := (plan config timestamp (k + 1)).blocks }
      (k + 1) := by
  have hplan := h.plan_taken
  have hroot := h.root
  have hthread := h.thread
  rw [if_neg hdue] at hplan hthread
  rw [rootSnapshot, if_neg hdue] at hroot
  exact ⟨⟨⟨rfl, hplan.symm, fun hpos _ => h.keeps hpos, fun hk => absurd hk (Nat.succ_ne_zero k),
    h.hashed⟩, h.keeps, h.time⟩, hroot, hthread⟩

/-! ### The snapshot -/

/-- The node after the snapshot, once the block is stored. -/
theorem doSnapshotIfNeeded :
    Ready config timestamp
      (SnapshotNode.doSnapshotIfNeeded config
        { node with blocks := (plan config timestamp (k + 1)).blocks } (timestamp (k + 1)))
      (k + 1) := by
  have htime : (0 < config.snapshotIntervalSec ∧ isTimeToDoSnapshot config
      { node with blocks := (plan config timestamp (k + 1)).blocks } (timestamp (k + 1)) = true) ↔
        Due config timestamp node.taken (k + 1) := isTimeToDoSnapshot_iff _ h.time
  unfold SnapshotNode.doSnapshotIfNeeded
  by_cases hdue : Due config timestamp node.taken (k + 1)
  · obtain ⟨hpos, hnow⟩ := htime.mpr hdue
    have hplan := h.plan_taken
    have hroot := h.root
    have hthread := h.thread
    rw [if_pos hdue] at hplan hthread
    rw [rootSnapshot, if_pos hdue] at hroot
    obtain ⟨dir', hsnapshot, hhashed, hkeeps⟩ := (h.keeps hdue.1).doSnapshot
      (fun n hn => Nat.lt_succ_of_le (h.taken_le hn).2) (Nat.succ_ne_zero k)
    rw [if_neg (Int.not_le.mpr hpos), if_pos hnow]
    unfold SnapshotNode.doSnapshotNow number
    rw [length_plan, hsnapshot]
    refine Timed.startHashComputingThreadIfFree ⟨⟨rfl, hplan.symm, fun _ _ => hkeeps,
      fun hk => absurd hk (Nat.succ_ne_zero k), ?_⟩, fun _ => hkeeps, fun _ => rfl⟩ hpos hroot
      (.inl hthread.1)
    dsimp only
    rw [hhashed]
    exact hthread.2
  · have hready := h.stored hdue
    split
    · exact hready
    · next henabled =>
        have hpos := Int.not_le.mp henabled
        rw [if_neg fun hnow => hdue (htime.mp ⟨hpos, hnow⟩)]
        exact hready.startHashComputingThreadIfFree hpos hready.withHash (.inr hready.thread)

end Sealing

end SnapshotNode

end Skaled
