import Skaled.Snapshot.ScheduleLaws

/-! # Runs of a node with crashes

Whatever happens in between, a node makes the snapshots of the schedule and puts
its state roots into the blocks, unless it stops after a block was stored whose
snapshot is due. That snapshot is then never made.
-/

namespace Skaled.SnapshotNode

variable {config : SnapshotConfig} {timestamp : Nat → Nat} {node : SnapshotNode} {k : Nat}

/-! ## What no step changes -/

structure SameChain (node node' : SnapshotNode) : Prop where
  blocks : node'.blocks = node.blocks
  taken : node'.taken = node.taken

theorem SameChain.trans {node node' node'' : SnapshotNode} (h : SameChain node node')
    (h' : SameChain node' node'') : SameChain node node'' :=
  ⟨h'.blocks.trans h.blocks, h'.taken.trans h.taken⟩

theorem SameChain.number_eq {node node' : SnapshotNode} (h : SameChain node node') :
    node'.number = node.number :=
  congrArg List.length h.blocks

section

variable (config : SnapshotConfig) (node : SnapshotNode)

theorem sameChain_initAgent (current t : Nat) :
    SameChain node (node.initAgent config current t) := by
  have hzero : SameChain node (node.doSnapshotAndComputeHash 0) := by
    unfold doSnapshotAndComputeHash
    split <;> exact ⟨rfl, rfl⟩
  have hinit : ∀ node : SnapshotNode, SameChain node (node.initFromSnapshots t) := by
    intro node
    unfold initFromSnapshots
    simp only [startHashComputingThreadIfNeeded_eq]
    split
    · exact ⟨rfl, rfl⟩
    · split <;> exact ⟨rfl, rfl⟩
  unfold initAgent
  split
  · exact ⟨rfl, rfl⟩
  · split
    · exact hzero.trans (hinit _)
    · exact hinit node

theorem sameChain_beginImport (t : Nat) :
    SameChain node (node.beginImport config t) ∧
      (node.beginImport config t).agentInited = true := by
  unfold beginImport
  split
  · next hinited => exact ⟨⟨rfl, rfl⟩, hinited⟩
  · obtain ⟨hblocks, htaken⟩ := sameChain_initAgent config node 0 t
    exact ⟨⟨hblocks, htaken⟩, rfl⟩

theorem sameChain_join : SameChain node node.join ∧ node.join.agentInited = node.agentInited := by
  unfold join
  split <;> exact ⟨⟨rfl, rfl⟩, rfl⟩

theorem sameChain_finish (t : Nat) :
    SameChain node (node.finishHashComputingAndUpdateHashesIfNeeded config t) ∧
      (node.finishHashComputingAndUpdateHashesIfNeeded config t).agentInited =
        node.agentInited := by
  obtain ⟨hsame, hinited⟩ := node.sameChain_join
  unfold finishHashComputingAndUpdateHashesIfNeeded
  split
  · dsimp only
    split
    · exact ⟨⟨hsame.blocks, hsame.taken⟩, hinited⟩
    · exact ⟨hsame, hinited⟩
  · exact ⟨⟨rfl, rfl⟩, rfl⟩

theorem sameChain_crash (hashWritten : Bool) : SameChain node (node.crash config hashWritten) := by
  have hrestart : ∀ node : SnapshotNode, SameChain node (node.restart config) := by
    intro node
    unfold restart
    dsimp only
    split
    · obtain ⟨hblocks, htaken⟩ := sameChain_initAgent config
        { node with agent := {}, agentInited := false } node.number
        (timestampOf { node with agent := {}, agentInited := false } 1)
      exact ⟨hblocks, htaken⟩
    · exact ⟨rfl, rfl⟩
  unfold crash
  split
  · exact node.sameChain_join.1.trans (hrestart _)
  · exact hrestart node

/-- The snapshot that is made, if any, is the one of the last block. -/
theorem doSnapshotIfNeeded_spec (t : Nat) :
    (node.doSnapshotIfNeeded config t).blocks = node.blocks ∧
      ((node.doSnapshotIfNeeded config t).taken = node.taken ∨
        (node.doSnapshotIfNeeded config t).taken = node.number :: node.taken) ∧
      (node.doSnapshotIfNeeded config t).agentInited = node.agentInited := by
  have hnow : (node.doSnapshotNow t).blocks = node.blocks ∧
      ((node.doSnapshotNow t).taken = node.taken ∨
        (node.doSnapshotNow t).taken = node.number :: node.taken) ∧
      (node.doSnapshotNow t).agentInited = node.agentInited := by
    unfold doSnapshotNow
    split
    · exact ⟨rfl, .inr rfl, rfl⟩
    · exact ⟨rfl, .inl rfl, rfl⟩
  have hfree : ∀ node : SnapshotNode, SameChain node node.startHashComputingThreadIfFree ∧
      node.startHashComputingThreadIfFree.agentInited = node.agentInited := by
    intro node
    unfold startHashComputingThreadIfFree
    rw [startHashComputingThreadIfNeeded_eq]
    split <;> exact ⟨⟨rfl, rfl⟩, rfl⟩
  unfold doSnapshotIfNeeded
  split
  · exact ⟨rfl, .inl rfl, rfl⟩
  · split
    · obtain ⟨⟨hblocks, htaken⟩, hinited⟩ := hfree (node.doSnapshotNow t)
      rw [hblocks, htaken, hinited]
      exact hnow
    · obtain ⟨⟨hblocks, htaken⟩, hinited⟩ := hfree node
      rw [hblocks, htaken, hinited]
      exact ⟨rfl, .inl rfl, rfl⟩

end

variable {node' : SnapshotNode} {event : Option SnapshotCrash}
  {events : List (Option SnapshotCrash)}

theorem storeBlock_spec {t : Nat} (h : node.storeBlock config t = some node') :
    node'.number = node.number + 1 ∧ node'.taken = node.taken := by
  obtain ⟨stateRoot, _, rfl⟩ := Option.map_eq_some_iff.mp h
  exact ⟨List.length_append, rfl⟩

/-- A part of an import makes at most the snapshot of its block. -/
theorem importUpTo_spec {t : Nat} {stage : ImportStage}
    (h : node.importUpTo config t stage = some node') :
    node.number ≤ node'.number ∧ ∀ n ∈ node'.taken, n ∈ node.taken ∨ n = node.number + 1 := by
  have hfinished : SameChain node
      ((node.beginImport config t).finishHashComputingAndUpdateHashesIfNeeded config t) :=
    (sameChain_beginImport config node t).1.trans (sameChain_finish config _ t).1
  have hsame : ∀ node', SameChain node node' →
      node.number ≤ node'.number ∧ ∀ n ∈ node'.taken, n ∈ node.taken ∨ n = node.number + 1 := by
    intro node' hsame
    rw [hsame.number_eq, hsame.taken]
    exact ⟨Nat.le_refl _, fun _ => .inl⟩
  cases stage with
  | beforeFinish =>
    cases h
    exact hsame _ (sameChain_beginImport config node t).1
  | afterFinish =>
    cases h
    exact hsame _ hfinished
  | afterStored =>
    obtain ⟨hnumber, htaken⟩ := storeBlock_spec h
    rw [hnumber, htaken, hfinished.taken, hfinished.number_eq]
    exact ⟨Nat.le_succ _, fun _ => .inl⟩
  | afterSnapshot =>
    obtain ⟨stored, hstore, rfl⟩ := Option.map_eq_some_iff.mp h
    obtain ⟨hnumber, htaken⟩ := storeBlock_spec hstore
    obtain ⟨hblocks, hsnapshot, _⟩ := doSnapshotIfNeeded_spec config stored t
    rw [hfinished.number_eq] at hnumber
    rw [hfinished.taken] at htaken
    have hlast : (stored.doSnapshotIfNeeded config t).number = node.number + 1 :=
      (congrArg List.length hblocks).trans hnumber
    refine ⟨by omega, fun n hn => ?_⟩
    obtain heq | heq := hsnapshot
    · rw [heq, htaken] at hn
      exact .inl hn
    · rw [heq, htaken, hnumber] at hn
      exact (List.mem_cons.mp hn).symm

/-- A step makes at most the snapshot of the block that it imports. -/
theorem step_spec (h : node.step config timestamp event = some node') :
    node.number ≤ node'.number ∧ ∀ n ∈ node'.taken, n ∈ node.taken ∨ n = node.number + 1 := by
  unfold step at h
  cases event with
  | none => exact importUpTo_spec h
  | some c =>
    obtain ⟨stopped, himport, rfl⟩ := Option.map_eq_some_iff.mp h
    have hsame := sameChain_crash config stopped c.hashWritten
    rw [hsame.number_eq, hsame.taken]
    exact importUpTo_spec himport

/-! ## Snapshots that get lost -/

/-- The event does not lose a snapshot: it is no crash after the block was stored
when the next snapshot is due for this block. -/
def Timely (config : SnapshotConfig) (timestamp : Nat → Nat) (node : SnapshotNode) :
    Option SnapshotCrash → Prop
  | some ⟨.afterStored, _⟩ => ¬ Due config timestamp node.taken (node.number + 1)
  | _ => True

/-- No event of the run loses a snapshot. -/
def AllTimely (config : SnapshotConfig) (timestamp : Nat → Nat) (node : SnapshotNode) :
    List (Option SnapshotCrash) → Prop
  | [] => True
  | event :: events =>
    Timely config timestamp node event ∧
      ∀ node', node.step config timestamp event = some node' →
        AllTimely config timestamp node' events

/-! ## Steps and runs -/

theorem Follows.persisted (h : Follows config timestamp node k) :
    Persisted config timestamp node k := by
  cases h with
  | created hnode _ _ => exact hnode
  | running hready _ => exact hready.toPersisted

/-- One step: the node follows the schedule, unless a snapshot is lost. -/
theorem Follows.step (h : Follows config timestamp node k)
    (htimely : Timely config timestamp node event) :
    ∃ node', node.step config timestamp event = some node' ∧
      (Follows config timestamp node' k ∧ event ≠ none ∨
        Follows config timestamp node' (k + 1)) := by
  have hready := h.beginImport
  have hsealing := hready.finish
  have hstore := hsealing.storeBlock
  have hsnapshot := hsealing.doSnapshotIfNeeded
  unfold SnapshotNode.step
  rw [h.persisted.number_eq]
  match event with
  | none =>
    refine ⟨_, congrArg (Option.map _) hstore, .inr (.running hsnapshot ?_)⟩
    rw [(doSnapshotIfNeeded_spec config _ _).2.2]
    refine (sameChain_finish config _ _).2.trans ?_
    exact (sameChain_beginImport config node _).2
  | some ⟨.beforeFinish, written⟩ =>
    exact ⟨_, rfl, .inl ⟨hready.toPersisted.crash written, nofun⟩⟩
  | some ⟨.afterFinish, written⟩ =>
    exact ⟨_, rfl, .inl ⟨hsealing.toPersisted.crash written, nofun⟩⟩
  | some ⟨.afterStored, written⟩ =>
    refine ⟨_, congrArg (Option.map _) hstore, .inr ?_⟩
    refine (hsealing.stored ?_).toPersisted.crash written
    rw [Timely, h.persisted.taken, h.persisted.number_eq] at htimely
    rwa [hsealing.taken]
  | some ⟨.afterSnapshot, written⟩ =>
    refine ⟨_, congrArg (Option.map _) (congrArg (Option.map _) hstore), .inr ?_⟩
    exact hsnapshot.toPersisted.crash written

theorem follows_initial : Follows config timestamp {} 0 :=
  .created ⟨rfl, rfl, fun _ hk => absurd hk (Nat.lt_irrefl 0), fun _ => .inl rfl, nofun⟩ rfl rfl

/-- Imports without crashes. -/
theorem Follows.run_replicate (h : Follows config timestamp node k) (count : Nat) :
    ∃ whole, run config timestamp node (List.replicate count none) = some whole ∧
      Follows config timestamp whole (k + count) := by
  induction count generalizing node k with
  | zero => exact ⟨node, rfl, h⟩
  | succ count ih =>
    have htimely : Timely config timestamp node none := trivial
    obtain ⟨node', hstep, ⟨_, hnone⟩ | hfollows⟩ := h.step htimely
    · exact absurd rfl hnone
    · obtain ⟨whole, hrun, hwhole⟩ := ih hfollows
      refine ⟨whole, ?_, ?_⟩
      · rw [List.replicate_succ, run, hstep]
        exact hrun
      · rwa [Nat.add_right_comm] at hwhole

/-- A run that loses no snapshot follows the schedule. -/
theorem Follows.run (h : Follows config timestamp node k)
    (htimely : AllTimely config timestamp node events) :
    ∃ node' k', run config timestamp node events = some node' ∧
      Follows config timestamp node' k' := by
  induction events generalizing node k with
  | nil => exact ⟨node, k, rfl, h⟩
  | cons event events ih =>
    obtain ⟨node', hstep, hfollows⟩ := h.step htimely.1
    rw [SnapshotNode.run, hstep]
    obtain ⟨hfollows, _⟩ | hfollows := hfollows
    · exact ih hfollows (htimely.2 node' hstep)
    · exact ih hfollows (htimely.2 node' hstep)

/-- A snapshot that was not made in its time is not made later. -/
theorem run_missing {n : Nat} (hrun : run config timestamp node events = some node')
    (hle : n ≤ node.number) (hmissing : n ∉ node.taken) : n ≤ node'.number ∧ n ∉ node'.taken := by
  induction events generalizing node with
  | nil =>
    cases hrun
    exact ⟨hle, hmissing⟩
  | cons event events ih =>
    obtain ⟨middle, hstep, hrun⟩ := Option.bind_eq_some_iff.mp hrun
    obtain ⟨hnumber, htaken⟩ := step_spec hstep
    refine ih hrun (Nat.le_trans hle hnumber) fun hmem => ?_
    obtain hmem | rfl := htaken n hmem
    · exact hmissing hmem
    · omega

/-- A step that loses a snapshot: the schedule has it, the node does not. -/
theorem Follows.step_lost (h : Follows config timestamp node k)
    (hlost : ¬ Timely config timestamp node event)
    (hstep : node.step config timestamp event = some node') :
    node'.number = k + 1 ∧ k + 1 ∉ node'.taken ∧
      k + 1 ∈ (plan config timestamp (k + 1)).taken := by
  have hnode := h.persisted
  match event with
  | none => exact absurd trivial hlost
  | some ⟨.beforeFinish, _⟩ => exact absurd trivial hlost
  | some ⟨.afterFinish, _⟩ => exact absurd trivial hlost
  | some ⟨.afterSnapshot, _⟩ => exact absurd trivial hlost
  | some ⟨.afterStored, written⟩ =>
    have hdue := not_not.mp hlost
    obtain ⟨stored, hstore, rfl⟩ := Option.map_eq_some_iff.mp hstep
    obtain ⟨hnumber, htaken⟩ := storeBlock_spec hstore
    have hsame := sameChain_crash config stored written
    have hbefore := (sameChain_beginImport config node (timestamp (node.number + 1))).1.trans
      (sameChain_finish config _ (timestamp (node.number + 1))).1
    rw [hnode.taken, hnode.number_eq] at hdue
    refine ⟨?_, ?_, ?_⟩
    · rw [hsame.number_eq, hnumber, hbefore.number_eq, hnode.number_eq]
    · rw [hsame.taken, htaken, hbefore.taken, hnode.taken]
      exact fun hmem => absurd (plan_taken_le hmem).2 (Nat.not_succ_le_self k)
    · rw [plan, if_pos hdue]
      exact List.mem_cons_self

/-- A run that loses a snapshot does not come back to the schedule. -/
theorem Follows.run_lost (h : Follows config timestamp node k)
    (hlost : ¬ AllTimely config timestamp node events)
    (hrun : SnapshotNode.run config timestamp node events = some node') :
    node'.taken ≠ (plan config timestamp node'.number).taken := by
  induction events generalizing node k with
  | nil => exact absurd trivial hlost
  | cons event events ih =>
    obtain ⟨middle, hstep, hrun⟩ := Option.bind_eq_some_iff.mp hrun
    by_cases htimely : Timely config timestamp node event
    · obtain ⟨middle', hstep', hfollows⟩ := h.step htimely
      obtain rfl : middle = middle' := Option.some.inj (hstep.symm.trans hstep')
      have hrest : ¬ AllTimely config timestamp middle events := by
        intro hall
        refine hlost ⟨htimely, fun next hnext => ?_⟩
        obtain rfl : middle = next := Option.some.inj (hstep.symm.trans hnext)
        exact hall
      obtain ⟨hfollows, _⟩ | hfollows := hfollows
      · exact ih hfollows hrest hrun
      · exact ih hfollows hrest hrun
    · obtain ⟨hnumber, hmissing, hplanned⟩ := h.step_lost htimely hstep
      obtain ⟨hle, hmissing⟩ := run_missing hrun hnumber.ge hmissing
      intro heq
      exact hmissing (heq ▸ mem_plan_taken hplanned hle)

/-- The node has the blocks, with their state roots, and has made the snapshots
of a node that imports as many blocks and never stops. -/
def Agrees (config : SnapshotConfig) (timestamp : Nat → Nat) (result : Option SnapshotNode) :
    Prop :=
  ∃ node whole, result = some node ∧
    run config timestamp {} (List.replicate node.number none) = some whole ∧
    node.blocks = whole.blocks ∧ node.taken = whole.taken

/-- **The schedule and restarts.** A run agrees with the run without crashes
exactly when it has no crash between the storing of a block and the snapshot that
is due for it. -/
theorem agrees_iff_allTimely (config : SnapshotConfig) (timestamp : Nat → Nat)
    (events : List (Option SnapshotCrash)) :
    Agrees config timestamp (run config timestamp {} events) ↔
      AllTimely config timestamp {} events := by
  refine ⟨fun hagrees => ?_, fun htimely => ?_⟩
  · by_contra hlost
    obtain ⟨node, whole, hrun, hwhole, _, htaken⟩ := hagrees
    obtain ⟨whole', hwhole', hfollows⟩ := follows_initial.run_replicate node.number
    obtain rfl : whole = whole' := Option.some.inj (hwhole.symm.trans hwhole')
    rw [Nat.zero_add] at hfollows
    exact follows_initial.run_lost hlost hrun (htaken.trans hfollows.persisted.taken)
  · obtain ⟨node, k, hrun, hfollows⟩ := follows_initial.run htimely
    obtain ⟨whole, hwhole, hplan⟩ := follows_initial.run_replicate k
    rw [Nat.zero_add] at hplan
    refine ⟨node, whole, hrun, ?_, ?_, ?_⟩
    · rw [hfollows.persisted.number_eq]
      exact hwhole
    · rw [hfollows.persisted.blocks, hplan.persisted.blocks]
    · rw [hfollows.persisted.taken, hplan.persisted.taken]

/-- A snapshot every ten seconds. -/
def sampleConfig : SnapshotConfig where
  snapshotIntervalSec := 10
  snapshotHash := fun number => number
  overrideStateRoot := fun _ => 0

/-- Two blocks in every interval. -/
def sampleTimes (number : Nat) : Nat := 10 * (number / 2) + 5

/-- Block 2 is the first one of its interval. The node stops once it is stored,
and makes the snapshot of block 3 instead; block 4, the first one of the next
interval, gets another state root. -/
theorem sample_lost_snapshot :
    let whole := run sampleConfig sampleTimes {} (List.replicate 6 none)
    let crashed := run sampleConfig sampleTimes {}
      [none, some ⟨.afterStored, false⟩, none, none, none, none]
    whole.map (·.taken) = some [6, 4, 2] ∧ crashed.map (·.taken) = some [6, 4, 3] ∧
      whole.map (·.blocks[3]?) = some (some { timestamp := 25, stateRoot := 2 }) ∧
      crashed.map (·.blocks[3]?) = some (some { timestamp := 25, stateRoot := 3 }) := by
  decide +kernel

end Skaled.SnapshotNode
