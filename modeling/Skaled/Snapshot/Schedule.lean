import Skaled.Basic

/-! # When snapshots are made

`SnapshotAgent` and the parts of `Client::importTransactionsAsBlock` that call
it. A snapshot is made of the first block in each interval of time; its hash is
computed by a thread until the next snapshot is due, and is then the state root
of the blocks that follow. What the agent keeps in memory is rebuilt from the
directory of snapshots when the program starts.

An import is a sequence of stages, and the program can stop between any two of
them. The hash of a snapshot is a function of its block. The chain in a snapshot
is the chain up to its block, so the timestamp that is read from a snapshot is
read from the chain here. Headers of old blocks are always readable: rotation of
the block database is not part of this. Assertions are left out, as in the
default build.
-/

namespace Skaled

/-- A block of the chain, as far as snapshots are concerned. -/
structure SealedBlock where
  timestamp : Nat
  stateRoot : H256
  deriving DecidableEq, Repr

/-- The directory of snapshots: their block numbers, and the numbers of those
with a file for their hash. -/
structure SnapshotDir where
  numbers : List Nat := []
  hashed : List Nat := []
  deriving DecidableEq, Repr

namespace SnapshotDir

/-- The numbers but zero, as a map sorted by `std::greater` has them. -/
def ordered (dir : SnapshotDir) : List Nat :=
  (dir.numbers.filter (· ≠ 0)).insertionSort (· ≥ ·)

/-- The last snapshot and the one before it; zero stands for none. -/
def getLatestSnapshots (dir : SnapshotDir) : Nat × Nat :=
  match dir.ordered with
  | [] => (0, 0)
  | [second] => (0, second)
  | second :: first :: _ => (first, second)

def leaveNLastSnapshots (dir : SnapshotDir) (n : Nat) : SnapshotDir :=
  let deleted := dir.ordered.drop n
  { numbers := dir.numbers.filter (· ∉ deleted)
    hashed := dir.hashed.filter (· ∉ deleted) }

/-- Make a snapshot; `none` stands for `SnapshotPresent`. -/
def doSnapshot (dir : SnapshotDir) (number : Nat) : Option SnapshotDir :=
  if number ∈ dir.numbers then none else some { dir with numbers := number :: dir.numbers }

def computeSnapshotHash (dir : SnapshotDir) (number : Nat) : SnapshotDir :=
  if number ∈ dir.hashed then dir else { dir with hashed := number :: dir.hashed }

end SnapshotDir

/-- What the agent keeps in memory. `hashComputing` is the block whose hash a
thread computes, as long as the thread was not joined. -/
structure SnapshotAgent where
  lastSnapshotCreationTime : Nat := 0
  lastSnapshotedBlockWithHash : Int := -1
  hashComputing : Option Nat := none
  deriving DecidableEq, Repr

/-- The interval of the chain, the hashes of snapshots, and the state root that
`AmsterdamFixPatch` puts in place of others, zero when it has none. -/
structure SnapshotConfig where
  snapshotIntervalSec : Int
  snapshotHash : Nat → H256
  overrideStateRoot : List SealedBlock → H256

/-- A node: the chain and the directory of snapshots, the agent in memory, and
the numbers of all blocks of which a snapshot was made, apart from block zero. -/
structure SnapshotNode where
  blocks : List SealedBlock := []
  dir : SnapshotDir := {}
  agent : SnapshotAgent := {}
  agentInited : Bool := false
  taken : List Nat := []
  deriving DecidableEq, Repr

def emptyStrHash : H256 := 0x66687aadf862bd776c8fc18b8e9f8e20089714856ee233b3902a591d0d5f2925

namespace SnapshotNode

variable (config : SnapshotConfig) (node : SnapshotNode)

def number : Nat := node.blocks.length

def timestampOf (number : Nat) : Nat :=
  ((node.blocks[number - 1]?).map (·.timestamp)).getD 0

def isTimeToDoSnapshot (timestamp : Nat) : Bool :=
  node.agent.lastSnapshotCreationTime / config.snapshotIntervalSec.toNat <
    timestamp / config.snapshotIntervalSec.toNat

def startHashComputingThread : SnapshotNode :=
  { node with agent.hashComputing := some node.dir.getLatestSnapshots.2 }

def startHashComputingThreadIfNeeded : SnapshotNode :=
  if node.dir.getLatestSnapshots.2 ∈ node.dir.hashed then node
  else node.startHashComputingThread

/-- The end of `doSnapshotIfNeeded`: start a thread unless there is one. -/
def startHashComputingThreadIfFree : SnapshotNode :=
  if node.agent.hashComputing.isNone ∧ node.dir.getLatestSnapshots.2 ≠ 0 then
    node.startHashComputingThreadIfNeeded
  else node

/-- The snapshot of block zero. When it is there already, its hash is taken to
be there, too. -/
def doSnapshotAndComputeHash (number : Nat) : SnapshotNode :=
  match node.dir.doSnapshot number with
  | some dir => { node with dir := dir.computeSnapshotHash number }
  | none => node

/-- What `SnapshotAgent::init` makes of the directory. -/
def initFromSnapshots (timestampOfBlock1 : Nat) : SnapshotNode :=
  let latest := node.dir.getLatestSnapshots
  if latest.1 ≠ 0 then
    { node with
      agent.lastSnapshotedBlockWithHash := latest.1
      agent.lastSnapshotCreationTime := node.timestampOf latest.2
    }.startHashComputingThreadIfNeeded
  else if latest.2 ≠ 0 then
    { node with
      agent.lastSnapshotedBlockWithHash := -1
      agent.lastSnapshotCreationTime := node.timestampOf latest.2
    }.startHashComputingThreadIfNeeded
  else
    { node with
      agent.lastSnapshotedBlockWithHash := -1
      agent.lastSnapshotCreationTime := timestampOfBlock1 }

def initAgent (currentBlockNumber timestampOfBlock1 : Nat) : SnapshotNode :=
  if config.snapshotIntervalSec ≤ 0 then node
  else
    (if currentBlockNumber = 0 then node.doSnapshotAndComputeHash 0 else node).initFromSnapshots
      timestampOfBlock1

/-- Wait for the thread. -/
def join : SnapshotNode :=
  match node.agent.hashComputing with
  | some number =>
    { node with dir := node.dir.computeSnapshotHash number, agent.hashComputing := none }
  | none => node

def finishHashComputingAndUpdateHashesIfNeeded (timestamp : Nat) : SnapshotNode :=
  if 0 < config.snapshotIntervalSec ∧ node.isTimeToDoSnapshot config timestamp then
    let node := node.join
    let latest := node.dir.getLatestSnapshots
    if latest.2 ≠ 0 then
      { node with
        agent.lastSnapshotedBlockWithHash := latest.2
        dir := node.dir.leaveNLastSnapshots 2 }
    else node
  else node

def getSnapshotHash (number : Nat) : Option H256 :=
  if node.agent.lastSnapshotedBlockWithHash < number ∧ number ≠ 0 then some 0
  else if number ∉ node.dir.numbers then some 0
  else if number ∉ node.dir.hashed then none
  else some (config.snapshotHash number)

/-- The state root in `Client::sealUnconditionally`. -/
def stateRootToSet : Option H256 :=
  let stateRoot :=
    if 0 < node.agent.lastSnapshotedBlockWithHash then
      node.getSnapshotHash config node.agent.lastSnapshotedBlockWithHash.toNat
    else match node.blocks.getLast? with
      | some block => some block.stateRoot
      | none => some emptyStrHash
  stateRoot.map fun stateRoot =>
    if config.overrideStateRoot node.blocks ≠ 0 then config.overrideStateRoot node.blocks
    else stateRoot

def storeBlock (timestamp : Nat) : Option SnapshotNode :=
  (node.stateRootToSet config).map fun stateRoot =>
    { node with blocks := node.blocks ++ [{ timestamp, stateRoot }] }

/-- The snapshot of the last block, unless it is there. -/
def doSnapshotNow (timestamp : Nat) : SnapshotNode :=
  match node.dir.doSnapshot node.number with
  | some dir =>
    { node with
      dir, taken := node.number :: node.taken, agent.lastSnapshotCreationTime := timestamp }
  | none => { node with agent.lastSnapshotCreationTime := timestamp }

/-- `SnapshotAgent::doSnapshotIfNeeded`, for the last block of the chain. -/
def doSnapshotIfNeeded (timestamp : Nat) : SnapshotNode :=
  if config.snapshotIntervalSec ≤ 0 then node
  else
    (if node.isTimeToDoSnapshot config timestamp then node.doSnapshotNow timestamp
    else node).startHashComputingThreadIfFree

/-! ## Imports and crashes -/

/-- The agent is initialised with the first block. -/
def beginImport (timestamp : Nat) : SnapshotNode :=
  if node.agentInited then node
  else { node.initAgent config 0 timestamp with agentInited := true }

/-- How far an import has come. -/
inductive ImportStage where
  | beforeFinish
  | afterFinish
  | afterStored
  | afterSnapshot
  deriving DecidableEq, Repr

def importUpTo (timestamp : Nat) : ImportStage → Option SnapshotNode
  | .beforeFinish => some (node.beginImport config timestamp)
  | .afterFinish =>
    some ((node.beginImport config timestamp).finishHashComputingAndUpdateHashesIfNeeded config
      timestamp)
  | .afterStored =>
    ((node.beginImport config timestamp).finishHashComputingAndUpdateHashesIfNeeded config
      timestamp).storeBlock config timestamp
  | .afterSnapshot =>
    (((node.beginImport config timestamp).finishHashComputingAndUpdateHashesIfNeeded config
      timestamp).storeBlock config timestamp).map (·.doSnapshotIfNeeded config timestamp)

/-- A crash: the stage it comes after, and whether the thread has written its
hash by then. -/
structure SnapshotCrash where
  stage : ImportStage
  hashWritten : Bool
  deriving DecidableEq, Repr

/-- A new start, as `Client::init` makes it. -/
def restart : SnapshotNode :=
  let node := { node with agent := {}, agentInited := false }
  if node.number ≠ 0 then
    { node.initAgent config node.number (node.timestampOf 1) with agentInited := true }
  else node

/-- The program stops, and starts again. -/
def crash (hashWritten : Bool) : SnapshotNode :=
  (if hashWritten then node.join else node).restart config

variable (timestamp : Nat → Nat)

/-- Import the next block, or stop on the way and start again. -/
def step (event : Option SnapshotCrash) : Option SnapshotNode :=
  match event with
  | none => node.importUpTo config (timestamp (node.number + 1)) .afterSnapshot
  | some c =>
    (node.importUpTo config (timestamp (node.number + 1)) c.stage).map
      (·.crash config c.hashWritten)

def run (node : SnapshotNode) : List (Option SnapshotCrash) → Option SnapshotNode
  | [] => some node
  | event :: events => do run (← node.step config timestamp event) events

end SnapshotNode

end Skaled
