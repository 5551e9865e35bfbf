import Skaled.Executive.Passing
import Skaled.Executive.Precompiles
import Skaled.FileStorage.Precompiled

/-! # File operations and nested frames

A transaction collects the operations of the file storage contracts in `OverlayFS`
and executes them at its end. When a frame fails, `State::rollback` undoes the
changes of the state up to the savepoint of the frame, but it empties the whole
list of operations, and a contract that fails takes back nothing.

`Observed` follows a transaction: what `OverlayFS` holds, and beside it the
operations that should be left, frame by frame. The two agree as long as nothing is
kept when the state is rolled back and no contract fails with an operation.
-/

namespace Skaled.FileStorage

open EStateM (Triple)

/-! ## The list of operations -/

/-- `OverlayFS`, with the operations it has executed. -/
structure OverlayFS where
  isCacheEnabled : Bool
  cache : List Op
  executed : List Op
  deriving DecidableEq, Repr

namespace OverlayFS

/-- `OverlayFS::createFile` and the other methods, for the operations of one call. -/
def perform (fs : OverlayFS) (ops : List Op) : OverlayFS :=
  if fs.isCacheEnabled then { fs with cache := fs.cache ++ ops }
  else { fs with executed := fs.executed ++ ops }

def reset (fs : OverlayFS) : OverlayFS := { fs with cache := [] }

def commit (fs : OverlayFS) : OverlayFS :=
  { fs with executed := fs.executed ++ fs.cache, cache := [] }

/-- `State::resetOverlayFS`, with the patch enabled. -/
def revertable : OverlayFS := ⟨true, [], []⟩

end OverlayFS

/-! ## What a transaction does to the files -/

/-- The files of the node, which do not change while operations are only collected,
and the addresses of the file storage contracts. -/
structure Files where
  dataDir : DataDir
  os : Os
  contractAt : Address → Option Contract

/-- The answer of a contract. A node that has crashed executes nothing at the end of
the transaction; the run goes on as if the contract had failed. -/
def Files.answer (files : Files) (contract : Contract) (input : Bytes) : Bool × Bytes :=
  (contract.run files.dataDir files.os input).1.getD (false, [])

/-- The operations that a contract asks for. -/
def Files.ops (files : Files) (contract : Contract) (input : Bytes) : List Op :=
  (contract.run files.dataDir files.os input).2.ops

/-- The precompiled contracts of a machine, with those for the files. -/
def Files.machine (files : Files) (machine : Machine) : Machine :=
  { machine with
    executePrecompiled := fun s a input number =>
      match files.contractAt a with
      | some contract => files.answer contract input
      | none => machine.executePrecompiled s a input number }

/-- A step of a transaction that matters for the files: a rollback, with the
operations kept so far in the frames that are still running, or the call of a
contract. -/
inductive Step where
  | rollback (kept : List Op)
  | call (contract : Contract) (input : Bytes)
  deriving DecidableEq, Repr

/-- What is seen of a transaction: what `OverlayFS` holds; the operations to keep of
the frame that runs, and of the frames around it; and the steps. -/
structure Observed where
  overlay : OverlayFS
  current : List Op
  enclosing : List (List Op)
  steps : List Step
  deriving DecidableEq, Repr

namespace Observed

/-- At the start of `State::execute`. -/
def start : Observed := ⟨.revertable, [], [], []⟩

/-- The operations to keep, in the order they were recorded in. -/
def kept (w : Observed) : List Op := w.enclosing.reverse.flatten ++ w.current

/-- A call of a contract. It keeps its operations if it succeeds. -/
def call (w : Observed) (files : Files) (contract : Contract) (input : Bytes) : Observed :=
  { w with
    overlay := w.overlay.perform (files.ops contract input)
    current := w.current ++
      if (files.answer contract input).1 then files.ops contract input else []
    steps := w.steps ++ [.call contract input] }

/-- `State::rollback` clears the cache. -/
def rollback (w : Observed) : Observed :=
  { w with overlay := w.overlay.reset, steps := w.steps ++ [.rollback w.kept] }

def enter (w : Observed) : Observed :=
  { w with current := [], enclosing := w.current :: w.enclosing }

/-- The end of a frame. What it kept is kept by the frame around it if it succeeds,
and by none otherwise. -/
def leave (success : Bool) (w : Observed) : Observed :=
  match w.enclosing with
  | [] => w
  | outer :: enclosing =>
    { w with current := outer ++ if success then w.current else [], enclosing }

end Observed

def Files.watch (files : Files) (machine : Machine) : Watch Observed where
  instruction := id
  frame _ := id
  issue _ := id
  execute s a input number w :=
    match files.contractAt a with
    | some contract => (files.answer contract input, w.call files contract input)
    | none => (machine.executePrecompiled s a input number, w)
  rollback := Observed.rollback
  enter := Observed.enter
  leave := Observed.leave

/-! ## Steps that keep the two lists together -/

/-- `createFile` records the directory before it refuses a name with the extension
of hashes. -/
def Files.FailsLate (files : Files) (contract : Contract) (input : Bytes) : Prop :=
  contract = .createFile ∧ ¬files.os.exists_ (directory files.dataDir input) ∧
    ∃ name, fileName input = some name ∧ hashExtension <:+ filename name

/-- A rollback finds nothing to keep, and a contract does not fail late. -/
def Step.Orderly (files : Files) : Step → Prop
  | .rollback kept => kept = []
  | .call contract input => ¬files.FailsLate contract input

/-! ## Contracts that fail -/

/-- A program that has recorded nothing when it fails. -/
def FailsClean {α : Type} (x : FileM α) : Prop :=
  Triple (·.ops = []) x (fun _ _ => True) fun _ did => did.ops = []

/-- A program that records nothing. -/
def Quiet {α : Type} (x : FileM α) : Prop :=
  Triple (·.ops = []) x (fun _ did => did.ops = []) fun _ did => did.ops = []

variable {α β : Type} {w : Observed}

theorem Quiet.bind {x : FileM α} {f : α → FileM β} (hx : Quiet x) (hf : ∀ a, FailsClean (f a)) :
    FailsClean (x >>= f) :=
  Triple.bind hx hf

theorem Quiet.failsClean {x : FileM α} (hx : Quiet x) : FailsClean x :=
  hx.conseq (fun _ => id) (fun _ _ _ => trivial) fun _ _ => id

theorem quiet_throw (e : Stop) : Quiet (throw e : FileM α) :=
  Triple.throw fun _ => id

theorem quiet_pure (a : α) : Quiet (pure a : FileM α) :=
  Triple.pure fun _ => id

theorem quiet_readFile (path : Bytes) : Quiet (readFile path) :=
  Triple.modify fun _ => id

theorem quiet_statComputeFileSize (os : Os) (path : Bytes) :
    Quiet (statComputeFileSize os path) := by
  refine Triple.bind (quiet_readFile path) fun _ => ?_
  cases os.lookup path with
  | none => exact quiet_throw _
  | some entry => exact quiet_pure _

/-- Recording is the last thing a contract does. -/
theorem record_pure_failsClean (op : Op) (b : β) :
    FailsClean (record op >>= fun _ => (pure b : FileM β)) := by
  intro did _
  exact trivial

theorem failsClean_writeChunk (path : Bytes) (position dataLength : Nat) (data : Option Bytes)
    (b : β) :
    FailsClean (writeChunk path position dataLength data >>= fun _ => (pure b : FileM β)) := by
  cases data with
  | some data => exact record_pure_failsClean _ _
  | none =>
    simp only [writeChunk]
    split
    · exact record_pure_failsClean _ _
    · split
      · exact fun did hdid => hdid
      · exact fun did hdid => hdid

section Failing

variable {dataDir : DataDir} {os : Os} {input : Bytes}

/-- The name is read before anything is recorded. -/
theorem failsClean_named {body : Bytes × Nat → FileM Bytes}
    (hbody : ∀ name, fileName input = some name → FailsClean (body (name, nameLength input))) :
    FailsClean (convertBytesToString input 32 >>= body) := by
  rw [convertBytesToString_eq]
  cases hname : fileName input with
  | none => exact fun did hdid => hdid
  | some name => exact hbody name hname

theorem quiet_checkCanonical (path : Bytes) : Quiet (checkCanonical dataDir os input path) := by
  unfold checkCanonical
  split
  · exact quiet_pure _
  · exact quiet_throw _

theorem createFile_failsClean
    (hlate : ¬(¬os.exists_ (directory dataDir input) ∧
      ∃ name, fileName input = some name ∧ hashExtension <:+ filename name)) :
    FailsClean (createFile dataDir os input) := by
  refine failsClean_named fun name hname => ?_
  dsimp only
  by_cases hhash : hashExtension <:+ filename name
  · have hexists : os.exists_ (directory dataDir input) := by
      by_contra hmissing
      exact hlate ⟨hmissing, name, hname, hhash⟩
    simp only [if_pos hexists, if_pos hhash]
    exact fun did hdid => hdid
  · by_cases hexists : os.exists_ (directory dataDir input)
    · simp only [if_pos hexists, if_neg hhash]
      exact record_pure_failsClean _ _
    · simp only [if_neg hexists, if_neg hhash]
      exact fun did _ => trivial

theorem Contract.failsClean (contract : Contract)
    (hlate : ¬(contract = .createFile ∧ ¬os.exists_ (directory dataDir input) ∧
      ∃ name, fileName input = some name ∧ hashExtension <:+ filename name)) :
    FailsClean (contract.body dataDir os input) := by
  cases contract with
  | createFile => exact createFile_failsClean fun h => hlate ⟨rfl, h⟩
  | uploadChunk =>
    refine failsClean_named fun name _ => ?_
    refine (quiet_statComputeFileSize os _).bind fun size => ?_
    split
    · exact (quiet_throw _).failsClean
    · exact failsClean_writeChunk _ _ _ _ _
  | readChunk =>
    refine failsClean_named fun name _ => ?_
    refine (quiet_checkCanonical _).bind fun _ => ?_
    refine (quiet_statComputeFileSize os _).bind fun size => ?_
    split
    · exact (quiet_throw _).failsClean
    · refine (quiet_statComputeFileSize os _).bind fun size => ?_
      split
      · exact (quiet_throw _).failsClean
      · refine (quiet_readFile _).bind fun _ => ?_
        split
        · exact (quiet_throw _).failsClean
        · exact (quiet_pure _).failsClean
  | getFileSize =>
    refine failsClean_named fun name _ => ?_
    refine (quiet_checkCanonical _).bind fun _ => ?_
    exact (quiet_statComputeFileSize os _).bind fun size => (quiet_pure _).failsClean
  | deleteFile => exact failsClean_named fun name _ did _ => trivial
  | createDirectory => exact failsClean_named fun name _ => record_pure_failsClean _ _
  | deleteDirectory =>
    refine failsClean_named fun name _ => ?_
    dsimp only
    split
    · exact fun did _ => trivial
    · exact (quiet_throw _).failsClean
  | calculateFileHash =>
    refine failsClean_named fun name _ => ?_
    dsimp only
    split
    · exact record_pure_failsClean _ _
    · exact (quiet_throw _).failsClean

end Failing

/-- A contract that does not fail late leaves no operation behind. -/
theorem Files.ops_of_failed {files : Files} {contract : Contract} {input : Bytes}
    (hlate : ¬files.FailsLate contract input) (hfailed : (files.answer contract input).1 = false) :
    files.ops contract input = [] := by
  have hclean := contract.failsClean hlate ⟨[], []⟩ rfl
  unfold Files.answer Contract.run at hfailed
  unfold Files.ops Contract.run
  cases hrun : contract.body files.dataDir files.os input ⟨[], []⟩ with
  | ok response did =>
    rw [hrun] at hfailed
    cases hfailed
  | error stop did =>
    rw [hrun] at hclean
    cases stop with
    | exception | crash => exact hclean

/-! ## The two lists over a run -/

/-- `OverlayFS` holds just the operations to keep. -/
def Observed.Agrees (w : Observed) : Prop := w.overlay = ⟨true, w.kept, []⟩

/-- What a part of a run does: it ends in the frame it started in, and with steps
that are all orderly the lists still agree. -/
structure Follows (files : Files) (w w' : Observed) : Prop where
  steps : ∀ step ∈ w.steps, step ∈ w'.steps
  enclosing : w'.enclosing = w.enclosing
  agrees : (∀ step ∈ w'.steps, step.Orderly files) → w.Agrees → w'.Agrees

variable {files : Files}

instance : Std.Refl (Follows files) where
  refl _ := ⟨fun _ => id, rfl, fun _ => id⟩

instance : IsTrans Observed (Follows files) where
  trans _ _ _ hfirst hsecond :=
    { steps := fun step hstep => hsecond.steps step (hfirst.steps step hstep)
      enclosing := hsecond.enclosing.trans hfirst.enclosing
      agrees := fun horderly hagrees =>
        hsecond.agrees horderly
          (hfirst.agrees (fun step hstep => horderly step (hsecond.steps step hstep)) hagrees) }

theorem follows_call (contract : Contract) (input : Bytes) (w : Observed) :
    Follows files w (w.call files contract input) := by
  refine ⟨fun step hstep => List.mem_append_left _ hstep, rfl, fun horderly hagrees => ?_⟩
  have hclean : ¬files.FailsLate contract input :=
    horderly (.call contract input) (List.mem_append_right _ List.mem_cons_self)
  have hops : (if (files.answer contract input).1 then files.ops contract input else []) =
      files.ops contract input := by
    cases hsuccess : (files.answer contract input).1 with
    | true => exact if_pos rfl
    | false => rw [Files.ops_of_failed hclean hsuccess]; rfl
  unfold Observed.Agrees Observed.kept Observed.call
  rw [hops, hagrees, ← List.append_assoc]
  rfl

theorem follows_rollback (w : Observed) : Follows files w w.rollback := by
  refine ⟨fun step hstep => List.mem_append_left _ hstep, rfl, fun horderly hagrees => ?_⟩
  have hkept : w.kept = [] :=
    horderly (.rollback w.kept) (List.mem_append_right _ List.mem_cons_self)
  have hafter : w.rollback.kept = [] := hkept
  unfold Observed.Agrees
  rw [hafter]
  unfold Observed.rollback
  rw [hagrees]
  rfl

@[simp] theorem Observed.kept_enter (w : Observed) : w.enter.kept = w.kept := by
  simp [Observed.kept, Observed.enter]

theorem Observed.agrees_enter (h : w.Agrees) : w.enter.Agrees := by
  unfold Observed.Agrees
  rw [w.kept_enter]
  exact h

/-- A frame that succeeds hands its operations to the frame around it. -/
theorem follows_success {w' : Observed} (h : Follows files w.enter w') :
    Follows files w (w'.leave true) := by
  have hencl : w'.enclosing = w.current :: w.enclosing := h.enclosing
  have hleave : w'.leave true =
      { w' with current := w.current ++ w'.current, enclosing := w.enclosing } := by
    unfold Observed.leave
    rw [hencl]
    rfl
  rw [hleave]
  refine ⟨h.steps, rfl, fun horderly hagrees => ?_⟩
  have hinside := h.agrees horderly (Observed.agrees_enter hagrees)
  have hkept : w'.kept = w.enclosing.reverse.flatten ++ (w.current ++ w'.current) := by
    simp [Observed.kept, hencl]
  unfold Observed.Agrees at hinside ⊢
  rw [hkept] at hinside
  exact hinside

/-- A frame that fails leaves nothing to keep, if nothing was kept before. -/
theorem follows_failure {w' : Observed} (h : Follows files w.enter w') :
    Follows files w (w'.leave false).rollback := by
  have hencl : w'.enclosing = w.current :: w.enclosing := h.enclosing
  have hleave : w'.leave false =
      { w' with current := w.current, enclosing := w.enclosing } := by
    unfold Observed.leave
    rw [hencl]
    simp
  rw [hleave]
  refine ⟨fun step hstep => List.mem_append_left _ (h.steps step hstep), rfl,
    fun horderly hagrees => ?_⟩
  have hinside : w'.overlay = ⟨true, w'.kept, []⟩ :=
    h.agrees (fun step hstep => horderly step (List.mem_append_left _ hstep))
      (Observed.agrees_enter hagrees)
  have hkept : w.kept = [] :=
    horderly (.rollback w.kept) (List.mem_append_right _ List.mem_cons_self)
  change (w'.overlay.reset : OverlayFS) = ⟨true, w.kept, []⟩
  rw [hinside, hkept]
  rfl

theorem Files.watch_respects (files : Files) (machine : Machine) :
    Watched.Respects (files.watch machine) (Follows files) where
  instruction w := Std.Refl.refl w
  frame _ w := Std.Refl.refl w
  issue _ w := Std.Refl.refl w
  execute s a input number w := by
    unfold Files.watch
    dsimp only
    cases files.contractAt a with
    | none => exact Std.Refl.refl w
    | some contract => exact follows_call contract input w
  rollback := follows_rollback
  success _ _ := follows_success
  failure _ _ := follows_failure

/-- In a transaction whose steps are all orderly, the operations that are executed at
the end are those to keep. -/
theorem executed_eq_kept [Keccak] (env : EnvInfo) (machine : Machine) (files : Files)
    (script : Ext → U256 → Script) (t : Transaction) {s s' : State} {result : Executive × Bool}
    {w : Observed}
    (hrun : Watched.executeOrSkip env (files.machine machine) (files.watch machine) script t
      .committed (s, .start) = .ok result (s', w))
    (horderly : ∀ step ∈ w.steps, step.Orderly files) :
    w.enclosing = [] ∧ w.overlay.commit.executed = w.current := by
  have hfollows := Watched.executeOrSkip_passes (files.watch_respects machine) t .committed
    s .start result s' w hrun
  have henclosing : w.enclosing = [] := hfollows.enclosing
  have hagrees : w.overlay = ⟨true, w.kept, []⟩ := hfollows.agrees horderly rfl
  refine ⟨henclosing, ?_⟩
  rw [hagrees]
  unfold OverlayFS.commit Observed.kept
  rw [henclosing]
  rfl

/-! ## A failure that takes everything -/

/-- Contract 5 is `createFile`, and every directory is there. -/
def sampleFiles : Files where
  dataDir := sampleDataDir
  os := ⟨[], fun _ => some (.directory 0)⟩
  contractAt a := if a = 5 then some .createFile else none

/-- A file `a` of the zero address. -/
def newFileInput : Bytes :=
  List.replicate 32 0 ++ BigEndian.encode 32 1 ++ 97 :: List.replicate 31 0

/-- Contract 10 creates a file and calls contract 7, before or after; contract 7
reverts. -/
def filingScript (callsFirst : Bool) (ext : Ext) (gas : U256) : Script :=
  if ext.myAddress = 10 then
    if callsFirst then
      .call .call 7 0 0 [] fun _ => .call .call 5 0 0 newFileInput fun _ => .returned gas []
    else .call .call 5 0 0 newFileInput fun _ => .call .call 7 0 0 [] fun _ => .returned gas []
  else .reverted gas []

/-- A call of contract 10. -/
def filingTransaction : Transaction :=
  { sender := 9, receiveAddress := 10, nonPowGas := 30000, signature := some ⟨1, 1⟩
    chainId := some 0 }

/-- What is seen of the transaction, if it ends. -/
def filingRun (callsFirst : Bool) : EStateM.Result Failure (State × Observed) (Executive × Bool) :=
  letI := State.sampleKeccak
  Watched.executeOrSkip Executive.sampleEnv (sampleFiles.machine precompiledMachine)
    (sampleFiles.watch precompiledMachine) (filingScript callsFirst) filingTransaction .committed
    (contractsState, .start)

/-- What is seen of a transaction that ends well. -/
def seen : EStateM.Result Failure (State × Observed) (Executive × Bool) → Option Observed
  | .ok result sw => if result.2 then some sw.2 else none
  | .error _ _ => none

theorem seen_eq_some {run : EStateM.Result Failure (State × Observed) (Executive × Bool)}
    (h : seen run = some w) : ∃ result s, run = .ok result (s, w) := by
  cases run with
  | error e sw => cases h
  | ok result sw =>
    unfold seen at h
    dsimp only at h
    split at h
    · cases h
      exact ⟨result, sw.1, rfl⟩
    · cases h

/-- The file of contract 10, with the directory of the zero address. -/
def newFile : Op :=
  .createFile (append (directory sampleFiles.dataDir newFileInput) (ascii "a")) 0

/-- Contract 7 fails before there is anything to keep, and the file is created. -/
theorem executed_eq_kept_sample :
    ∃ w, seen (filingRun true) = some w ∧ w.current = [newFile] ∧
      w.overlay.commit.executed = w.current := by
  have hseen : seen (filingRun true) = some ⟨⟨true, [newFile], []⟩, [newFile], [],
      [.rollback [], .call .createFile newFileInput]⟩ := by
    decide +kernel
  obtain ⟨result, s, hrun⟩ := seen_eq_some hseen
  refine ⟨_, hseen, rfl, ?_⟩
  refine (@executed_eq_kept State.sampleKeccak _ precompiledMachine sampleFiles
    (filingScript true) filingTransaction _ s result _ hrun ?_).2
  intro step hstep
  rcases List.mem_cons.mp hstep with rfl | hcall
  · rfl
  · rw [List.mem_singleton.mp hcall]
    exact fun hlate => absurd rfl hlate.2.1

/-- The file of contract 10 is lost, although only contract 7 fails. -/
theorem created_file_lost :
    ∃ w, seen (filingRun false) = some w ∧ w.current = [newFile] ∧
      w.overlay.commit.executed = [] := by
  have hseen : seen (filingRun false) = some ⟨⟨true, [], []⟩, [newFile], [],
      [.call .createFile newFileInput, .rollback [newFile]]⟩ := by
    decide +kernel
  exact ⟨_, hseen, rfl, rfl⟩

end Skaled.FileStorage
