import Skaled.State.Commit

/-! # A commit changes nothing that can be read

Runs of the public operations in any order, with rollbacks, with the counters
folded at any time, and going on after operations that failed. The commit at
the end preserves every value that can be read, provided that the steps of the
run and the counters at the commit meet the conditions stated here. Destroying
accounts is not among the operations.
-/

namespace Skaled.State

section

variable [Keccak] {P : Patches} {s s' : State} {a : Address}

inductive Command where
  | op (operation : Op)
  | rollback (savepoint : Nat)
  | updateStorageUsage

def Command.run (P : Patches) : Command → M Unit
  | .op operation => operation.run
  | .rollback savepoint => State.rollback P savepoint
  | .updateStorageUsage => State.updateStorageUsage

/-- The counters are folded only when no address whose mark can still be taken
back has a counter. -/
def Command.Proper (s : State) : Command → Prop
  | .op operation => operation.Proper s
  | .rollback _ => True
  | .updateStorageUsage => ∀ a, Change.touch a ∈ s.changeLog → s.usage a = 0

/-- A run goes on after a command that failed. -/
def runCommands (P : Patches) : List Command → State → State
  | [], s => s
  | command :: rest, s => runCommands P rest (command.run P s).state

def ProperRun (P : Patches) : List Command → State → Prop
  | [], _ => True
  | command :: rest, s => command.Proper s ∧ ProperRun P rest (command.run P s).state

/-- A sound state that may commit and in which no account is dead. -/
structure Writer (s : State) : Prop where
  sound : Sound s
  alive : AllAlive s.view
  flushed : s.db.Flushed
  lock : s.writeLock = true

omit [Keccak] in
theorem Frame.flushed (h : Frame s s') (hflushed : s.db.Flushed) : s'.db.Flushed := by
  obtain ⟨storageCache, hdb⟩ := h.db
  rw [hdb]
  exact ⟨hflushed.batch, hflushed.cache, hflushed.auxiliaryCache⟩

theorem Writer.moves (h : Writer s) (hmoves : Moves P s s') : Writer s' :=
  ⟨h.sound.steps hmoves.good hmoves.steps, h.alive.steps hmoves.steps,
    hmoves.frame.flushed h.flushed, hmoves.frame.lock.trans h.lock⟩

theorem Writer.rollback (h : Writer s) (savepoint : Nat) :
    Writer (State.rollback P savepoint s).state := by
  by_cases hsavepoint : savepoint ≤ s.changeLog.length
  · obtain ⟨s', hrun, hgood, hframe, _, hsteps⟩ := rollback_run P h.sound.good hsavepoint
    rw [hrun]
    exact ⟨h.sound.steps hgood hsteps, h.alive.steps hsteps, hframe.flushed h.flushed,
      hframe.lock.trans h.lock⟩
  · have hfails : State.rollback P savepoint s = .error .assertionFailed s := by
      unfold State.rollback
      simp only [EStateM.bind_apply, EStateM.get_apply, hsavepoint, decide_false, assert_false]
    rw [hfails]
    exact h

theorem Writer.updateStorageUsage (h : Writer s)
    (htouch : ∀ a, Change.touch a ∈ s.changeLog → s.usage a = 0) :
    Writer (State.updateStorageUsage s).state := by
  obtain ⟨s', hrun, hsound, hframe, hview⟩ := h.sound.updateStorageUsage htouch
  rw [hrun]
  refine ⟨hsound, ?_, hframe.flushed h.flushed, hframe.lock.trans h.lock⟩
  rw [EStateM.Result.state_ok, hview]
  exact ⟨h.alive.accounts, h.alive.saved⟩

/-- One command of a run. -/
theorem Writer.command (h : Writer s) {command : Command} (hproper : command.Proper s) :
    Writer (command.run P s).state := by
  cases command with
  | op operation => exact h.moves (P := P) (Op.runs h.sound.good hproper)
  | rollback savepoint => exact h.rollback savepoint
  | updateStorageUsage => exact h.updateStorageUsage hproper

theorem Writer.run (h : Writer s) {commands : List Command}
    (hproper : ProperRun P commands s) : Writer (runCommands P commands s) := by
  induction commands generalizing s with
  | nil => exact h
  | cons command rest ih => exact ih (h.command hproper.1) hproper.2

theorem storageUsed_run (h : Coherent s) (a : Address) :
    ∃ s', storageUsed a s = .ok (s.view.used a) s' ∧ Reloads s s' := by
  refine account_read h a fun _ _ => ?_
  cases hfind : s.find a <;> simp [view, hfind, EStateM.pure_apply]

theorem Writer.committed (h : Writer s)
    (hwritable : ∀ a acc, s.cache.lookup a = some acc → Writable acc) :
    ∃ s', commit P .keepEmptyAccounts s = .ok () s' ∧ Sound s' ∧
      s'.view.accounts = s.view.accounts ∧ s'.view.store.slots = s.view.store.slots ∧
      s'.view.used = s.view.used ∧ s'.view.funds = s.view.funds ∧
      s'.view.startNonce = s.view.startNonce := by
  obtain ⟨s', hrun, hcommitted⟩ := commit_committed P h.sound.committable h.lock h.flushed
    hwritable
  obtain ⟨s₁, hall, rfl⟩ := hcommitted.loop
  have halive : ∀ a acc, s.cache.lookup a = some acc → acc.isDirty = true → acc.isAlive = true :=
    fun a acc hacc _ => h.alive.accounts a _ (view_cached hacc).1
  have hstore := fun a => flush_store h.sound.store h.flushed hwritable hall s.deadAccounts
    (halive a)
  have hwrites := hall.writes
  unfold Writes at hwrites
  refine ⟨_, hrun, hcommitted.sound, ?_, funext fun a => (hstore a).1, funext fun a => (hstore a).2,
    ?_, ?_⟩
  · funext a
    rw [hcommitted.accounts a]
    cases hinfo : s.view.accounts a with
    | none => rfl
    | some info => exact Option.filter_some_pos (h.alive.accounts a info hinfo)
  · simp only [flush, view]
    rw [hwrites]
  · simp only [flush, view]
    rw [hwrites]

/-- A commit after a run preserves every value that can be read. -/
theorem commit_runCommands (h : Writer s) {commands : List Command}
    (hproper : ProperRun P commands s)
    (hwritable : ∀ a acc, (runCommands P commands s).cache.lookup a = some acc → Writable acc) :
    ∃ s', commit P .keepEmptyAccounts (runCommands P commands s) = .ok () s' ∧
      SameReads (runCommands P commands s) s' ∧
      ∀ a, (storageUsed a s').value? = (storageUsed a (runCommands P commands s)).value? := by
  have hrun := h.run hproper
  obtain ⟨s', hcommit, hsound, haccounts, hslots, hused, hfunds, hstart⟩ := hrun.committed hwritable
  refine ⟨s', hcommit, sameReads_of_view hrun.sound.good hsound.good haccounts hslots hfunds hstart,
    fun a => ?_⟩
  obtain ⟨_, hafter, _⟩ := storageUsed_run hsound.good.coherent a
  obtain ⟨_, hbefore, _⟩ := storageUsed_run hrun.sound.good.coherent a
  rw [hafter, hbefore, EStateM.Result.value?_ok, EStateM.Result.value?_ok, hused]

end

/-! ## Concrete runs -/

abbrev sampleWriter : State := { sampleState with writeLock := true }

theorem sampleWriter_writer : letI := sampleKeccak; Writer sampleWriter := by
  let _ := sampleKeccak
  refine ⟨sound_of_empty ⟨?_, ?_⟩ rfl rfl (fun a ha => nomatch ha) rfl, ⟨?_, ?_⟩,
    ⟨rfl, rfl, rfl⟩, rfl⟩
  · exact fun a ha => absurd rfl ha
  · exact fun a acc hacc => nomatch hacc
  · exact fun a info hinfo => nomatch hinfo
  · exact fun a info hinfo => nomatch hinfo

abbrev sampleCommands : List Command :=
  [.op (.addBalance 1 5), .op (.setCode 1 [7] 0), .op (.setStorage 1 2 3), .op (.incNonce 1),
    .rollback 4, .updateStorageUsage]

theorem writable_of_counters {cache : Map Address Account}
    (hcounters : ∀ used ∈ cache.entries.map (fun entry => entry.2.storageUsed),
      0 ≤ used ∧ used < 2 ^ 256) {a : Address} {acc : Account} (hacc : cache.lookup a = some acc) :
    Writable acc := by
  intro _ _
  exact hcounters _ (List.mem_map_of_mem (AList.lookup_eq_some_iff_mem.mp hacc))

theorem commit_runCommands_sample :
    letI := sampleKeccak
    ∃ s', commit samplePatches .keepEmptyAccounts
        (runCommands samplePatches sampleCommands sampleWriter) = .ok () s' ∧
      SameReads (runCommands samplePatches sampleCommands sampleWriter) s' ∧
      ∀ a, (storageUsed a s').value? =
        (storageUsed a (runCommands samplePatches sampleCommands sampleWriter)).value? := by
  let _ := sampleKeccak
  refine commit_runCommands sampleWriter_writer
    ⟨trivial, ⟨_, rfl, rfl⟩, rfl, trivial, trivial, fun a ha => ?_, trivial⟩
    fun a acc hacc => writable_of_counters (by decide +kernel) hacc
  have hlog : Change.touch a ∈ [Change.storage 1 2 0, .code 1 [], .balance 1 5, .create 1] := ha
  simp at hlog

/-- Code set on an account that nothing else has changed is read until the
commit and gone after it. -/
theorem commit_loses_code :
    letI := sampleKeccak
    let saved : State := ((do
      (Op.addBalance 1 5).run
      commit samplePatches .keepEmptyAccounts : M Unit) sampleWriter).state
    (addressInUse 1 saved).value? = some true ∧ (addressHasCode 1 saved).value? = some false ∧
      ((do
        (Op.setCode 1 [7] 0).run
        code 1 : M Bytes) saved).value? = some [7] ∧
      ((do
        (Op.setCode 1 [7] 0).run
        commit samplePatches .keepEmptyAccounts
        code 1 : M Bytes) saved).value? = some [] := by
  let _ := sampleKeccak
  exact ⟨rfl, rfl, rfl, rfl⟩

end Skaled.State
