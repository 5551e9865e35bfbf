import Skaled.State.Snapshots

/-! # Copies that do not see each other

Copies of a state read, write and commit in any order. Each operation is one
step: an operation that takes the lock of the database twice finds what it got
the first time in its caches, so it can be taken for two operations.

A read of a copy has to return what the database of its version has, with the
writes of the copy over it.
-/

namespace Skaled

open EStateM (bind_apply get_apply)
open State (Access ClearsAt CommitBehaviour CommitsAll Overlays Place flush
  removeEmptyAccounts_lookup sampleKeccak samplePatches sampleState slotsOf visitedKeys_of_not)

/-- The copies of a state, by number, with the database and the version number
that they share. `versions` has the database as it was when each version was
committed and `written` what a copy wrote since it has its version; no step reads
them. -/
structure Copies where
  db : OverlayDB
  storedVersion : Nat
  versions : Nat → OverlayDB
  writer : Option Nat
  copies : Nat → Option State
  written : Nat → List Place

/-- `createStateReadOnlyCopy` is `copy` and `updateToLatestVersion`, and
`createStateModifyCopy` takes the write lock in between. Read locks only delay
commits, so they are left out. -/
inductive CopyStep where
  | access (i : Nat) (op : Access)
  | commit (i : Nat) (behaviour : CommitBehaviour)
  | copy (i j : Nat)
  | updateToLatestVersion (i : Nat)
  | lockWrite (i : Nat)
  | passWriteLock (i j : Nat)
  | releaseWriteLock (i : Nat)
  | destroy (i : Nat)

namespace Copies

variable (σ : Copies)

/-- A copy at work. -/
def view (s : State) : State := { s with db := σ.db, storedVersion := σ.storedVersion }

/-- What a copy leaves behind. -/
def store (i : Nat) (s : State) (own : List Place) : Copies :=
  { σ with
    db := s.db
    storedVersion := s.storedVersion
    versions := if s.storedVersion = σ.storedVersion then σ.versions
      else Function.update σ.versions s.storedVersion s.db
    copies := Function.update σ.copies i (some s)
    written := Function.update σ.written i own }

/-- Go on with a copy; one that does not exist does nothing. -/
def withCopy (i : Nat) (f : State → Copies) : Copies :=
  match σ.copies i with
  | some s => f (σ.view s)
  | none => σ

variable [Keccak] (P : Patches)

/-- One step. A copy that waits for the write lock stays as it is. -/
def step : CopyStep → Copies
  | .access i op => σ.withCopy i fun s =>
    σ.store i (op.run P s).state (op.writes s ++ σ.written i)
  | .commit i behaviour => σ.withCopy i fun s =>
    match State.commit P behaviour s with
    | .ok _ s' => σ.store i s' []
    | .error _ s' => σ.store i s' (σ.written i)
  | .copy i j => σ.withCopy i fun s =>
    if (σ.copies j).isNone then σ.store j s.copy (σ.written i) else σ
  | .updateToLatestVersion i => σ.withCopy i fun s => σ.store i s.updateToLatestVersion []
  | .lockWrite i => σ.withCopy i fun s =>
    if σ.writer = none then
      { σ.store i { s with writeLock := true } (σ.written i) with writer := some i }
    else σ
  | .passWriteLock i j => σ.withCopy i fun s =>
    if s.writeLock ∧ (σ.copies j).isNone then
      { (σ.store i { s with writeLock := false } (σ.written i)).store j
          { s.copy with writeLock := true } (σ.written i) with
        writer := some j }
    else σ
  | .releaseWriteLock i => σ.withCopy i fun s =>
    if s.writeLock then
      { σ.store i { s with writeLock := false } (σ.written i) with writer := none }
    else σ
  | .destroy i => σ.withCopy i fun s =>
    { σ with
      writer := if s.writeLock then none else σ.writer
      copies := Function.update σ.copies i none }

def run (steps : List CopyStep) : Copies := steps.foldl (fun σ step => σ.step P step) σ

def prepared (behaviour : CommitBehaviour) (s : State) : State :=
  if behaviour = .removeEmptyAccounts then s.removeEmptyAccounts else s

/-- What a commit leaves. What others committed is still there: accounts that the copy
did not change, and the code and slots that it did not write. The rest is as the copy
has it. -/
def Committed (behaviour : CommitBehaviour) (s : State) (db : OverlayDB) : Prop :=
  (∀ a, (∀ acc, s.cache.lookup a = some acc → acc.isDirty = false) →
    db.lookup a = σ.db.lookup a ∧ db.lookupAuxiliary a = σ.db.lookupAuxiliary a ∧
      ∀ key, db.lookupStorage a key = σ.db.lookupStorage a key) ∧
  ∀ a acc, (prepared behaviour s).cache.lookup a = some acc → acc.isDirty = true →
    db.lookup a = (if acc.isAlive then acc.encode.getD [] else []) ∧
      (acc.isAlive = true → db.lookupAuxiliary a =
        (if acc.hasNewCode then acc.codeCache else σ.db.lookupAuxiliary a) ∧
          ∀ key, db.lookupStorage a key = slotsOf σ.db a acc key)

/-- The next step keeps the copies apart. A read returns what the database of the version
has, with the writes of the copy over it, or it fails because the copy is old or because
that database cannot be read. A commit succeeds only with the write lock and in the latest
version, and what it writes is the next version. -/
def Isolated : CopyStep → Prop
  | .access i (.read r) => ∀ s, σ.copies i = some s →
      State.Outcome (s.Unreadable (σ.versions s.currentVersion) (σ.written i) r.address)
        (s.reading (σ.versions s.currentVersion) (σ.written i) r) (r.run (σ.view s))
  | .access i (.storageOf a) => ∀ s, σ.copies i = some s →
      State.Outcome False ({ s with db := σ.versions s.currentVersion }.listed a)
        (State.storageWithoutLock a (σ.view s))
  | .commit i behaviour => ∀ s s', σ.copies i = some s →
      State.commit P behaviour (σ.view s) = .ok () s' →
      s.writeLock = true ∧ s.currentVersion = σ.storedVersion ∧
        s'.storedVersion = σ.storedVersion + 1 ∧ σ.Committed behaviour s s'.db
  | _ => True

/-- Storage is cleared outside of a commit only where nothing is counted, and a
commit that starts finds counters that fit into the records. -/
def Allowed : CopyStep → Prop
  | .access i op => ∀ s, σ.copies i = some s → op.WritesNothing (σ.view s)
  | .commit i behaviour => ∀ s, σ.copies i = some s → s.writeLock = true →
      s.currentVersion = σ.storedVersion →
      ∀ a acc, (prepared behaviour s).cache.lookup a = some acc → State.Writable acc
  | _ => True

def AllowedRun : Copies → List CopyStep → Prop
  | _, [] => True
  | σ, step :: rest => σ.Allowed step ∧ AllowedRun (σ.step P step) rest

def IsolatedRun : Copies → List CopyStep → Prop
  | _, [] => True
  | σ, step :: rest => σ.Isolated P step ∧ IsolatedRun (σ.step P step) rest

end Copies

/-! ## Putting copies in their places -/

section

variable {σ : Copies} {s : State} {i : Nat} {own : List Place}

namespace Copies

/-- The latest version is the database, nothing waits in its overlay, and no
copy is ahead of it. The caches of a copy lie over the database of its version. -/
structure Consistent (σ : Copies) : Prop where
  latest : σ.versions σ.storedVersion = σ.db
  flushed : σ.db.Flushed
  bounded : ∀ i s, σ.copies i = some s → s.currentVersion ≤ σ.storedVersion
  overlays : ∀ i s, σ.copies i = some s →
    Overlays (σ.versions s.currentVersion) (σ.written i) (σ.view s)

section

variable (h : σ.Consistent)

include h

omit h in
theorem store_copies {j : Nat} {t : State} (ht : (σ.store i s own).copies j = some t) :
    s = t ∧ (σ.store i s own).written j = own ∨
      σ.copies j = some t ∧ (σ.store i s own).written j = σ.written j := by
  by_cases hj : j = i
  · exact .inl ⟨by simpa [Copies.store, hj] using ht, by simp [Copies.store, hj]⟩
  · exact .inr ⟨by simpa [Copies.store, hj] using ht, by simp [Copies.store, hj]⟩

/-- The versions up to now stay what they are. -/
theorem Consistent.store_of_versions (hlatest : (σ.store i s own).versions s.storedVersion = s.db)
    (hflushed : s.db.Flushed) (hstored : σ.storedVersion ≤ s.storedVersion)
    (hversions : ∀ n ≤ σ.storedVersion, (σ.store i s own).versions n = σ.versions n)
    (hs : s.currentVersion ≤ s.storedVersion)
    (hown : Overlays ((σ.store i s own).versions s.currentVersion) own s) :
    (σ.store i s own).Consistent := by
  refine ⟨hlatest, hflushed, fun j t ht => ?_, fun j t ht => ?_⟩
  · rcases store_copies ht with ⟨rfl, -⟩ | ⟨hold, -⟩
    · exact hs
    · exact (h.bounded j t hold).trans hstored
  · have hcurrent : ((σ.store i s own).view t).checkVersion = true →
        s.db = (σ.store i s own).versions t.currentVersion := fun hversion =>
      hlatest.symm.trans (congrArg _ (of_decide_eq_true hversion))
    rcases store_copies ht with ⟨rfl, hwritten⟩ | ⟨hold, hwritten⟩
    · rw [hwritten]
      exact hown.congr rfl rfl rfl hcurrent
    · rw [hversions _ (h.bounded j t hold)] at hcurrent ⊢
      rw [hwritten]
      exact (h.overlays j t hold).congr rfl rfl rfl hcurrent

theorem Consistent.store (i : Nat) (hdb : s.db = σ.db) (hstored : s.storedVersion = σ.storedVersion)
    (hs : s.currentVersion ≤ σ.storedVersion)
    (hown : Overlays (σ.versions s.currentVersion) own s) :
    (σ.store i s own).Consistent := by
  have hversions : (σ.store i s own).versions = σ.versions := if_pos hstored
  refine h.store_of_versions ?_ (hdb ▸ h.flushed) hstored.ge (fun n _ => congrFun hversions n)
    (hs.trans hstored.ge) (hversions ▸ hown)
  rw [hversions, hstored, h.latest, hdb]

/-- A new version. -/
theorem Consistent.store_next (i : Nat) (hflushed : s.db.Flushed)
    (hstored : s.storedVersion = σ.storedVersion + 1)
    (hs : s.currentVersion = s.storedVersion) (hown : Overlays s.db own s) :
    (σ.store i s own).Consistent := by
  have hversions : (σ.store i s own).versions = Function.update σ.versions s.storedVersion s.db :=
    if_neg (by omega)
  have hlatest : (σ.store i s own).versions s.storedVersion = s.db := by
    rw [hversions, Function.update_self]
  refine h.store_of_versions hlatest hflushed (by omega) (fun n hn => ?_) hs.le ?_
  · rw [hversions, Function.update_of_ne (by omega)]
  · rwa [hs, hlatest]

theorem Consistent.writer (writer : Option Nat) : ({ σ with writer } : Copies).Consistent :=
  ⟨h.latest, h.flushed, h.bounded, h.overlays⟩

theorem Consistent.withCopy {f : State → Copies}
    (hf : ∀ s, σ.copies i = some s → (f (σ.view s)).Consistent) : (σ.withCopy i f).Consistent := by
  unfold Copies.withCopy
  split
  next s hs => exact hf s hs
  next => exact h

theorem Consistent.withCopy_if {f : State → Copies} {p : State → Prop} [DecidablePred p]
    (hf : ∀ s, σ.copies i = some s → (f (σ.view s)).Consistent) :
    (σ.withCopy i fun s => if p s then f s else σ).Consistent := by
  refine h.withCopy fun s hs => ?_
  split
  next => exact hf s hs
  next => exact h

/-- A copy of the same version is put in a place. -/
theorem Consistent.store_shared (j : Nat) (hs : σ.copies i = some s) {t : State}
    (hshared : t.shared = (σ.view s).shared)
    (hown : Overlays (σ.versions s.currentVersion) own t) : (σ.store j t own).Consistent := by
  have hversion : t.currentVersion = s.currentVersion :=
    congrArg State.Shared.currentVersion hshared
  refine h.store j (congrArg State.Shared.db hshared)
    (congrArg State.Shared.storedVersion hshared) (hversion.trans_le (h.bounded i s hs)) ?_
  rwa [hversion]

/-- A copy with the same caches. -/
theorem Consistent.restore (j : Nat) (hs : σ.copies i = some s) {t : State}
    (hshared : t.shared = (σ.view s).shared) (hcache : t.cache = s.cache)
    (hmissing : t.nonExistingAccountsCache = s.nonExistingAccountsCache)
    (hlog : t.changeLog = s.changeLog) : (σ.store j t (σ.written i)).Consistent := by
  have hown := h.overlays i s hs
  refine h.store_shared j hs hshared (hown.congr hcache hmissing hlog fun hcurrent => ?_)
  exact (congrArg State.Shared.db hshared).trans
    (hown.current ((State.checkVersion_of_shared hshared).symm.trans hcurrent))

end

end Copies

/-! ## Operations -/

variable [Keccak] {P : Patches}

theorem shared_kept (shared : State.Shared) : State.Kept (fun _ => True) (·.shared = shared) where
  within := fun h hwithin => hwithin.shared.trans h
  absent := fun h _ _ _ => h
  found := fun h _ _ _ => h
  cachedSlot := fun _ h _ _ => h
  cachedCode := fun h _ _ => h
  logged := fun _ _ => State.logged_of (fun _ => trivial) (fun _ _ => trivial) _

theorem access_keeps {op : Access} (h : op.WritesNothing s) :
    (op.run P s).state.shared = s.shared :=
  (shared_kept s.shared).run P h (fun _ _ => trivial) rfl

namespace Copies

/-! ## Commits -/

theorem commit_eq_prepared (behaviour : CommitBehaviour) (s : State) :
    State.commit P behaviour (σ.view s) =
      State.commit P .keepEmptyAccounts (σ.view (prepared behaviour s)) := by
  cases behaviour <;> rfl

theorem prepared_same (behaviour : CommitBehaviour) (s : State) :
    (prepared behaviour s).writeLock = s.writeLock ∧
      (prepared behaviour s).currentVersion = s.currentVersion := by
  cases behaviour <;> exact ⟨rfl, rfl⟩

/-- Without the write lock or in an old version a commit does not start. -/
theorem commit_fails (h : s.writeLock = false ∨ s.checkVersion = false) :
    ∃ failure, State.commit P .keepEmptyAccounts s = .error failure s := by
  unfold State.commit
  simp only [bind_apply, get_apply, reduceCtorEq, if_false]
  cases hlock : s.writeLock with
  | false => exact ⟨.attemptToWriteToNotLockedStateObject, rfl⟩
  | true =>
    have hversion : s.checkVersion = false := h.resolve_left (by simp [hlock])
    simp only [Bool.true_eq_false, if_false, bind_apply, get_apply, hversion]
    exact ⟨.attemptToWriteToStateInThePast, rfl⟩

variable {behaviour : CommitBehaviour}

/-- A commit fails and changes nothing but the copy, or it has the write lock
and the latest version and writes the copy's accounts. -/
theorem commit_cases (h : σ.Consistent) (hstep : σ.Allowed (.commit i behaviour))
    (hs : σ.copies i = some s) :
    (∃ failure, State.commit P behaviour (σ.view s) =
      .error failure (σ.view (prepared behaviour s))) ∨
    s.writeLock = true ∧ s.currentVersion = σ.storedVersion ∧
      ∃ s₁, CommitsAll P (prepared behaviour s).cache.entries
          (σ.view (prepared behaviour s)) s₁ ∧
        State.commit P behaviour (σ.view s) =
          .ok () (flush P (σ.view (prepared behaviour s)).deadAccounts s₁) := by
  rw [commit_eq_prepared]
  obtain ⟨hlock, hversion⟩ := prepared_same behaviour s
  by_cases hstarts : s.writeLock = true ∧ s.currentVersion = σ.storedVersion
  · obtain ⟨hlocked, hlatest⟩ := hstarts
    refine .inr ⟨hlocked, hlatest, State.commit_run (s := σ.view (prepared behaviour s))
      (hlock.trans hlocked) ?_ h.flushed (hstep s hs hlocked hlatest)⟩
    exact decide_eq_true (hversion.trans hlatest).symm
  · refine .inl (commit_fails ?_)
    by_cases hlocked : s.writeLock = true
    · exact .inr (decide_eq_false fun hs => hstarts ⟨hlocked, hversion.symm.trans hs.symm⟩)
    · exact .inl (hlock.trans (Bool.eq_false_iff.mpr hlocked))

/-- Preparing a commit does not change whether an account was changed. -/
theorem prepared_lookup {a : Address} {acc : Account}
    (hacc : (prepared behaviour s).cache.lookup a = some acc) :
    ∃ acc', s.cache.lookup a = some acc' ∧ acc.isDirty = acc'.isDirty := by
  cases behaviour with
  | keepEmptyAccounts => exact ⟨acc, hacc, rfl⟩
  | removeEmptyAccounts =>
    have hlookup := removeEmptyAccounts_lookup s a
    obtain ⟨acc', hacc', rfl⟩ := Option.map_eq_some_iff.mp (hlookup.symm.trans hacc)
    refine ⟨acc', hacc', ?_⟩
    rw [Account.isDirty, (State.killIfEmpty_unchanged acc').1, Account.isDirty]

theorem committed_of_commitsAll (h : σ.Consistent) {s₁ : State} {killed : List Address}
    (hall : CommitsAll P (prepared behaviour s).cache.entries
      (σ.view (prepared behaviour s)) s₁) :
    σ.Committed behaviour s (flush P killed s₁).db := by
  have hflushed : (σ.view (prepared behaviour s)).db.Flushed := h.flushed
  constructor
  · intro a hclean
    cases hfound : (prepared behaviour s).cache.lookup a with
    | none => exact hall.lookup_none hflushed hfound killed
    | some acc =>
      have hdirty : acc.isDirty = false := by
        obtain ⟨acc', hacc', hprepared⟩ := prepared_lookup hfound
        rw [hprepared, hclean acc' hacc']
      obtain ⟨hrecord, hcode, hslots⟩ := hall.lookup_some hflushed hfound killed
      refine ⟨hrecord.trans (if_pos hdirty), hcode.trans (if_pos hdirty), fun key => ?_⟩
      have hnot : ¬ ClearsAt P (σ.view (prepared behaviour s)) a acc := by
        simp [ClearsAt, hdirty]
      rw [hslots, (visitedKeys_of_not hnot).1, if_neg List.not_mem_nil,
        if_neg (by simp [hdirty])]
      rfl
  · intro a acc hacc hdirty
    obtain ⟨hrecord, hcode, hslots⟩ := hall.lookup_some hflushed hacc killed
    rw [if_neg (by simp [hdirty])] at hrecord hcode
    refine ⟨hrecord, fun halive => ⟨hcode.trans (if_pos halive), fun key => ?_⟩⟩
    have hnot : ¬ ClearsAt P (σ.view (prepared behaviour s)) a acc := by simp [ClearsAt, halive]
    rw [hslots, (visitedKeys_of_not hnot).1, if_neg List.not_mem_nil, if_pos ⟨hdirty, halive⟩]
    rfl

/-- Preparing a commit kills accounts that the copy wrote. -/
theorem overlays_prepared {db : OverlayDB} (h : Overlays db own (σ.view s))
    (behaviour : CommitBehaviour) :
    Overlays db own (σ.view (prepared behaviour s)) := by
  cases behaviour with
  | keepEmptyAccounts => exact h
  | removeEmptyAccounts =>
    refine ⟨h.current, fun a acc hacc => ?_, fun a ha => ⟨(h.missing a ha).1, fun acc hacc => ?_⟩,
      h.logged⟩
    all_goals
      obtain ⟨found, hfound, rfl⟩ :=
        Option.map_eq_some_iff.mp ((removeEmptyAccounts_lookup s a).symm.trans hacc)
      unfold State.killIfEmpty
      split
    · next hkilled =>
      obtain ⟨hrecord, horiginals, -⟩ := h.cached a found hfound
      refine ⟨fun hnot => ?_, horiginals, fun key _ => AList.lookup_empty key⟩
      obtain ⟨_, _, _, _, _, hloaded⟩ := State.stored_eq_loaded (hrecord hnot).1
      have hclean : found.isUnchanged = true := congrArg Account.isUnchanged hloaded
      simp [Account.isDirty, hclean] at hkilled
    · exact h.cached a found hfound
    · rfl
    · exact (h.missing a ha).2 found hfound

/-- After a commit the caches are empty, and what was missing still is. -/
theorem overlays_flush {db : OverlayDB} (h : Overlays db own s) (hdb : s.db = db)
    (hflushed : s.db.Flushed) {s₁ : State} (hall : CommitsAll P s.cache.entries s s₁)
    (killed : List Address) :
    Overlays (flush P killed s₁).db [] (flush P killed s₁) := by
  refine ⟨fun _ => rfl, fun a acc hacc => (nomatch hacc), fun a ha => ⟨?_, nofun⟩, nofun⟩
  have hmissing : s₁.nonExistingAccountsCache = s.nonExistingAccountsCache := by
    rw [hall.writes]
  obtain ⟨hempty, hdead⟩ := h.missing a (hmissing ▸ ha)
  cases hcached : s.cache.lookup a with
  | none => rw [(hall.lookup_none hflushed hcached killed).1, hdb, hempty]
  | some acc =>
    rw [(hall.lookup_some hflushed hcached killed).1, hdb, hempty, hdead acc hcached]
    simp

theorem flush_storedVersion {s₁ : State} {killed : List Address}
    (hall : CommitsAll P s.cache.entries (σ.view s) s₁) :
    (flush P killed s₁).storedVersion = σ.storedVersion + 1 := by
  have hwrites := hall.writes
  unfold State.Writes at hwrites
  rw [flush, hwrites]
  rfl

section

variable (h : σ.Consistent)

include h

theorem isolated_of_allowed {step : CopyStep} (hstep : σ.Allowed step) : σ.Isolated P step := by
  cases step with
  | access i op =>
    cases op with
    | read r => exact fun s hs => (h.overlays i s hs).reads r
    | storageOf a =>
      refine fun s hs => (h.overlays i s hs).checked fun hdb => ?_
      exact congrArg (fun db => ({ s with db } : State).listed a) hdb
    | _ => trivial
  | commit i behaviour =>
    intro s s' hs hcommit
    rcases commit_cases (P := P) h hstep hs with
      ⟨failure, hfails⟩ | ⟨hlock, hv, s₁, hall, hok⟩
    · rw [hfails] at hcommit
      cases hcommit
    · obtain rfl := (EStateM.Result.ok.inj (hok.symm.trans hcommit)).2
      exact ⟨hlock, hv, flush_storedVersion hall, committed_of_commitsAll h hall⟩
  | _ => trivial

/-! ## Runs -/

theorem Consistent.access {op : Access} (hs : σ.copies i = some s)
    (hop : op.WritesNothing (σ.view s)) :
    (σ.store i (op.run P (σ.view s)).state (op.writes (σ.view s) ++ σ.written i)).Consistent := by
  refine h.store_shared i hs (access_keeps hop) ?_
  exact (State.overlays_kept _ _).run P hop (fun _ hplace => List.mem_append_left _ hplace)
    ((h.overlays i s hs).mono (List.subset_append_right _ _))

theorem Consistent.commit (hstep : σ.Allowed (.commit i behaviour)) :
    (σ.step P (.commit i behaviour)).Consistent := by
  rw [Copies.step]
  refine h.withCopy fun s hs => ?_
  have hown := overlays_prepared (h.overlays i s hs) behaviour
  rcases commit_cases (P := P) h hstep hs with ⟨failure, hfails⟩ | ⟨-, hlatest, s₁, hall, hok⟩
  · rw [hfails]
    exact h.store_shared i hs (by cases behaviour <;> rfl) hown
  · rw [hok]
    refine h.store_next i (OverlayDB.commit_flushed _ _) (flush_storedVersion hall) rfl ?_
    refine overlays_flush hown ?_ h.flushed hall _
    rw [hlatest, h.latest]
    rfl

theorem Consistent.step {step : CopyStep} (hstep : σ.Allowed step) :
    (σ.step P step).Consistent := by
  cases step with
  | access i op =>
    rw [Copies.step]
    exact h.withCopy fun s hs => h.access hs (hstep s hs)
  | commit i behaviour => exact h.commit hstep
  | copy i j =>
    rw [Copies.step]
    exact h.withCopy_if fun s hs => h.restore j hs rfl rfl rfl rfl
  | updateToLatestVersion i =>
    rw [Copies.step]
    refine h.withCopy fun s _ => h.store i rfl rfl le_rfl ?_
    exact ⟨fun _ => h.latest.symm, nofun, nofun, nofun⟩
  | lockWrite i | releaseWriteLock i =>
    rw [Copies.step]
    refine h.withCopy_if fun s hs => ?_
    apply Consistent.writer
    exact h.restore i hs rfl rfl rfl rfl
  | passWriteLock i j =>
    rw [Copies.step]
    refine h.withCopy_if fun s hs => ?_
    have hi := @Consistent.restore σ s i h i hs { σ.view s with writeLock := false }
      rfl rfl rfl rfl
    have hcopy := hi.restore j (Function.update_self _ _ _)
      (t := { (σ.view s).copy with writeLock := true }) rfl rfl rfl rfl
    rw [show (σ.store i _ (σ.written i)).written i = σ.written i from
      Function.update_self _ _ _] at hcopy
    apply Consistent.writer
    exact hcopy
  | destroy i =>
    rw [Copies.step]
    have hcopies : ∀ j t, Function.update σ.copies i none j = some t → σ.copies j = some t := by
      intro j t ht
      by_cases hj : j = i
      · simp [hj] at ht
      · simpa [hj] using ht
    exact h.withCopy fun s hs => ⟨h.latest, h.flushed,
      fun j t ht => h.bounded j t (hcopies j t ht), fun j t ht => h.overlays j t (hcopies j t ht)⟩

theorem isolatedRun_of_allowedRun {steps : List CopyStep}
    (hsteps : σ.AllowedRun P steps) : σ.IsolatedRun P steps := by
  induction steps generalizing σ with
  | nil => trivial
  | cons step rest ih => exact ⟨isolated_of_allowed h hsteps.1, ih (h.step hsteps.1) hsteps.2⟩

end

end Copies

end

/-! ## A state and its copies -/

namespace Copies

/-- A state that was opened on a database, and no copies yet. -/
def start (db : OverlayDB) (s : State) : Copies where
  db
  storedVersion := 0
  versions := fun _ => db
  writer := none
  copies := fun i =>
    if i = 0 then some { s with db, storedVersion := 0 }.updateToLatestVersion else none
  written := fun _ => []

end Copies

/-- The database of the next examples: a contract with one slot. -/
abbrev sampleStorageDb : OverlayDB :=
  letI := sampleKeccak
  let contract : Account := { Account.fresh 0 1 with storageUsed := 32 }
  { disk :=
      { accounts := AList.insert 7 (contract.encode.getD []) ∅
        storage := AList.insert (7, 1) 5 ∅ } }

end Skaled
