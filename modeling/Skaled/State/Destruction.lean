import Skaled.State.Persistence
import Skaled.Lib.Support
import Mathlib.Algebra.BigOperators.Ring.Finset
import Mathlib.Algebra.Order.BigOperators.Group.List

/-! # Destroying contracts

A transaction that destroyed contracts is closed by folding the counters and
committing. Clearing a slot takes its key for its value, so the total comes
out right only for contracts whose slots in the store all have the key zero,
and slots survive when the counter of the contract is zero although the store
still holds some. Here the exact condition is worked out.

The keys of a contract's slots are assumed to have different hashes: slots are
listed by the hash of their key.
-/

namespace Skaled.State

/-- No two slots that the store holds for an address have keys with the same hash. -/
def HashesKeys [Keccak] (db : OverlayDB) : Prop :=
  ∀ a, ∀ slot ∈ db.storage a, ∀ slot' ∈ db.storage a,
    sha3 (toBigEndian slot.1) = sha3 (toBigEndian slot'.1) → slot.1 = slot'.1

section

variable [Keccak] {P : Patches} {s s' s₁ : State} {a : Address}

/-! ## The keys that are cleared -/

omit [Keccak] in
theorem mem_storage {db : OverlayDB} {key : U256} :
    key ∈ (db.storage a).map Prod.fst ↔ (db.disk.storage.lookup (a, key)).isSome := by
  rw [Option.isSome_iff_exists]
  simp only [OverlayDB.storage, List.mem_map, List.mem_filterMap, Prod.exists,
    AList.lookup_eq_some_iff_mem, Option.ite_none_right_eq_some, Option.some.injEq, Prod.mk.injEq]
  constructor
  · rintro ⟨key', value, ⟨⟨⟨b, k⟩, v⟩, hmem, rfl, rfl, rfl⟩, rfl⟩
    exact ⟨v, hmem⟩
  · rintro ⟨value, hmem⟩
    exact ⟨key, value, ⟨⟨(a, key), value⟩, hmem, rfl, rfl, rfl⟩, rfl⟩

/-- Slots collected by the hash of their key. -/
theorem lookup_byHash (slots : List (U256 × U256)) (hash : H256) :
    let m := slots.foldl (fun m slot => m.insert (sha3 (toBigEndian slot.1)) slot)
      (∅ : Map H256 (U256 × U256))
    (∀ slot, m.lookup hash = some slot → slot ∈ slots ∧ hash = sha3 (toBigEndian slot.1)) ∧
      ∀ slot ∈ slots, hash = sha3 (toBigEndian slot.1) → (m.lookup hash).isSome := by
  induction slots using List.reverseRecOn with
  | nil => exact ⟨nofun, nofun⟩
  | append_singleton slots last ih =>
    rw [List.foldl_append, List.foldl_cons, List.foldl_nil]
    dsimp only
    rw [AList.lookup_insert_eq_ite]
    split
    next heq =>
      refine ⟨fun slot hslot => ?_, fun _ _ _ => rfl⟩
      cases hslot
      exact ⟨List.mem_append_right _ (.head _), heq⟩
    next hne =>
      refine ⟨fun slot hslot => ?_, fun slot hslot heq => ?_⟩
      · exact ⟨List.mem_append_left _ (ih.1 slot hslot).1, (ih.1 slot hslot).2⟩
      · rcases List.mem_append.mp hslot with hold | hlast
        · exact ih.2 slot hold heq
        · exact absurd (List.mem_singleton.mp hlast ▸ heq) hne

variable {acc : Account}

/-- For a destroyed account the slots of the store are listed. -/
theorem mem_listedKeys (hinjective : HashesKeys s.db) (hacc : s.cache.lookup a = some acc)
    (hoverlay : acc.storageOverlay = ∅) (key : U256) :
    key ∈ s.listedKeys a ↔ (s.db.disk.storage.lookup (a, key)).isSome := by
  have hlisted : s.listed a = (s.db.storage a).foldl
      (fun m slot => m.insert (sha3 (toBigEndian slot.1)) slot) (∅ : Map H256 (U256 × U256)) := by
    unfold listed
    rw [hacc]
    simp only [hoverlay]
    exact ite_self _
  have hlookup := fun hash => lookup_byHash (s.db.storage a) hash
  rw [← hlisted] at hlookup
  rw [← mem_storage, listedKeys, List.mem_map, List.mem_map]
  constructor
  · rintro ⟨⟨hash, slot⟩, hentry, rfl⟩
    exact ⟨slot, ((hlookup hash).1 slot (AList.lookup_eq_some_iff_mem.mpr hentry)).1, rfl⟩
  · rintro ⟨slot, hslot, rfl⟩
    obtain ⟨slot', hfound⟩ := Option.isSome_iff_exists.mp ((hlookup _).2 slot hslot rfl)
    obtain ⟨hslot', heq⟩ := (hlookup _).1 slot' hfound
    exact ⟨_, AList.lookup_eq_some_iff_mem.mp hfound,
      (hinjective a slot hslot slot' hslot' heq).symm⟩

/-! ## The counters after the commit -/

/-- The counter a dead account leaves behind. -/
def leftOver (acc : Account) : Int :=
  if acc.isDirty = true ∧ acc.isAlive = false then acc.storageUsed else 0

omit [Keccak] in
theorem deadAccounts_eq (s : State) : s.deadAccounts =
    (s.cache.entries.filter fun e => e.2.isDirty = true ∧ e.2.isAlive = false).map Sigma.fst := by
  rw [← List.filterMap_eq_map, List.filterMap_filter, deadAccounts]
  simp

omit [Keccak] in
theorem deadAccounts_nodup (s : State) : s.deadAccounts.Nodup := by
  rw [deadAccounts_eq]
  exact (List.Sublist.map Sigma.fst List.filter_sublist).nodup s.cache.nodupKeys

omit [Keccak] in
theorem mem_deadAccounts : a ∈ s.deadAccounts ↔
    ∃ acc, s.cache.lookup a = some acc ∧ acc.isDirty = true ∧ acc.isAlive = false := by
  simp only [deadAccounts_eq, AList.lookup_eq_some_iff_mem, List.mem_map, List.mem_filter,
    decide_eq_true_eq]
  constructor
  · rintro ⟨⟨b, acc⟩, hentry, rfl⟩
    exact ⟨acc, hentry⟩
  · rintro ⟨acc, hentry⟩
    exact ⟨⟨a, acc⟩, hentry, rfl⟩

theorem deadAccounts_sum (s : State) : (s.deadAccounts.map s.view.used).sum =
    (s.cache.entries.map fun e => leftOver e.2).sum := by
  have hused : ∀ e ∈ s.cache.entries.filter fun e => e.2.isDirty = true ∧ e.2.isAlive = false,
      (s.view.used ∘ Sigma.fst) e = e.2.storageUsed := fun e he =>
    (view_cached (AList.lookup_eq_some_iff_mem.mpr (List.mem_of_mem_filter he))).2.2.2
  rw [deadAccounts_eq, List.map_map, List.map_congr_left hused]
  simp [leftOver, List.sum_map_ite]

/-- What the total loses for one account, once the counters are folded. -/
theorem released_eq (hpatch : P.storageDestruction = true) (husage : s.usage a = 0)
    (acc : Account) :
    released P s a acc = leftOver acc - 32 * (visitedKeys P s a acc).countP (· ≠ 0) := by
  unfold released visitedKeys leftOver
  by_cases hclears : ClearsAt P s a acc
  · rw [if_pos hclears, if_pos hclears, if_pos hclears.1, husage]
    ring
  · rw [if_neg hclears, if_neg hclears]
    by_cases hdead : acc.isDirty = true ∧ acc.isAlive = false
    · have hzero : acc.storageUsed = 0 := by
        by_contra hne
        exact hclears ⟨hdead, hpatch, fun hcounters => hne hcounters.1⟩
      rw [if_pos hdead, hzero]
      simp
    · rw [if_neg hdead]
      simp

omit [Keccak] in
theorem sum_map_cast {ι : Type} (items : List ι) (count : ι → Nat) :
    (items.map fun item => (count item : Int)).sum = ((items.map count).sum : Nat) := by
  rw [Nat.cast_list_sum, List.map_map]
  rfl

/-- The number of slots with a non-zero key that a commit clears. -/
def miscounted (P : Patches) (s : State) : Int :=
  (s.cache.entries.map fun e => ((visitedKeys P s e.1 e.2).countP (· ≠ 0) : Int)).sum

section

variable (hall : CommitsAll P s.cache.entries s s₁) (hpatch : P.storageDestruction = true)
  (husage : ∀ b, s.usage b = 0)

include hall hpatch husage

theorem CommitsAll.total_folded :
    s₁.totalStorageUsed =
      s.totalStorageUsed - (s.deadAccounts.map s.view.used).sum + 32 * miscounted P s := by
  have hsum : (s.cache.entries.map fun e => leftOver e.2).sum =
      (s.cache.entries.map fun e => released P s e.1 e.2).sum + 32 * miscounted P s := by
    rw [miscounted, ← List.sum_map_mul_left, ← List.sum_map_add]
    simp only [released_eq hpatch (husage _), sub_add_cancel]
  rw [hall.total, deadAccounts_sum, hsum]
  ring

/-- The counters are right after the commit exactly when no slot with a
non-zero key was cleared. -/
theorem CommitsAll.counters_iff (hcurrent : s.currentStorageUsed = 0) :
    (s₁.totalStorageUsed = s.totalStorageUsed - (s.deadAccounts.map s.view.used).sum ∧
        s₁.currentStorageUsed = 0 ∧ ∀ b, s₁.usage b = 0) ↔
      ∀ a acc, s.cache.lookup a = some acc → ∀ key ∈ visitedKeys P s a acc, key = 0 := by
  have hzero : miscounted P s = 0 ↔
      ∀ a acc, s.cache.lookup a = some acc → ∀ key ∈ visitedKeys P s a acc, key = 0 := by
    rw [miscounted, sum_map_cast, Int.natCast_eq_zero, List.sum_eq_zero_iff]
    simp only [List.forall_mem_map, List.countP_eq_zero, decide_eq_true_eq, not_not]
    constructor
    · intro h a acc hacc
      exact h ⟨a, acc⟩ (AList.lookup_eq_some_iff_mem.mp hacc)
    · intro h e he
      exact h e.1 e.2 (AList.lookup_eq_some_iff_mem.mpr he)
  rw [← hzero, hall.total_folded hpatch husage, hall.current, hcurrent]
  constructor
  · rintro ⟨htotal, _, _⟩
    omega
  · intro hnone
    refine ⟨by rw [hnone]; ring, ?_, ?_⟩
    · rw [show (s.cache.entries.map fun e =>
        ((visitedKeys P s e.1 e.2).countP (· ≠ 0) : Int)).sum = 0 from hnone]
      rfl
    · intro b
      cases hb : s.cache.lookup b with
      | none =>
        have hsame : s₁.usage b = s.usage b := congrArg Slice.usage (hall.of_none hb)
        rw [hsame, husage]
      | some acc =>
        have hkeys : (visitedKeys P s b acc).countP (· ≠ 0) = 0 := by
          rw [List.countP_eq_zero]
          simpa using hzero.mp hnone b acc hb
        rw [(hall.of_some hb).usage, husage, hkeys]
        rfl

end

/-! ## The slots after the commit -/

/-- A slot in the store that no pending write replaces. -/
def HasSlot (db : OverlayDB) (a : Address) (key : U256) : Prop :=
  db.storageCache.lookup (a, key) = none ∧ (db.disk.storage.lookup (a, key)).isSome

/-- Between two commits only `clearStorage` writes slots, and it writes zeros. -/
def OnlyClears (db : OverlayDB) : Prop :=
  ∀ slot value, db.storageCache.lookup slot = some value → value = 0

theorem CommitsAll.slot_none_iff (hall : CommitsAll P s.cache.entries s s₁)
    (hzero : P.contractStorageZeroValue = true) (hclears : OnlyClears s.db)
    (hacc : s.cache.lookup a = some acc) (hdead : acc.isAlive = false) (killed : List Address)
    (key : U256) :
    (flush P killed s₁).db.disk.storage.lookup (a, key) = none ↔
      key ∈ visitedKeys P s a acc ∨ ¬ HasSlot s.db a key := by
  have hlookup : (flush P killed s₁).db.disk.storage.lookup (a, key) = _ :=
    OverlayDB.storage_commit _ P (a, key)
  rw [hlookup]
  dsimp only [OverlayDB.updateStorageUsage]
  rw [(hall.of_some hacc).slots key, hall.writes.disk]
  by_cases hmem : key ∈ visitedKeys P s a acc
  · simp [hmem, hzero]
  · simp only [hmem, if_false, hdead, Bool.false_eq_true, and_false, false_or, HasSlot]
    cases hpending : s.db.storageCache.lookup (a, key) with
    | none => simp
    | some value => simp [hzero, hclears _ _ hpending]

/-- The condition under which a dead account is removed with its storage: the
store holds slots of key zero at most, or none at all if the counter of the
account is zero. -/
def Clearable (s : State) (a : Address) : Prop :=
  if s.view.used a = 0 then ∀ key, ¬ HasSlot s.db a key
  else ∀ key, (s.db.disk.storage.lookup (a, key)).isSome → key = 0

/-- A slot in the store of a dead account that a commit clears. -/
def Clears (s : State) (a : Address) (key : U256) : Prop :=
  s.view.used a ≠ 0 ∧ (s.db.disk.storage.lookup (a, key)).isSome

theorem visitedKeys_dead (hinjective : HashesKeys s.db) (hpatch : P.storageDestruction = true)
    (husage : s.usage a = 0) (hburied : Buried s) (hacc : s.cache.lookup a = some acc)
    (hdirty : acc.isDirty = true) (hdead : acc.isAlive = false) (key : U256) :
    key ∈ visitedKeys P s a acc ↔ s.Clears a key := by
  have hused := (view_cached hacc).2.2.2
  rw [Clears, hused, ← mem_listedKeys hinjective hacc (hburied a acc hacc hdead), visitedKeys]
  by_cases hcounter : acc.storageUsed = 0
  · have hnot : ¬ ClearsAt P s a acc := fun hclears => hclears.2.2 ⟨hcounter, husage⟩
    simp [hnot, hcounter]
  · have hclears : ClearsAt P s a acc :=
      ⟨⟨hdirty, hdead⟩, hpatch, fun hcounters => hcounter hcounters.1⟩
    simp [hclears, hcounter]

theorem clearable_iff : Clearable s a ↔
    (∀ key, s.Clears a key → key = 0) ∧ ∀ key, s.Clears a key ∨ ¬ HasSlot s.db a key := by
  unfold Clearable Clears
  by_cases hused : s.view.used a = 0
  · simp [hused]
  · simp only [hused, if_false, ne_eq, not_false_eq_true, true_and]
    exact ⟨fun h => ⟨h, fun key => or_iff_not_imp_right.mpr fun hslot => (not_not.mp hslot).2⟩,
      And.left⟩

/-- The exact condition at the commit, with the counters folded. -/
theorem commit_frees_iff (hlock : s.writeLock = true) (hversion : s.checkVersion = true)
    (hflushed : s.db.Flushed) (hclears : OnlyClears s.db) (hburied : Buried s)
    (hwritable : ∀ a acc, s.cache.lookup a = some acc → Writable acc) (husage : ∀ b, s.usage b = 0)
    (hcurrent : s.currentStorageUsed = 0) (hinjective : HashesKeys s.db)
    (hpatch : P.storageDestruction = true) (hzero : P.contractStorageZeroValue = true) :
    ∃ s', commit P .keepEmptyAccounts s = .ok () s' ∧
      ((s'.db.storageUsed = s.totalStorageUsed - (s.deadAccounts.map s.view.used).sum ∧
          (∀ a ∈ s.deadAccounts, ∀ key, s'.db.disk.storage.lookup (a, key) = none) ∧
          s'.currentStorageUsed = 0 ∧ ∀ b, s'.usage b = 0) ↔
        ∀ a ∈ s.deadAccounts, Clearable s a) := by
  obtain ⟨s₁, hall, hrun⟩ := commit_run (P := P) hlock hversion hflushed hwritable
  refine ⟨_, hrun, ?_⟩
  have hvisited := fun a acc hacc hdirty hdead =>
    @visitedKeys_dead _ P s a acc hinjective hpatch (husage a) hburied hacc hdirty hdead
  have hkeys : (∀ a acc, s.cache.lookup a = some acc → ∀ key ∈ visitedKeys P s a acc, key = 0) ↔
      ∀ a ∈ s.deadAccounts, ∀ key, s.Clears a key → key = 0 := by
    constructor
    · intro h a hmem key hkey
      obtain ⟨acc, hacc, hdirty, hdead⟩ := mem_deadAccounts.mp hmem
      exact h a acc hacc key ((hvisited a acc hacc hdirty hdead key).mpr hkey)
    · intro h a acc hacc key hkey
      by_cases hclearsAt : ClearsAt P s a acc
      · obtain ⟨hdirty, hdead⟩ := hclearsAt.1
        exact h a (mem_deadAccounts.mpr ⟨acc, hacc, hdirty, hdead⟩) key
          ((hvisited a acc hacc hdirty hdead key).mp hkey)
      · rw [visitedKeys, if_neg hclearsAt] at hkey
        cases hkey
  have hslots : ∀ a ∈ s.deadAccounts, ∀ key,
      (flush P s.deadAccounts s₁).db.disk.storage.lookup (a, key) = none ↔
        s.Clears a key ∨ ¬ HasSlot s.db a key := by
    intro a hmem key
    obtain ⟨acc, hacc, hdirty, hdead⟩ := mem_deadAccounts.mp hmem
    rw [hall.slot_none_iff hzero hclears hacc hdead s.deadAccounts key, hvisited a acc hacc hdirty
      hdead key]
  have hcounters := hall.counters_iff hpatch husage hcurrent
  rw [forall₂_congr fun a _ => clearable_iff, forall₂_and]
  rw [← hkeys, ← hcounters, ← forall₂_congr fun a hmem => forall_congr' (hslots a hmem)]
  exact ⟨fun h => ⟨⟨h.1, h.2.2⟩, h.2.1⟩, fun h => ⟨h.1.1, h.2, h.1.2⟩⟩

/-! ## Closing a transaction -/

/-- The end of a transaction: the last loop of `Executive::finalize` and what
`State::execute` does after it. -/
def closeTransaction (P : Patches) (suicides : List Address) (sender : Address)
    (behaviour : CommitBehaviour) : M Unit := do
  suicides.forM kill
  closeAccounts sender
  commit P behaviour

/-- The addresses whose accounts the commit removes. -/
def Destroyed (s : State) (suicides : List Address) (behaviour : CommitBehaviour) (a : Address) :
    Prop :=
  ∃ info, s.view.accounts a = some info ∧
    (a ∈ suicides ∨ behaviour = .removeEmptyAccounts ∧ info.isEmpty = true ∧
      (s.view.dirty a = true ∨ (s.storageUsage.lookup a).isSome))

/-- The counters are folded, and nothing is written yet. -/
structure Folded (s s' : State) : Prop where
  settled : Settled s'
  buried : Buried s'
  frame : Frame s s'
  db : s'.db = s.db
  usage : ∀ b, s'.usage b = 0
  current : s'.currentStorageUsed = 0
  total : s'.totalStorageUsed = s.totalStorageUsed + s.currentStorageUsed
  used : ∀ a, s'.view.used a = s.view.used a + if (s.view.accounts a).isSome then s.usage a else 0

structure ClosingState (s : State) (suicides : List Address) (behaviour : CommitBehaviour)
    (s' : State) : Prop extends Folded s s' where
  inUse : ∀ a, (s'.view.accounts a).isSome = (s.view.accounts a).isSome
  dead : ∀ a, (∃ info, s'.view.accounts a = some info ∧ info.isAlive = false) ↔
    Destroyed s suicides behaviour a

theorem isSome_killedAccounts (suicides : List Address)
    (accounts : Address → Option AccountInfo) (a : Address) :
    (killedAccounts suicides accounts a).isSome = (accounts a).isSome := by
  rw [killedAccounts]
  split
  next hkilled => rw [hkilled.2]; rfl
  next => rfl

/-- An account that a run destroyed is not alive, and no other one is dead. -/
theorem dead_killedAccounts (halive : AllAlive s.view) (suicides : List Address) (a : Address) :
    (∃ info, killedAccounts suicides s.view.accounts a = some info ∧ info.isAlive = false) ↔
      a ∈ suicides ∧ (s.view.accounts a).isSome := by
  rw [killedAccounts]
  split
  next hkilled => exact ⟨fun _ => hkilled, fun _ => ⟨.killed, rfl, rfl⟩⟩
  next hkept =>
    refine ⟨?_, fun hkilled => absurd hkilled hkept⟩
    rintro ⟨info, hinfo, hdead⟩
    rw [halive.accounts a info hinfo] at hdead
    cases hdead

theorem buried_of_allAlive (halive : AllAlive s.view) : Buried s := by
  intro a acc hacc hdead
  have hinfo := halive.accounts a _ (view_cached hacc).1
  rw [show (infoOf s.db a acc).isAlive = acc.isAlive from rfl, hdead] at hinfo
  cases hinfo

/-- The state before the commit, with what the commit goes by. -/
structure FoldedState (s : State) (suicides : List Address) (s' : State) : Prop
    extends Folded s s' where
  accounts : s'.view.accounts = killedAccounts suicides s.view.accounts
  dirty : ∀ a, s'.view.dirty a = (s.view.dirty a ||
    (decide (a ∈ suicides) && (s.view.accounts a).isSome) ||
    ((s.view.accounts a).isSome && (s.storageUsage.lookup a).isSome))

theorem FoldedState.inUse {suicides : List Address} (h : FoldedState s suicides s') (a : Address) :
    (s'.view.accounts a).isSome = (s.view.accounts a).isSome := by
  rw [h.accounts, isSome_killedAccounts]

/-- The accounts are killed and the counters folded. -/
theorem closeAccounts_folds (h : Settled s) (halive : AllAlive s.view) (suicides : List Address)
    {sender : Address} {info : AccountInfo} (hsender : s.view.accounts sender = some info)
    (hhash : info.codeHash = emptySHA3) (hstays : sender ∉ suicides) :
    ∃ s', (∀ behaviour, closeTransaction P suicides sender behaviour s = commit P behaviour s') ∧
      FoldedState s suicides s' := by
  obtain ⟨s₁, hkills, hamends⟩ := forM_amends (fun a _ h => kill_run h a) h suicides
  have hview₁ := hamends.view
  obtain ⟨slots, hfold⟩ := foldl_kill suicides s.view
  rw [hfold] at hview₁
  have hsender₁ : s₁.view.accounts sender = some info := by
    rw [hview₁]
    exact (if_neg fun hand => hstays hand.1).trans hsender
  obtain ⟨s₂, hclose, hsettled, hframe, hdb, hview, hburied⟩ :=
    closeAccounts_settled hamends.settled hsender₁ (halive.accounts sender info hsender) hhash
  rw [closedWorld, hview₁, hamends.counters] at hview
  refine ⟨s₂, fun behaviour => ?_, ⟨hsettled, hburied (hamends.buried (buried_of_allAlive halive)),
    hamends.frame.trans hframe, hdb.trans hamends.db, fun b => ?_, ?_,
    (congrArg World.total hview).trans ?_, fun a => ?_⟩, congrArg World.accounts hview, fun a => ?_⟩
  · unfold closeTransaction
    rw [EStateM.bind_apply, hkills]
    change (closeAccounts sender >>= fun _ => commit P behaviour) s₁ = _
    rw [EStateM.bind_apply, hclose]
  · exact congrArg (fun w : World => w.store.usage b) hview
  · exact congrArg (fun w : World => w.store.current) hview
  · exact congrArg (fun w : World => w.total + w.store.current) hview₁
  · rw [hview]
    simp only [World.foldCounters, isSome_killedAccounts]
    rfl
  · rw [hview]
    simp only [World.foldCounters, isSome_killedAccounts]

/-- Which accounts are destroyed when the empty ones go too. -/
theorem FoldedState.destroyed_iff {suicides : List Address} (h : FoldedState s suicides s')
    (a : Address) : Idle s'.view a ∨ (a ∈ suicides ∧ (s.view.accounts a).isSome) ↔
      Destroyed s suicides .removeEmptyAccounts a := by
  by_cases hmem : a ∈ suicides
  · have hnone : Idle s'.view a → (s.view.accounts a).isSome := by
      rintro ⟨_, info, hinfo, _⟩
      rw [← h.inUse a, hinfo]
      rfl
    simp only [Destroyed, hmem, true_or, and_true, true_and, ← Option.isSome_iff_exists]
    exact ⟨fun h => h.elim hnone id, .inr⟩
  · simp only [Idle, Destroyed, h.dirty, h.accounts, killedAccounts, hmem, decide_false,
      Bool.false_and, Bool.or_false, false_and, if_false, false_or, or_false, true_and]
    cases hinfo : s.view.accounts a with
    | none => simp
    | some info => simp [and_comm]

theorem closeTransaction_eq (h : Settled s) (halive : AllAlive s.view) (suicides : List Address)
    {sender : Address} {info : AccountInfo} (hsender : s.view.accounts sender = some info)
    (hhash : info.codeHash = emptySHA3) (hstays : sender ∉ suicides) (behaviour : CommitBehaviour) :
    ∃ s', closeTransaction P suicides sender behaviour s = commit P .keepEmptyAccounts s' ∧
      ClosingState s suicides behaviour s' := by
  obtain ⟨s₂, hrun, hfolded⟩ := closeAccounts_folds (P := P) h halive suicides hsender hhash hstays
  have hdead := dead_killedAccounts halive suicides
  rw [← hfolded.accounts] at hdead
  cases behaviour with
  | keepEmptyAccounts =>
    refine ⟨s₂, hrun _, hfolded.toFolded, hfolded.inUse, fun a => (hdead a).trans ?_⟩
    simp [Destroyed, Option.isSome_iff_exists, and_comm]
  | removeEmptyAccounts =>
    refine ⟨s₂.removeEmptyAccounts, (hrun _).trans (commit_removeEmptyAccounts P s₂),
      ⟨hfolded.settled.removeEmptyAccounts, hfolded.buried.removeEmptyAccounts,
        hfolded.frame.trans ⟨⟨_, rfl⟩, ⟨rfl, rfl⟩, rfl⟩, hfolded.db, hfolded.usage,
        hfolded.current, hfolded.total,
        fun a => (removeEmptyAccounts_at s₂ a).2.2.trans (hfolded.used a)⟩,
      fun a => ?_, fun a => ?_⟩
    · rw [← hfolded.inUse a]
      rcases removeEmptyAccounts_at s₂ a with ⟨⟨⟨_, _, hinfo, _⟩, hgone, _⟩ | ⟨_, hsame, _⟩, _⟩
      · rw [hgone, hinfo]
        rfl
      · rw [hsame]
    · rw [← hfolded.destroyed_iff a, ← hdead a]
      rcases removeEmptyAccounts_at s₂ a with ⟨⟨hempty, hgone, _⟩ | ⟨hnot, hsame, _⟩, _⟩
      · exact ⟨fun _ => .inl hempty, fun _ => ⟨.killed, hgone, rfl⟩⟩
      · simp only [hsame, hnot, false_or]

def remainingSlots (s : State) (dead : List Address) : Address × U256 → U256 :=
  fun slot => if slot.1 ∈ dead then 0 else s.view.store.slots slot.1 slot.2

/-- The dead accounts are gone with their slots, the total has lost what they
used, and the counters of the transaction are zero. -/
structure Freed (s : State) (dead : List Address) (s' : State) : Prop where
  total : s'.db.storageUsed = s.totalStorageUsed + s.currentStorageUsed -
    (dead.map fun a => 32 * (Support.count (s.view.store.slots a) : Int)).sum
  slots : ∀ a ∈ dead, ∀ key, s'.db.disk.storage.lookup (a, key) = none
  current : s'.currentStorageUsed = 0
  usage : ∀ b, s'.usage b = 0
  exact : s.totalStorageUsed + s.currentStorageUsed =
      32 * Support.count (fun slot : Address × U256 => s.view.store.slots slot.1 slot.2) →
    s'.db.storageUsed = 32 * Support.count (s.remainingSlots dead)

/-- The store holds at most a slot of key zero for the address, or none if the
address has no non-zero slot. -/
def Erasable (s : State) (a : Address) : Prop :=
  if Support.count (s.view.store.slots a) = 0 then ∀ key, ¬ HasSlot s.db a key
  else ∀ key, (s.db.disk.storage.lookup (a, key)).isSome → key = 0

section Closing

variable {suicides dead : List Address} {behaviour : CommitBehaviour}

/-- The dead accounts of the cache are the destroyed ones. -/
theorem ClosingState.mem_deadAccounts_iff (h : ClosingState s suicides behaviour s') :
    a ∈ s'.deadAccounts ↔ Destroyed s suicides behaviour a := by
  rw [mem_deadAccounts, ← h.dead a]
  constructor
  · rintro ⟨acc, hacc, _, hdead⟩
    exact ⟨infoOf s'.db a acc, (view_cached hacc).1, hdead⟩
  · rintro ⟨info, hinfo, hdead⟩
    have hdirty : s'.view.dirty a = true := by
      by_contra hclean
      have hsaved := saved_isAlive s' a
      rw [← h.settled.settled a (Bool.eq_false_iff.mpr hclean), hinfo,
        Option.filter_some_neg hdead] at hsaved
      cases hsaved
    cases hacc : s'.cache.lookup a with
    | none =>
      rw [(view_of_uncached hacc).2] at hdirty
      cases hdirty
    | some acc =>
      obtain ⟨haccount, hdirtyView, _, _⟩ := view_cached hacc
      rw [haccount] at hinfo
      cases hinfo
      exact ⟨acc, rfl, hdirtyView.symm.trans hdirty, hdead⟩

theorem ClosingState.writable (h : ClosingState s suicides behaviour s')
    (hfits : ∀ a, (s.view.accounts a).isSome →
      0 ≤ s.view.used a + s.usage a ∧ s.view.used a + s.usage a < 2 ^ 256)
    (hacc : s'.cache.lookup a = some acc) : Writable acc := by
  intro _ _
  obtain ⟨haccount, _, _, hused⟩ := view_cached hacc
  have huse : (s.view.accounts a).isSome := by
    rw [← h.inUse a, haccount]
    rfl
  rw [← hused, h.used a, if_pos huse]
  exact hfits a huse

/-- The counter of a destroyed account says how many slots it has. -/
theorem ClosingState.count (h : ClosingState s suicides behaviour s')
    (hexact : ∀ a, Destroyed s suicides behaviour a →
      s.view.used a + s.usage a = 32 * Support.count (s.view.store.slots a))
    (hdestroyed : Destroyed s suicides behaviour a) :
    s'.view.used a = 32 * Support.count (s.view.store.slots a) := by
  obtain ⟨info, hinfo, _⟩ := id hdestroyed
  rw [h.used a, if_pos (by rw [hinfo]; rfl), hexact a hdestroyed]

/-- What the counters lose is what the slots of the dead accounts used. -/
theorem freed_iff (hnodup : dead.Nodup) :
    Freed s dead s' ↔
      s'.db.storageUsed = s.totalStorageUsed + s.currentStorageUsed -
          (dead.map fun a => 32 * (Support.count (s.view.store.slots a) : Int)).sum ∧
        (∀ a ∈ dead, ∀ key, s'.db.disk.storage.lookup (a, key) = none) ∧
        s'.currentStorageUsed = 0 ∧ ∀ b, s'.usage b = 0 := by
  refine ⟨fun h => ⟨h.total, h.slots, h.current, h.usage⟩, ?_⟩
  rintro ⟨htotal, hslots, hcurrent, husage⟩
  refine ⟨htotal, hslots, hcurrent, husage, fun hbefore => ?_⟩
  have hrows := Support.count_rows s.view.store.slots dead hnodup
  have hremaining : Support.count (s.remainingSlots dead) =
      Support.count fun slot : Address × U256 =>
        if slot.1 ∈ dead then 0 else s.view.store.slots slot.1 slot.2 := rfl
  rw [htotal, hbefore, hrows, List.sum_map_mul_left, sum_map_cast, hremaining]
  push_cast
  ring

end Closing

/-- The end of a transaction frees what the destroyed contracts used exactly
when every one of them is erasable. -/
theorem closeTransaction_frees_iff (h : Settled s) (halive : AllAlive s.view)
    (hlock : s.writeLock = true) (hflushed : s.db.Flushed) (hclears : OnlyClears s.db)
    (hinjective : HashesKeys s.db) (hpatch : P.storageDestruction = true)
    (hzero : P.contractStorageZeroValue = true) (suicides : List Address) {sender : Address}
    {info : AccountInfo} (hsender : s.view.accounts sender = some info)
    (hhash : info.codeHash = emptySHA3) (hstays : sender ∉ suicides)
    (behaviour : CommitBehaviour)
    (hfits : ∀ a, (s.view.accounts a).isSome →
      0 ≤ s.view.used a + s.usage a ∧ s.view.used a + s.usage a < 2 ^ 256)
    (hexact : ∀ a, Destroyed s suicides behaviour a →
      s.view.used a + s.usage a = 32 * Support.count (s.view.store.slots a)) :
    ∃ s' dead, closeTransaction P suicides sender behaviour s = .ok () s' ∧ dead.Nodup ∧
      (∀ a, a ∈ dead ↔ Destroyed s suicides behaviour a) ∧
      (Freed s dead s' ↔ ∀ a, Destroyed s suicides behaviour a → Erasable s a) := by
  obtain ⟨s₁, hrun, hclosing⟩ := closeTransaction_eq (P := P) h halive suicides hsender hhash
    hstays behaviour
  obtain ⟨s', hcommit, hiff⟩ := commit_frees_iff (P := P) (hclosing.frame.lock.trans hlock)
    hclosing.settled.coherent.version (hclosing.db ▸ hflushed) (hclosing.db ▸ hclears)
    hclosing.buried (fun _ _ => hclosing.writable hfits) hclosing.usage hclosing.current
    (hclosing.db ▸ hinjective) hpatch hzero
  have hsum : (s₁.deadAccounts.map s₁.view.used).sum =
      (s₁.deadAccounts.map fun a => 32 * (Support.count (s.view.store.slots a) : Int)).sum := by
    congr 1
    apply List.map_congr_left
    intro a ha
    exact hclosing.count hexact (hclosing.mem_deadAccounts_iff.mp ha)
  have hclearable : (∀ a ∈ s₁.deadAccounts, Clearable s₁ a) ↔
      ∀ a, Destroyed s suicides behaviour a → Erasable s a := by
    simp only [hclosing.mem_deadAccounts_iff]
    refine forall_congr' fun a => forall_congr' fun hdestroyed => ?_
    have hzeros : s₁.view.used a = 0 ↔ Support.count (s.view.store.slots a) = 0 := by
      rw [hclosing.count hexact hdestroyed]
      omega
    simp only [Clearable, Erasable, hzeros, hclosing.db]
  rw [hsum, hclosing.total, hclearable] at hiff
  exact ⟨s', s₁.deadAccounts, hrun.trans hcommit, deadAccounts_nodup s₁,
    fun _ => hclosing.mem_deadAccounts_iff, (freed_iff (deadAccounts_nodup s₁)).trans hiff⟩

end

/-! ## Concrete contracts -/

/-- A sender and a contract that has written one slot in this transaction. -/
abbrev sampleContract : State :=
  letI := sampleKeccak
  runCommands samplePatches [.op (.addBalance 9 5), .op (.addBalance 1 5), .op (.setCode 1 [7] 0),
    .op (.setStorage 1 3 4)] sampleWriter

theorem sampleContract_writer : letI := sampleKeccak; Writer sampleContract := by
  let _ := sampleKeccak
  exact sampleWriter_writer.run ⟨trivial, trivial, ⟨_, rfl, rfl⟩, rfl, trivial⟩

theorem sampleContract_database : letI := sampleKeccak
    sampleContract.db.storageCache.entries = [] ∧
      sampleContract.db.disk.storage.entries = [] := by
  decide +kernel

/-- The contract has the slot 3 and nothing in the database. -/
theorem sampleContract_slots (key : U256) : letI := sampleKeccak
    sampleContract.view.store.slots 1 key = if key = 3 then 4 else 0 := by
  let _ := sampleKeccak
  have hentries : (sampleContract.cache.lookup 1).map (fun acc => acc.storageOverlay.entries) =
      some [⟨3, 4⟩] := by decide +kernel
  obtain ⟨acc, hacc, hoverlay⟩ := Option.map_eq_some_iff.mp hentries
  have hlookup : acc.storageOverlay.lookup key = if key = 3 then some 4 else none := by
    rw [AList.lookup, hoverlay]
    by_cases hkey : key = 3
    · subst hkey
      rfl
    · rw [if_neg hkey, List.dlookup_cons_ne _ _ hkey]
      rfl
  rw [(view_cached hacc).2.2.1, slotsOf, hlookup, OverlayDB.lookupStorage]
  simp only [AList.lookup, sampleContract_database.1, sampleContract_database.2]
  split <;> rfl

theorem closeTransaction_frees_sample :
    letI := sampleKeccak
    ∃ s' dead, closeTransaction samplePatches [1] 9 .keepEmptyAccounts sampleContract =
      .ok () s' ∧ Freed sampleContract dead s' ∧ 1 ∈ dead := by
  let _ := sampleKeccak
  have hwriter := sampleContract_writer
  have hkeys : ∀ a, (sampleContract.view.accounts a).isSome → a = 1 ∨ a = 9 := by
    intro a huse
    have hcached : sampleContract.cache.keys = [1, 9] := by decide +kernel
    have hrecords : sampleContract.db.cache.entries = [] ∧
        sampleContract.db.disk.accounts.entries = [] := by decide +kernel
    by_contra hother
    have hnone : sampleContract.cache.lookup a = none := by
      rw [AList.lookup_eq_none, AList.mem_keys, hcached]
      simpa using hother
    have hrecord : sampleContract.db.lookup a = [] := by
      simp only [OverlayDB.lookup, AList.lookup, hrecords.1, hrecords.2]
      rfl
    simp [view, find, hnone, stored, hrecord] at huse
  have hdestroyed : ∀ a, Destroyed sampleContract [1] .keepEmptyAccounts a → a = 1 := by
    rintro a ⟨_, _, hmem | ⟨hbehaviour, _⟩⟩
    · exact List.mem_singleton.mp hmem
    · cases hbehaviour
  have hcount : Support.count (sampleContract.view.store.slots 1) = 1 := by
    have hset : {key | sampleContract.view.store.slots 1 key ≠ 0} = {3} := by
      ext key
      rw [Set.mem_ofPred_eq, sampleContract_slots]
      by_cases hkey : key = 3 <;> simp [hkey]
    rw [Support.count, hset, Set.ncard_singleton]
  have hused : sampleContract.view.used 1 + sampleContract.usage 1 = 32 := by decide +kernel
  have hsender : (sampleContract.view.accounts 9).map (·.codeHash) = some emptySHA3 := by
    decide +kernel
  obtain ⟨info, hinfo, hhash⟩ := Option.map_eq_some_iff.mp hsender
  obtain ⟨s', dead, hrun, _, hmem, hiff⟩ := closeTransaction_frees_iff (P := samplePatches)
    hwriter.sound.settled hwriter.alive hwriter.lock hwriter.flushed (by
      intro slot value hslot
      rw [AList.lookup, sampleContract_database.1] at hslot
      cases hslot)
    (fun a slot hslot => by
      rw [OverlayDB.storage, sampleContract_database.2] at hslot
      cases hslot)
    rfl rfl [1] hinfo hhash (by decide) .keepEmptyAccounts (by
      intro a huse
      rcases hkeys a huse with rfl | rfl
      · decide +kernel
      · decide +kernel)
    (by
      intro a ha
      rw [hdestroyed a ha, hused, hcount]
      rfl)
  have hone : Destroyed sampleContract [1] .keepEmptyAccounts 1 := by
    have hsome : (sampleContract.view.accounts 1).isSome := by decide +kernel
    obtain ⟨info₁, hinfo₁⟩ := Option.isSome_iff_exists.mp hsome
    exact ⟨info₁, hinfo₁, .inl (List.mem_singleton.mpr rfl)⟩
  refine ⟨s', dead, hrun, hiff.mpr fun a ha => ?_, (hmem 1).mpr hone⟩
  rw [hdestroyed a ha, Erasable, hcount, if_neg one_ne_zero]
  intro key hkey
  rw [AList.lookup, sampleContract_database.2] at hkey
  cases hkey

/-- A contract with the value 4 at key 3: the slot is removed, but the total
stays at 32. -/
theorem closeTransaction_keeps_total :
    letI := sampleKeccak
    let saved : State := ((do
      closeAccounts 9
      commit samplePatches .removeEmptyAccounts : M Unit) sampleContract).state
    let closed : State := (closeTransaction samplePatches [1] 9 .removeEmptyAccounts saved).state
    saved.db.storageUsed = 32 ∧ (storageUsed 1 saved).value? = some 32 ∧
      saved.db.disk.storage.entries = [⟨(1, 3), 4⟩] ∧ closed.db.storageUsed = 32 ∧
      closed.db.disk.storage.entries = [] ∧ closed.usage 1 = -32 := by
  let _ := sampleKeccak
  refine ⟨?_, ?_, ?_, ?_, ?_, ?_⟩ <;> decide +kernel

end Skaled.State
