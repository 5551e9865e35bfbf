import Skaled.State.Operations
import Skaled.State.Programs

/-! # Copies of a state

The copies of a `State` share the database and its version number; each has
caches, changes and a version of its own. A copy looks into the database only
behind a check that its version is the stored one, and answers from its caches
otherwise.
-/

namespace Skaled.State

open EStateM (Invariant bind_apply get_bind modify_bind)

variable [Keccak]

/-- `clearStorage` finds nothing counted for the contract. -/
def ClearsNothing (a : Address) (s : State) : Prop :=
  ∀ acc s', account a s = .ok (some acc) s' → acc.storageUsed = 0 ∧ s'.usage a = 0

/-- A contract with nothing counted is looked up, and its counter is noted. -/
theorem clearStorage_state {a : Address} {s : State} (h : ClearsNothing a s) :
    (clearStorage a s).state = (account a s).state ∨
      (clearStorage a s).state = (countSlots a 0 (account a s).state).state := by
  rw [clearStorage, bind_apply]
  cases hfound : account a s with
  | error failure s' => exact .inl rfl
  | ok found s' =>
    cases found with
    | none => exact .inl rfl
    | some acc =>
      obtain ⟨hused, husage⟩ := h acc s' hfound
      refine .inr ?_
      dsimp only
      rw [countSlots, modify_bind, get_bind, if_pos]
      · rfl
      · refine ⟨hused, ?_⟩
        change ((s'.storageUsage.insert a (s'.usage a + 0 * 32)).lookup a).getD 0 = 0
        rw [AList.lookup_insert, husage]
        rfl

/-! ## Operations on a copy -/

inductive Read where
  | addressInUse (a : Address)
  | accountNonemptyAndExisting (a : Address)
  | addressHasCode (a : Address)
  | balance (a : Address)
  | getNonce (a : Address)
  | codeHash (a : Address)
  | version (a : Address)
  | storageUsed (a : Address)
  | code (a : Address)
  | codeSize (a : Address)
  | storage (a : Address) (key : U256)
  | originalStorageValue (a : Address) (key : U256)

/-- What a read returns. -/
def Read.Value : Read → Type
  | .addressInUse _ | .accountNonemptyAndExisting _ | .addressHasCode _ => Bool
  | .balance _ | .getNonce _ | .codeHash _ | .version _ => U256
  | .storageUsed _ => Int
  | .code _ => Bytes
  | .codeSize _ => Nat
  | .storage _ _ | .originalStorageValue _ _ => U256

def Read.run : (r : Read) → M r.Value
  | .addressInUse a => State.addressInUse a
  | .accountNonemptyAndExisting a => State.accountNonemptyAndExisting a
  | .addressHasCode a => State.addressHasCode a
  | .balance a => State.balance a
  | .getNonce a => State.getNonce a
  | .codeHash a => State.codeHash a
  | .version a => State.version a
  | .storageUsed a => State.storageUsed a
  | .code a => State.code a
  | .codeSize a => State.codeSize a
  | .storage a key => State.storage a key
  | .originalStorageValue a key => State.originalStorageValue a key

/-- The operations of a state on accounts, storage and code, except `commit`. -/
inductive Access where
  | read (r : Read)
  | storageOf (a : Address)
  | write (op : Op)
  | kill (a : Address)
  | clearStorage (a : Address)
  | updateStorageUsage
  | resetStorageChanges
  | rollback (savepoint : Nat)

def Access.run (P : Patches) : Access → M Unit
  | .read r => do let _ ← r.run
  | .storageOf a => do let _ ← State.storageWithoutLock a
  | .write op => op.run
  | .kill a => State.kill a
  | .clearStorage a => State.clearStorage a
  | .updateStorageUsage => State.updateStorageUsage
  | .resetStorageChanges => State.resetStorageChanges
  | .rollback savepoint => State.rollback P savepoint

/-- A contract whose storage the operation clears has nothing counted. -/
def Access.WritesNothing (s : State) : Access → Prop
  | .clearStorage a => s.ClearsNothing a
  | _ => True

/-- The places that an operation writes. -/
def Op.writes : Op → List Place
  | .incNonce a | .setNonce a _ | .addBalance a _ | .subBalance a _ | .setBalance a _
  | .createContract a => [.account a]
  | .setCode a _ _ => [.account a, .code a]
  | .setStorage a key _ => [.account a, .slot a key]

/-- The counters of a transaction are added to the accounts that have one. -/
def Access.writes (s : State) : Access → List Place
  | .write op => op.writes
  | .kill a | .clearStorage a => [.account a]
  | .updateStorageUsage => s.storageUsage.keys.map .account
  | _ => []

namespace Kept

variable {May : Place → Prop} {I : State → Prop} (h : Kept May I)

include h

theorem read (r : Read) : Invariant I r.run := by
  cases r with
  | addressInUse a | accountNonemptyAndExisting a | addressHasCode a | codeHash a | version a
  | storageUsed a => exact h.field (.pure _) fun _ => .pure _
  | balance a => exact h.balance a
  | getNonce a => exact h.getNonce a
  | code a => exact h.code a
  | codeSize a => exact h.codeSize a
  | storage a key => exact h.storage a key
  | originalStorageValue a key => exact h.originalStorageValue a key

theorem write {op : Op} (hmay : ∀ place ∈ op.writes, May place) : Invariant I op.run := by
  have hfirst {place : Place} {rest : List Place} (heq : op.writes = place :: rest) :
      May place := hmay place (heq ▸ List.mem_cons_self)
  cases op with
  | incNonce a => exact h.incNonce (hfirst rfl)
  | setNonce a nonce => exact h.setNonce (hfirst rfl) nonce
  | addBalance a amount => exact h.addBalance (hfirst rfl) amount
  | subBalance a value => exact h.subBalance (hfirst rfl) value
  | setBalance a value => exact h.setBalance (hfirst rfl) value
  | createContract a => exact h.createContract (hfirst rfl)
  | setCode a code version =>
    have hcode := hmay (.code a) (List.mem_cons_of_mem _ List.mem_cons_self)
    exact h.setCode (hfirst rfl) hcode code version
  | setStorage a key value =>
    have hslot := hmay (.slot a key) (List.mem_cons_of_mem _ List.mem_cons_self)
    exact h.setStorage (hfirst rfl) hslot value

/-- What is kept is kept by the operations that write in places where they may. -/
theorem run (P : Patches) {s : State} {op : Access} (hop : op.WritesNothing s)
    (hmay : ∀ place ∈ op.writes s, May place) (hs : I s) : I (op.run P s).state := by
  cases op with
  | read r => exact ((h.read r).bind fun _ => .pure _).state hs
  | storageOf a => exact (Invariant.bind (storageWithoutLock a) fun _ => .pure _).state hs
  | write op => exact (h.write hmay).state hs
  | kill a => exact (h.kill (hmay _ List.mem_cons_self)).state hs
  | clearStorage a =>
    have haccount := (h.account a).state hs
    change I (State.clearStorage a s).state
    rcases clearStorage_state hop with heq | heq
    · exact heq ▸ haccount
    · exact heq ▸ (h.countSlots a 0).state haccount
  | updateStorageUsage =>
    have hentries := h.updateEntries s.storageUsage.entries fun _ hentry =>
      hmay _ (List.mem_map_of_mem (List.mem_map_of_mem hentry))
    rw [Access.run, State.updateStorageUsage, get_bind]
    exact hentries.state hs
  | resetStorageChanges => exact h.resetStorageChanges.state hs
  | rollback savepoint => exact (h.rollback P savepoint).state hs

end Kept

end Skaled.State
