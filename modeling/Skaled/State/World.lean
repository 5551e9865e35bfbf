import Skaled.State.State
import Skaled.Lib.UndoLog

/-! # What a state is for

The accounts and slots that can be read, next to the ones that are saved in
the database, without caches. A step changes one account and enters the change
in the log, takes back the newest entry, or forgets a clean account, which
then reads as it is saved. Runs of steps never take back entries below a
floor, the length of the log at which they started.

Setting code does not mark an account as changed. It is a step at marked
accounts only: code that a clean account has been given is lost when the
account is forgotten. Clearing storage, destroying accounts and committing are
not steps.
-/

namespace Skaled

open Function (update)

/-- What can be read of an account apart from its storage. -/
structure AccountInfo where
  isAlive : Bool
  nonce : U256
  balance : U256
  codeHash : H256
  code : Bytes
  deriving DecidableEq

/-- The slots of all addresses and the counters of the running transaction. -/
@[ext] structure Store where
  slots : Address → U256 → U256
  usage : Address → Int
  current : Int

structure Saved where
  accounts : Address → Option AccountInfo
  slots : Address → U256 → U256
  used : Address → Int

@[ext] structure World where
  accounts : Address → Option AccountInfo
  dirty : Address → Bool
  store : Store
  used : Address → Int
  saved : Saved
  total : Int
  limit : Int
  log : List Change
  funds : U256
  startNonce : U256
  history : List Event

variable [Keccak]

namespace AccountInfo

def isEmpty (info : AccountInfo) : Bool :=
  info.nonce = 0 ∧ info.balance = 0 ∧ info.codeHash = emptySHA3

/-- The hash belongs to the code, and no code is stored under the empty hash. -/
def Hashed (info : AccountInfo) : Prop :=
  sha3 info.code = info.codeHash ∧ (info.codeHash = emptySHA3 → info.code = [])

def withoutCode (info : AccountInfo) : AccountInfo :=
  { info with codeHash := emptySHA3, code := [] }

/-- Code is stored unless its hash is the one of no code. -/
def setCode (info : AccountInfo) (code : Bytes) : AccountInfo :=
  if sha3 code = emptySHA3 then info else { info with codeHash := sha3 code, code }

end AccountInfo

namespace Store

def setSlot (st : Store) (a : Address) (key value : U256) : Store :=
  { st with slots := update st.slots a (update (st.slots a) key value) }

def count (st : Store) (a : Address) (slots : Int) : Store :=
  { st with
    usage := update st.usage a (st.usage a + slots * 32)
    current := st.current + slots * 32 }

def write (st : Store) (a : Address) (key value : U256) : Store :=
  (st.setSlot a key value).count a (State.slotCount (st.slots a key) value)

def resetCounters (st : Store) : Store := { st with usage := fun _ => 0, current := 0 }

end Store

/-! ## Taking back a change -/

section Undo

variable (P : Patches)

def undoAccounts (saved : Address → Option AccountInfo) (change : Change)
    (accounts : Address → Option AccountInfo) : Address → Option AccountInfo :=
  let edit a (f : AccountInfo → AccountInfo) := update accounts a ((accounts a).map f)
  match change with
  | .balance a value => edit a fun info => { info with balance := info.balance + (0 - value) }
  | .nonce a value => edit a fun info => { info with nonce := value }
  | .code a _ => edit a AccountInfo.withoutCode
  | .create a => update accounts a (saved a)
  | .storage _ _ _ | .touch _ => accounts

def undoSlots (saved : Address → U256 → U256) (change : Change)
    (slots : Address → U256 → U256) : Address → U256 → U256 :=
  match change with
  | .storage a key value => update slots a (update (slots a) key value)
  | .create a => update slots a (saved a)
  | _ => slots

/-- The counters follow the slots once the patch is active. -/
def undoStore (saved : Address → U256 → U256) (change : Change) (st : Store) : Store :=
  match change with
  | .storage a key value =>
    if P.contractStorage then st.write a key value else st.setSlot a key value
  | change => { st with slots := undoSlots saved change st.slots }

/-- What has to hold of the accounts when an entry is taken back. -/
def UndoableAccounts (saved : Address → Option AccountInfo) (change : Change)
    (accounts : Address → Option AccountInfo) : Prop :=
  (accounts change.address).isSome ∧
    match change with
    | .create a => saved a = none
    | .touch a => accounts a = saved a ∧ (saved a).map AccountInfo.withoutCode = saved a
    | _ => True

/-- Created and touched accounts have the slots that are saved. -/
def UndoableSlots (saved : Address → U256 → U256) (change : Change)
    (slots : Address → U256 → U256) : Prop :=
  match change with
  | .create a | .touch a => slots a = saved a
  | _ => True

end Undo

namespace World

def put (w : World) (a : Address) (info : AccountInfo) : World :=
  { w with
    accounts := update w.accounts a (some info)
    dirty := update w.dirty a true }

def push (w : World) (change : Change) : World := { w with log := change :: w.log }

/-- Code is set and entered in the log; the account is not marked as changed. -/
def setCode (w : World) (a : Address) (info : AccountInfo) (code old : Bytes) : World :=
  { w with
    accounts := update w.accounts a (some (info.setCode code))
    log := .code a old :: w.log }

def mark (w : World) (a : Address) (dirty : Bool) : World :=
  { w with dirty := update w.dirty a dirty }

def note (w : World) (event : Event) : World := { w with history := event :: w.history }

def forget (w : World) (a : Address) : World :=
  { w with
    accounts := update w.accounts a (w.saved.accounts a)
    store := { w.store with slots := update w.store.slots a (w.saved.slots a) }
    used := update w.used a (w.saved.used a) }

def undo (P : Patches) (w : World) (change : Change) : World :=
  { w with
    accounts := undoAccounts w.saved.accounts change w.accounts
    store := undoStore P w.saved.slots change w.store
    dirty := match change with
      | .create a | .touch a => update w.dirty a false
      | .code _ _ => w.dirty
      | .storage a _ _ | .balance a _ | .nonce a _ => update w.dirty a true
    used := match change with
      | .create a => update w.used a (w.saved.used a)
      | _ => w.used }

def nonce (w : World) (a : Address) : U256 := ((w.accounts a).map (·.nonce)).getD w.startNonce
def balance (w : World) (a : Address) : U256 := ((w.accounts a).map (·.balance)).getD w.funds
def code (w : World) (a : Address) : Bytes := ((w.accounts a).map (·.code)).getD []
def codeHash (w : World) (a : Address) : H256 := ((w.accounts a).map (·.codeHash)).getD emptySHA3
def slot (w : World) (a : Address) (key : U256) : U256 :=
  if (w.accounts a).isSome then w.store.slots a key else 0

end World

/-- One change of a world that keeps the log below `floor`. -/
inductive Step (P : Patches) (floor : Nat) : World → World → Prop
  | forget {w : World} {a : Address} (hclean : w.dirty a = false) : Step P floor w (w.forget a)
  | mark {w : World} {a : Address} (huse : (w.accounts a).isSome) : Step P floor w (w.mark a true)
  | nonce {w : World} {a : Address} {info : AccountInfo} (value : U256)
      (huse : w.accounts a = some info) :
      Step P floor w ((w.put a { info with nonce := value }).push (.nonce a info.nonce))
  | touch {w : World} {a : Address} {info : AccountInfo} (huse : w.accounts a = some info)
      (hempty : info.isEmpty) (hclean : w.dirty a = false) :
      Step P floor w ((w.mark a true).push (.touch a))
  | balance {w : World} {a : Address} {info : AccountInfo} (amount : U256)
      (huse : w.accounts a = some info) :
      Step P floor w
        ((w.put a { info with balance := info.balance + amount }).push (.balance a amount))
  | create {w : World} {a : Address} {info : AccountInfo} (hnone : w.accounts a = none)
      (hclean : w.dirty a = false) (hhash : info.codeHash = emptySHA3) (hcode : info.code = [])
      (halive : info.isAlive) :
      Step P floor w ((w.put a info).push (.create a))
  | code {w : World} {a : Address} {info : AccountInfo} (code old : Bytes)
      (huse : w.accounts a = some info) (hfree : info.codeHash = emptySHA3)
      (hdirty : w.dirty a = true) : Step P floor w (w.setCode a info code old)
  | storage {w : World} {a : Address} {info : AccountInfo} (key value : U256)
      (huse : w.accounts a = some info) :
      Step P floor w
        { (w.put a info).push (.storage a key (w.store.slots a key)) with
          store := w.store.write a key value }
  | pop {w : World} {change : Change} {rest : List Change} (hlog : w.log = change :: rest)
      (hfloor : floor ≤ rest.length) (huse : (w.accounts change.address).isSome) :
      Step P floor w { w.undo P change with log := rest }
  | reset {w : World} (hpatch : P.contractStorage = false) :
      Step P floor w { w with store := w.store.resetCounters }
  | rolledBack {w : World} (hfloor : floor ≤ w.log.length) :
      Step P floor w (w.note (.rollback w.log.length))

/-- Any number of steps. -/
abbrev Steps (P : Patches) (floor : Nat) : World → World → Prop :=
  Relation.ReflTransGen (Step P floor)

end Skaled
