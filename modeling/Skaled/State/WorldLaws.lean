import Skaled.State.World

/-! # Invariants of steps

What every run of steps keeps: clean accounts read as they are saved, but for
code that the log can take back, and the log can be taken back entry by entry.
There is a part for the accounts and one for the storage.
-/

namespace Skaled

open Function (update update_eq_self update_of_ne update_self)
open World (forget mark push put undo)
open Store (count setSlot write)

/-! ## One change and its inverse -/

variable {a : Address} {info : AccountInfo} {change : Change}

theorem update_map_update {accounts : Address → Option AccountInfo} {info info' : AccountInfo}
    {f : AccountInfo → AccountInfo} (huse : accounts a = some info) (hf : f info' = info) :
    update (update accounts a (some info')) a
      ((update accounts a (some info') a).map f) = accounts := by
  rw [update_self, Function.update_idem, Option.map_some, hf, ← huse,
    update_eq_self]

theorem slotCount_neg (old new : U256) : State.slotCount new old = -State.slotCount old new := by
  unfold State.slotCount
  split_ifs <;> simp_all

theorem Store.write_write (st : Store) (a : Address) (key value : U256) :
    (st.write a key value).write a key (st.slots a key) = st := by
  have hcount := slotCount_neg (st.slots a key) value
  ext b k
  · by_cases hb : b = a
    · subst hb
      by_cases hk : k = key
      · subst hk
        simp [write, setSlot, count]
      · simp [write, setSlot, count]
    · simp [write, setSlot, count]
  · by_cases hb : b = a
    · subst hb
      simp [write, setSlot, count, hcount]
    · simp [write, setSlot, count, hb]
  · simp [write, setSlot, count, hcount]

@[simp] theorem undoStore_slots {P : Patches} (saved : Address → U256 → U256) (change : Change)
    (st : Store) : (undoStore P saved change st).slots = undoSlots saved change st.slots := by
  cases change with
  | storage a key value => cases hpatch : P.contractStorage <;> simp [undoStore, hpatch] <;> rfl
  | _ => rfl

theorem undoSlots_write (saved : Address → U256 → U256) (st : Store) (a : Address)
    (key value : U256) :
    undoSlots saved (.storage a key (st.slots a key)) (st.write a key value).slots = st.slots := by
  simp [undoSlots, write, setSlot, count]

variable [Keccak] {P : Patches} {floor : Nat} {w w' : World}

theorem AccountInfo.withoutCode_eq (h : info.Hashed) (hfree : info.codeHash = emptySHA3) :
    info.withoutCode = info := by
  unfold AccountInfo.withoutCode
  rw [← hfree, ← h.2 hfree]

theorem AccountInfo.withoutCode_setCode (info : AccountInfo) (code : Bytes) :
    (info.setCode code).withoutCode = info.withoutCode := by
  unfold AccountInfo.setCode
  split <;> rfl

theorem map_withoutCode_idem (account : Option AccountInfo) :
    (account.map AccountInfo.withoutCode).map AccountInfo.withoutCode =
      account.map AccountInfo.withoutCode := by
  cases account <;> rfl

theorem AccountInfo.Hashed.setCode (h : info.Hashed) (code : Bytes) :
    (info.setCode code).Hashed := by
  unfold AccountInfo.setCode
  split
  · exact h
  · next hne => exact ⟨rfl, fun heq => absurd heq hne⟩

/-! ## The accounts part -/

/-- The entries that are logged when an account becomes dirty. -/
def Change.IsFirst : Change → Prop
  | .create _ | .touch _ => True
  | _ => False

def Change.IsCode : Change → Prop
  | .code _ _ => True
  | _ => False

/-- Clean accounts are saved, but for code that `log` can take back. -/
def World.Saves (w : World) (log : List Change) : Prop :=
  ∀ a, w.dirty a = false → w.accounts a = w.saved.accounts a ∨ ∃ old, .code a old ∈ log

/-- Clean accounts are saved up to code that is in the log, where they have no
other entry. The log can be taken back, and code belongs to its hash. -/
structure AccountsOk (w : World) : Prop where
  settled : w.Saves w.log
  unsaved : ∀ a old, .code a old ∈ w.log → w.dirty a = false →
    (w.accounts a).map AccountInfo.withoutCode = w.saved.accounts a
  logged : ∀ e ∈ w.log, w.dirty e.address = true ∨ e.IsCode
  first : w.log.Pairwise fun newer older =>
    newer.IsFirst → older.address = newer.address → older.IsCode
  undoable : UndoLog.Valid (undoAccounts w.saved.accounts) (UndoableAccounts w.saved.accounts)
    w.log w.accounts
  hashed : ∀ a info, w.accounts a = some info → info.Hashed
  savedHashed : ∀ a info, w.saved.accounts a = some info → info.Hashed

omit [Keccak] in
theorem World.Saves.eq (h : w.Saves []) (hclean : w.dirty a = false) :
    w.accounts a = w.saved.accounts a := by
  obtain heq | ⟨old, hold⟩ := h a hclean
  · exact heq
  · cases hold

theorem AccountsOk.congr (h : AccountsOk w) (haccounts : w'.accounts = w.accounts)
    (hdirty : w'.dirty = w.dirty) (hsaved : w'.saved.accounts = w.saved.accounts)
    (hlog : w'.log = w.log) : AccountsOk w' := by
  obtain ⟨hsettled, hunsaved, hlogged, hfirst, hundoable, hhashed, hsavedHashed⟩ := h
  unfold World.Saves at hsettled
  rw [← haccounts, ← hsaved, ← hlog] at hundoable
  rw [← hlog] at hlogged hfirst
  rw [← haccounts] at hhashed
  rw [← haccounts, ← hdirty, ← hsaved, ← hlog] at hsettled hunsaved
  rw [← hdirty] at hlogged
  rw [← hsaved] at hsavedHashed
  exact ⟨hsettled, hunsaved, hlogged, hfirst, hundoable, hhashed, hsavedHashed⟩

theorem undoAccounts_hashed {saved accounts : Address → Option AccountInfo}
    (hsaved : ∀ a info, saved a = some info → info.Hashed)
    (h : ∀ a info, accounts a = some info → info.Hashed) (a : Address) (info : AccountInfo)
    (huse : undoAccounts saved change accounts a = some info) : info.Hashed := by
  have hedit : ∀ b (f : AccountInfo → AccountInfo), (∀ i, i.Hashed → (f i).Hashed) →
      update accounts b ((accounts b).map f) a = some info → info.Hashed := by
    intro b f hf heq
    by_cases hab : a = b
    · subst hab
      rw [update_self, Option.map_eq_some_iff] at heq
      obtain ⟨old, hold, rfl⟩ := heq
      exact hf old (h a old hold)
    · rw [update_of_ne hab] at heq
      exact h a info heq
  cases change with
  | balance b value | nonce b value =>
    refine hedit b _ ?_ huse
    exact fun _ hi => hi
  | code b old =>
    refine hedit b _ ?_ huse
    exact fun _ _ => ⟨rfl, fun _ => rfl⟩
  | create b =>
    simp only [undoAccounts] at huse
    by_cases hab : a = b
    · subst hab
      rw [update_self] at huse
      exact hsaved a info huse
    · rw [update_of_ne hab] at huse
      exact h a info huse
  | storage b key value | touch b => exact h a info huse

theorem undoAccounts_of_ne {saved accounts : Address → Option AccountInfo}
    (hne : a ≠ change.address) : undoAccounts saved change accounts a = accounts a := by
  cases change <;> simp_all [undoAccounts]

theorem undoAccounts_update {saved accounts : Address → Option AccountInfo}
    (hne : change.address ≠ a) (account : Option AccountInfo) :
    undoAccounts saved change (update accounts a account) =
      update (undoAccounts saved change accounts) a account := by
  cases change <;> simp_all [undoAccounts, Function.update_comm]

/-- Code that a log takes back may get lost before: all entries can still be
taken back, with the same result. -/
theorem undoAll_withoutCode {saved accounts : Address → Option AccountInfo} {log : List Change}
    (hcode : ∀ e ∈ log, e.address = a → e.IsCode) :
    (UndoLog.Valid (undoAccounts saved) (UndoableAccounts saved) log accounts →
      UndoLog.Valid (undoAccounts saved) (UndoableAccounts saved) log
        (update accounts a ((accounts a).map AccountInfo.withoutCode))) ∧
    ((∃ old, Change.code a old ∈ log) → UndoLog.undoAll (undoAccounts saved) log
        (update accounts a ((accounts a).map AccountInfo.withoutCode)) =
      UndoLog.undoAll (undoAccounts saved) log accounts) := by
  induction log generalizing accounts with
  | nil => exact ⟨id, fun ⟨_, hold⟩ => nomatch hold⟩
  | cons e rest ih =>
    by_cases hne : e.address = a
    · cases e with
      | code b old =>
        obtain rfl : b = a := hne
        have hundo : undoAccounts saved (.code b old)
            (update accounts b ((accounts b).map AccountInfo.withoutCode)) =
            undoAccounts saved (.code b old) accounts := by
          simp only [undoAccounts, update_self, Function.update_idem, map_withoutCode_idem]
        refine ⟨fun ⟨⟨huse, _⟩, hvalid⟩ => ⟨⟨?_, trivial⟩, hundo ▸ hvalid⟩, fun _ => ?_⟩
        · simpa using huse
        · exact congrArg (UndoLog.undoAll (undoAccounts saved) rest) hundo
      | _ => exact (hcode _ (.head _) hne).elim
    · have hrest := @ih (undoAccounts saved e accounts) fun e' he' => hcode e' (.tail _ he')
      rw [undoAccounts_of_ne (Ne.symm hne)] at hrest
      refine ⟨fun ⟨hcan, hvalid⟩ => ⟨?_, ?_⟩, fun ⟨old, hold⟩ => ?_⟩
      · cases e <;> simp only [Change.address] at hne <;>
          simpa only [UndoableAccounts, Change.address, update_of_ne hne] using hcan
      · rw [undoAccounts_update hne]
        exact hrest.1 hvalid
      · obtain heq | hold := List.mem_cons.mp hold
        · exact absurd (congrArg Change.address heq).symm hne
        · rw [UndoLog.undoAll, undoAccounts_update hne]
          exact hrest.2 ⟨old, hold⟩

omit [Keccak] in
theorem mark_logged {log : List Change} {dirty : Address → Bool}
    (h : ∀ e ∈ log, dirty e.address = true ∨ e.IsCode) (change : Change) :
    ∀ e ∈ change :: log, update dirty change.address true e.address = true ∨ e.IsCode := by
  intro e he
  by_cases hne : e.address = change.address
  · exact .inl (by rw [hne, update_self])
  · rw [update_of_ne hne]
    obtain rfl | he := List.mem_cons.mp he
    · exact absurd rfl hne
    · exact h e he

section

variable (h : AccountsOk w)

include h

theorem AccountsOk.isCode (hclean : w.dirty a = false) {e : Change} (he : e ∈ w.log)
    (ha : e.address = a) : e.IsCode := by
  refine (h.logged e he).resolve_left fun hdirty => ?_
  rw [ha, hclean] at hdirty
  cases hdirty

theorem AccountsOk.forget_accounts (hclean : w.dirty a = false) :
    (w.forget a).accounts = w.accounts ∨ (∃ old, Change.code a old ∈ w.log) ∧
      (w.forget a).accounts = update w.accounts a ((w.accounts a).map AccountInfo.withoutCode) := by
  obtain heq | ⟨old, hold⟩ := h.settled a hclean
  · exact .inl (by rw [World.forget, ← heq, update_eq_self])
  · exact .inr ⟨⟨old, hold⟩, by rw [World.forget, ← h.unsaved a old hold hclean]⟩

theorem AccountsOk.forget (hclean : w.dirty a = false) : AccountsOk (w.forget a) := by
  obtain heq | ⟨⟨old, hold⟩, heq⟩ := h.forget_accounts hclean
  · exact h.congr heq rfl rfl rfl
  refine ⟨?_, ?_, h.logged, h.first, ?_, ?_, h.savedHashed⟩
  · intro b hb
    by_cases hne : b = a
    · exact .inr ⟨old, hne ▸ hold⟩
    · simpa only [World.forget, update_of_ne hne] using h.settled b hb
  · intro b old' hold' hb
    have hunsaved := h.unsaved b old' hold' hb
    by_cases hne : b = a
    · subst hne
      rw [heq, update_self, map_withoutCode_idem]
      exact hunsaved
    · simpa only [World.forget, update_of_ne hne] using hunsaved
  · rw [heq]
    exact (undoAll_withoutCode fun _ he => h.isCode hclean he).1 h.undoable
  · intro b info hb
    by_cases hne : b = a
    · subst hne
      simp only [World.forget, update_self] at hb
      exact h.savedHashed b info hb
    · simp only [World.forget, update_of_ne hne] at hb
      exact h.hashed b info hb

theorem AccountsOk.none_saved (hnone : w.accounts a = none) (hclean : w.dirty a = false) :
    w.saved.accounts a = none := by
  obtain heq | ⟨old, hold⟩ := h.settled a hclean
  · rw [← heq, hnone]
  · rw [← h.unsaved a old hold hclean, hnone, Option.map_none]

/-- A clean empty account is saved, and without code. -/
theorem AccountsOk.empty_saved (huse : w.accounts a = some info) (hempty : info.isEmpty)
    (hclean : w.dirty a = false) : w.accounts a = w.saved.accounts a ∧
      (w.saved.accounts a).map AccountInfo.withoutCode = w.saved.accounts a := by
  have hfree : info.codeHash = emptySHA3 := (of_decide_eq_true hempty).2.2
  have hsame := AccountInfo.withoutCode_eq (h.hashed a info huse) hfree
  have hsaved : w.accounts a = w.saved.accounts a := by
    obtain heq | ⟨old, hold⟩ := h.settled a hclean
    · exact heq
    · rw [← h.unsaved a old hold hclean, huse, Option.map_some, hsame]
  exact ⟨hsaved, by rw [← hsaved, huse, Option.map_some, hsame]⟩

theorem AccountsOk.first_push (change : Change)
    (hclean : change.IsFirst → w.dirty change.address = false) :
    (change :: w.log).Pairwise fun newer older =>
      newer.IsFirst → older.address = newer.address → older.IsCode :=
  List.pairwise_cons.mpr ⟨fun _ he hfirst => h.isCode (hclean hfirst) he, h.first⟩

/-- Replacing one account and logging the change keeps the invariant. -/
theorem AccountsOk.edit (change : Change)
    (hclean : change.IsFirst → w.dirty change.address = false) (hhashed : info.Hashed)
    (hcan : UndoableAccounts w.saved.accounts change (w.put change.address info).accounts)
    (hundo : undoAccounts w.saved.accounts change (w.put change.address info).accounts =
      w.accounts) :
    AccountsOk ((w.put change.address info).push change) := by
  have hother : ∀ b, ((w.put change.address info).push change).dirty b = false →
      b ≠ change.address ∧ w.dirty b = false := by
    intro b hb
    have hne : b ≠ change.address := by
      rintro rfl
      simp [put, push] at hb
    simp only [put, push, update_of_ne hne] at hb
    exact ⟨hne, hb⟩
  refine ⟨?_, ?_, mark_logged h.logged change, h.first_push change hclean,
    UndoLog.Valid.push h.undoable hundo hcan, ?_, h.savedHashed⟩
  · intro b hb
    obtain ⟨hne, hb⟩ := hother b hb
    simp only [put, push, update_of_ne hne]
    exact (h.settled b hb).imp_right (Exists.imp fun _ => .tail _)
  · intro b old hold hb
    obtain ⟨hne, hb⟩ := hother b hb
    simp only [put, push, update_of_ne hne]
    refine h.unsaved b old ((List.mem_cons.mp hold).resolve_left fun heq => ?_) hb
    exact hne (congrArg Change.address heq)
  · intro b i hb
    by_cases hne : b = change.address
    · subst hne
      simp only [put, push, update_self, Option.some.injEq] at hb
      exact hb ▸ hhashed
    · simp only [put, push, update_of_ne hne] at hb
      exact h.hashed b i hb

theorem AccountsOk.withoutCode_setCode (huse : w.accounts a = some info)
    (hfree : info.codeHash = emptySHA3) (code : Bytes) : (info.setCode code).withoutCode = info :=
  (info.withoutCode_setCode code).trans (AccountInfo.withoutCode_eq (h.hashed a info huse) hfree)

theorem AccountsOk.undo_setCode (huse : w.accounts a = some info)
    (hfree : info.codeHash = emptySHA3) (code old : Bytes) :
    undoAccounts w.saved.accounts (.code a old) (w.setCode a info code old).accounts =
      w.accounts :=
  update_map_update huse (h.withoutCode_setCode huse hfree code)

/-- Code may be set whether the account is marked as changed or not. -/
theorem AccountsOk.setCode (huse : w.accounts a = some info) (hfree : info.codeHash = emptySHA3)
    (code old : Bytes) : AccountsOk (w.setCode a info code old) := by
  have hhashed := h.hashed a info huse
  have hback := h.withoutCode_setCode huse hfree code
  refine ⟨?_, ?_, ?_, h.first_push (.code a old) (fun hf => hf.elim),
    h.undoable.push (h.undo_setCode huse hfree code old) ⟨?_, trivial⟩, ?_, h.savedHashed⟩
  · intro b hb
    by_cases hne : b = a
    · exact .inr ⟨old, hne ▸ .head _⟩
    · simp only [World.setCode, update_of_ne hne]
      exact (h.settled b hb).imp_right (Exists.imp fun _ => .tail _)
  · intro b old' hold' hb
    by_cases hne : b = a
    · subst hne
      simp only [World.setCode, update_self, Option.map_some, hback, ← huse]
      obtain heq | ⟨older, holder⟩ := h.settled b hb
      · exact heq
      · rw [← h.unsaved b older holder hb, huse, Option.map_some,
          AccountInfo.withoutCode_eq hhashed hfree]
    · simp only [World.setCode, update_of_ne hne]
      refine h.unsaved b old' ((List.mem_cons.mp hold').resolve_left fun heq => ?_) hb
      exact hne (congrArg Change.address heq)
  · intro e he
    obtain rfl | he := List.mem_cons.mp he
    · exact .inr trivial
    · exact h.logged e he
  · simp [World.setCode]
  · intro b i hb
    by_cases hne : b = a
    · subst hne
      simp only [World.setCode, update_self, Option.some.injEq] at hb
      exact hb ▸ hhashed.setCode code
    · simp only [World.setCode, update_of_ne hne] at hb
      exact h.hashed b i hb

/-- An account that is clean once the newest entry has been taken back is saved. -/
theorem AccountsOk.undo_eq {rest : List Change} (hlog : w.log = change :: rest)
    (hclean : (w.undo P change).dirty change.address = false) :
    (w.undo P change).accounts change.address = w.saved.accounts change.address ∧
      (w.saved.accounts change.address).map AccountInfo.withoutCode =
        w.saved.accounts change.address := by
  obtain ⟨⟨_, hcan⟩, _⟩ : UndoableAccounts w.saved.accounts change w.accounts ∧ _ :=
    hlog ▸ h.undoable
  cases change with
  | create a =>
    refine ⟨by simp [World.undo, undoAccounts], ?_⟩
    rw [show w.saved.accounts (Change.create a).address = none from hcan]
    rfl
  | touch a => exact hcan
  | code a old =>
    have hunsaved := h.unsaved a old (hlog ▸ .head _) hclean
    refine ⟨?_, ?_⟩
    · simpa [World.undo, undoAccounts] using hunsaved
    · rw [Change.address, ← hunsaved, map_withoutCode_idem]
  | _ => simp [World.undo] at hclean

/-- Taking back the newest entry keeps the invariant. -/
theorem AccountsOk.undo {rest : List Change}
    (hlog : w.log = change :: rest) : AccountsOk { w.undo P change with log := rest } := by
  obtain ⟨⟨_, hvalid⟩, hfirst⟩ := (⟨hlog ▸ h.undoable, hlog ▸ h.first⟩ :
    (UndoableAccounts w.saved.accounts change w.accounts ∧ _) ∧ _)
  obtain ⟨hbelow, hfirst⟩ := List.pairwise_cons.mp hfirst
  have hother : ∀ b, b ≠ change.address → (w.undo P change).dirty b = w.dirty b := by
    intro b hb
    cases change <;> simp_all [World.undo]
  refine ⟨?_, ?_, ?_, hfirst, hvalid, undoAccounts_hashed h.savedHashed h.hashed, h.savedHashed⟩
  · intro b hclean
    by_cases hb : b = change.address
    · subst hb
      exact .inl (h.undo_eq (P := P) hlog hclean).1
    · simp only [World.undo, undoAccounts_of_ne hb]
      refine (h.settled b (hother b hb ▸ hclean)).imp_right (Exists.imp fun old hold => ?_)
      rw [hlog] at hold
      exact (List.mem_cons.mp hold).resolve_left fun heq => hb (congrArg Change.address heq)
  · intro b old hold hclean
    by_cases hb : b = change.address
    · subst hb
      obtain ⟨heq, hnone⟩ := h.undo_eq (P := P) hlog hclean
      exact (congrArg _ heq).trans hnone
    · simp only [World.undo, undoAccounts_of_ne hb]
      exact h.unsaved b old (hlog ▸ .tail _ hold) (hother b hb ▸ hclean)
  · intro e he
    have hlogged := h.logged e (hlog ▸ .tail _ he)
    by_cases hb : e.address = change.address
    · -- below a first entry there is only code of the same account
      have hcode := fun hf => hbelow e he hf hb
      cases change <;> simp_all [World.undo, Change.IsFirst]
    · exact hlogged.imp_left fun hdirty => (hother _ hb).trans hdirty

theorem AccountsOk.mark (a : Address) : AccountsOk (w.mark a true) := by
  have hother : ∀ b, (w.mark a true).dirty b = false → w.dirty b = false := by
    intro b hb
    by_cases hne : b = a
    · simp [World.mark, hne] at hb
    · simpa only [World.mark, update_of_ne hne] using hb
  refine ⟨fun b hb => h.settled b (hother b hb),
    fun b old hold hb => h.unsaved b old hold (hother b hb), ?_, h.first, h.undoable, h.hashed,
    h.savedHashed⟩
  intro e he
  refine (h.logged e he).imp_left fun hdirty => ?_
  by_cases hne : e.address = a
  · simp only [World.mark, hne, update_self]
  · simpa only [World.mark, update_of_ne hne] using hdirty

theorem AccountsOk.step (hstep : Step P floor w w') : AccountsOk w' := by
  cases hstep with
  | forget hclean => exact h.forget hclean
  | mark huse => exact h.mark _
  | @nonce a info value huse =>
    refine h.edit (.nonce a info.nonce) (fun hf => hf.elim) (h.hashed a info huse)
      ⟨by simp [put], trivial⟩ ?_
    exact update_map_update huse rfl
  | @touch a info huse hempty hclean =>
    obtain ⟨hsaved, hnone⟩ := h.empty_saved huse hempty hclean
    have hmark := h.mark a
    refine ⟨fun b hb => (hmark.settled b hb).imp_right (Exists.imp fun _ => .tail _),
      fun b old hold hb => hmark.unsaved b old
        ((List.mem_cons.mp hold).resolve_left (fun heq => nomatch heq)) hb,
      mark_logged h.logged (.touch a), h.first_push (.touch a) (fun _ => hclean),
      UndoLog.Valid.push h.undoable rfl ⟨?_, hsaved, hnone⟩, h.hashed, h.savedHashed⟩
    simp [World.mark, push, huse]
  | @balance a info amount huse =>
    refine h.edit (.balance a amount) (fun hf => hf.elim) (h.hashed a info huse)
      ⟨by simp [put], trivial⟩ ?_
    exact update_map_update huse (by simp)
  | @create a info hnone hclean hhash hcode _ =>
    have hsaved := h.none_saved hnone hclean
    refine h.edit (.create a) (fun _ => hclean)
      ⟨by rw [hcode, hhash]; rfl, fun _ => hcode⟩
      ⟨by simp [put], hsaved⟩ ?_
    simp [undoAccounts, put, hsaved, ← hnone]
  | code code old huse hfree _ => exact h.setCode huse hfree code old
  | @storage a info key value huse =>
    have hedit := h.edit (.storage a key (w.store.slots a key)) (fun hf => hf.elim)
      (h.hashed a info huse) ⟨by simp [put], trivial⟩
      (by simp [undoAccounts, put, ← huse])
    exact hedit.congr rfl rfl rfl rfl
  | pop hlog _ _ => exact h.undo hlog
  | reset _ | rolledBack _ => exact h.congr rfl rfl rfl rfl

theorem AccountsOk.steps (hsteps : Steps P floor w w') : AccountsOk w' := by
  induction hsteps with
  | refl => exact h
  | tail _ hstep ih => exact ih.step hstep

/-- Which accounts are saved after a step: setting code is left to the caller,
and an entry that is taken back leaves a clean account saved. -/
theorem World.Saves.step {log log' : List Change} (hsaves : w.Saves log)
    (hstep : Step P floor w w') (hkeep : ∀ e ∈ log, w.log = e :: w'.log ∨ e ∈ log') :
    w'.Saves log' := by
  have hgrown : w.log.length ≤ w'.log.length → ∀ b, w.dirty b = false →
      w.accounts b = w.saved.accounts b ∨ ∃ old, Change.code b old ∈ log' := by
    intro hle b hb
    refine (hsaves b hb).imp_right (Exists.imp fun old hold => ?_)
    refine (hkeep _ hold).resolve_left fun heq => ?_
    rw [heq, List.length_cons] at hle
    omega
  have hput : ∀ a info, (w.put a info).dirty = w'.dirty → (w.put a info).accounts = w'.accounts →
      w.saved = w'.saved → w.log.length ≤ w'.log.length → w'.Saves log' := by
    intro a info hdirty haccounts hsaved hle b hb
    rw [← haccounts, ← hsaved]
    rw [← hdirty] at hb
    have hne : b ≠ a := by
      rintro rfl
      simp [put] at hb
    simp only [put, update_of_ne hne] at hb ⊢
    exact hgrown hle b hb
  cases hstep with
  | @forget a hclean =>
    intro b hb
    by_cases hne : b = a
    · exact .inl (by simp [forget, hne])
    · simpa only [forget, update_of_ne hne] using hgrown le_rfl b hb
  | @mark a huse | @touch a info huse _ _ =>
    intro b hb
    refine hgrown (by simp [mark, push]) b ?_
    by_cases hne : b = a
    · simp [mark, push, hne] at hb
    · simpa [mark, push, hne] using hb
  | nonce _ _ | balance _ _ | create _ _ _ _ _ | storage _ _ _ =>
    exact hput _ _ rfl rfl rfl (Nat.le_succ _)
  | @code a info _ _ _ _ hdirty =>
    refine hput a _ ?_ rfl rfl (Nat.le_succ _)
    simp [put, World.setCode, ← hdirty]
  | @pop change rest hlog _ _ =>
    intro b hb
    by_cases hne : b = change.address
    · subst hne
      exact .inl (h.undo_eq (P := P) hlog hb).1
    · have hdirty : w.dirty b = false := by
        cases change <;> simp_all [undo]
      simp only [undo, undoAccounts_of_ne hne]
      refine (hsaves b hdirty).imp_right (Exists.imp fun old hold => ?_)
      refine (hkeep _ hold).resolve_left fun heq => hne ?_
      exact congrArg Change.address (List.cons.inj (heq.symm.trans hlog)).1
  | reset _ | rolledBack _ => exact hgrown le_rfl

end

/-- Runs of steps keep every clean account saved. -/
theorem World.Saves.steps (hsaves : w.Saves []) (h : AccountsOk w) (hsteps : Steps P floor w w') :
    w'.Saves [] := by
  induction hsteps with
  | refl => exact hsaves
  | tail hsteps hstep ih =>
    exact ih.step (h.steps hsteps) hstep (fun _ he => nomatch he)

/-! ## The storage part -/

/-- Clean accounts have the slots and the counter that are saved, and storage
can be taken back. -/
structure StoreOk (w : World) : Prop where
  settled : ∀ a, w.dirty a = false →
    w.store.slots a = w.saved.slots a ∧ w.used a = w.saved.used a
  undoable : UndoLog.Valid (undoSlots w.saved.slots) (UndoableSlots w.saved.slots)
    w.log w.store.slots
  touched : ∀ a, .touch a ∈ w.log → w.used a = w.saved.used a

section

variable (h : StoreOk w)

include h

omit [Keccak] in
theorem StoreOk.congr (hslots : w'.store.slots = w.store.slots)
    (hused : w'.used = w.used) (hdirty : w'.dirty = w.dirty) (hsaved : w'.saved = w.saved)
    (hlog : w'.log = w.log) : StoreOk w' := by
  obtain ⟨hsettled, hundoable, htouched⟩ := h
  rw [← hslots, ← hsaved, ← hlog] at hundoable
  rw [← hused, ← hsaved, ← hlog] at htouched
  rw [← hslots, ← hused, ← hdirty, ← hsaved] at hsettled
  exact ⟨hsettled, hundoable, htouched⟩

omit [Keccak] in
/-- Logging a change of one account that leaves storage alone. -/
theorem StoreOk.edit (change : Change)
    (hundo : undoSlots w.saved.slots change w.store.slots = w.store.slots)
    (hcan : UndoableSlots w.saved.slots change w.store.slots)
    (htouch : ∀ a, change = .touch a → w.used a = w.saved.used a) :
    StoreOk ((w.put change.address info).push change) := by
  refine ⟨?_, UndoLog.Valid.push h.undoable hundo hcan, ?_⟩
  · intro b hb
    have hne : b ≠ change.address := by
      rintro rfl
      simp [put, push] at hb
    simp only [put, push, update_of_ne hne] at hb ⊢
    exact h.settled b hb
  · intro b hb
    obtain heq | hb := List.mem_cons.mp hb
    · exact htouch b heq.symm
    · exact h.touched b hb

omit [Keccak] in
theorem StoreOk.mark (a : Address) : StoreOk (w.mark a true) := by
  refine ⟨?_, h.undoable, h.touched⟩
  intro b hb
  by_cases hne : b = a
  · subst hne
    simp [World.mark] at hb
  · simp only [World.mark, update_of_ne hne] at hb ⊢
    exact h.settled b hb

theorem StoreOk.undo {rest : List Change} (hlog : w.log = change :: rest) :
    StoreOk { w.undo P change with log := rest } := by
  obtain ⟨hcan, hvalid⟩ : _ ∧ _ := hlog ▸ h.undoable
  have htouched : ∀ a, .touch a ∈ rest → w.used a = w.saved.used a := fun a ha =>
    h.touched a (by rw [hlog]; exact .tail _ ha)
  refine ⟨?_, by simpa [World.undo] using hvalid, ?_⟩
  · intro b hclean
    by_cases hb : b = change.address
    · subst hb
      cases change with
      | create a => simp [World.undo, undoSlots]
      | touch a => exact ⟨hcan, h.touched a (by rw [hlog]; exact .head _)⟩
      | code a old => exact h.settled a hclean
      | _ => simp_all [World.undo]
    · have hsettled := h.settled b
      cases change <;> simp_all [World.undo, undoSlots]
  · intro b hb
    have := htouched b hb
    cases change with
    | create a =>
      by_cases hne : b = a
      · simp [World.undo, hne]
      · simpa [World.undo, hne] using this
    | _ => exact this

omit [Keccak] in
theorem StoreOk.forget (hclean : w.dirty a = false) : StoreOk (w.forget a) := by
  obtain ⟨hslots, hused⟩ := h.settled a hclean
  refine h.congr ?_ ?_ rfl rfl rfl
  · simp only [World.forget]
    rw [← hslots, update_eq_self]
  · rw [World.forget, ← hused, update_eq_self]

theorem StoreOk.setCode (a : Address) (info : AccountInfo) (code old : Bytes) :
    StoreOk (w.setCode a info code old) := by
  refine ⟨h.settled, UndoLog.Valid.push h.undoable rfl trivial, fun b hb => ?_⟩
  exact h.touched b ((List.mem_cons.mp hb).resolve_left (fun heq => nomatch heq))

theorem StoreOk.step (hstep : Step P floor w w') : StoreOk w' := by
  cases hstep with
  | forget hclean => exact h.forget hclean
  | mark huse => exact h.mark _
  | @nonce a info value huse =>
    exact h.edit (.nonce a info.nonce) rfl trivial (fun _ heq => nomatch heq)
  | @touch a info huse _ hclean =>
    have hmark := h.mark a
    obtain ⟨hslots, hused⟩ := h.settled a hclean
    refine ⟨hmark.settled, UndoLog.Valid.push h.undoable rfl hslots, ?_⟩
    intro b hb
    obtain heq | hb := List.mem_cons.mp hb
    · obtain rfl := Change.touch.inj heq
      exact hused
    · exact h.touched b hb
  | @balance a info amount huse =>
    exact h.edit (.balance a amount) rfl trivial (fun _ heq => nomatch heq)
  | @create a info hnone hclean _ _ _ =>
    obtain ⟨hslots, _⟩ := h.settled a hclean
    refine h.edit (.create a) ?_ hslots (fun _ heq => nomatch heq)
    simp only [undoSlots]
    rw [← hslots, update_eq_self]
  | code code old _ _ _ => exact h.setCode _ _ code old
  | @storage a info key value huse =>
    refine ⟨?_, UndoLog.Valid.push h.undoable (undoSlots_write ..) trivial, ?_⟩
    · intro b hb
      have hne : b ≠ a := by
        rintro rfl
        simp [put, push] at hb
      have hclean : w.dirty b = false := by
        simpa [put, push, hne] using hb
      simpa [put, push, write, setSlot, count, hne] using
        h.settled b hclean
    · intro b hb
      obtain heq | hb := List.mem_cons.mp hb
      · cases heq
      · exact h.touched b hb
  | pop hlog _ _ => exact h.undo hlog
  | reset _ | rolledBack _ => exact h.congr rfl rfl rfl rfl rfl

end

theorem StoreOk.steps (h : StoreOk w) (hsteps : Steps P floor w w') : StoreOk w' := by
  induction hsteps with
  | refl => exact h
  | tail _ hstep ih => exact ih.step hstep

end Skaled
