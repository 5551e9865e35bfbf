import Skaled.State.Copies

/-! # Reads of a copy

A copy reads its own writes over the database of its version. What its caches have
of the places that it did not write is what that database has, whatever the copy
read, wrote or took back before, and however its operations ended.
-/

namespace Skaled.State

open EStateM (bind_apply)

/-- An account as it is read from the database: nothing is cached. -/
def plain (acc : Account) : Account :=
  { acc with codeCache := [], storageOverlay := ∅, storageOriginal := ∅ }

/-- The cached account is that of the database, but for the places written. -/
structure FromDatabase (db : OverlayDB) (written : List Place) (a : Address) (acc : Account) :
    Prop where
  record : .account a ∉ written → stored db a = some (plain acc) ∧
    (acc.codeCache = [] ∨ acc.codeCache = db.lookupAuxiliary a)
  originals : ∀ key value, acc.storageOriginal.lookup key = some value →
    value = db.lookupStorage a key
  overlay : ∀ key, .slot a key ∉ written → acc.storageOverlay.lookup key = none

/-- The caches lie over the database of the version: they differ from it in the
places written only. -/
structure Overlays (db : OverlayDB) (written : List Place) (s : State) : Prop where
  current : s.checkVersion = true → s.db = db
  cached : ∀ a acc, s.cache.lookup a = some acc → FromDatabase db written a acc
  missing : ∀ a ∈ s.nonExistingAccountsCache, db.lookup a = [] ∧
    ∀ acc, s.cache.lookup a = some acc → acc.isAlive = false
  logged : ∀ change ∈ s.changeLog, Logged (· ∈ written) change

variable {db : OverlayDB} {written : List Place} {s s' : State} {a : Address} {acc : Account}

theorem plain_of_stored (h : stored db a = some acc) : plain acc = acc := by
  obtain ⟨_, _, _, _, _, rfl⟩ := stored_eq_loaded h
  rfl

theorem fromDatabase_of_stored (h : stored db a = some acc) : FromDatabase db written a acc := by
  refine ⟨fun _ => ⟨by rw [plain_of_stored h, h], ?_⟩, ?_, ?_⟩
  all_goals obtain ⟨_, _, _, _, _, rfl⟩ := stored_eq_loaded h
  · exact .inl rfl
  · exact fun _ _ hvalue => nomatch hvalue
  · exact fun _ _ => rfl

namespace Overlays

variable (h : Overlays db written s)

include h

theorem insert (hacc : FromDatabase db written a acc)
    (halive : a ∈ s.nonExistingAccountsCache → acc.isAlive = false) :
    Overlays db written { s with cache := s.cache.insert a acc } := by
  refine ⟨h.current, fun b found hfound => ?_, fun b hb => ⟨(h.missing b hb).1, ?_⟩, h.logged⟩
  · rcases AList.lookup_insert_eq_some hfound with ⟨rfl, rfl⟩ | hold
    · exact hacc
    · exact h.cached b found hold
  · intro found hfound
    rcases AList.lookup_insert_eq_some hfound with ⟨rfl, rfl⟩ | hold
    · exact halive hb
    · exact (h.missing b hb).2 found hold

/-- The same caches in front of another database. -/
theorem congr (hcache : s'.cache = s.cache)
    (hmissing : s'.nonExistingAccountsCache = s.nonExistingAccountsCache)
    (hlog : s'.changeLog = s.changeLog) (hcurrent : s'.checkVersion = true → s'.db = db) :
    Overlays db written s' := by
  obtain ⟨-, hcached, habsent, hlogged⟩ := h
  rw [← hcache] at hcached habsent
  rw [← hmissing] at habsent
  rw [← hlog] at hlogged
  exact ⟨hcurrent, hcached, habsent, hlogged⟩

theorem mono {more : List Place} (hsub : written ⊆ more) : Overlays db more s := by
  refine ⟨h.current, fun a acc hacc => ?_, h.missing, fun change hchange => ?_⟩
  · obtain ⟨hrecord, horiginals, hoverlay⟩ := h.cached a acc hacc
    exact ⟨fun hnot => hrecord fun hmem => hnot (hsub hmem), horiginals,
      fun key hnot => hoverlay key fun hmem => hnot (hsub hmem)⟩
  · have hlogged := h.logged change hchange
    cases change with
    | storage a key value => exact ⟨hsub hlogged.1, hsub hlogged.2⟩
    | _ => exact hsub hlogged

end Overlays

/-! ## What is read -/

/-- The address that is read. -/
def Read.address : Read → Address
  | .addressInUse a | .accountNonemptyAndExisting a | .addressHasCode a | .balance a | .getNonce a
  | .codeHash a | .version a | .storageUsed a | .code a | .codeSize a | .storage a _
  | .originalStorageValue a _ => a

section

variable (db : OverlayDB) (written : List Place) (s : State)

/-- The account of an address: the copy's own where it wrote one, or else that of the
database. -/
def accountOver (a : Address) : Option Account :=
  if .account a ∈ written then (s.cache.lookup a).or (stored db a) else stored db a

def slotOver (a : Address) (key : U256) : U256 :=
  if .slot a key ∈ written then
    ((s.cache.lookup a).bind (·.storageOverlay.lookup key)).getD (db.lookupStorage a key)
  else db.lookupStorage a key

variable [Keccak]

/-- What a read returns: what the database has, with the writes of the copy over it. -/
def reading : (r : Read) → r.Value
  | .addressInUse a => (s.accountOver db written a).isSome
  | .accountNonemptyAndExisting a =>
    (s.accountOver db written a).elim false fun acc => !acc.isEmpty
  | .addressHasCode a =>
    (s.accountOver db written a).elim false fun acc => decide (acc.codeHash ≠ emptySHA3)
  | .balance a => (s.accountOver db written a).elim s.initialFunds (·.balance)
  | .getNonce a => (s.accountOver db written a).elim s.accountStartNonce (·.nonce)
  | .codeHash a => (s.accountOver db written a).elim emptySHA3 (·.codeHash)
  | .version a => (s.accountOver db written a).elim (0 : U256) (·.version)
  | .storageUsed a => (s.accountOver db written a).elim (0 : Int) (·.storageUsed)
  | .code a => (s.accountOver db written a).elim [] fun acc => (infoOf db a acc).code
  | .codeSize a => (s.accountOver db written a).elim (0 : Nat) fun acc =>
      if acc.hasNewCode then acc.codeCache.length else (infoOf db a acc).code.length
  | .storage a key =>
    if (s.accountOver db written a).isSome then s.slotOver db written a key else (0 : U256)
  | .originalStorageValue a key =>
    if (s.accountOver db written a).isSome then db.lookupStorage a key else (0 : U256)

/-- A record that cannot be decoded, or code that is not the one of the record. -/
def Unreadable (a : Address) : Prop :=
  db.lookup a ≠ [] ∧ Account.decode (db.lookup a) = none ∨
    ∃ acc, s.accountOver db written a = some acc ∧ sha3 (infoOf db a acc).code ≠ acc.codeHash

end

/-- A cached account that the copy did not write, as the database has it. -/
def shown (written : List Place) (a : Address) (acc : Account) : Account :=
  if .account a ∈ written then acc else plain acc

theorem Overlays.accountOver_eq (h : Overlays db written s) (a : Address) :
    s.accountOver db written a =
      ((s.cache.lookup a).or (stored db a)).map (shown written a) := by
  unfold accountOver shown
  split
  next => exact Option.map_id'.symm
  next hnot =>
    cases hcached : s.cache.lookup a with
    | some acc =>
      rw [((h.cached a acc hcached).record hnot).1]
      rfl
    | none =>
      rw [Option.none_or]
      cases hstored : stored db a with
      | none => rfl
      | some acc => rw [Option.map_some, plain_of_stored hstored]

theorem shown_codeHash (written : List Place) (a : Address) (acc : Account) :
    (shown written a acc).codeHash = acc.codeHash := by
  unfold shown
  split <;> rfl

/-- The program returns a value, or fails because the copy is old or because the account
cannot be read. -/
def Outcome {α : Type} (unreadable : Prop) (value : α) : EStateM.Result Failure State α → Prop
  | .ok r _ => r = value
  | .error failure _ => failure = .attemptToReadFromStateInThePast ∨ unreadable

/-- A program behind the version check sees the database of the version. -/
theorem Overlays.checked (h : Overlays db written s) {α : Type} {f : State → M α} {value : α}
    {unreadable : Prop} (hf : s.db = db → Outcome unreadable value (f s s)) :
    Outcome unreadable value ((requireCurrentVersion >>= fun _ => get >>= f) s) := by
  by_cases hversion : s.checkVersion = true
  · rw [bind_apply, requireCurrentVersion_run hversion]
    exact hf (h.current hversion)
  · rw [bind_apply, requireCurrentVersion_of_stale hversion]
    exact .inl rfl

/-- The slots of the account that a read finds. -/
theorem Overlays.slotOver_eq (hfrom : FromDatabase db written a acc)
    (hfound : (s.cache.lookup a).or (stored db a) = some acc) (key : U256) :
    s.slotOver db written a key = slotsOf db a acc key := by
  unfold slotOver slotsOf
  split
  next =>
    cases hcached : s.cache.lookup a with
    | some found =>
      rw [hcached] at hfound
      cases hfound
      rfl
    | none =>
      rw [hcached, Option.none_or] at hfound
      obtain ⟨_, _, _, _, _, rfl⟩ := stored_eq_loaded hfound
      rfl
  next hnot => rw [hfrom.overlay key hnot, Option.getD_none]

/-- A slot of an account that is found: its original value is cached, or it is loaded. -/
theorem Overlays.originalSlot (h : Overlays db written s) (hfrom : FromDatabase db written a acc)
    (unreadable : Prop) (key : U256) :
    Outcome unreadable (db.lookupStorage a key) (originalSlot a acc key s) := by
  unfold State.originalSlot
  cases horiginal : acc.storageOriginal.lookup key with
  | some original => exact hfrom.originals key _ horiginal
  | none =>
    refine h.checked fun hdb => ?_
    rw [← hdb]
    exact rfl

/-! ## What operations keep -/

variable [Keccak]

theorem Overlays.within (h : Overlays db written s) (hwithin : Within (· ∈ written) s s') :
    Overlays db written s' := by
  refine ⟨fun hversion => ?_, fun b found hfound => ?_, fun b hb => ?_, fun change hchange => ?_⟩
  · rw [checkVersion_of_shared hwithin.shared] at hversion
    exact (congrArg Shared.db hwithin.shared).trans (h.current hversion)
  · rcases hwithin.cached b found hfound with hold | ⟨acc, hacc, hedits⟩
    · exact h.cached b found hold
    · obtain ⟨horiginals, hoverlay⟩ : (∀ key value, acc.storageOriginal.lookup key = some value →
          value = db.lookupStorage b key) ∧
          ∀ key, .slot b key ∉ written → acc.storageOverlay.lookup key = none := by
        rcases hacc with hacc | rfl
        · exact ⟨(h.cached b acc hacc).originals, (h.cached b acc hacc).overlay⟩
        · exact ⟨fun _ _ hvalue => (nomatch hvalue), fun _ _ => rfl⟩
      refine ⟨fun hnot => absurd hedits.may hnot, hedits.originals ▸ horiginals, fun key hkey => ?_⟩
      rcases hedits.overlay key with hsame | hnone | hmay
      · exact hsame.trans (hoverlay key hkey)
      · exact hnone
      · exact absurd hmay hkey
  · obtain ⟨hmissing, hdead⟩ := hwithin.missing b hb
    refine ⟨(h.missing b hmissing).1, fun found hfound => Bool.eq_false_iff.mpr fun hlive => ?_⟩
    obtain ⟨acc, hacc, halive⟩ := hdead found hfound hlive
    exact absurd ((h.missing b hmissing).2 acc hacc) (by simp [halive])
  · exact (hwithin.logged change hchange).elim (h.logged change) id

theorem overlays_kept (db : OverlayDB) (written : List Place) :
    Kept (· ∈ written) (Overlays db written) where
  within := Overlays.within
  absent := fun {s a} h hversion hcached hempty => by
    refine ⟨h.current, h.cached, fun b hb => ?_, h.logged⟩
    rcases List.mem_cons.mp hb with rfl | hb
    · refine ⟨h.current hversion ▸ hempty, fun acc hacc => ?_⟩
      rw [hcached] at hacc
      cases hacc
    · exact h.missing b hb
  found := fun h hversion hpresent hstored =>
    h.insert (fromDatabase_of_stored (h.current hversion ▸ hstored)) fun hmem =>
      absurd hmem hpresent
  cachedSlot := fun {s a acc} key h hversion hacc => by
    obtain ⟨hrecord, horiginals, hoverlay⟩ := h.cached a acc hacc
    refine h.insert ⟨hrecord, fun other value hvalue => ?_, hoverlay⟩ fun hmem =>
      (h.missing a hmem).2 acc hacc
    rcases AList.lookup_insert_eq_some hvalue with ⟨rfl, rfl⟩ | hold
    · rw [h.current hversion]
    · exact horiginals other value hold
  cachedCode := fun {s a acc} h hversion hacc => by
    obtain ⟨hrecord, horiginals, hoverlay⟩ := h.cached a acc hacc
    refine h.insert ⟨fun hnot => ⟨(hrecord hnot).1, .inr ?_⟩, horiginals, hoverlay⟩ fun hmem =>
      (h.missing a hmem).2 acc hacc
    exact congrArg (·.lookupAuxiliary a) (h.current hversion)
  logged := fun h hchange => h.logged _ hchange

/-! ## Reads -/

theorem code_shown (hfrom : FromDatabase db written a acc) :
    (infoOf db a (shown written a acc)).code = (infoOf db a acc).code := by
  unfold shown
  split
  next => rfl
  next hnot =>
    rcases (hfrom.record hnot).2 with hcode | hcode
    · simp [infoOf, plain, hcode]
    · simp [infoOf, plain, hcode]

variable {α : Type} {f : Option Account → M α} (h : Overlays db written s)

include h

/-- A read starts with the account. -/
theorem Overlays.account_bind {g : Option Account → α}
    (hnone : ∀ s₁, s₁.initialFunds = s.initialFunds → s₁.accountStartNonce = s.accountStartNonce →
      Outcome (s.Unreadable db written a) (g none) (f none s₁))
    (hsome : ∀ acc s₁, (s.cache.lookup a).or (stored db a) = some acc → Overlays db written s₁ →
      s₁.cache.lookup a = some acc → FromDatabase db written a acc →
      Outcome (s.Unreadable db written a) (g (some (shown written a acc))) (f (some acc) s₁)) :
    Outcome (s.Unreadable db written a) (g (s.accountOver db written a))
      ((account a >>= f) s) := by
  have hkept := ((overlays_kept db written).account a).state h
  have hfound : ∀ acc s₁, account a s = .ok (some acc) s₁ →
      (s.cache.lookup a).or (stored db a) = some acc →
      Outcome (s.Unreadable db written a) (g (some (shown written a acc))) (f (some acc) s₁) := by
    intro acc s₁ hrun hfound
    rw [hrun] at hkept
    have hcached := account_cached hrun
    exact hsome acc s₁ hfound hkept hcached (hkept.cached a acc hcached)
  rw [h.accountOver_eq, bind_apply]
  rw [account_apply] at hfound ⊢
  cases hcached : s.cache.lookup a with
  | some acc =>
    rw [hcached] at hfound
    exact hfound acc s rfl rfl
  | none =>
    rw [hcached, Option.none_or] at hfound
    dsimp only at hfound ⊢
    split_ifs at hfound ⊢ with hmissing hversion hempty
    · rw [stored, if_pos (h.missing a hmissing).1]
      exact hnone s rfl rfl
    · obtain rfl := h.current hversion
      rw [stored, if_pos hempty]
      exact hnone _ rfl rfl
    · obtain rfl := h.current hversion
      rw [stored, if_neg hempty] at hfound ⊢
      cases hdecode : Account.decode (s.db.lookup a) with
      | none => exact .inr (.inl ⟨hempty, hdecode⟩)
      | some acc =>
        rw [hdecode] at hfound
        exact hfound acc _ rfl rfl
    · exact .inl rfl

/-- A read of one field. -/
theorem Overlays.field (absent : α) (field : Account → α)
    (hfield : ∀ acc, field (plain acc) = field acc)
    (hsome : ∀ acc s₁, f (some acc) s₁ = .ok (field acc) s₁)
    (hnone : ∀ s₁, s₁.initialFunds = s.initialFunds → s₁.accountStartNonce = s.accountStartNonce →
      f none s₁ = .ok absent s₁) :
    Outcome (s.Unreadable db written a) ((s.accountOver db written a).elim absent field)
      ((account a >>= f) s) := by
  refine h.account_bind (g := fun found => found.elim absent field)
    (fun s₁ hfunds hnonce => ?_) fun acc s₁ _ _ _ _ => ?_
  · rw [hnone s₁ hfunds hnonce]
    rfl
  · rw [hsome]
    change field acc = field (shown written a acc)
    unfold shown
    split
    next => rfl
    next => rw [hfield]

theorem Overlays.code (a : Address) :
    Outcome (s.Unreadable db written a) (s.reading db written (.code a)) (code a s) := by
  refine h.account_bind (g := fun found => found.elim [] fun acc => (infoOf db a acc).code)
    (fun s₁ _ _ => rfl) fun acc s₁ hfound hs₁ _ hfrom => ?_
  have hunreadable : sha3 (infoOf db a acc).code ≠ acc.codeHash → s.Unreadable db written a := by
    intro hhash
    refine .inr ⟨shown written a acc, ?_, by rwa [code_shown hfrom, shown_codeHash]⟩
    rw [h.accountOver_eq, hfound]
    rfl
  change Outcome _ (infoOf db a (shown written a acc)).code _
  rw [code_shown hfrom]
  unfold infoOf at hunreadable ⊢
  dsimp only at hunreadable ⊢
  split_ifs at hunreadable ⊢ with hempty hloaded
  · rfl
  · rfl
  · refine hs₁.checked fun hdb => ?_
    rw [hdb]
    by_cases hhash : sha3 (db.lookupAuxiliary a) = acc.codeHash
    · rw [decide_eq_true hhash]
      rfl
    · rw [decide_eq_false hhash]
      exact .inr (hunreadable hhash)

theorem Overlays.codeSize (a : Address) :
    Outcome (s.Unreadable db written a) (s.reading db written (.codeSize a)) (codeSize a s) := by
  refine h.account_bind (g := fun found => found.elim 0 fun acc =>
      if acc.hasNewCode then acc.codeCache.length else (infoOf db a acc).code.length)
    (fun s₁ _ _ => rfl) fun acc s₁ hfound hs₁ hacc hfrom => ?_
  change Outcome _ (if (shown written a acc).hasNewCode then _ else _) _
  dsimp only
  by_cases hnew : acc.hasNewCode = true
  · -- only an account that the copy wrote has new code
    have hmem : .account a ∈ written := by
      by_contra hnot
      obtain ⟨_, _, _, _, _, hloaded⟩ := stored_eq_loaded (hfrom.record hnot).1
      have hold : acc.hasNewCode = false := congrArg Account.hasNewCode hloaded
      rw [hold] at hnew
      cases hnew
    rw [shown, if_pos hmem, if_pos hnew, if_pos hnew]
    rfl
  · have hold : (shown written a acc).hasNewCode = acc.hasNewCode := by
      unfold shown
      split <;> rfl
    have hover : s₁.accountOver db written a = s.accountOver db written a := by
      rw [hs₁.accountOver_eq, h.accountOver_eq, hacc, hfound]
      rfl
    have hcode := hs₁.code a
    unfold Unreadable at hcode
    rw [reading, hover, ← Unreadable, h.accountOver_eq, hfound] at hcode
    rw [hold, if_neg hnew, if_neg hnew, bind_apply]
    cases hrun : State.code a s₁ with
    | ok bytes s₂ =>
      rw [hrun] at hcode
      exact congrArg List.length hcode
    | error failure s₂ =>
      rw [hrun] at hcode
      exact hcode

theorem Overlays.storage (a : Address) (key : U256) :
    Outcome (s.Unreadable db written a) (s.reading db written (.storage a key))
      (storage a key s) := by
  refine h.account_bind
    (g := fun found => if found.isSome then s.slotOver db written a key else 0)
    (fun s₁ _ _ => rfl) fun acc s₁ hfound hs₁ _ hfrom => ?_
  change Outcome _ (s.slotOver db written a key) _
  rw [slotOver_eq hfrom hfound, slotsOf]
  dsimp only
  cases acc.storageOverlay.lookup key with
  | some own => rfl
  | none => exact hs₁.originalSlot hfrom _ key

/-- A read returns what the database has with the writes of the copy over it. -/
theorem Overlays.reads (r : Read) :
    Outcome (s.Unreadable db written r.address) (s.reading db written r) (r.run s) := by
  cases r with
  | addressInUse a =>
    exact h.account_bind (g := Option.isSome) (fun _ _ _ => rfl) fun _ _ _ _ _ _ => rfl
  | accountNonemptyAndExisting a | addressHasCode a | codeHash a | version a | storageUsed a =>
    exact h.field _ _ (fun _ => rfl) (fun _ _ => rfl) fun _ _ _ => rfl
  | balance a => exact h.field _ _ (fun _ => rfl) (fun _ _ => rfl) fun _ hfunds _ => hfunds ▸ rfl
  | getNonce a => exact h.field _ _ (fun _ => rfl) (fun _ _ => rfl) fun _ _ hnonce => hnonce ▸ rfl
  | code a => exact h.code a
  | codeSize a => exact h.codeSize a
  | storage a key => exact h.storage a key
  | originalStorageValue a key =>
    exact h.account_bind (g := fun found => if found.isSome then db.lookupStorage a key else 0)
      (fun _ _ _ => rfl) fun _ _ _ hs₁ _ hfrom => hs₁.originalSlot hfrom _ key

end Skaled.State
