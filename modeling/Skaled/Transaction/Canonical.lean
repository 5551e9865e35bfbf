import Skaled.Transaction.Reading

/-! # Canonical encodings

Which transactions are written back as the bytes they were read from. Every
field is, except for the numbers that were narrowed: the encoding is canonical
exactly when `v` of a legacy transaction, or the chain id and the parity of
another one, were not cut. Two different strings with narrowed numbers can be
read as the same transaction.
-/

namespace Skaled.TransactionBase

open EStateM (bind_apply bind_eq_ok modify_apply pure_apply tryCatch_apply)

open Rlp

variable {rlp : Bytes} {t₀ t : TransactionBase} {checkSig : CheckTransaction} {format : TxType}

/-! ## Fields and items -/

section

variable {l : List Bytes}

theorem Fields.eq_map (hlist : toList rlp = some l) {written : List (Option Bytes)} {i : Nat}
    (hfields : Fields rlp i written) (hi : i ≤ l.length) (hle : l.length ≤ i + written.length) :
    written = (l.drop i).map some := by
  induction written generalizing i with
  | nil => rw [List.drop_eq_nil_of_le (by simpa using hle), List.map_nil]
  | cons first rest ih =>
    obtain ⟨⟨x, hx, hne, hfirst⟩, hrest⟩ := hfields
    rw [item_of_toList hlist hi, Option.some.injEq] at hx
    -- an empty item would be one past the end
    have hlt : i < l.length := by
      by_contra hge
      rw [List.getD_eq_default _ _ (by omega)] at hx
      exact hne hx.symm
    rw [List.getD_eq_getElem _ _ hlt] at hx
    have hitem : IsItem x := hx ▸ (toList_eq_some hlist).2.2 _ (List.getElem_mem hlt)
    rw [List.drop_eq_getElem_cons hlt, List.map_cons, hx, hfirst hitem,
      ih hrest (by omega) (by simp only [List.length_cons] at hle; omega)]

theorem streamList_map (l : List Bytes) : streamList (l.map some) = wrapList l.flatten := by
  have hmapM : (l.map some).mapM id = some l := by
    induction l with
    | nil => rfl
    | cons x rest ih => simp [List.mapM_cons, ih]
  rw [streamList, hmapM]
  rfl

theorem length_flatten_set_le (l : List Bytes) (i : Nat) (y : Bytes) :
    (l.set i y).flatten.length ≤ l.flatten.length + y.length := by
  induction l generalizing i with
  | nil => simp
  | cons x rest ih =>
    cases i with
    | zero => simp only [List.set_cons_zero, List.flatten_cons, List.length_append]; omega
    | succ i =>
      have := ih i
      simp only [List.set_cons_succ, List.flatten_cons, List.length_append]
      omega

/-- Items with another number in one place. -/
theorem exists_set_appendInt (hitems : ∀ x ∈ l, IsItem x) {n : Nat} (hn : n < 2 ^ 256) (i : Nat) :
    ∃ l' : List Bytes, (l.map some).set i (appendInt n) = l'.map some ∧ (∀ x ∈ l', IsItem x) ∧
      l'.flatten.length ≤ l.flatten.length + 33 := by
  obtain ⟨y, hy, hitem⟩ := appendInt_isItem hn
  have hlength := appendInt_length hn hy
  refine ⟨l.set i y, by rw [hy, List.map_set], fun x hx => ?_, ?_⟩
  · rcases List.mem_or_eq_of_mem_set hx with hx | rfl
    · exact hitems x hx
    · exact hitem
  · exact (length_flatten_set_le l i y).trans (Nat.add_le_add_left hlength _)

/-- What is written of a record that was read: its items, some of them with
other numbers unless `exact` holds. -/
def WrittenFrom (rlp : Bytes) (streamed : Option Bytes) (exact : Prop) : Prop :=
  ∃ l l' : List Bytes, toList rlp = some l ∧ (∀ x ∈ l', IsItem x) ∧
    l'.flatten.length ≤ l.flatten.length + 66 ∧ streamed = streamList (l'.map some) ∧
    (l'.map some = l.map some ↔ exact)

theorem WrittenFrom.eq_iff {streamed : Option Bytes} {exact : Prop}
    (h : WrittenFrom rlp streamed exact) (hrlp : IsItem rlp) : streamed = some rlp ↔ exact := by
  obtain ⟨l, l', hlist, hitems, _, rfl, hexact⟩ := h
  have hwrap := wrapList_of_toList hrlp hlist
  rw [← hexact, streamList_map]
  constructor
  · intro hwrap'
    rw [flatten_inj hitems (toList_eq_some hlist).2.2 (wrapList_inj hwrap' hwrap)]
  · intro heq
    rw [List.map_injective_iff.mpr (Option.some_injective _) heq, hwrap]

/-- What is written is again a record, and hardly longer. -/
theorem WrittenFrom.isItem {streamed : Option Bytes} {exact : Prop}
    (h : WrittenFrom rlp streamed exact) (hrlp : IsItem rlp)
    (hlength : rlp.length + 66 < lengthLimit) :
    ∃ x, streamed = some x ∧ IsItem x ∧ isList x = true ∧ x.length ≤ rlp.length + 75 := by
  obtain ⟨l, l', hlist, _, hle, rfl, _⟩ := h
  have hpayload := (wrapList_eq_some (wrapList_of_toList hrlp hlist)).2
  have hshorter := congrArg List.length hpayload
  rw [List.length_append] at hshorter
  obtain ⟨x, hx, hencodes⟩ := encodes_wrapList (show l'.flatten.length < lengthLimit by omega)
  have hle' := hencodes.length_le.2
  exact ⟨x, by rw [streamList_map, hx], hencodes.isItem, hencodes.isList, by omega⟩

end

/-! ## What is narrowed -/

/-- Nothing is lost of the numbers that are narrowed: `v` of a legacy
transaction, the chain id and the parity of the others. -/
def NotNarrowed (rlp : Bytes) : TxType → Prop
  | .legacy => ∀ v, fieldInt 32 rlp 6 = some v → v < 2 ^ 64
  | .type1 =>
    (∀ chainId, fieldInt 32 rlp 0 = some chainId → chainId < 2 ^ 64) ∧
      ∀ yParity, fieldInt 1 rlp 8 = some yParity → yParity ≤ 1
  | .type2 =>
    (∀ chainId, fieldInt 32 rlp 0 = some chainId → chainId < 2 ^ 64) ∧
      ∀ yParity, fieldInt 1 rlp 9 = some yParity → yParity ≤ 1

theorem appendInt_truncate_iff {n : U256} :
    appendInt (n.truncate 64).toNat = appendU256 n ↔ n.toNat < 2 ^ 64 := by
  have hn := n.isLt
  rw [BitVec.truncate_eq_setWidth, BitVec.toNat_setWidth]
  constructor
  · intro heq
    have hmod := appendInt_inj (by omega) hn heq
    omega
  · intro hlt
    rw [Nat.mod_eq_of_lt hlt, appendU256]

theorem appendInt_parity_iff {yParity : Nat} (hfit : yParity < 256) {v : UInt8}
    (hv : v = if yParity = 0 then 0 else 1) :
    appendInt v.toNat = appendInt yParity ↔ yParity ≤ 1 := by
  constructor
  · intro heq
    have hbyte := v.toNat_lt
    have hsame := appendInt_inj (by omega) (by omega) heq
    subst hv
    split at hsame <;> simp at hsame <;> omega
  · intro hle
    have hcases : yParity = 0 ∨ yParity = 1 := by omega
    rcases hcases with rfl | rfl <;> simp [hv]

section

variable [Keccak] [Secp256k1]

/-- What a legacy transaction was read from, field by field, and what it is written as:
the same items but for `v`. -/
theorem readLegacy_eq_ok (hread : readLegacy rlp checkSig t₀ = .ok () t) :
    ∃ (v : U256) (vrs : SignatureStruct) (l : List Bytes),
      (t.type = .contractCreation ∨ t.type = .messageCall) ∧ t.txType = .legacy ∧
      fieldInt 32 rlp 6 = some v.toNat ∧ toList rlp = some l ∧
      [appendU256 t.nonce, appendU256 t.gasPrice, appendU256 t.gas, t.appendRecipient,
        appendU256 t.value, appendBytes t.data, appendU256 v, appendU256 vrs.r,
        appendU256 vrs.s] = l.map some ∧
      t.streamRLP true false =
        streamList ((l.map some).set 6 (appendInt (v.truncate 64).toNat)) := by
  simp only [readLegacy, bind_eq_ok, modify_eq_ok] at hread
  obtain ⟨_, _, hstep₁, _, _, hstep₂, _, _, hstep₃, _, _, rfl, hstep₄⟩ := hread
  obtain ⟨hislist, nonce, gasPrice, gas, type, dest, value, data, htype, rfl, hfields⟩ :=
    readLegacyFields_eq_ok hstep₁
  obtain ⟨v, chainId, vrs, rfl, hlegacyV, hv, hr, hs, -⟩ := readLegacySignature_eq_ok hstep₂
  obtain ⟨sender, rfl⟩ := readSender_eq_ok hstep₃
  obtain ⟨rfl, l, hlist, hle⟩ := checkItemCount_eq_ok hislist hstep₄
  obtain ⟨h₀, h₁, h₂, h₃, h₄, h₅, _⟩ := hfields
  have hall : Fields rlp 0 [_, _, _, _, _, _, _, _, _] :=
    ⟨h₀, h₁, h₂, h₃, h₄, h₅, .of_u256 hv, .of_u256 hr, .of_u256 hs, trivial⟩
  have hitems := hall.eq_map hlist (Nat.zero_le _) (by simpa using hle)
  rw [List.drop_zero] at hitems
  refine ⟨v, vrs, l, htype, rfl, hv, hlist, hitems, ?_⟩
  rw [← hitems, ← hlegacyV]
  rcases htype with rfl | rfl <;> rfl

theorem writtenFrom_legacy (hread : readLegacy rlp checkSig t₀ = .ok () t) :
    WrittenFrom rlp (t.streamRLP true false) (NotNarrowed rlp .legacy) := by
  obtain ⟨v, vrs, l, _, _, hv, hlist, hread, hstreamed⟩ := readLegacy_eq_ok hread
  obtain ⟨l', hset, hitems, hlength⟩ := exists_set_appendInt (toList_eq_some hlist).2.2
    (Nat.lt_trans (v.truncate 64).isLt (by norm_num)) 6
  refine ⟨l, l', hlist, hitems, by omega, hset ▸ hstreamed, ?_⟩
  have hnarrowed : NotNarrowed rlp .legacy ↔ v.toNat < 2 ^ 64 := by simp [NotNarrowed, hv]
  rw [hnarrowed, ← appendInt_truncate_iff, ← hset, ← hread]
  simp

/-- The `try` block of a format. -/
def readOf : TxType → Bytes → CheckTransaction → Fill Unit
  | .legacy => readLegacy
  | .type1 => readType1
  | .type2 => readType2

def readTyped (format : TxType) (rlp : Bytes) (checkSig : CheckTransaction) : Fill Unit := do
  readTypedFields format rlp checkSig
  modify fun t => { t with txType := format }
  readSender checkSig
  checkItemCount rlp (parityAt format + 3)

theorem readOf_eq_readTyped (hformat : format ≠ .legacy) : readOf format = readTyped format := by
  cases format with
  | legacy => exact absurd rfl hformat
  | type1 | type2 => rfl

/-- What a type 1 or type 2 transaction was read from, and what it is written as: the
same items but for the chain id and the parity. -/
structure ReadFrom (rlp : Bytes) (format : TxType) (t : TransactionBase) (chainId : U256)
    (yParity : Nat) (vrs : SignatureStruct) (l : List Bytes) : Prop where
  type : t.type = .contractCreation ∨ t.type = .messageCall
  txType : t.txType = format
  signature : t.vrs = some vrs
  chain : fieldInt 32 rlp 0 = some chainId.toNat
  bit : vrs.v = if yParity = 0 then 0 else 1
  parity : fieldInt 1 rlp (parityAt format) = some yParity
  list : toList rlp = some l
  items : appendU256 chainId :: appendU256 t.nonce :: t.fees format ++ t.typedRest ++
    [appendInt yParity, appendU256 vrs.r, appendU256 vrs.s] = l.map some
  streamed : t.streamRLP true false =
    streamList (((l.map some).set 0 (appendInt (chainId.truncate 64).toNat)).set (parityAt format)
      (appendInt vrs.v.toNat))

theorem readTyped_eq_ok (hformat : format ≠ .legacy)
    (hread : readTyped format rlp checkSig t₀ = .ok () t) :
    ∃ chainId yParity vrs l, ReadFrom rlp format t chainId yParity vrs l := by
  simp only [readTyped, bind_eq_ok, modify_eq_ok] at hread
  obtain ⟨_, t₁, hstep₁, _, _, rfl, _, _, hstep₂, hstep₃⟩ := hread
  obtain ⟨hislist, _, chainId, yParity, vrs, htype, hvrs, hid, hchain, hv, hparity, hfields⟩ :=
    readTypedFields_eq_ok hstep₁
  obtain ⟨sender, rfl⟩ := readSender_eq_ok hstep₂
  obtain ⟨rfl, l, hlist, hle⟩ := checkItemCount_eq_ok hislist hstep₃
  have hitems := hfields.eq_map hlist (Nat.zero_le _) (by
    cases format <;> simpa [parityAt, fees, typedRest] using hle)
  rw [List.drop_zero] at hitems
  refine ⟨chainId, yParity, vrs, l, htype, rfl, hvrs, hchain, hv, hparity, hlist, hitems, ?_⟩
  rw [← hitems]
  cases format with
  | legacy => exact absurd rfl hformat
  | type1 | type2 =>
    rcases htype with htype | htype <;>
      simp [streamRLP, htype, streamType1Transaction, streamType2Transaction, typedSignature,
        appendChainId, hvrs, hid, parityAt, fees, typedRest, appendAccessList, appendRecipient]

theorem writtenFrom_typed (hformat : format ≠ .legacy)
    (hread : readTyped format rlp checkSig t₀ = .ok () t) :
    WrittenFrom rlp (t.streamRLP true false) (NotNarrowed rlp format) := by
  obtain ⟨chainId, yParity, vrs, l, h⟩ := readTyped_eq_ok hformat hread
  obtain ⟨l₁, hset₁, hitems₁, hlength₁⟩ := exists_set_appendInt (toList_eq_some h.list).2.2
    (Nat.lt_trans (chainId.truncate 64).isLt (by norm_num)) 0
  obtain ⟨l₂, hset₂, hitems₂, hlength₂⟩ := exists_set_appendInt hitems₁
    (Nat.lt_trans vrs.v.toNat_lt (by norm_num)) (parityAt format)
  have hexact : ((l.map some).set 0 (appendInt (chainId.truncate 64).toNat)).set (parityAt format)
      (appendInt vrs.v.toNat) = l.map some ↔
        appendInt (chainId.truncate 64).toNat = appendU256 chainId ∧
          appendInt vrs.v.toNat = appendInt yParity := by
    rw [← h.items]
    cases format <;> simp [parityAt, fees, typedRest]
  have hnarrowed : NotNarrowed rlp format ↔ chainId.toNat < 2 ^ 64 ∧ yParity ≤ 1 := by
    have hchain := h.chain
    have hparity := h.parity
    cases format with
    | legacy => exact absurd rfl hformat
    | type1 | type2 =>
      simp only [parityAt] at hparity
      simp [NotNarrowed, hchain, hparity]
  rw [hset₁, hset₂] at hexact
  refine ⟨l, l₂, h.list, hitems₂, by omega, by rw [h.streamed, hset₁, hset₂], ?_⟩
  rw [hexact, hnarrowed, appendInt_truncate_iff,
    appendInt_parity_iff (by simpa using fieldInt_lt h.parity) h.bit]

end

/-! ## The constructor -/

def formatOf (eip1559Enabled : Bool) (rlpData : Bytes) : TxType :=
  if eip1559Enabled then getTransactionType rlpData else .legacy

/-- The record in data of a format: all of it, or all but the first byte. -/
def bodyOf : TxType → Bytes → Bytes
  | .legacy, rlpData => rlpData
  | .type1, rlpData => rlpData.drop 1
  | .type2, rlpData => rlpData.drop 1

/-- No number in the data is narrowed when it is read. -/
def Canonical (eip1559Enabled : Bool) (rlpData : Bytes) : Prop :=
  NotNarrowed (bodyOf (formatOf eip1559Enabled rlpData) rlpData) (formatOf eip1559Enabled rlpData)

theorem typeByte_append_bodyOf (eip1559Enabled : Bool) (rlpData : Bytes) :
    typeByte (formatOf eip1559Enabled rlpData) ++
      bodyOf (formatOf eip1559Enabled rlpData) rlpData = rlpData := by
  unfold formatOf getTransactionType
  split
  next => split <;> rfl
  next => rfl

section

variable {rlpData : Bytes} {allowInvalid eip1559Enabled : Bool}

theorem keepRaw_eq_ok {t' : TransactionBase}
    (hkeep : keepRaw rlp rlpData allowInvalid t = .ok () t') :
    allowInvalid = true ∧ t'.isInvalid = true := by
  simp only [keepRaw, bind_eq_ok, require_eq_ok, modify_eq_ok, check_eq_ok] at hkeep
  obtain ⟨_, _, ⟨_, rfl⟩, _, _, rfl, hallow, rfl⟩ := hkeep
  exact ⟨hallow, rfl⟩

theorem built_keepString : built (keepString rlpData allowInvalid t) =
    if allowInvalid then
      (appendBytes rlpData).map fun raw => { t with type := .invalid, rawData := raw }
    else none := by
  simp only [keepString, bind_apply, modify_apply]
  cases appendBytes rlpData <;> cases allowInvalid <;> rfl

theorem built_keepString_eq_some {t' : TransactionBase}
    (hkeep : built (keepString rlpData allowInvalid t) = some t') :
    allowInvalid = true ∧ t'.isInvalid = true := by
  rw [built_keepString] at hkeep
  split at hkeep
  next hallow =>
    obtain ⟨raw, _, rfl⟩ := Option.map_eq_some_iff.mp hkeep
    exact ⟨hallow, rfl⟩
  next => cases hkeep

variable [Keccak] [Secp256k1]

theorem fillFromData_eq :
    fillFromData rlpData checkSig allowInvalid eip1559Enabled =
      fillFromBytes (readOf (formatOf eip1559Enabled rlpData))
        (bodyOf (formatOf eip1559Enabled rlpData) rlpData) rlpData checkSig allowInvalid := by
  unfold fillFromData formatOf
  split
  next => cases getTransactionType rlpData <;> rfl
  next => rfl

section

variable (hread : readOf format rlp checkSig t₀ = .ok () t)

include hread

theorem type_of_readOf :
    (t.type = .contractCreation ∨ t.type = .messageCall) ∧ t.txType = format ∧ rlp ≠ [] := by
  have hne : ∀ {l : List Bytes}, toList rlp = some l → rlp ≠ [] := by
    rintro l hlist rfl
    simp [toList, isList] at hlist
  by_cases hformat : format = .legacy
  · subst hformat
    obtain ⟨_, _, _, htype, htxType, _, hlist, _⟩ := readLegacy_eq_ok hread
    exact ⟨htype, htxType, hne hlist⟩
  · rw [readOf_eq_readTyped hformat] at hread
    obtain ⟨_, _, _, _, h⟩ := readTyped_eq_ok hformat hread
    exact ⟨h.type, h.txType, hne h.list⟩

theorem valid_of_readOf : t.isInvalid = false := by
  obtain ⟨htype | htype, _⟩ := type_of_readOf hread <;> simp [isInvalid, htype]

theorem writtenFrom_readOf : WrittenFrom rlp (t.streamRLP true false) (NotNarrowed rlp format) := by
  by_cases hformat : format = .legacy
  · subst hformat
    exact writtenFrom_legacy hread
  · rw [readOf_eq_readTyped hformat] at hread
    exact writtenFrom_typed hformat hread

end

/-! What comes of an object depends on where an exception was thrown. -/

theorem ofBytes_of_parse_eq_none
    (hparse : parse (bodyOf (formatOf eip1559Enabled rlpData) rlpData) = none) :
    ofBytes rlpData checkSig allowInvalid eip1559Enabled =
      built (keepString rlpData allowInvalid {}) := by
  simp only [ofBytes, fillFromData_eq, fillFromBytes, tryCatch_apply, bind_apply,
    hparse]
  rfl

section

variable (hparse : parse (bodyOf (formatOf eip1559Enabled rlpData) rlpData) = some rlp)

include hparse

theorem ofBytes_of_read_ok
    (hread : readOf (formatOf eip1559Enabled rlpData) rlp checkSig {} = .ok () t) :
    ofBytes rlpData checkSig allowInvalid eip1559Enabled = some t := by
  simp only [ofBytes, fillFromData_eq, fillFromBytes, tryCatch_apply, bind_apply,
    hparse, require, pure_apply, hread]
  rfl

theorem ofBytes_of_read_error
    (hread : readOf (formatOf eip1559Enabled rlpData) rlp checkSig {} = .error () t) :
    ofBytes rlpData checkSig allowInvalid eip1559Enabled =
      match keepRaw rlp rlpData allowInvalid t with
      | .ok _ t' => some t'
      | .error _ t' => built (keepString rlpData allowInvalid t') := by
  simp only [ofBytes, fillFromData_eq, fillFromBytes, tryCatch_apply, bind_apply,
    hparse, require, pure_apply, hread]
  cases keepRaw rlp rlpData allowInvalid t <;> rfl

end

/-- A transaction was read without an exception, or it is invalid. -/
theorem ofBytes_eq_some (hbuilt : ofBytes rlpData checkSig allowInvalid eip1559Enabled = some t) :
    IsItem (bodyOf (formatOf eip1559Enabled rlpData) rlpData) ∧
      readOf (formatOf eip1559Enabled rlpData)
        (bodyOf (formatOf eip1559Enabled rlpData) rlpData) checkSig {} = .ok () t ∨
    allowInvalid = true ∧ t.isInvalid = true := by
  cases hparse : parse (bodyOf (formatOf eip1559Enabled rlpData) rlpData) with
  | none =>
    rw [ofBytes_of_parse_eq_none hparse] at hbuilt
    exact .inr (built_keepString_eq_some hbuilt)
  | some rlp =>
    cases hread : readOf (formatOf eip1559Enabled rlpData) rlp checkSig {} with
    | ok _ t' =>
      rw [ofBytes_of_read_ok hparse hread, Option.some.injEq] at hbuilt
      subst hbuilt
      obtain ⟨rfl, hitem⟩ := parse_eq_some hparse
      exact .inl ⟨hitem (type_of_readOf hread).2.2, hread⟩
    | error _ t' =>
      rw [ofBytes_of_read_error hparse hread] at hbuilt
      refine .inr ?_
      split at hbuilt
      next hkeep =>
        cases hbuilt
        exact keepRaw_eq_ok hkeep
      next => exact built_keepString_eq_some hbuilt

section

variable (hbuilt : ofBytes rlpData checkSig allowInvalid eip1559Enabled = some t)
  (hvalid : t.isInvalid = false)

include hbuilt hvalid

theorem read_of_ofBytes :
    IsItem (bodyOf (formatOf eip1559Enabled rlpData) rlpData) ∧
      readOf (formatOf eip1559Enabled rlpData)
        (bodyOf (formatOf eip1559Enabled rlpData) rlpData) checkSig {} = .ok () t :=
  (ofBytes_eq_some hbuilt).resolve_right fun h => by simp [h.2] at hvalid

/-- Data that was read as a transaction is written back as it was exactly when
none of its numbers was narrowed. -/
theorem toBytes_eq_iff : t.toBytes = some rlpData ↔ Canonical eip1559Enabled rlpData := by
  obtain ⟨hitem, hread⟩ := read_of_ofBytes hbuilt hvalid
  obtain ⟨_, htxType, _⟩ := type_of_readOf hread
  have hsplit := typeByte_append_bodyOf eip1559Enabled rlpData
  rw [Canonical, ← (writtenFrom_readOf hread).eq_iff hitem]
  constructor
  · intro hbytes
    obtain ⟨streamed, hstream, heq⟩ := Option.bind_eq_some_iff.mp hbytes
    rw [Option.some.injEq, htxType] at heq
    rw [hstream, List.append_cancel_left (heq.trans hsplit.symm)]
  · intro hstream
    rw [toBytes, hstream, htxType]
    simp [hsplit]

end

omit [Secp256k1] in
/-- The hash of a valid transaction is the hash of the bytes it is written
as. -/
theorem sha3_eq (hvalid : t.isInvalid = false) : t.sha3 true = t.toBytes.map Keccak.sha3 := by
  rw [sha3, if_neg (by simp [hvalid]), toBytes, Bool.not_true, Bool.and_false]
  cases t.streamRLP true false <;> rfl

/-- Transactions are canonical as long as no number is narrowed: the bytes and
their hash come back exactly then, and such bytes are determined by what was
read from them. -/
theorem canonical_iff_not_narrowed (checkSig : CheckTransaction)
    (allowInvalid eip1559Enabled : Bool) :
    (∀ rlpData t, ofBytes rlpData checkSig allowInvalid eip1559Enabled = some t →
      t.isInvalid = false →
        ((t.toBytes = some rlpData ∧ t.sha3 true = some (Keccak.sha3 rlpData)) ↔
          Canonical eip1559Enabled rlpData)) ∧
    ∀ rlpData rlpData' t, ofBytes rlpData checkSig allowInvalid eip1559Enabled = some t →
      ofBytes rlpData' checkSig allowInvalid eip1559Enabled = some t → t.isInvalid = false →
      Canonical eip1559Enabled rlpData → Canonical eip1559Enabled rlpData' →
      rlpData = rlpData' := by
  refine ⟨fun rlpData t hbuilt hvalid => ?_, ?_⟩
  · rw [← toBytes_eq_iff hbuilt hvalid, sha3_eq hvalid]
    refine and_iff_left_of_imp fun hbytes => ?_
    rw [hbytes, Option.map_some]
  · intro rlpData rlpData' t hbuilt hbuilt' hvalid hcanonical hcanonical'
    have hbytes := (toBytes_eq_iff hbuilt hvalid).mpr hcanonical
    rw [(toBytes_eq_iff hbuilt' hvalid).mpr hcanonical', Option.some.injEq] at hbytes
    exact hbytes.symm

end

/-! ## Two encodings of one transaction -/

/-- A stand-in for the hash function. -/
@[reducible] def sampleHash : Keccak := ⟨fun bytes => BitVec.ofNat 256 bytes.length⟩

/-- A stand-in for a curve on which every signature recovers. -/
@[reducible] def sampleCurve : Secp256k1 := ⟨fun _ _ => some [1]⟩

/-- A contract creation with the zero signature and `v = 5`. -/
def sampleShort : Bytes := [0xc9, 0x80, 0x80, 0x80, 0x80, 0x80, 0x80, 5, 0x80, 0x80]

/-- The same with `v = 2 ^ 64 + 5`. -/
def sampleLong : Bytes :=
  [0xd2, 0x80, 0x80, 0x80, 0x80, 0x80, 0x80, 0x89, 1, 0, 0, 0, 0, 0, 0, 0, 5, 0x80, 0x80]

/-- What both are read as. -/
def sampleCreation : TransactionBase :=
  { type := .contractCreation
    chainId := some 5
    vrs := some ⟨0, 0, 0⟩
    knownSender := some maxAddress }

theorem sampleShort_canonical : Canonical true sampleShort := by
  have hv : fieldInt 32 sampleShort 6 = some 5 := by decide +kernel
  intro v hread
  have hsame : v = 5 := Option.some.inj (hread.symm.trans hv)
  rw [hsame]
  norm_num

theorem canonical_iff_not_narrowed_short :
    sampleCreation.toBytes = some sampleShort ∧
      @sha3 sampleHash sampleCreation true = some (sampleHash.sha3 sampleShort) := by
  have hbuilt : @ofBytes sampleHash sampleCurve sampleShort .everything false true =
      some sampleCreation := by decide +kernel
  exact ((@canonical_iff_not_narrowed sampleHash sampleCurve .everything false true).1
    sampleShort sampleCreation hbuilt rfl).mpr sampleShort_canonical

/-- Two different strings are read as one transaction, which is written as the
shorter one. -/
theorem sample_two_encodings :
    @ofBytes sampleHash sampleCurve sampleShort .everything false true = some sampleCreation ∧
      @ofBytes sampleHash sampleCurve sampleLong .everything false true = some sampleCreation ∧
      sampleCreation.isInvalid = false ∧ sampleCreation.toBytes = some sampleShort ∧
      sampleShort ≠ sampleLong ∧
      @sha3 sampleHash sampleCreation true ≠ some (sampleHash.sha3 sampleLong) := by
  decide +kernel

end Skaled.TransactionBase
