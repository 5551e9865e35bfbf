import Mathlib.Algebra.Order.BigOperators.Group.List
import Skaled.Transaction.Canonical

/-! # Transactions in block bodies

`SkaleHost::createBlock` makes a transaction of every byte string it is given,
`Block::commitToSeal` writes the transactions into the body of the block, and
the body is read back item by item. This works for transactions whose numbers
are not narrowed and for data that is malformed through and through: such data
is kept as a string. Data that is a well-formed record but no transaction is
kept raw, and then the hash, the body or both are wrong.

Which transactions of a block are executed and kept is left out: all of them
are written.
-/

namespace Skaled

open EStateM (Triple bind_apply)

open Rlp TransactionBase
open Option (bind_some map_some)
open List (length_append mem_cons_of_mem mem_cons_self)

/-- One entry of the list in `Block::commitToSeal`. -/
def txOutput (eip1559Enabled : Bool) (t : TransactionBase) : Option Bytes := do
  let output ← t.toBytes
  if eip1559Enabled ∧ t.txType ≠ .legacy then appendBytes output else some output

/-- The body that `Block::commitToSeal` writes. -/
def commitTransactions (eip1559Enabled : Bool) (transactions : List TransactionBase) :
    Option Bytes := do
  wrapList (← transactions.mapM (txOutput eip1559Enabled)).flatten

def transactionsOf (body : Bytes) : Option (List Bytes) := do
  (← toList (← parse body)).mapM bytesRefFromTransactionRlp

section

variable [Keccak] [Secp256k1]

/-- The transactions that `SkaleHost::createBlock` makes of data that is not in
its cache. -/
def createTransactions (eip1559Enabled : Bool) (approved : List Bytes) :
    Option (List TransactionBase) :=
  approved.mapM fun data => ofBytes data .everything true eip1559Enabled

/-- Nothing throws, every transaction has the hash of its data, and the body
holds the data that was given. -/
def StoredAsGiven (eip1559Enabled : Bool) (approved : List Bytes) : Prop :=
  ∃ transactions body, createTransactions eip1559Enabled approved = some transactions ∧
    transactions.mapM (·.sha3 true) = some (approved.map Keccak.sha3) ∧
    commitTransactions eip1559Enabled transactions = some body ∧
    transactionsOf body = some approved

/-! ## Data that is kept -/

/-- The data is a valid transaction. -/
def Accepted (eip1559Enabled : Bool) (data : Bytes) : Prop :=
  (ofBytes data .everything false eip1559Enabled).isSome

/-- The fields of a type 1 or type 2 transaction, with a well-formed signature
at the end, can be read. The type has been assigned then. -/
def FieldsReadable (rlp : Bytes) : TxType → Prop
  | .legacy => False
  | .type1 => ∃ t, readType1Fields rlp .everything {} = .ok () t
  | .type2 => ∃ t, readType2Fields rlp .everything {} = .ok () t

omit [Keccak] [Secp256k1] in
theorem fieldsReadable_iff {rlp : Bytes} {format : TxType} (hformat : format ≠ .legacy) :
    FieldsReadable rlp format ↔ ∃ t, readTypedFields format rlp .everything {} = .ok () t := by
  cases format with
  | legacy => exact absurd rfl hformat
  | type1 | type2 => rfl

/-- Not a record, or a record with something inside that is none. -/
def Malformed (rlp : Bytes) (format : TxType) : Prop :=
  parse rlp = none ∨ print rlp = none ∧ ¬ FieldsReadable rlp format

/-- A transaction whose numbers are not narrowed, a byte that is its own
encoding, or malformed data. -/
def Kept (eip1559Enabled : Bool) (data : Bytes) : Prop :=
  (Accepted eip1559Enabled data → Canonical eip1559Enabled data) ∧
    (¬ Accepted eip1559Enabled data → isOwnEncoding data = true ∨
      Malformed (bodyOf (formatOf eip1559Enabled data) data) (formatOf eip1559Enabled data))

end

/-- The hash function tells a record from its payload. -/
def SeparatesPayload [Keccak] (x : Bytes) : Prop :=
  ∀ p, IsItem x → payload x = some p → p ≠ x → Keccak.sha3 p ≠ Keccak.sha3 x

variable {data : Bytes} {t : TransactionBase} {eip1559Enabled : Bool}

/-! ## The type that is assigned on the way -/

namespace TransactionBase

/-- The type is left as it is, also by an exception. -/
abbrev KeepsTxType {α : Type} (type : TxType) (x : Fill α) : Prop :=
  EStateM.Invariant (·.txType = type) x

section

variable {type : TxType}

theorem keepsTxType_require {α : Type} (x : Option α) : KeepsTxType type (require x) := by
  cases x with
  | none => exact .throw _
  | some a => exact .pure _

theorem keepsTxType_check (condition : Bool) : KeepsTxType type (check condition) :=
  .ite (.pure _) (.throw _)

theorem keepsTxType_readLegacyFields (rlp : Bytes) : KeepsTxType type (readLegacyFields rlp) := by
  unfold readLegacyFields readU256 readRecipient readValue readData
  repeat' first
    | exact .pure _ | exact .modify fun _ h => h
    | exact keepsTxType_require _ | exact keepsTxType_check _
    | refine .bind ?_ fun _ => ?_

theorem keepsTxType_readLegacySignature (rlp : Bytes) (checkSig : CheckTransaction) :
    KeepsTxType type (readLegacySignature rlp checkSig) := by
  unfold readLegacySignature readU256 readSigned keepSignature
  repeat' first
    | exact .pure _ | exact .modify fun _ h => h
    | exact keepsTxType_require _ | exact keepsTxType_check _
    | refine .bind ?_ fun _ => ?_
    | refine .ite ?_ ?_

theorem keepsTxType_readTypedFields (format : TxType) (rlp : Bytes) (checkSig : CheckTransaction) :
    KeepsTxType type (readTypedFields format rlp checkSig) := by
  cases format
  all_goals
    unfold readTypedFields
    try unfold readType1Fields
    try unfold readType2Fields
    unfold readChainIdAndNonce readTypedRest readU256 readRecipient readValue readData
      readAccessList readTypedSignature keepSignature
    repeat' first
      | exact .pure _ | exact .modify fun _ h => h
      | exact keepsTxType_require _ | exact keepsTxType_check _
      | refine .bind ?_ fun _ => ?_

theorem keepsTxType_checkItemCount (rlp : Bytes) (fields : Nat) :
    KeepsTxType type (checkItemCount rlp fields) :=
  .bind (keepsTxType_require _) fun _ => keepsTxType_check _

/-- The type is assigned between the fields and the rest. -/
theorem txType_of_error {fields rest : Fill Unit} {format : TxType}
    (hfields : KeepsTxType .legacy fields) (hrest : KeepsTxType format rest)
    (herror : (do
      fields
      modify fun t => { t with txType := format }
      rest : Fill Unit) {} = .error () t) :
    ((¬ ∃ t₁, fields {} = .ok () t₁) → t.txType = .legacy) ∧
      ((∃ t₁, fields {} = .ok () t₁) → t.txType = format) := by
  rw [bind_apply] at herror
  cases hrun : fields {} with
  | error e t₁ =>
    rw [hrun] at herror
    cases herror
    exact ⟨fun _ => Triple.error hfields rfl hrun, fun ⟨_, hok⟩ => nomatch hok⟩
  | ok u t₁ =>
    rw [hrun] at herror
    exact ⟨fun hnot => absurd ⟨t₁, rfl⟩ hnot, fun _ => Triple.error hrest rfl herror⟩

variable [Keccak] [Secp256k1]

theorem keepsTxType_readSender (checkSig : CheckTransaction) :
    KeepsTxType type (readSender checkSig) :=
  .ite (.get_bind fun _ _ => .bind (keepsTxType_require _) fun _ => .modify fun _ h => h) (.pure _)

/-- An exception behind the fields of a type 1 or type 2 transaction leaves the
type assigned. -/
theorem txType_of_read_error {format : TxType} {rlp : Bytes}
    (hread : readOf format rlp .everything {} = .error () t) :
    (¬ FieldsReadable rlp format → t.txType = .legacy) ∧
      (FieldsReadable rlp format → t.txType = format) := by
  by_cases hlegacy : format = .legacy
  · subst hlegacy
    refine ⟨fun _ => ?_, fun h => h.elim⟩
    have hlegacy : KeepsTxType .legacy (readLegacy rlp .everything) :=
      .bind (keepsTxType_readLegacyFields rlp) fun _ =>
      .bind (keepsTxType_readLegacySignature rlp _) fun _ =>
      .bind (keepsTxType_readSender _) fun _ =>
      .bind (.modify fun _ _ => rfl) fun _ => keepsTxType_checkItemCount rlp 9
    exact Triple.error hlegacy rfl hread
  · rw [readOf_eq_readTyped hlegacy] at hread
    rw [fieldsReadable_iff hlegacy]
    exact txType_of_error (keepsTxType_readTypedFields format rlp _)
      (.bind (keepsTxType_readSender _) fun _ => keepsTxType_checkItemCount rlp _) hread

end

/-! ## What becomes of data -/

section

variable {rlp : Bytes}

theorem keepRaw_true : keepRaw rlp data true t = match print rlp with
    | none => .error () t
    | some _ => .ok () { t with type := .invalid, rawData := data } := by
  simp only [keepRaw, bind_apply]
  cases print rlp <;> rfl

variable [Keccak] [Secp256k1]

theorem accepted_iff : Accepted eip1559Enabled data ↔
    parse (bodyOf (formatOf eip1559Enabled data) data) =
        some (bodyOf (formatOf eip1559Enabled data) data) ∧
      ∃ t, readOf (formatOf eip1559Enabled data) (bodyOf (formatOf eip1559Enabled data) data)
        .everything {} = .ok () t := by
  rw [Accepted, Option.isSome_iff_exists]
  constructor
  · rintro ⟨t, hbuilt⟩
    obtain ⟨hitem, hread⟩ | ⟨hfalse, _⟩ := ofBytes_eq_some hbuilt
    · exact ⟨hitem.parse, t, hread⟩
    · cases hfalse
  · rintro ⟨hparse, t, hread⟩
    exact ⟨t, ofBytes_of_read_ok hparse hread⟩

/-- The fields that are read for the data. -/
abbrev Readable (eip1559Enabled : Bool) (data : Bytes) : Prop :=
  FieldsReadable (bodyOf (formatOf eip1559Enabled data) data) (formatOf eip1559Enabled data)

abbrev MalformedData (eip1559Enabled : Bool) (data : Bytes) : Prop :=
  Malformed (bodyOf (formatOf eip1559Enabled data) data) (formatOf eip1559Enabled data)

/-- Data becomes a transaction, a string, a string with a type in front of it
or raw data. -/
inductive Fate (eip1559Enabled : Bool) (data : Bytes) (t : TransactionBase) : Prop where
  | transaction (haccepted : Accepted eip1559Enabled data) (hvalid : t.isInvalid = false)
  | string (hnot : ¬ Accepted eip1559Enabled data) (hinvalid : t.isInvalid = true)
      (hraw : appendBytes data = some t.rawData)
      (hmalformed : MalformedData eip1559Enabled data) (htxType : t.txType = .legacy)
  | typedString (hnot : ¬ Accepted eip1559Enabled data) (hinvalid : t.isInvalid = true)
      (hraw : appendBytes data = some t.rawData)
      (hprint : print (bodyOf (formatOf eip1559Enabled data) data) = none)
      (hformed : ¬ MalformedData eip1559Enabled data)
      (htxType : t.txType = formatOf eip1559Enabled data) (hne : t.txType ≠ .legacy)
  | raw (hnot : ¬ Accepted eip1559Enabled data) (hinvalid : t.isInvalid = true)
      (hraw : t.rawData = data) (hformed : ¬ MalformedData eip1559Enabled data)
      (htxType : ¬ Readable eip1559Enabled data → t.txType = .legacy)

theorem ofBytes_fate (eip1559Enabled : Bool) (hlength : data.length < lengthLimit) :
    ∃ t, ofBytes data .everything true eip1559Enabled = some t ∧ Fate eip1559Enabled data t := by
  obtain ⟨raw, hraw, _⟩ := encodes_appendBytes hlength
  cases hparse : parse (bodyOf (formatOf eip1559Enabled data) data) with
  | none =>
    have hnot : ¬ Accepted eip1559Enabled data := by simp [accepted_iff, hparse]
    rw [ofBytes_of_parse_eq_none hparse, built_keepString, if_pos rfl, hraw, map_some]
    exact ⟨_, rfl, .string hnot rfl hraw (.inl hparse) rfl⟩
  | some rlp =>
    obtain ⟨rfl, _⟩ := parse_eq_some hparse
    cases hread : readOf (formatOf eip1559Enabled data)
        (bodyOf (formatOf eip1559Enabled data) data) .everything {} with
    | ok _ t =>
      rw [ofBytes_of_read_ok hparse hread]
      refine ⟨t, rfl, .transaction (accepted_iff.mpr ⟨hparse, t, hread⟩) ?_⟩
      exact valid_of_readOf hread
    | error _ t =>
      have hnot : ¬ Accepted eip1559Enabled data := by
        rw [accepted_iff, hread]
        rintro ⟨_, _, hok⟩
        cases hok
      obtain ⟨hlegacy, hformat⟩ := txType_of_read_error hread
      rw [ofBytes_of_read_error hparse hread, keepRaw_true]
      cases hprint : print (bodyOf (formatOf eip1559Enabled data) data) with
      | some =>
        exact ⟨_, rfl, .raw hnot rfl rfl (by simp [Malformed, hparse, hprint]) hlegacy⟩
      | none =>
        simp only [built_keepString, ↓reduceIte, hraw, map_some]
        refine ⟨_, rfl, ?_⟩
        by_cases hfields : Readable eip1559Enabled data
        · have htxType := hformat hfields
          refine .typedString hnot rfl hraw hprint ?_ htxType ?_
          · simp [Malformed, hparse, hfields]
          · intro heq
            rw [Readable, htxType.symm.trans heq] at hfields
            exact hfields
        · exact .string hnot rfl hraw (.inr ⟨hprint, hfields⟩) (hlegacy hfields)

end

end TransactionBase

/-! ## Hash and body of one transaction -/

section

theorem eip1559Enabled_of_formatOf_ne (hne : formatOf eip1559Enabled data ≠ .legacy) :
    eip1559Enabled = true := by
  cases eip1559Enabled with
  | false => exact absurd rfl hne
  | true => rfl

theorem bytesRef_of_encodes {p x : Bytes} (h : Encodes 0x80 p x) :
    bytesRefFromTransactionRlp x = some p := by
  have hdata : isData x = true := h.isData_iff.mpr rfl
  rw [bytesRefFromTransactionRlp, isList_eq x h.isItem.1, hdata, if_neg (by decide), h.payload]

theorem toBytes_of_invalid (hinvalid : t.isInvalid = true) :
    t.toBytes = some (typeByte t.txType ++ t.rawData) := by
  have htype : t.type = .invalid := by simpa [isInvalid] using hinvalid
  simp [TransactionBase.toBytes, streamRLP, htype]

theorem sha3_of_invalid [Keccak] (hinvalid : t.isInvalid = true) :
    t.sha3 true = (parse t.rawData).bind fun rlp => (payload rlp).map Keccak.sha3 := by
  rw [TransactionBase.sha3, if_pos hinvalid]
  cases parse t.rawData with
  | none => rfl
  | some rlp => cases hpayload : payload rlp <;> simp [hpayload]

/-- What is written for a transaction that has a type is a string. -/
theorem txOutput_of_typed (hne : t.txType ≠ .legacy) {bytes : Bytes}
    (hbytes : t.toBytes = some bytes) (hlength : bytes.length < lengthLimit) :
    ∃ out, txOutput true t = some out ∧ IsItem out ∧ out.length ≤ bytes.length + 9 ∧
      bytesRefFromTransactionRlp out = some bytes := by
  obtain ⟨out, hout, hencodes⟩ := encodes_appendBytes hlength
  refine ⟨out, ?_, hencodes.isItem, hencodes.length_le.2, bytesRef_of_encodes hencodes⟩
  simp [txOutput, hbytes, hne, hout]

theorem txOutput_of_legacy (htxType : t.txType = .legacy) :
    txOutput eip1559Enabled t = t.toBytes := by
  unfold txOutput
  cases t.toBytes <;> simp [htxType]

theorem isList_of_fieldsReadable {rlp : Bytes} {format : TxType}
    (hfields : FieldsReadable rlp format) : isList rlp = true := by
  have hformat : format ≠ .legacy := by
    rintro rfl
    exact hfields
  obtain ⟨_, hread⟩ := (fieldsReadable_iff hformat).mp hfields
  exact (readTypedFields_eq_ok hread).1

theorem not_fieldsReadable_of_own (hown : isOwnEncoding data = true) :
    ¬ Readable eip1559Enabled data := by
  intro hfields
  have hlist := isList_of_fieldsReadable hfields
  unfold isOwnEncoding at hown
  split at hown
  next n =>
    cases hformat : formatOf eip1559Enabled [n] with
    | legacy =>
      rw [Readable, hformat] at hfields
      exact hfields
    | type1 | type2 => simp [hformat, bodyOf, isList] at hlist
  next => exact absurd hown (by decide)

/-- Typed data of more than one byte is no record. -/
theorem parse_eq_none_of_typed (hne : formatOf eip1559Enabled data ≠ .legacy)
    (hown : isOwnEncoding data = false) : parse data = none := by
  have heip := eip1559Enabled_of_formatOf_ne hne
  subst heip
  unfold formatOf getTransactionType at hne
  simp only [↓reduceIte] at hne
  split at hne
  case h_3 => exact absurd rfl hne
  all_goals
    rename_i rest
    cases rest with
    | nil => simp [isOwnEncoding] at hown
    | cons => simp [parse, actualSize]

variable [Keccak] [Secp256k1]

section

variable (hbuilt : ofBytes data .everything true eip1559Enabled = some t)
  (hvalid : t.isInvalid = false) (hlength : data.length < 2 ^ 63)

include hbuilt hvalid hlength

/-- What is written for a valid transaction is read back as its bytes. -/
theorem txOutput_of_accepted :
    ∃ out bytes, txOutput eip1559Enabled t = some out ∧ IsItem out ∧
      out.length ≤ data.length + 128 ∧ t.toBytes = some bytes ∧
      bytesRefFromTransactionRlp out = some bytes := by
  obtain ⟨hitem, hread⟩ := read_of_ofBytes hbuilt hvalid
  obtain ⟨_, htxType, _⟩ := type_of_readOf hread
  have hdata := congrArg List.length (typeByte_append_bodyOf eip1559Enabled data)
  rw [length_append] at hdata
  have hlimit : lengthLimit = 2 ^ 64 - 257 := rfl
  obtain ⟨x, hstream, hx, hlist, hle⟩ := (writtenFrom_readOf hread).isItem hitem (by omega)
  have hbytes : t.toBytes = some (typeByte t.txType ++ x) := by
    simp [TransactionBase.toBytes, hstream]
  by_cases hlegacy : t.txType = .legacy
  · rw [hlegacy, typeByte, List.nil_append] at hbytes
    refine ⟨x, x, ?_, hx, by omega, hbytes, ?_⟩
    · rw [txOutput_of_legacy hlegacy, hbytes]
    · rw [bytesRefFromTransactionRlp, if_pos hlist]
  · have hone : (typeByte t.txType).length ≤ 1 := by cases t.txType <;> simp [typeByte]
    have heip := eip1559Enabled_of_formatOf_ne (htxType ▸ hlegacy)
    obtain ⟨out, hout, hitem, hle', href⟩ := txOutput_of_typed hlegacy hbytes (by
      rw [length_append]
      omega)
    rw [length_append] at hle'
    exact ⟨out, _, by rw [heip, hout], hitem, by omega, hbytes, href⟩

/-- The hash is that of the data, and the entry in the body is read back as the
data. -/
def Faithful (eip1559Enabled : Bool) (data : Bytes) (t : TransactionBase) : Prop :=
  t.sha3 true = some (Keccak.sha3 data) ∧ ∃ out, txOutput eip1559Enabled t = some out ∧
    IsItem out ∧ out.length ≤ data.length + 128 ∧ bytesRefFromTransactionRlp out = some data

/-- The hash is another one, or there is none, or the entry is missing or read
back as something else. -/
def Unfaithful (eip1559Enabled : Bool) (data : Bytes) (t : TransactionBase) : Prop :=
  t.sha3 true ≠ some (Keccak.sha3 data) ∨ ∃ out, txOutput eip1559Enabled t = some out ∧
    out.length ≤ data.length + 128 ∧
    (out = [] ∨ IsItem out ∧ bytesRefFromTransactionRlp out ≠ some data)

theorem faithful_of_accepted :
    Canonical eip1559Enabled data ∧ Faithful eip1559Enabled data t ∨
      ¬ Canonical eip1559Enabled data ∧ Unfaithful eip1559Enabled data t := by
  obtain ⟨out, bytes, hout, hitem, hle, hbytes, href⟩ :=
    txOutput_of_accepted hbuilt hvalid hlength
  have hiff := toBytes_eq_iff hbuilt hvalid
  rw [← hiff, hbytes, Option.some.injEq]
  by_cases heq : bytes = data
  · refine .inl ⟨heq, ?_, out, hout, hitem, hle, heq ▸ href⟩
    rw [sha3_eq hvalid, hbytes, heq, map_some]
  · refine .inr ⟨heq, .inr ⟨out, hout, hle, .inr ⟨hitem, ?_⟩⟩⟩
    rw [href, Ne, Option.some.injEq]
    exact heq

end

omit [Secp256k1] in
theorem faithful_of_string (hinvalid : t.isInvalid = true)
    (hraw : appendBytes data = some t.rawData) (htxType : t.txType = .legacy)
    (hlength : data.length < lengthLimit) : Faithful eip1559Enabled data t := by
  obtain ⟨raw, heq, hencodes⟩ := encodes_appendBytes hlength
  rw [hraw, Option.some.injEq] at heq
  subst heq
  have hitem := hencodes.isItem
  have hle := hencodes.length_le.2
  refine ⟨?_, t.rawData, ?_, hitem, by omega, bytesRef_of_encodes hencodes⟩
  · rw [sha3_of_invalid hinvalid, hitem.parse, bind_some, hencodes.payload, map_some]
  · rw [txOutput_of_legacy htxType, toBytes_of_invalid hinvalid, htxType, typeByte,
      List.nil_append]

omit [Secp256k1] in
theorem unfaithful_of_typedString (hinvalid : t.isInvalid = true)
    (hraw : appendBytes data = some t.rawData)
    (htxType : t.txType = formatOf eip1559Enabled data) (hne : t.txType ≠ .legacy)
    (hlength : data.length < 2 ^ 63) : Unfaithful eip1559Enabled data t := by
  have hlimit : lengthLimit = 2 ^ 64 - 257 := rfl
  obtain ⟨raw, heq, hencodes⟩ := encodes_appendBytes (show data.length < lengthLimit by omega)
  rw [hraw, Option.some.injEq] at heq
  subst heq
  have hle := hencodes.length_le
  have hone : (typeByte t.txType).length = 1 := by
    cases htype : t.txType with
    | legacy => exact absurd htype hne
    | type1 | type2 => rfl
  obtain ⟨out, hout, hitem, hle', href⟩ :=
    txOutput_of_typed hne (toBytes_of_invalid hinvalid) (by rw [length_append]; omega)
  rw [length_append] at hle'
  have heip := eip1559Enabled_of_formatOf_ne (htxType ▸ hne)
  refine .inr ⟨out, by rw [heip, hout], by omega, .inr ⟨hitem, ?_⟩⟩
  -- the type byte makes the entry longer than the data
  rw [href, Ne, Option.some.injEq]
  intro hsame
  have hlen := congrArg List.length hsame
  rw [length_append] at hlen
  omega

omit [Secp256k1] in
theorem unfaithful_of_raw (hseparates : SeparatesPayload data) (hinvalid : t.isInvalid = true)
    (hraw : t.rawData = data) (hown : isOwnEncoding data = false)
    (hparse : parse (bodyOf (formatOf eip1559Enabled data) data) ≠ none)
    (htxType : ¬ Readable eip1559Enabled data → t.txType = .legacy) :
    Unfaithful eip1559Enabled data t := by
  by_cases hformat : formatOf eip1559Enabled data = .legacy
  · rw [hformat, bodyOf] at hparse
    rw [Readable, hformat] at htxType
    have htxType := htxType id
    obtain ⟨rlp, hsome⟩ := Option.ne_none_iff_exists'.mp hparse
    by_cases hempty : data = []
    · refine .inr ⟨[], ?_, by simp, .inl rfl⟩
      rw [txOutput_of_legacy htxType, toBytes_of_invalid hinvalid, htxType, hraw, hempty]
      rfl
    · obtain ⟨rfl, hitem⟩ := parse_eq_some hsome
      obtain ⟨base, p, hencodes⟩ := (hitem hempty).encodes
      refine .inl ?_
      rw [sha3_of_invalid hinvalid, hraw, hsome, bind_some, hencodes.payload,
        map_some, Ne, Option.some.injEq]
      exact hseparates _ (hitem hempty) hencodes.payload (hencodes.ne_of_not_own hown)
  · refine .inl ?_
    rw [sha3_of_invalid hinvalid, hraw, parse_eq_none_of_typed hformat hown]
    simp

def Verdict (eip1559Enabled : Bool) (data : Bytes) (t : TransactionBase) : Prop :=
  Kept eip1559Enabled data ∧ Faithful eip1559Enabled data t ∨
    ¬ Kept eip1559Enabled data ∧ Unfaithful eip1559Enabled data t

theorem TransactionBase.Fate.verdict (hfate : Fate eip1559Enabled data t)
    (hseparates : SeparatesPayload data) (hlength : data.length < 2 ^ 63)
    (hbuilt : ofBytes data .everything true eip1559Enabled = some t) :
    Verdict eip1559Enabled data t := by
  have hlimit : lengthLimit = 2 ^ 64 - 257 := rfl
  cases hfate with
  | transaction haccepted hvalid =>
    have hkept : Kept eip1559Enabled data ↔ Canonical eip1559Enabled data := by
      simp [Kept, haccepted]
    rw [Verdict, hkept]
    exact faithful_of_accepted hbuilt hvalid hlength
  | string hnot hinvalid hraw hmalformed htxType =>
    refine .inl ⟨⟨fun h => absurd h hnot, fun _ => .inr hmalformed⟩, ?_⟩
    exact faithful_of_string hinvalid hraw htxType (by omega)
  | typedString hnot hinvalid hraw hprint hformed htxType hne =>
    have hfields := Classical.not_not.mp fun h => hformed (.inr ⟨hprint, h⟩)
    refine .inr ⟨fun hkept => ?_, unfaithful_of_typedString hinvalid hraw htxType hne hlength⟩
    rcases hkept.2 hnot with hown | hmalformed
    · exact not_fieldsReadable_of_own hown hfields
    · exact hformed hmalformed
  | raw hnot hinvalid hraw hformed htxType =>
    cases hown : isOwnEncoding data with
    | true =>
      have hstring : appendBytes data = some t.rawData := by simp [appendBytes, hown, hraw]
      refine .inl ⟨⟨fun h => absurd h hnot, fun _ => .inl hown⟩, ?_⟩
      exact faithful_of_string hinvalid hstring (htxType (not_fieldsReadable_of_own hown))
        (by omega)
    | false =>
      refine .inr ⟨fun hkept => ?_, unfaithful_of_raw hseparates hinvalid hraw hown
        (fun h => hformed (.inl h)) htxType⟩
      rcases hkept.2 hnot with h | hmalformed
      · rw [hown] at h
        exact absurd h (by decide)
      · exact hformed hmalformed

end

/-! ## Whole bodies -/

/-- Entries that are items or missing: the body holds those that are not
missing. -/
theorem transactionsOf_eq {outs : List Bytes} {body : Bytes}
    (hitems : ∀ out ∈ outs, out = [] ∨ IsItem out) (hlength : outs.flatten.length < lengthLimit)
    (hbody : wrapList outs.flatten = some body) :
    transactionsOf body = (outs.filter (· ≠ [])).mapM bytesRefFromTransactionRlp := by
  have hfilter : ∀ out ∈ outs.filter (· ≠ []), IsItem out := by
    intro out hout
    obtain ⟨hmem, hne⟩ := List.mem_filter.mp hout
    exact (hitems out hmem).resolve_left (by simpa using hne)
  have hflatten : (outs.filter (· ≠ [])).flatten = outs.flatten := List.flatten_filter_ne_nil
  rw [← hflatten] at hbody hlength
  obtain ⟨hitem, hlist⟩ := toList_of_wrapList hfilter hlength hbody
  simp only [transactionsOf, hitem.parse, hlist, Option.bind_eq_bind, bind_some]

section

variable [Keccak] [Secp256k1]

/-- The entry of a transaction with the right hash tells whether its data is
kept. -/
def Tells (eip1559Enabled : Bool) (data out : Bytes) : Prop :=
  (out = [] ∨ IsItem out) ∧ out.length ≤ data.length + 128 ∧
    (Kept eip1559Enabled data ↔ out ≠ [] ∧ bytesRefFromTransactionRlp out = some data)

theorem exists_tells (hverdict : Verdict eip1559Enabled data t)
    (hsha3 : t.sha3 true = some (Keccak.sha3 data)) :
    ∃ out, txOutput eip1559Enabled t = some out ∧ Tells eip1559Enabled data out := by
  rcases hverdict with ⟨hkept, _, out, hout, hitem, hle, href⟩ | ⟨hnot, hwrong | hentry⟩
  · exact ⟨out, hout, .inr hitem, hle, fun _ => ⟨hitem.1, href⟩, fun _ => hkept⟩
  · exact absurd hsha3 hwrong
  · obtain ⟨out, hout, hle, hcases⟩ := hentry
    refine ⟨out, hout, hcases.imp_right And.left, hle, fun h => absurd h hnot, ?_⟩
    rintro ⟨hne, href⟩
    rcases hcases with rfl | ⟨_, hother⟩
    · exact absurd rfl hne
    · exact absurd href hother

variable {approved outs : List Bytes} {transactions : List TransactionBase}

omit [Keccak] [Secp256k1] in
/-- A function that returns on every item returns on the list. -/
theorem exists_mapM_eq_some {α β γ : Type} {R : α → β → Prop} {S : α → γ → Prop} {f : β → Option γ}
    {l : List α} {u : List β} (h : List.Forall₂ R l u)
    (hf : ∀ a b, R a b → ∃ c, f b = some c ∧ S a c) :
    ∃ cs, u.mapM f = some cs ∧ List.Forall₂ S l cs := by
  induction h with
  | nil => exact ⟨[], rfl, .nil⟩
  | cons hfirst _ ih =>
    obtain ⟨cs, hcs, hall⟩ := ih
    obtain ⟨c, hc, hone⟩ := hf _ _ hfirst
    refine ⟨c :: cs, ?_, .cons hone hall⟩
    rw [mapM_eq_some_iff] at hcs ⊢
    exact .cons hc hcs

/-- What every byte string becomes. -/
theorem exists_created (eip1559Enabled : Bool)
    (hseparates : ∀ data ∈ approved, SeparatesPayload data)
    (hlength : ∀ data ∈ approved, data.length < 2 ^ 63) :
    ∃ transactions, createTransactions eip1559Enabled approved = some transactions ∧
      List.Forall₂ (Verdict eip1559Enabled) approved transactions := by
  have hlimit : lengthLimit = 2 ^ 64 - 257 := rfl
  have hsame : List.Forall₂ (fun data other => data = other ∧ data ∈ approved) approved approved :=
    List.forall₂_same.mpr fun data hdata => ⟨rfl, hdata⟩
  refine exists_mapM_eq_some hsame ?_
  rintro data _ ⟨rfl, hdata⟩
  have hshort := hlength data hdata
  obtain ⟨t, hbuilt, hfate⟩ := ofBytes_fate eip1559Enabled (show data.length < _ by omega)
  exact ⟨t, hbuilt, hfate.verdict (hseparates data hdata) hshort hbuilt⟩

section

variable (htell : List.Forall₂ (Tells eip1559Enabled) approved outs)

include htell

theorem length_flatten_le_of_tells :
    outs.flatten.length ≤ (approved.map fun data => data.length + 128).sum := by
  induction htell with
  | nil => simp
  | cons htells _ ih =>
    have hle := htells.2.1
    rw [List.flatten_cons, length_append, List.map_cons, List.sum_cons]
    omega

theorem read_iff_kept :
    List.Forall₂ (fun out data => out ≠ [] ∧ bytesRefFromTransactionRlp out = some data) outs
      approved ↔ ∀ data ∈ approved, Kept eip1559Enabled data := by
  induction htell with
  | nil => simp
  | cons htells _ ih => rw [List.forall₂_cons, List.forall_mem_cons, ih, htells.2.2]

theorem isItem_of_tells : ∀ out ∈ outs, out = [] ∨ IsItem out :=
  ((List.forall₂_and_left _ _).mp htell.flip).1

/-- The body holds all the data exactly when all of it is kept: a missing entry
would leave too few. -/
theorem mapM_bytesRef_iff :
    (outs.filter (· ≠ [])).mapM bytesRefFromTransactionRlp = some approved ↔
      ∀ data ∈ approved, Kept eip1559Enabled data := by
  rw [mapM_eq_some_iff, ← read_iff_kept htell, List.forall₂_and_left]
  constructor
  · intro hread
    have hlength := hread.length_eq.trans htell.length_eq
    have hall := List.length_filter_eq_length_iff.mp hlength
    rw [List.filter_eq_self.mpr hall] at hread
    exact ⟨fun out hout => by simpa using hall out hout, hread⟩
  · rintro ⟨hne, hread⟩
    rwa [List.filter_eq_self.mpr fun out hout => by simpa using hne out hout]

end

theorem sha3_of_kept (hverdicts : List.Forall₂ (Verdict eip1559Enabled) approved transactions)
    (hkept : ∀ data ∈ approved, Kept eip1559Enabled data) :
    List.Forall₂ (fun data t => t.sha3 true = some (Keccak.sha3 data)) approved transactions := by
  refine List.Forall₂.imp (fun data t h => ?_) ((List.forall₂_and_left _ _).mpr
    ⟨hkept, hverdicts⟩)
  rcases h.2 with ⟨_, hfaithful⟩ | ⟨hnot, _⟩
  · exact hfaithful.1
  · exact absurd h.1 hnot

/-- With the right hashes, the body decides. -/
theorem commitTransactions_iff
    (hlength : (approved.map fun data => data.length + 128).sum < 2 ^ 63)
    (hverdicts : List.Forall₂ (Verdict eip1559Enabled) approved transactions)
    (hsha3 : List.Forall₂ (fun data t => t.sha3 true = some (Keccak.sha3 data)) approved
      transactions) :
    (∃ body, commitTransactions eip1559Enabled transactions = some body ∧
      transactionsOf body = some approved) ↔ ∀ data ∈ approved, Kept eip1559Enabled data := by
  have hlimit : lengthLimit = 2 ^ 64 - 257 := rfl
  obtain ⟨outs, houts, htell⟩ := exists_mapM_eq_some
    (List.Forall₂.mp (fun _ _ => exists_tells) hverdicts hsha3) fun _ _ hentry => hentry
  have hle := length_flatten_le_of_tells htell
  obtain ⟨body, hwrap, _⟩ := encodes_wrapList (show outs.flatten.length < lengthLimit by omega)
  have hcommit : commitTransactions eip1559Enabled transactions = some body := by
    simp [commitTransactions, houts, hwrap]
  rw [← mapM_bytesRef_iff htell, ← transactionsOf_eq (isItem_of_tells htell) (by omega) hwrap,
    hcommit]
  simp

/-- A list of byte strings is stored in a block as it was given exactly when all
of them are kept. Everything that is written fits into memory. -/
theorem stored_iff_kept (eip1559Enabled : Bool) (approved : List Bytes)
    (hseparates : ∀ data ∈ approved, SeparatesPayload data)
    (hlength : (approved.map fun data => data.length + 128).sum < 2 ^ 63) :
    StoredAsGiven eip1559Enabled approved ↔ ∀ data ∈ approved, Kept eip1559Enabled data := by
  have hshort : ∀ data ∈ approved, data.length < 2 ^ 63 := by
    intro data hdata
    have hmem : data.length + 128 ∈ approved.map fun data => data.length + 128 :=
      List.mem_map.mpr ⟨data, hdata, rfl⟩
    have hle := List.single_le_sum (fun _ _ => Nat.zero_le _) _ hmem
    omega
  obtain ⟨transactions, hcreated, hverdicts⟩ := exists_created eip1559Enabled hseparates hshort
  constructor
  · rintro ⟨transactions', body, hcreated', hsha3, hcommit, hread⟩
    rw [hcreated, Option.some.injEq] at hcreated'
    subst hcreated'
    rw [mapM_eq_some_iff, List.forall₂_map_right_iff] at hsha3
    exact (commitTransactions_iff hlength hverdicts hsha3.flip).mp ⟨body, hcommit, hread⟩
  · intro hkept
    have hsha3 := sha3_of_kept hverdicts hkept
    obtain ⟨body, hcommit, hread⟩ := (commitTransactions_iff hlength hverdicts hsha3).mpr hkept
    refine ⟨transactions, body, hcreated, ?_, hcommit, hread⟩
    rw [mapM_eq_some_iff, List.forall₂_map_right_iff]
    exact hsha3.flip

end

/-! ## Data that is not kept -/

theorem sampleHash_separates (x : Bytes) : @SeparatesPayload sampleHash x := by
  intro p hx hpayload hne heq
  obtain ⟨base, q, hencodes⟩ := hx.encodes
  rw [hencodes.payload, Option.some.injEq] at hpayload
  subst hpayload
  have hlimit := lt_of_lt_lengthLimit hencodes.length_lt
  have hle := hencodes.length_le
  have hlength : (BitVec.ofNat 256 q.length).toNat = (BitVec.ofNat 256 x.length).toNat :=
    congrArg BitVec.toNat heq
  rw [BitVec.toNat_ofNat, BitVec.toNat_ofNat, Nat.mod_eq_of_lt (by omega),
    Nat.mod_eq_of_lt (by omega)] at hlength
  cases hencodes with
  | own => exact hne rfl
  | headed hbase hlim =>
    obtain ⟨n, rest, hheader, _⟩ := header_eq_cons hbase hlimit
    simp only [hheader, List.cons_append, List.length_cons, length_append] at hlength
    omega

/-- A transaction, a byte that begins a record without the rest of it, and a
byte that is a record. -/
def sampleApproved : List Bytes := [sampleShort, [0xff], [5]]

theorem stored_iff_kept_sample : @StoredAsGiven sampleHash sampleCurve true sampleApproved := by
  refine (@stored_iff_kept sampleHash sampleCurve true sampleApproved
    (fun data _ => sampleHash_separates data) (by decide)).mpr fun data hdata => ?_
  have haccepted : @Accepted sampleHash sampleCurve true sampleShort := by
    unfold Accepted
    decide +kernel
  have hnot : ∀ data ∈ [[0xff], [5]], ¬ @Accepted sampleHash sampleCurve true data := by
    unfold Accepted
    decide +kernel
  simp only [sampleApproved, List.mem_cons, List.not_mem_nil, or_false] at hdata
  rcases hdata with rfl | rfl | rfl
  · exact ⟨fun _ => sampleShort_canonical, fun h => absurd haccepted h⟩
  · refine ⟨fun h => absurd h (hnot _ (by simp)), fun _ => .inr (.inl ?_)⟩
    decide +kernel
  · exact ⟨fun h => absurd h (hnot _ (by simp)), fun _ => .inl rfl⟩

/-- The type byte 1 and the record 5, which is no list. -/
def sampleGarbage : Bytes := [1, 5]

def sampleEmptyList : Bytes := [0xc0]

/-- Garbage behind a type byte has no hash; an empty list has the hash of the
empty string. -/
theorem sample_not_stored :
    (@createTransactions sampleHash sampleCurve true [sampleGarbage] =
        some [{ type := .invalid, rawData := sampleGarbage }] ∧
      @TransactionBase.sha3 sampleHash { type := .invalid, rawData := sampleGarbage } true = none) ∧
    (@createTransactions sampleHash sampleCurve true [sampleEmptyList] =
        some [{ type := .invalid, rawData := sampleEmptyList }] ∧
      @TransactionBase.sha3 sampleHash { type := .invalid, rawData := sampleEmptyList } true =
        some (sampleHash.sha3 []) ∧
      sampleHash.sha3 [] ≠ sampleHash.sha3 sampleEmptyList) := by
  decide +kernel

end Skaled
