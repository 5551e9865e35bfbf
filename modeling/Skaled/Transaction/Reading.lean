import Skaled.Transaction.Base

/-! # What a transaction was read from

When the fields of a transaction could be read, writing each of them gives the
item it came from. The numbers that are narrowed on the way are the exception:
`v` of a legacy transaction and the chain id of the others are cut to 64 bits,
and the parity to one bit.
-/

namespace Skaled.TransactionBase

open EStateM (bind_eq_ok get_apply modify_apply pure_apply throw_apply)

open Rlp
open BitVec (lt_def reduceToNat toNat_add toNat_mul toNat_setWidth toNat_sub)

/-! ## Steps that succeed -/

variable {α : Type} {rlp : Bytes} {i : Nat} {t t' : TransactionBase}

theorem require_eq_ok {x : Option α} {a : α} : require x t = .ok a t' ↔ x = some a ∧ t' = t := by
  cases x with
  | none => simp [require, throw_apply]
  | some b =>
    simp only [require, pure_apply, EStateM.Result.ok.injEq, Option.some.injEq]
    exact and_congr_right fun _ => eq_comm

theorem check_eq_ok {condition : Bool} {u : Unit} :
    check condition t = .ok u t' ↔ condition = true ∧ t' = t := by
  cases condition with
  | false => simp [check, throw_apply]
  | true =>
    simp only [check, ↓reduceIte, pure_apply, EStateM.Result.ok.injEq, true_and]
    exact eq_comm

theorem modify_eq_ok {f : TransactionBase → TransactionBase} {u : Unit} :
    (modify f : Fill Unit) t = .ok u t' ↔ t' = f t := by
  simp only [modify_apply, EStateM.Result.ok.injEq, true_and]
  exact eq_comm

variable {maxSize n : Nat} {v : U256}

theorem toInt_lt {x : Bytes} (hint : toInt maxSize x = some n) : n < 256 ^ maxSize := by
  simp only [toInt, Option.bind_eq_bind, Option.bind_eq_some_iff, Option.ite_none_left_eq_some,
    not_lt, Option.some.injEq] at hint
  obtain ⟨_, _, _, _, _, p, _, hle, rfl⟩ := hint
  exact Nat.lt_of_lt_of_le (BigEndian.decode_lt p) (Nat.pow_le_pow_right (by norm_num) hle)

theorem fieldInt_lt (hint : fieldInt maxSize rlp i = some n) : n < 256 ^ maxSize := by
  obtain ⟨x, _, hx⟩ := Option.bind_eq_some_iff.mp hint
  exact toInt_lt hx

theorem readU256_eq_ok {n : U256} :
    readU256 rlp i t = .ok n t' ↔ fieldInt 32 rlp i = some n.toNat ∧ t' = t := by
  simp only [readU256, bind_eq_ok, require_eq_ok, pure_apply,
    EStateM.Result.ok.injEq]
  constructor
  · rintro ⟨k, _, ⟨hint, rfl⟩, rfl, rfl⟩
    have hk := fieldInt_lt hint
    rw [BitVec.toNat_ofNat, Nat.mod_eq_of_lt (by norm_num at hk ⊢; exact hk)]
    exact ⟨hint, rfl⟩
  · rintro ⟨hint, rfl⟩
    exact ⟨_, _, ⟨hint, rfl⟩, by simp, rfl⟩

/-! ## Fields and the items they came from -/

def Field (rlp : Bytes) (i : Nat) (written : Option Bytes) : Prop :=
  ∃ x, item rlp i = some x ∧ x ≠ [] ∧ (IsItem x → written = some x)

def Fields (rlp : Bytes) : (i : Nat) → List (Option Bytes) → Prop
  | _, [] => True
  | i, written :: rest => Field rlp i written ∧ Fields rlp (i + 1) rest

theorem Field.of_fieldInt (hmax : maxSize < 56)
    (hint : fieldInt maxSize rlp i = some n) : Field rlp i (appendInt n) := by
  obtain ⟨x, hx, hint⟩ := Option.bind_eq_some_iff.mp hint
  refine ⟨x, hx, ?_, fun hitem => (appendInt_of_toInt hitem hmax hint).1⟩
  rintro rfl
  simp [toInt, requireGood] at hint

theorem Field.of_u256 {n : U256} (hint : fieldInt 32 rlp i = some n.toNat) :
    Field rlp i (appendU256 n) :=
  .of_fieldInt (by norm_num) hint

theorem readRecipient_eq_ok (hread : readRecipient rlp i t = .ok () t') :
    ∃ type dest, (type = .contractCreation ∨ type = .messageCall) ∧
      t' = { t with type := type, receiveAddress := dest } ∧ Field rlp i t'.appendRecipient := by
  simp only [readRecipient, bind_eq_ok, require_eq_ok, check_eq_ok, modify_eq_ok] at hread
  obtain ⟨x, _, ⟨hx, rfl⟩, _, _, ⟨hdata, rfl⟩, _, _, rfl, dest, _, ⟨hdest, rfl⟩, rfl⟩ := hread
  have hne : x ≠ [] := by
    rintro rfl
    simp [isData] at hdata
  by_cases hempty : isEmpty x
  · refine ⟨.contractCreation, dest, .inl rfl, by simp [hempty], x, hx, hne, fun hitem => ?_⟩
    rw [eq_of_isEmpty hitem hdata hempty]
    simp [appendRecipient, isEmpty, appendBytes, isOwnEncoding]
  · refine ⟨.messageCall, dest, .inr rfl, by simp [hempty], x, hx, hne, fun hitem => ?_⟩
    rw [toRecipient, if_neg hempty] at hdest
    simp [appendRecipient, hempty, appendBytes_of_toHash hitem hdest]

theorem readValue_eq_ok (hread : readValue rlp i t = .ok () t') :
    ∃ value, t' = { t with value := value } ∧ Field rlp i (appendU256 value) := by
  simp only [readValue, bind_eq_ok, readU256_eq_ok, modify_eq_ok] at hread
  obtain ⟨value, _, ⟨hint, rfl⟩, rfl⟩ := hread
  exact ⟨value, rfl, .of_u256 hint⟩

theorem readData_eq_ok (hread : readData rlp i t = .ok () t') :
    ∃ data, t' = { t with data := data } ∧ Field rlp i (appendBytes data) := by
  simp only [readData, bind_eq_ok, require_eq_ok, check_eq_ok, modify_eq_ok] at hread
  obtain ⟨x, _, ⟨hx, rfl⟩, _, _, ⟨hdata, rfl⟩, data, _, ⟨hbytes, rfl⟩, rfl⟩ := hread
  refine ⟨data, rfl, x, hx, ?_, fun hitem => appendBytes_of_toBytes hitem hdata hbytes⟩
  rintro rfl
  simp [isData] at hdata

theorem mapM_parse {l : List Bytes} (hitems : ∀ x ∈ l, IsItem x) : l.mapM parse = some l := by
  induction l with
  | nil => rfl
  | cons x rest ih =>
    have hparse := (hitems x List.mem_cons_self).parse
    rw [List.mapM_cons, hparse, ih fun y hy => hitems y (List.mem_cons_of_mem _ hy)]
    rfl

theorem readAccessList_eq_ok (hread : readAccessList rlp i t = .ok () t') :
    ∃ accessList, t' = { t with accessList := accessList } ∧ Field rlp i t'.appendAccessList := by
  simp only [readAccessList, bind_eq_ok, require_eq_ok, modify_eq_ok] at hread
  obtain ⟨accessList, _, ⟨hvalid, rfl⟩, rfl⟩ := hread
  obtain ⟨x, hx, hvalid⟩ := Option.bind_eq_some_iff.mp hvalid
  simp only [validateAccessListRLP, Option.bind_eq_bind, Option.bind_eq_some_iff,
    Option.ite_none_right_eq_some, Option.some.injEq] at hvalid
  obtain ⟨_, hlist, _, rfl⟩ := hvalid
  refine ⟨_, rfl, x, hx, ?_, fun hitem => ?_⟩
  · rintro rfl
    simp [toList, isList] at hlist
  · rw [appendAccessList, mapM_parse (toList_eq_some hlist).2.2]
    exact wrapList_of_toList hitem hlist

/-! ## Signatures -/

theorem toNat_of_chainIdOfV {chainId : BitVec 64} (hchain : chainIdOfV v = some (some chainId)) :
    36 < v.toNat ∧ chainId.toNat = (v.toNat - 35) / 2 := by
  unfold chainIdOfV at hchain
  split at hchain
  next hlt =>
    have hlt : 36 < v.toNat := by simpa [lt_def] using hlt
    have hsub : (v - 35).toNat = v.toNat - 35 := by
      have hv := v.isLt
      rw [toNat_sub, show (35 : U256).toNat = 35 from rfl]
      omega
    simp only [Option.ite_none_left_eq_some, Option.some.injEq, lt_def, not_lt,
      BitVec.toNat_udiv, hsub, reduceToNat] at hchain
    obtain ⟨hle, rfl⟩ := hchain
    refine ⟨hlt, ?_⟩
    rw [BitVec.truncate_eq_setWidth, toNat_setWidth, BitVec.toNat_udiv, hsub,
      show (2 : U256).toNat = 2 from rfl]
    omega
  next =>
    split at hchain <;> simp at hchain

theorem eq_of_chainIdOfV_none (hchain : chainIdOfV v = some none) : v = 27 ∨ v = 28 := by
  unfold chainIdOfV at hchain
  split at hchain
  next => simp at hchain
  next => simpa [or_iff_not_imp_left] using hchain

/-- The recovery id is a bit, and with the chain id it makes up `v`. -/
theorem recoveryId_spec {chainId : Option (BitVec 64)} (hchain : chainIdOfV v = some chainId) :
    (recoveryId v chainId).toNat ≤ 1 ∧
      ∀ id, chainId = some id → id.toNat * 2 + 35 + (recoveryId v chainId).toNat = v.toNat := by
  cases chainId with
  | some id =>
    obtain ⟨hlt, hid⟩ := toNat_of_chainIdOfV hchain
    have hfit := id.isLt
    have hv := v.isLt
    have hrecovery : (recoveryId v (some id)).toNat = v.toNat - (id.toNat * 2 + 35) := by
      simp only [recoveryId, toNat_sub, toNat_add, toNat_mul,
        toNat_setWidth, reduceToNat, UInt8.toNat_ofNat']
      omega
    refine ⟨by omega, fun id' hid' => ?_⟩
    rw [Option.some.injEq] at hid'
    subst hid'
    omega
  | none =>
    refine ⟨?_, fun id hid => by simp at hid⟩
    rcases eq_of_chainIdOfV_none hchain with rfl | rfl <;> decide

/-- What is written for `v` is `v` itself, as far as 64 bits go. -/
theorem vOffset_recoveryId {chainId : Option (BitVec 64)} (hchain : chainIdOfV v = some chainId) :
    BitVec.ofNat 64 (recoveryId v chainId).toNat + vOffset chainId = v.truncate 64 := by
  cases chainId with
  | some chainId =>
    have hsum := (recoveryId_spec hchain).2 chainId rfl
    apply BitVec.eq_of_toNat_eq
    simp only [vOffset, toNat_add, toNat_mul, BitVec.toNat_ofNat,
      BitVec.truncate_eq_setWidth, toNat_setWidth, reduceToNat]
    omega
  | none => rcases eq_of_chainIdOfV_none hchain with rfl | rfl <;> rfl

/-- The recovery id is a bit. With the chain id it makes up `v`, unless the
signature is zero. -/
theorem readLegacySignature_eq_ok {checkSig : CheckTransaction}
    (hread : readLegacySignature rlp checkSig t = .ok () t') :
    ∃ (v : U256) (chainId : Option (BitVec 64)) (vrs : SignatureStruct),
      t' = { t with chainId := chainId, vrs := some vrs } ∧ t'.legacyV vrs = v.truncate 64 ∧
      fieldInt 32 rlp 6 = some v.toNat ∧ fieldInt 32 rlp 7 = some vrs.r.toNat ∧
      fieldInt 32 rlp 8 = some vrs.s.toNat ∧ vrs.v.toNat ≤ 1 ∧
      (t'.hasZeroSignature = false →
        (∀ id, chainId = some id → id.toNat * 2 + 35 + vrs.v.toNat = v.toNat) ∧
          (chainId = none → v.toNat < 2 ^ 64)) := by
  simp only [readLegacySignature, bind_eq_ok, readU256_eq_ok] at hread
  obtain ⟨v, _, ⟨hv, rfl⟩, r, _, ⟨hr, rfl⟩, s, _, ⟨hs, rfl⟩, hrest⟩ := hread
  split at hrest
  next hzero =>
    rw [modify_eq_ok] at hrest
    subst hrest
    refine ⟨v, some (v.truncate 64), ⟨r, s, 0⟩, rfl, ?_, hv, hr, hs, Nat.zero_le 1, ?_⟩
    · simp [legacyV, hasZeroSignature, hzero]
    · simp [hasZeroSignature, hzero]
  next hzero =>
    simp only [readSigned, keepSignature, bind_eq_ok, require_eq_ok, modify_eq_ok,
      check_eq_ok] at hrest
    obtain ⟨chainId, _, ⟨hchain, rfl⟩, _, _, rfl, _, _, rfl, _, rfl⟩ := hrest
    obtain ⟨hbit, hsum⟩ := recoveryId_spec hchain
    refine ⟨v, chainId, ⟨r, s, recoveryId v chainId⟩, rfl, ?_, hv, hr, hs, hbit,
      fun _ => ⟨hsum, ?_⟩⟩
    · rw [legacyV, if_neg (by simpa [hasZeroSignature] using hzero)]
      exact vOffset_recoveryId hchain
    · rintro rfl
      rcases eq_of_chainIdOfV_none hchain with rfl | rfl <;> decide

theorem readTypedSignature_eq_ok {checkSig : CheckTransaction}
    (hread : readTypedSignature rlp i checkSig t = .ok () t') :
    ∃ yParity vrs, t' = { t with vrs := some vrs } ∧
      vrs.v = (if yParity = 0 then 0 else 1) ∧ fieldInt 1 rlp i = some yParity ∧
      fieldInt 32 rlp (i + 1) = some vrs.r.toNat ∧ fieldInt 32 rlp (i + 2) = some vrs.s.toNat := by
  simp only [readTypedSignature, keepSignature, bind_eq_ok, require_eq_ok, readU256_eq_ok,
    modify_eq_ok, check_eq_ok] at hread
  obtain ⟨yParity, _, ⟨hparity, rfl⟩, r, _, ⟨hr, rfl⟩, s, _, ⟨hs, rfl⟩, _, _, rfl, _, rfl⟩ := hread
  exact ⟨yParity, _, rfl, rfl, hparity, hr, hs⟩

/-! ## Whole transactions -/

variable {checkSig : CheckTransaction}

theorem checkItemCount_eq_ok {fields : Nat} (hlist : isList rlp = true)
    (hcheck : checkItemCount rlp fields t = .ok () t') :
    t' = t ∧ ∃ l, toList rlp = some l ∧ l.length ≤ fields := by
  simp only [checkItemCount, bind_eq_ok, require_eq_ok, check_eq_ok, itemCount,
    if_pos hlist, Option.map_eq_some_iff, decide_eq_true_eq] at hcheck
  obtain ⟨_, _, ⟨⟨l, hl, rfl⟩, rfl⟩, hle, rfl⟩ := hcheck
  exact ⟨rfl, l, hl, hle⟩

theorem readSender_eq_ok [Keccak] [Secp256k1] (hread : readSender checkSig t = .ok () t') :
    ∃ sender, t' = { t with knownSender := sender } := by
  unfold readSender at hread
  split at hread
  next =>
    simp only [keepSender, bind_eq_ok, require_eq_ok, modify_eq_ok, get_apply,
      EStateM.Result.ok.injEq] at hread
    obtain ⟨_, _, ⟨rfl, rfl⟩, sender, _, ⟨_, rfl⟩, rfl⟩ := hread
    exact ⟨some sender, rfl⟩
  next =>
    simp only [pure_apply, EStateM.Result.ok.injEq, true_and] at hread
    exact ⟨t.knownSender, hread.symm⟩

theorem readLegacyFields_eq_ok (hread : readLegacyFields rlp t = .ok () t') :
    isList rlp = true ∧ ∃ nonce gasPrice gas type dest value data,
      (type = .contractCreation ∨ type = .messageCall) ∧
      t' = { t with
        nonce := nonce, gasPrice := gasPrice, gas := gas, type := type, receiveAddress := dest,
        value := value, data := data } ∧
      Fields rlp 0 [appendU256 nonce, appendU256 gasPrice, appendU256 gas, t'.appendRecipient,
        appendU256 value, appendBytes data] := by
  simp only [readLegacyFields, bind_eq_ok, check_eq_ok, readU256_eq_ok,
    modify_eq_ok] at hread
  obtain ⟨_, _, ⟨hlist, rfl⟩, nonce, _, ⟨hnonce, rfl⟩, _, _, rfl, gasPrice, _, ⟨hgasPrice, rfl⟩,
    _, _, rfl, gas, _, ⟨hgas, rfl⟩, _, _, rfl, _, _, hstep₁, _, _, hstep₂, hstep₃⟩ := hread
  obtain ⟨type, dest, htype, rfl, hdest⟩ := readRecipient_eq_ok hstep₁
  obtain ⟨value, rfl, hvalue⟩ := readValue_eq_ok hstep₂
  obtain ⟨data, rfl, hdata⟩ := readData_eq_ok hstep₃
  exact ⟨hlist, nonce, gasPrice, gas, type, dest, value, data, htype, rfl, .of_u256 hnonce,
    .of_u256 hgasPrice, .of_u256 hgas, hdest, hvalue, hdata, trivial⟩

theorem readChainIdAndNonce_eq_ok (hread : readChainIdAndNonce rlp t = .ok () t') :
    isList rlp = true ∧ ∃ (chainId nonce : U256),
      t' = { t with chainId := some (chainId.truncate 64), nonce := nonce } ∧
      fieldInt 32 rlp 0 = some chainId.toNat ∧ fieldInt 32 rlp 1 = some nonce.toNat := by
  simp only [readChainIdAndNonce, bind_eq_ok, check_eq_ok, readU256_eq_ok,
    modify_eq_ok] at hread
  obtain ⟨_, _, ⟨hlist, rfl⟩, chainId, _, ⟨hchain, rfl⟩, _, _, rfl, nonce, _, ⟨hnonce, rfl⟩,
    rfl⟩ := hread
  exact ⟨hlist, chainId, nonce, rfl, hchain, hnonce⟩

/-! Type 1 and type 2 transactions differ in the fees, which come after the nonce. -/

/-- Where the parity stands in a record that is not a legacy one. -/
def parityAt : TxType → Nat
  | .type2 => 9
  | _ => 8

def readTypedFields : TxType → Bytes → CheckTransaction → Fill Unit
  | .type2 => readType2Fields
  | _ => readType1Fields

def fees (t : TransactionBase) : TxType → List (Option Bytes)
  | .type2 => [appendU256 t.maxPriorityFeePerGas, appendU256 t.maxFeePerGas]
  | _ => [appendU256 t.gasPrice]

/-- The fields behind the fees as they are written, up to the signature. -/
def typedRest (t : TransactionBase) : List (Option Bytes) :=
  [appendU256 t.gas, t.appendRecipient, appendU256 t.value, appendBytes t.data, t.appendAccessList]

theorem readTypedRest_eq_ok {i : Nat} (hread : readTypedRest rlp i checkSig t = .ok () t') :
    ∃ gas type dest value data accessList yParity vrs,
      (type = .contractCreation ∨ type = .messageCall) ∧
      t' = { t with
        gas := gas, type := type, receiveAddress := dest, value := value, data := data,
        accessList := accessList, vrs := some vrs } ∧
      vrs.v = (if yParity = 0 then 0 else 1) ∧ fieldInt 1 rlp (i + 5) = some yParity ∧
      Fields rlp i (t'.typedRest ++ [appendInt yParity, appendU256 vrs.r, appendU256 vrs.s]) := by
  simp only [readTypedRest, bind_eq_ok, readU256_eq_ok, modify_eq_ok] at hread
  obtain ⟨gas, _, ⟨hgas, rfl⟩, _, _, rfl, _, _, hstep₁, _, _, hstep₂, _, _, hstep₃, _, _, hstep₄,
    hstep₅⟩ := hread
  obtain ⟨type, dest, htype, rfl, hdest⟩ := readRecipient_eq_ok hstep₁
  obtain ⟨value, rfl, hvalue⟩ := readValue_eq_ok hstep₂
  obtain ⟨data, rfl, hdata⟩ := readData_eq_ok hstep₃
  obtain ⟨accessList, rfl, haccess⟩ := readAccessList_eq_ok hstep₄
  obtain ⟨yParity, vrs, rfl, hv, hparity, hr, hs⟩ := readTypedSignature_eq_ok hstep₅
  exact ⟨gas, type, dest, value, data, accessList, yParity, vrs, htype, rfl, hv, hparity,
    .of_u256 hgas, hdest, hvalue, hdata, haccess, .of_fieldInt (by norm_num) hparity, .of_u256 hr,
    .of_u256 hs, trivial⟩

theorem readTypedFields_eq_ok {format : TxType}
    (hread : readTypedFields format rlp checkSig t = .ok () t') :
    isList rlp = true ∧ t'.knownSender = t.knownSender ∧
    ∃ (chainId : U256) (yParity : Nat) (vrs : SignatureStruct),
      (t'.type = .contractCreation ∨ t'.type = .messageCall) ∧ t'.vrs = some vrs ∧
      t'.chainId = some (chainId.truncate 64) ∧ fieldInt 32 rlp 0 = some chainId.toNat ∧
      vrs.v = (if yParity = 0 then 0 else 1) ∧ fieldInt 1 rlp (parityAt format) = some yParity ∧
      Fields rlp 0 (appendU256 chainId :: appendU256 t'.nonce :: t'.fees format ++ t'.typedRest ++
        [appendInt yParity, appendU256 vrs.r, appendU256 vrs.s]) := by
  cases format with
  | legacy | type1 =>
    simp only [readTypedFields, readType1Fields, bind_eq_ok, readU256_eq_ok,
      modify_eq_ok] at hread
    obtain ⟨_, _, hstep, gasPrice, _, ⟨hgasPrice, rfl⟩, _, _, rfl, hrest⟩ := hread
    obtain ⟨hlist, chainId, nonce, rfl, hchain, hnonce⟩ := readChainIdAndNonce_eq_ok hstep
    obtain ⟨_, _, _, _, _, _, yParity, vrs, htype, rfl, hv, hparity, hfields⟩ :=
      readTypedRest_eq_ok hrest
    exact ⟨hlist, rfl, chainId, yParity, vrs, htype, rfl, rfl, hchain, hv, hparity,
      .of_u256 hchain, .of_u256 hnonce, .of_u256 hgasPrice, hfields⟩
  | type2 =>
    simp only [readTypedFields, readType2Fields, bind_eq_ok, check_eq_ok, readU256_eq_ok,
      modify_eq_ok] at hread
    obtain ⟨_, _, hstep, priority, _, ⟨hpriority, rfl⟩, _, _, rfl, fee, _, ⟨hfee, rfl⟩, _, _, rfl,
      _, _, ⟨_, rfl⟩, _, _, rfl, hrest⟩ := hread
    obtain ⟨hlist, chainId, nonce, rfl, hchain, hnonce⟩ := readChainIdAndNonce_eq_ok hstep
    obtain ⟨_, _, _, _, _, _, yParity, vrs, htype, rfl, hv, hparity, hfields⟩ :=
      readTypedRest_eq_ok hrest
    exact ⟨hlist, rfl, chainId, yParity, vrs, htype, rfl, rfl, hchain, hv, hparity,
      .of_u256 hchain, .of_u256 hnonce, .of_u256 hpriority, .of_u256 hfee, hfields⟩

end Skaled.TransactionBase
