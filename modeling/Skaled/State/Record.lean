import Skaled.RlpItems
import Skaled.State.Account

/-! # Account records

The record that is written for an account is read back as the same account,
unchanged and without its version, as long as its storage counter is a natural
number of 256 bits. A negative counter cannot be written.
-/

namespace Skaled.Account

open Rlp

/-- A record of four numbers is read back number by number. -/
theorem decode_encode {acc : Account} {used : Nat} (hused : acc.storageUsed = used)
    (hfit : used < 2 ^ 256) :
    ∃ record, acc.encode = some record ∧ record ≠ [] ∧
      decode record = some (.loaded acc.nonce acc.balance acc.codeHash 0 acc.storageUsed) := by
  obtain ⟨nonce, hnonce, hnonceItem⟩ := appendInt_isItem acc.nonce.isLt
  obtain ⟨balance, hbalance, hbalanceItem⟩ := appendInt_isItem acc.balance.isLt
  obtain ⟨codeHash, hcodeHash, hcodeHashItem⟩ := appendInt_isItem acc.codeHash.isLt
  obtain ⟨storage, hstorage, hstorageItem⟩ := appendInt_isItem hfit
  have hlength : [nonce, balance, codeHash, storage].flatten.length < 2 ^ 56 := by
    have h₁ := appendInt_length acc.nonce.isLt hnonce
    have h₂ := appendInt_length acc.balance.isLt hbalance
    have h₃ := appendInt_length acc.codeHash.isLt hcodeHash
    have h₄ := appendInt_length hfit hstorage
    simp only [List.flatten_cons, List.flatten_nil, List.length_append, List.length_nil]
    omega
  obtain ⟨record, hwrap, hne, hparse, hpayload⟩ := parse_wrapList hlength
  refine ⟨record, ?_, hne, ?_⟩
  · simp only [encode, hused, hnonce, hbalance, hcodeHash, hstorage, Option.bind_eq_bind,
      Option.bind_some, hwrap]
  · have hitems : ∀ y ∈ [nonce, balance, codeHash, storage], IsItem y := by
      simp [hnonceItem, hbalanceItem, hcodeHashItem, hstorageItem]
    have hitem := fun i hi => item_flatten hpayload hitems i hi
    simp only [decode, hparse, Option.bind_eq_bind, Option.bind_some,
      hitem 0 (by simp), hitem 1 (by simp), hitem 2 (by simp), hitem 3 (by simp),
      hitem 4 (by simp)]
    simp [toInt_appendInt acc.nonce.isLt hnonce le_rfl,
      toInt_appendInt acc.balance.isLt hbalance le_rfl,
      toInt_appendInt acc.codeHash.isLt hcodeHash le_rfl,
      toInt_appendInt hfit hstorage (by decide : 32 ≤ 40), hused]

end Skaled.Account
