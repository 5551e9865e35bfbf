import Mathlib.Data.Nat.Log
import Mathlib.Data.List.Basic
import Mathlib.Data.List.Induction
import Mathlib.Tactic.Ring
import Mathlib.Tactic.Linarith

/-! # Big-endian byte strings

Fixed-width and compact big-endian encodings of natural numbers and the
reading of a byte string as a number. Every encoding reads back as the number
it was made from, and a compact encoding starts with a non-zero byte.
-/

namespace BigEndian

/-- The `width` low-order bytes of `n`, most significant byte first. -/
def encode : (width : Nat) → (n : Nat) → List UInt8
  | 0, _ => []
  | width + 1, n => encode width (n / 256) ++ [UInt8.ofNat n]

/-- The number a byte string stands for, most significant byte first. -/
def decode (bytes : List UInt8) : Nat :=
  bytes.foldl (fun acc byte => acc * 256 + byte.toNat) 0

/-- How many bytes the number needs; zero needs none. -/
def bytesRequired (n : Nat) : Nat :=
  if n = 0 then 0 else n.log2 / 8 + 1

@[simp] theorem length_encode (width n : Nat) : (encode width n).length = width := by
  induction width generalizing n with
  | zero => rfl
  | succ width ih => simp [encode, ih]

theorem decode_append_singleton (bytes : List UInt8) (byte : UInt8) :
    decode (bytes ++ [byte]) = decode bytes * 256 + byte.toNat := by
  simp [decode]

theorem decode_encode_mod (width n : Nat) : decode (encode width n) = n % 256 ^ width := by
  induction width generalizing n with
  | zero => simp [encode, decode, Nat.mod_one]
  | succ width ih =>
    have hlast : (UInt8.ofNat n).toNat = n % 256 := by simp
    have hsplit : n % (256 * 256 ^ width) = n % 256 + 256 * (n / 256 % 256 ^ width) :=
      Nat.mod_mul
    rw [encode, decode_append_singleton, ih, hlast, pow_succ, mul_comm (256 ^ width), hsplit]
    ring

variable {width n : Nat}

theorem decode_encode (hfit : n < 256 ^ width) : decode (encode width n) = n := by
  rw [decode_encode_mod, Nat.mod_eq_of_lt hfit]

theorem lt_pow_bytesRequired (n : Nat) : n < 256 ^ bytesRequired n := by
  unfold bytesRequired
  split
  next hzero => simp [hzero]
  next hne =>
    have hlog : n < 2 ^ (n.log2 + 1) := Nat.lt_log2_self
    calc n < 2 ^ (n.log2 + 1) := hlog
      _ ≤ 2 ^ (8 * (n.log2 / 8 + 1)) := Nat.pow_le_pow_right (by norm_num) (by omega)
      _ = 256 ^ (n.log2 / 8 + 1) := by rw [pow_mul]; norm_num

theorem pow_le_of_bytesRequired (hne : n ≠ 0) : 256 ^ (bytesRequired n - 1) ≤ n := by
  rw [bytesRequired, if_neg hne, Nat.add_sub_cancel]
  calc 256 ^ (n.log2 / 8) = 2 ^ (8 * (n.log2 / 8)) := by rw [pow_mul]; norm_num
    _ ≤ 2 ^ n.log2 := Nat.pow_le_pow_right (by norm_num) (by omega)
    _ ≤ n := Nat.log2_self_le hne

theorem bytesRequired_le (hfit : n < 256 ^ width) : bytesRequired n ≤ width := by
  by_cases hne : n = 0
  · simp [bytesRequired, hne]
  · have hlow := pow_le_of_bytesRequired hne
    have hexp := (Nat.pow_lt_pow_iff_right (a := 256) (by norm_num)).mp
      (Nat.lt_of_le_of_lt hlow hfit)
    omega

theorem bytesRequired_pos (hne : n ≠ 0) : 0 < bytesRequired n := by
  simp [bytesRequired, hne]

/-- The first byte of a number that fills its width is not zero. -/
theorem encode_eq_cons (hlow : 256 ^ width ≤ n) (hfit : n < 256 ^ (width + 1)) :
    ∃ head tail, encode (width + 1) n = head :: tail ∧ head.toNat ≠ 0 := by
  induction width generalizing n with
  | zero =>
    refine ⟨UInt8.ofNat n, [], by simp [encode], ?_⟩
    rw [UInt8.toNat_ofNat']
    norm_num at hlow hfit ⊢
    omega
  | succ width ih =>
    have hdiv_low : 256 ^ width ≤ n / 256 := by
      rw [Nat.le_div_iff_mul_le (by norm_num)]
      simpa [pow_succ] using hlow
    have hdiv_fit : n / 256 < 256 ^ (width + 1) := by
      rw [Nat.div_lt_iff_lt_mul (by norm_num)]
      simpa [pow_succ] using hfit
    obtain ⟨head, tail, hhead, hne⟩ := ih hdiv_low hdiv_fit
    exact ⟨head, tail ++ [UInt8.ofNat n], by rw [encode, hhead]; rfl, hne⟩

/-- A compact encoding is non-empty and starts with a non-zero byte. -/
theorem encode_bytesRequired_eq_cons (hne : n ≠ 0) :
    ∃ head tail, encode (bytesRequired n) n = head :: tail ∧ head.toNat ≠ 0 := by
  obtain ⟨width, hwidth⟩ : ∃ width, bytesRequired n = width + 1 :=
    ⟨bytesRequired n - 1, by have := bytesRequired_pos hne; omega⟩
  rw [hwidth]
  apply encode_eq_cons
  · have hlow := pow_le_of_bytesRequired hne
    rwa [hwidth, Nat.add_sub_cancel] at hlow
  · rw [← hwidth]
    exact lt_pow_bytesRequired n

/-! ## Writing back what was read -/

theorem decode_lt (bytes : List UInt8) : decode bytes < 256 ^ bytes.length := by
  induction bytes using List.reverseRecOn with
  | nil => simp [decode]
  | append_singleton bytes byte ih =>
    have hbyte := byte.toNat_lt
    rw [decode_append_singleton, List.length_append, List.length_singleton, pow_succ]
    omega

theorem encode_decode (bytes : List UInt8) : encode bytes.length (decode bytes) = bytes := by
  induction bytes using List.reverseRecOn with
  | nil => rfl
  | append_singleton bytes byte ih =>
    have hbyte := byte.toNat_lt
    have hquot : (decode bytes * 256 + byte.toNat) / 256 = decode bytes := by omega
    have hlast : UInt8.ofNat (decode bytes * 256 + byte.toNat) = byte := by
      rw [← UInt8.toNat_inj, UInt8.toNat_ofNat']
      omega
    rw [List.length_append, List.length_singleton, encode, decode_append_singleton, hquot,
      hlast, ih]

theorem pow_le_decode {head : UInt8} (hhead : head ≠ 0) (tail : List UInt8) :
    256 ^ tail.length ≤ decode (head :: tail) := by
  induction tail using List.reverseRecOn with
  | nil =>
    have hne : head.toNat ≠ 0 := fun heq => hhead (UInt8.toNat_inj.mp heq)
    simp only [decode, List.foldl_cons, List.foldl_nil, List.length_nil, pow_zero]
    omega
  | append_singleton tail byte ih =>
    rw [← List.cons_append, decode_append_singleton, List.length_append, List.length_singleton,
      pow_succ]
    omega

/-- Digits without a leading zero are the compact encoding of their number. -/
theorem bytesRequired_decode {bytes : List UInt8} (hhead : bytes.head? ≠ some 0) :
    bytesRequired (decode bytes) = bytes.length := by
  cases bytes with
  | nil => rfl
  | cons head tail =>
    have hne : head ≠ 0 := by simpa using hhead
    have hlow := pow_le_decode hne tail
    have hzero : decode (head :: tail) ≠ 0 := by
      have := Nat.pow_pos (n := tail.length) (show 0 < 256 by norm_num)
      omega
    have hle := bytesRequired_le (decode_lt (head :: tail))
    -- fewer bytes would not hold the leading digit
    have hge := (Nat.pow_lt_pow_iff_right (a := 256) (by norm_num)).mp
      (Nat.lt_of_le_of_lt hlow (lt_pow_bytesRequired _))
    simp only [List.length_cons] at hle ⊢
    omega

end BigEndian
