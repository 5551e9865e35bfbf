import Skaled.FileStorage.Precompiled

/-! # The modexp precompiled contract

The contract reads three lengths and then three numbers of these lengths. Memory and big
integers are ideal; what remains are the assertions on the lengths. The price of a call is
computed on its own, and it alone keeps the lengths small enough.
-/

namespace Skaled.Modexp

open BigEndian (decode encode)
open FileStorage (parseBigEndianRightPadded)

/-- `numeric_limits<size_t>::max() / 8`. -/
def sizeLimit : Nat := (2 ^ 64 - 1) / 8

/-- `parseBigEndianRightPadded` with its assertions. -/
def parse (input : Bytes) (start count : Nat) : Option Nat :=
  if input.length < start then some 0
  else do
    guard (count ≤ sizeLimit)
    guard (count - ((input.drop start).take count).length ≤ sizeLimit)
    some (parseBigEndianRightPadded input start count)

/-- The contract, or nothing if an assertion fails. The power is that of the library. -/
def modexp (input : Bytes) : Option Bytes := do
  let baseLength ← parse input 0 32
  let expLength ← parse input 32 32
  let modLength ← parse input 64 32
  guard (modLength ≤ sizeLimit)
  guard (baseLength ≤ sizeLimit)
  if modLength = 0 ∧ baseLength = 0 then some []
  else do
    guard (expLength ≤ sizeLimit)
    let base ← parse input 96 baseLength
    let exp ← parse input (96 + baseLength) expLength
    let mod ← parse input (96 + baseLength + expLength) modLength
    let result := if mod ≠ 0 then base ^ exp % mod else 0
    some (encode modLength result)

def expLengthAdjust (expOffset expLength : Nat) (input : Bytes) : Nat :=
  if expLength ≤ 32 then (parseBigEndianRightPadded input expOffset expLength).log2
  else 8 * (expLength - 32) + (parseBigEndianRightPadded input expOffset 32).log2

def multComplexity (x : Nat) : Nat :=
  if x ≤ 64 then x * x
  else if x ≤ 1024 then x * x / 4 + 96 * x - 3072
  else x * x / 16 + 480 * x - 199680

/-- The pricer. -/
def price (input : Bytes) : Nat :=
  let baseLength := parseBigEndianRightPadded input 0 32
  let expLength := parseBigEndianRightPadded input 32 32
  let modLength := parseBigEndianRightPadded input 64 32
  let adjustedExpLength := expLengthAdjust (baseLength + 96) expLength input
  multComplexity (max modLength baseLength) * max adjustedExpLength 1 / 20

/-! ## Reading -/

/-- A number of the input, which goes on with zeros for ever. -/
def number (input : Bytes) (start count : Nat) : Nat :=
  decode ((List.range count).map fun i => input[start + i]?.getD 0)

theorem decode_append_zeros (bytes : Bytes) (n : Nat) :
    decode (bytes ++ List.replicate n 0) = decode bytes * 2 ^ (8 * n) := by
  induction n with
  | zero => simp
  | succ n ih =>
    rw [List.replicate_succ', ← List.append_assoc, BigEndian.decode_append_singleton, ih,
      Nat.mul_succ 8, Nat.pow_add, ← Nat.mul_assoc]
    simp

theorem parseBigEndianRightPadded_eq (input : Bytes) (start count : Nat) :
    parseBigEndianRightPadded input start count = number input start count := by
  have hbytes : ((List.range count).map fun i => input[start + i]?.getD 0) =
      (input.drop start).take count ++
        List.replicate (count - ((input.drop start).take count).length) 0 := by
    refine List.ext_getElem (by simp) fun i hi hi' => ?_
    rw [List.getElem_map, List.getElem_range, List.getElem_append]
    split
    next hin =>
      rw [List.length_take, List.length_drop] at hin
      rw [List.getElem_take, List.getElem_drop, List.getElem?_eq_getElem, Option.getD_some]
    next hout =>
      rw [List.length_take, List.length_drop] at hout
      rw [List.length_map, List.length_range] at hi
      rw [List.getElem_replicate, List.getElem?_eq_none (by omega), Option.getD_none]
  unfold parseBigEndianRightPadded number
  rw [hbytes, decode_append_zeros]
  split
  next hbeyond => rw [List.drop_eq_nil_of_le hbeyond.le]; simp [decode]
  next => rfl

theorem parse_eq {count : Nat} (hcount : count ≤ sizeLimit) (input : Bytes) (start : Nat) :
    parse input start count = some (number input start count) := by
  rw [← parseBigEndianRightPadded_eq]
  unfold parse
  split
  next hbeyond => rw [parseBigEndianRightPadded, if_pos hbeyond]
  next => simp [guard, hcount, (Nat.sub_le _ _).trans hcount]

theorem number_lt (input : Bytes) (start count : Nat) : number input start count < 256 ^ count := by
  have hlt := BigEndian.decode_lt ((List.range count).map fun i => input[start + i]?.getD 0)
  rwa [List.length_map, List.length_range] at hlt

/-! ## What the price says about the lengths -/

theorem multComplexity_le {x cost : Nat} (h : multComplexity x ≤ cost) :
    x ≤ 1024 ∨ 280 * x ≤ cost := by
  by_cases hsmall : x ≤ 1024
  · exact .inl hsmall
  · right
    rw [multComplexity, if_neg (by omega), if_neg hsmall] at h
    omega

theorem multComplexity_pos {x : Nat} (hx : 0 < x) : 0 < multComplexity x := by
  unfold multComplexity
  split
  next => exact Nat.mul_pos hx hx
  next =>
    split
    · omega
    · omega

section Priced

variable {input : Bytes} (hprice : price input < 2 ^ 59)

include hprice

theorem cost_lt : multComplexity (max (number input 64 32) (number input 0 32)) *
    max (expLengthAdjust (number input 0 32 + 96) (number input 32 32) input) 1 < 20 * 2 ^ 59 := by
  simp only [price, parseBigEndianRightPadded_eq] at hprice
  omega

theorem lengths_le : max (number input 64 32) (number input 0 32) ≤ sizeLimit := by
  have hcost := cost_lt hprice
  have hle := multComplexity_le (Nat.le_mul_of_pos_right
    (multComplexity (max (number input 64 32) (number input 0 32)))
    (le_max_right (expLengthAdjust (number input 0 32 + 96) (number input 32 32) input) 1))
  rw [show sizeLimit = 2305843009213693951 by decide]
  omega

theorem expLength_le (hne : ¬(number input 64 32 = 0 ∧ number input 0 32 = 0)) :
    number input 32 32 ≤ sizeLimit := by
  have hcost := cost_lt hprice
  have hpos : 0 < multComplexity (max (number input 64 32) (number input 0 32)) :=
    multComplexity_pos (by omega)
  have hadjust :
      expLengthAdjust (number input 0 32 + 96) (number input 32 32) input < 20 * 2 ^ 59 :=
    ((le_max_left _ 1).trans (Nat.le_mul_of_pos_left _ hpos)).trans_lt hcost
  rw [show sizeLimit = 2305843009213693951 by decide]
  unfold expLengthAdjust at hadjust
  split at hadjust
  next hsmall => omega
  next => omega

/-- A call that can be paid for fails no assertion, and what it returns is the power of
the three numbers, in as many bytes as the modulus has. -/
theorem modexp_eq :
    ∃ output, modexp input = some output ∧
      output.length = number input 64 32 ∧
      decode output =
        let base := number input 96 (number input 0 32)
        let exp := number input (96 + number input 0 32) (number input 32 32)
        let mod := number input (96 + number input 0 32 + number input 32 32) (number input 64 32)
        if mod = 0 then 0 else base ^ exp % mod := by
  have hlengths := lengths_le hprice
  obtain ⟨hmod, hbase⟩ := max_le_iff.mp hlengths
  have hword : 32 ≤ sizeLimit := by decide
  unfold modexp
  simp only [parse_eq hword, parse_eq hmod, parse_eq hbase, Option.bind_eq_bind, Option.bind_some,
    guard, hmod, hbase, if_true]
  by_cases hempty : number input 64 32 = 0 ∧ number input 0 32 = 0
  · refine ⟨[], if_pos hempty, hempty.1.symm, ?_⟩
    rw [hempty.1]
    exact (if_pos rfl).symm
  · have hexp := expLength_le hprice hempty
    simp only [if_neg hempty, parse_eq hexp, Option.bind_some, hexp, if_true]
    refine ⟨_, rfl, BigEndian.length_encode _ _, ?_⟩
    rw [ite_not]
    refine BigEndian.decode_encode ?_
    split
    next => positivity
    next hne =>
      exact (Nat.mod_lt _ (Nat.pos_of_ne_zero hne)).trans (number_lt _ _ _)

end Priced

/-- Three lengths of one byte, 3, 2 and a modulus of 5 that ends the input. -/
def sampleInput : Bytes := encode 32 1 ++ encode 32 1 ++ encode 32 1 ++ [3, 2, 5]

theorem modexp_eq_sample : ∃ output, modexp sampleInput = some output ∧ decode output = 4 := by
  obtain ⟨output, hrun, -, hvalue⟩ := @modexp_eq sampleInput (by decide +kernel)
  exact ⟨output, hrun, hvalue.trans (by decide +kernel)⟩

end Skaled.Modexp
