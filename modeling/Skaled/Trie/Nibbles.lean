import Mathlib.Data.List.GetD
import Skaled.Basic

/-! # Nibbles and the hex-prefix notation

Keys of the trie are read nibble by nibble. A stored path carries a flag nibble in
front, which says whether the path ends in a leaf and whether its length is odd; with
an even length a zero nibble follows. The source has three functions for this notation
and two ways to hold nibbles: a vector with one nibble per byte, and a slice that starts
somewhere in a byte string. All of them count in 32 bits.
-/

namespace Skaled.Trie

open List (length_cons take_succ_cons)

abbrev Nibbles := List (Fin 16)

/-! ## Machine integers -/

def toUnsigned (n : Int) : Nat := (n % 2 ^ 32).toNat

/-- Conversion of an `unsigned` to `int`. -/
def toSigned (n : Nat) : Int := Int.bmod n (2 ^ 32)

variable {n last first : Nat} {path path' hexVector : Nibbles} {leaf : Bool}

theorem toUnsigned_of_lt (h : n < 2 ^ 32) : toUnsigned n = n := by
  unfold toUnsigned
  omega

theorem toSigned_of_lt (h : n < 2 ^ 31) : toSigned n = n := by
  unfold toSigned
  rw [Int.bmod_def]
  split <;> omega

theorem toUnsigned_toSigned (h : n < 2 ^ 32) : toUnsigned (toSigned n) = n := by
  unfold toUnsigned toSigned
  rw [Int.bmod_def]
  split <;> omega

/-! ## Nibbles of bytes -/

def highNibble (b : UInt8) : Fin 16 := ⟨b.toNat / 16, by have := b.toNat_lt; omega⟩

def lowNibble (b : UInt8) : Fin 16 := ⟨b.toNat % 16, by omega⟩

def asNibbles : Bytes → Nibbles
  | [] => []
  | b :: bytes => highNibble b :: lowNibble b :: asNibbles bytes

def joinNibbles (high low : Fin 16) : UInt8 := UInt8.ofNat (high * 16 + low)

/-- Two nibbles to a byte. A nibble left over at the end is a high one. -/
def packNibbles : Nibbles → Bytes
  | high :: low :: rest => joinNibbles high low :: packNibbles rest
  | [high] => [joinNibbles high 0]
  | [] => []

@[simp] theorem highNibble_joinNibbles (high low : Fin 16) :
    highNibble (joinNibbles high low) = high := by
  apply Fin.ext
  simp only [highNibble, joinNibbles, UInt8.toNat_ofNat']
  omega

@[simp] theorem lowNibble_joinNibbles (high low : Fin 16) :
    lowNibble (joinNibbles high low) = low := by
  apply Fin.ext
  simp only [lowNibble, joinNibbles, UInt8.toNat_ofNat']
  omega

theorem joinNibbles_nibbles (b : UInt8) : joinNibbles (highNibble b) (lowNibble b) = b := by
  apply UInt8.toNat_inj.mp
  have hb := b.toNat_lt
  simp only [highNibble, lowNibble, joinNibbles, UInt8.toNat_ofNat']
  omega

@[simp] theorem length_asNibbles (bytes : Bytes) : (asNibbles bytes).length = 2 * bytes.length := by
  induction bytes with
  | nil => rfl
  | cons b bytes ih =>
    simp only [asNibbles, length_cons, ih]
    omega

theorem packNibbles_asNibbles (bytes : Bytes) : packNibbles (asNibbles bytes) = bytes := by
  induction bytes with
  | nil => rfl
  | cons b bytes ih => rw [asNibbles, packNibbles, ih, joinNibbles_nibbles]

theorem asNibbles_inj {bytes bytes' : Bytes} (h : asNibbles bytes = asNibbles bytes') :
    bytes = bytes' := by
  rw [← packNibbles_asNibbles bytes, h, packNibbles_asNibbles]

theorem asNibbles_packNibbles (heven : path.length % 2 = 0) :
    asNibbles (packNibbles path) = path := by
  fun_induction packNibbles path with
  | case1 high low rest ih =>
    rw [asNibbles, highNibble_joinNibbles, lowNibble_joinNibbles, ih]
    simp only [length_cons] at heven
    omega
  | case2 high => simp at heven
  | case3 => rfl

/-! ## The notation -/

/-- The nibbles in front of a path. -/
def flagNibbles (leaf odd : Bool) : Nibbles :=
  match leaf, odd with
  | false, false => [0, 0]
  | false, true => [1]
  | true, false => [2, 0]
  | true, true => [3]

def isOdd (path : Nibbles) : Bool := path.length % 2 = 1

def hexPrefix (leaf : Bool) (path : Nibbles) : Bytes :=
  packNibbles (flagNibbles leaf (isOdd path) ++ path)

theorem asNibbles_hexPrefix (leaf : Bool) (path : Nibbles) :
    asNibbles (hexPrefix leaf path) = flagNibbles leaf (isOdd path) ++ path := by
  apply asNibbles_packNibbles
  cases leaf <;> cases hodd : isOdd path <;>
    simp only [isOdd, decide_eq_true_eq, decide_eq_false_iff_not] at hodd <;>
    simp only [flagNibbles, List.length_append, length_cons, List.length_nil] <;> omega

theorem flagNibbles_append_inj {leaf leaf' odd odd' : Bool}
    (h : flagNibbles leaf odd ++ path = flagNibbles leaf' odd' ++ path') :
    leaf = leaf' ∧ path = path' := by
  cases leaf <;> cases leaf' <;> cases odd <;> cases odd' <;> simp_all [flagNibbles]

theorem hexPrefix_inj {leaf leaf' : Bool}
    (h : hexPrefix leaf path = hexPrefix leaf' path') : leaf = leaf' ∧ path = path' := by
  have hnibbles := congrArg asNibbles h
  rw [asNibbles_hexPrefix, asNibbles_hexPrefix] at hnibbles
  exact flagNibbles_append_inj hnibbles

theorem length_hexPrefix (leaf : Bool) (path : Nibbles) :
    (hexPrefix leaf path).length = path.length / 2 + 1 := by
  have h := congrArg List.length (asNibbles_hexPrefix leaf path)
  rw [length_asNibbles, List.length_append] at h
  cases leaf <;> cases hodd : isOdd path <;> rw [hodd] at h <;>
    simp only [isOdd, decide_eq_true_eq, decide_eq_false_iff_not] at hodd <;>
    simp only [flagNibbles, length_cons, List.length_nil] at h <;> omega

/-! ## Common prefixes -/

/-- How many nibbles two paths have in common at the beginning. -/
def sharedLength : Nibbles → Nibbles → Nat
  | a :: path, b :: path' => if a = b then sharedLength path path' + 1 else 0
  | _, _ => 0

theorem sharedLength_le (path path' : Nibbles) :
    sharedLength path path' ≤ path.length ∧ sharedLength path path' ≤ path'.length := by
  fun_induction sharedLength path path' with
  | case1 path a path' ih => simpa using ih
  | case2 | case3 => simp

theorem sharedLength_append (front path path' : Nibbles) :
    sharedLength (front ++ path) (front ++ path') = front.length + sharedLength path path' := by
  induction front with
  | nil => simp
  | cons a front ih =>
    rw [List.cons_append, List.cons_append, sharedLength, if_pos rfl, ih, length_cons]
    omega

theorem sharedLength_take (path path' : Nibbles) (count : Nat) :
    sharedLength (path.take count) (path'.take count) = min count (sharedLength path path') := by
  fun_induction sharedLength path path' generalizing count with
  | case1 path a path' ih =>
    cases count with
    | zero => simp [sharedLength]
    | succ count =>
      rw [take_succ_cons, take_succ_cons, sharedLength, if_pos rfl, ih]
      omega
  | case2 a path b path' hne =>
    cases count with
    | zero => simp [sharedLength]
    | succ count => rw [take_succ_cons, take_succ_cons, sharedLength, if_neg hne]; simp
  | case3 path path' hnot =>
    cases path with
    | nil => simp [sharedLength]
    | cons a path =>
      cases path' with
      | nil => simp [sharedLength]
      | cons b path' => exact absurd rfl (hnot a path b path' rfl)

/-- What is shared is a prefix of both. -/
theorem take_sharedLength (path path' : Nibbles) :
    path.take (sharedLength path path') = path'.take (sharedLength path path') := by
  fun_induction sharedLength path path' with
  | case1 path a path' ih => rw [take_succ_cons, take_succ_cons, ih]
  | case2 | case3 => rfl

theorem le_sharedLength {front path path' : Nibbles} (h : front <+: path) (h' : front <+: path') :
    front.length ≤ sharedLength path path' := by
  obtain ⟨rest, rfl⟩ := h
  obtain ⟨rest', rfl⟩ := h'
  rw [sharedLength_append]
  omega

/-! ## The functions of the source -/

def flag (leaf odd : Bool) : Fin 16 :=
  match leaf, odd with
  | false, false => 0
  | false, true => 1
  | true, false => 2
  | true, true => 3

theorem hexPrefix_of_even (heven : isOdd path = false) :
    hexPrefix leaf path = joinNibbles (flag leaf false) 0 :: packNibbles path := by
  unfold hexPrefix
  rw [heven]
  cases leaf <;> rfl

theorem hexPrefix_of_odd {n : Fin 16} (hodd : isOdd (n :: path) = true) :
    hexPrefix leaf (n :: path) = joinNibbles (flag leaf true) n :: packNibbles path := by
  unfold hexPrefix
  rw [hodd]
  cases leaf <;> rfl

/-- `hexPrefixEncode` of a part of a vector with one nibble per byte. A negative end
counts from behind. -/
def hexPrefixEncode (hexVector : Nibbles) (leaf : Bool) (begin stop : Int) : Bytes :=
  let first := toUnsigned begin
  let last := if stop < 0 then toUnsigned (hexVector.length + 1 + stop) else toUnsigned stop
  let odd : Bool := toUnsigned (last - first) % 2 = 1
  if odd then
    joinNibbles (flag leaf odd) (hexVector.getD first 0) ::
      packNibbles ((hexVector.drop (first + 1)).take (last - (first + 1)))
  else joinNibbles (flag leaf odd) 0 :: packNibbles ((hexVector.drop first).take (last - first))

theorem isOdd_slice (first : Nat) (hlast : last ≤ hexVector.length) :
    isOdd ((hexVector.drop first).take (last - first)) = decide ((last - first) % 2 = 1) := by
  unfold isOdd
  rw [List.length_take, List.length_drop, Nat.min_eq_left (by omega)]

theorem hexPrefixEncode_eq {begin stop : Int} (hfirst : toUnsigned begin = first)
    (hstop : (if stop < 0 then toUnsigned (hexVector.length + 1 + stop) else toUnsigned stop) =
      last)
    (hle : first ≤ last) (hlast : last ≤ hexVector.length) (hfits : last < 2 ^ 32) :
    hexPrefixEncode hexVector leaf begin stop =
      hexPrefix leaf ((hexVector.drop first).take (last - first)) := by
  have hcount : toUnsigned (last - first) = last - first := by
    unfold toUnsigned
    omega
  have hodd := isOdd_slice first hlast
  unfold hexPrefixEncode
  rw [hstop, hfirst]
  dsimp only
  rw [hcount]
  split
  next h =>
    have hlt : first < hexVector.length := by
      have := of_decide_eq_true h
      omega
    have hcons : (hexVector.drop first).take (last - first) =
        hexVector[first] :: (hexVector.drop (first + 1)).take (last - (first + 1)) := by
      rw [List.drop_eq_getElem_cons hlt, show last - first = last - (first + 1) + 1 by
        have := of_decide_eq_true h
        omega, take_succ_cons]
    rw [hcons] at hodd ⊢
    rw [hexPrefix_of_odd (hodd.trans h), h, List.getD_eq_getElem _ _ hlt]
  next h =>
    have h := Bool.eq_false_of_not_eq_true h
    rw [hexPrefix_of_even (hodd.trans h), h]

/-- From a place on to the end. -/
theorem hexPrefixEncode_drop (hle : first ≤ hexVector.length) (hfits : hexVector.length < 2 ^ 32) :
    hexPrefixEncode hexVector leaf (toSigned first) (-1) =
      hexPrefix leaf (hexVector.drop first) := by
  have hstop : (if (-1 : Int) < 0 then toUnsigned (hexVector.length + 1 + -1)
      else toUnsigned (-1)) = hexVector.length := by
    rw [if_pos (by decide), Int.add_assoc]
    exact toUnsigned_of_lt hfits
  rw [hexPrefixEncode_eq (toUnsigned_toSigned (by omega)) hstop hle le_rfl hfits,
    List.take_of_length_le (by rw [List.length_drop])]

/-- Between two places. The second must not look negative. -/
theorem hexPrefixEncode_take
    (hle : first ≤ last) (hlast : last ≤ hexVector.length) (hfits : last < 2 ^ 31) :
    hexPrefixEncode hexVector leaf (toSigned first) (toSigned last) =
      hexPrefix leaf ((hexVector.drop first).take (last - first)) := by
  have hstop : (if toSigned last < 0 then toUnsigned (hexVector.length + 1 + toSigned last)
      else toUnsigned (toSigned last)) = last := by
    rw [toSigned_of_lt hfits, if_neg (by omega), toUnsigned_of_lt (by omega)]
  exact hexPrefixEncode_eq (toUnsigned_toSigned (by omega)) hstop hle hlast (by omega)

end Skaled.Trie
