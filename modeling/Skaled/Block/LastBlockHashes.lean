import Mathlib.Data.List.Iterate
import Skaled.Basic

/-! # The hashes of the preceding blocks

`LastBlockHashes::precedingHashes` walks from a block to its ancestors and keeps the list it
has made. The walk asks for the header of every block it meets. The header of a block that
was rotated out of the database cannot be read: `BlockHeader` throws on the empty string,
and the list stays behind with the entries that were assigned so far.
-/

namespace Skaled

/-- What `blockHash` needs to know besides the chain. The hash that a contract returns
after the experimental fork is not part of the model. -/
structure BlockHashParams where
  experimentalForkBlock : Nat
  contractHash : Nat → H256

/-- Calls that reach the list. -/
inductive HashCall where
  | precedingHashes (mostRecentHash : H256)
  | blockHash (currentNumber number : Nat) (parentHash : H256)
  | clear

inductive HashAnswer where
  | hashes (list : List H256)
  | hash (value : H256)
  | cleared
  | thrown
  deriving DecidableEq, Repr

namespace LastBlockHashes

variable (params : BlockHashParams) (parentHash : H256 → H256) (stored : H256 → Bool)

/-- The entry after this one, or an exception if the header is missing. -/
def nextHash (h : H256) : Option H256 :=
  if h = 0 then some 0 else if stored h then some (parentHash h) else none

/-- The entries after this one that are assigned, and whether all of them are. -/
def fill : Nat → H256 → List H256 × Bool
  | 0, _ => ([], true)
  | n + 1, h =>
    match nextHash parentHash stored h with
    | none => ([], false)
    | some next =>
      let (rest, done) := fill n next
      (next :: rest, done)

/-- `precedingHashes`: the list, unless an exception is thrown, and what is kept of it. -/
def precedingHashes (lastHashes : List H256) (mostRecentHash : H256) :
    Option (List H256) × List H256 :=
  if lastHashes.head? = some mostRecentHash then (some lastHashes, lastHashes)
  else
    let resized := (lastHashes ++ List.replicate 256 0).take 256
    let (rest, done) := fill parentHash stored 255 mostRecentHash
    let assigned := mostRecentHash :: rest
    let filled := assigned ++ resized.drop assigned.length
    (if done then some filled else none, filled)

/-- The block is one of the 256 before the current one. -/
def InRange (currentNumber number : Nat) : Prop :=
  number < currentNumber ∧ max 256 currentNumber - 256 ≤ number

instance (currentNumber number : Nat) : Decidable (InRange currentNumber number) :=
  inferInstanceAs (Decidable (_ ∧ _))

def Asks (currentNumber number : Nat) : Prop :=
  InRange currentNumber number ∧ currentNumber < params.experimentalForkBlock + 256

instance (currentNumber number : Nat) :
    Decidable (Asks params currentNumber number) := inferInstanceAs (Decidable (_ ∧ _))

def step (lastHashes : List H256) : HashCall → HashAnswer × List H256
  | .precedingHashes h =>
    let (list, kept) := precedingHashes parentHash stored lastHashes h
    ((list.map .hashes).getD .thrown, kept)
  | .blockHash currentNumber number h =>
    if Asks params currentNumber number then
      let (list, kept) := precedingHashes parentHash stored lastHashes h
      ((list.map fun list => .hash (list.getD (currentNumber - 1 - number) 0)).getD .thrown,
        kept)
    else (.hash (if InRange currentNumber number then params.contractHash number else 0),
      lastHashes)
  | .clear => (.cleared, [])

def answers : (lastHashes : List H256) → List ((H256 → Bool) × HashCall) → List HashAnswer
  | _, [] => []
  | lastHashes, (stored, call) :: calls =>
    let done := step params parentHash stored lastHashes call
    done.1 :: answers done.2 calls

/-! ## What should be returned -/

def storedParent (h : H256) : H256 :=
  if h ≠ 0 ∧ stored h then parentHash h else 0

/-- The ancestors, each while its successor is stored. -/
def ancestors (h : H256) : List H256 :=
  List.iterate (storedParent parentHash stored) h 256

def expected : HashCall → HashAnswer
  | .precedingHashes h => .hashes (ancestors parentHash stored h)
  | .blockHash currentNumber number h =>
    .hash (if Asks params currentNumber number then
        (ancestors parentHash stored h).getD (currentNumber - 1 - number) 0
      else if InRange currentNumber number then params.contractHash number else 0)
  | .clear => .cleared

def parentOf (h : H256) : H256 := if h = 0 then 0 else parentHash h

def WalkStored (h : H256) : Prop :=
  ∀ x ∈ List.iterate (parentOf parentHash) h 255, x ≠ 0 → stored x = true

/-- A call is made only while the blocks it leads to are stored. -/
def CallStored : HashCall → Prop
  | .precedingHashes h => WalkStored parentHash stored h
  | .blockHash currentNumber number h =>
    Asks params currentNumber number → WalkStored parentHash stored h
  | .clear => True

variable {params parentHash stored}

/-- The walk gives all ancestors, and so do the blocks that are stored. -/
theorem fill_eq {n : Nat} {h : H256}
    (hstored : ∀ x ∈ List.iterate (parentOf parentHash) h n, x ≠ 0 → stored x = true) :
    h :: (fill parentHash stored n h).1 = List.iterate (parentOf parentHash) h (n + 1) ∧
      (fill parentHash stored n h).2 = true ∧
      List.iterate (storedParent parentHash stored) h (n + 1) =
        List.iterate (parentOf parentHash) h (n + 1) := by
  induction n generalizing h with
  | zero => exact ⟨rfl, rfl, rfl⟩
  | succ n ih =>
    obtain ⟨hhead, htail⟩ := List.forall_mem_cons.mp hstored
    obtain ⟨hrest, hdone, hparents⟩ := ih htail
    have hparent : storedParent parentHash stored h = parentOf parentHash h ∧
        nextHash parentHash stored h = some (parentOf parentHash h) := by
      unfold nextHash storedParent parentOf
      by_cases hzero : h = 0
      · simp only [hzero, ne_eq, not_true_eq_false, false_and, if_true, if_false, and_self]
      · simp only [hzero, ne_eq, not_false_eq_true, hhead hzero, and_self, if_true, if_false]
    rw [← hparent.1] at hparents
    rw [fill, hparent.2]
    exact ⟨congrArg (h :: ·) hrest, hdone, congrArg (h :: ·) (hparent.1 ▸ hparents)⟩

/-- Nothing is kept, or a list that is complete. -/
def Whole (parentHash : H256 → H256) (lastHashes : List H256) : Prop :=
  lastHashes = [] ∨
    ∃ h, lastHashes = List.iterate (parentOf parentHash) h 256

theorem precedingHashes_eq {lastHashes : List H256} {h : H256}
    (hwhole : Whole parentHash lastHashes) (hstored : WalkStored parentHash stored h) :
    (precedingHashes parentHash stored lastHashes h).1 = some (ancestors parentHash stored h) ∧
      Whole parentHash (precedingHashes parentHash stored lastHashes h).2 := by
  obtain ⟨hlist, hdone, hancestors⟩ := fill_eq hstored
  change ancestors parentHash stored h = _ at hancestors
  unfold precedingHashes
  split
  next hhead =>
    obtain rfl | ⟨first, rfl⟩ := hwhole
    · cases hhead
    · obtain rfl : first = h := Option.some.inj hhead
      exact ⟨by rw [hancestors], .inr ⟨first, rfl⟩⟩
  next hhead =>
    have hlength := congrArg List.length hlist
    rw [List.length_iterate] at hlength
    have hdrop : ((lastHashes ++ List.replicate 256 0).take 256).drop
        (h :: (fill parentHash stored 255 h).1).length = [] := by
      rw [hlength, List.drop_eq_nil_iff, List.length_take]
      exact Nat.min_le_left _ _
    dsimp only
    rw [hdrop, hlist, hdone, List.append_nil, hancestors]
    exact ⟨rfl, .inr ⟨h, rfl⟩⟩

theorem step_eq {lastHashes : List H256} {call : HashCall} (hwhole : Whole parentHash lastHashes)
    (hstored : CallStored params parentHash stored call) :
    (step params parentHash stored lastHashes call).1 =
        expected params parentHash stored call ∧
      Whole parentHash (step params parentHash stored lastHashes call).2 := by
  cases call with
  | precedingHashes h =>
    obtain ⟨hlist, hkept⟩ := precedingHashes_eq hwhole hstored
    exact ⟨by simp only [step, hlist]; rfl, hkept⟩
  | blockHash currentNumber number h =>
    by_cases hasks : Asks params currentNumber number
    · obtain ⟨hlist, hkept⟩ := precedingHashes_eq hwhole (hstored hasks)
      simp only [step, expected, if_pos hasks, hlist]
      exact ⟨rfl, hkept⟩
    · simp only [step, expected, if_neg hasks]
      exact ⟨trivial, hwhole⟩
  | clear => exact ⟨rfl, .inl rfl⟩

/-- As long as no walk meets a block that was rotated out, every call gives the ancestors,
and none throws. -/
theorem answers_expected (params : BlockHashParams) (parentHash : H256 → H256)
    (calls : List ((H256 → Bool) × HashCall))
    (hstored : ∀ call ∈ calls, CallStored params parentHash call.1 call.2) :
    answers params parentHash [] calls =
      calls.map fun call => expected params parentHash call.1 call.2 := by
  have hrun : ∀ lastHashes, Whole parentHash lastHashes →
      answers params parentHash lastHashes calls =
        calls.map fun call => expected params parentHash call.1 call.2 := by
    induction calls with
    | nil => exact fun _ _ => rfl
    | cons call calls ih =>
      intro lastHashes hwhole
      obtain ⟨hcall, hcalls⟩ := List.forall_mem_cons.mp hstored
      obtain ⟨hanswer, hkept⟩ := step_eq hwhole hcall
      rw [answers, List.map_cons, hanswer, ih hcalls _ hkept]
  exact hrun [] (.inl rfl)

/-- A chain in which each block has the hash after its parent's one. -/
def countingParent (h : H256) : H256 := h - 1

theorem walkStored_of_le {h : H256} (hh : h ≤ 8) :
    WalkStored countingParent (fun x => x ≠ 9) h := by
  intro x hx _
  obtain ⟨m, -, rfl⟩ := List.mem_iterate.mp hx
  have hle : (parentOf countingParent)^[m] h ≤ 8 := by
    refine Function.Iterate.rec (· ≤ 8) hh (fun y hy => ?_) m
    unfold parentOf countingParent
    split
    · decide
    · bv_omega
  exact decide_eq_true fun hnine => absurd (hnine ▸ hle) (by decide)

/-- Block 9 was rotated out, and no walk meets it. -/
theorem answers_expected_sample :
    answers ⟨1000, fun _ => 0⟩ countingParent []
        [(fun x => x ≠ 9, .precedingHashes 3), (fun x => x ≠ 9, .blockHash 9 5 8)] =
      [.hashes (ancestors countingParent (fun x => x ≠ 9) 3),
        .hash ((ancestors countingParent (fun x => x ≠ 9) 8).getD 3 0)] :=
  answers_expected ⟨1000, fun _ => 0⟩ countingParent
    [(fun x => x ≠ 9, .precedingHashes 3), (fun x => x ≠ 9, .blockHash 9 5 8)]
    (by
      intro call hcall
      simp only [List.mem_cons, List.not_mem_nil, or_false] at hcall
      rcases hcall with rfl | rfl
      · exact walkStored_of_le (by decide)
      · exact fun _ => walkStored_of_le (by decide))

/-- Block 4 was rotated out. The walks from 9 and from 7 throw there, and a second call
with 7 returns what both have left. -/
theorem missing_header_throws :
    let calls : List ((H256 → Bool) × HashCall) :=
      [9, 7, 7].map fun h => (fun x => x ≠ 4, .precedingHashes h)
    (answers ⟨1000, fun _ => 0⟩ countingParent [] calls).map (fun answer =>
        match answer with
        | .hashes list => some (list.take 7)
        | _ => none) = [none, none, some [7, 6, 5, 4, 5, 4, 0]] ∧
      (ancestors countingParent (fun x => x ≠ 4) 7).take 7 = [7, 6, 5, 4, 0, 0, 0] := by
  decide +kernel

end LastBlockHashes

end Skaled
