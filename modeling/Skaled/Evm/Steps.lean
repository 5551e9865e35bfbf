import Skaled.Evm.LegacyVM

/-! # What an instruction can do

`Performs` lists the shapes of what follows the charge for an instruction: the
frame ends, the interpreter goes on with the same gas, or `ExtVM` is asked for
something first. Results about all instructions are proved along these shapes.

A script is followed along answers that hand back no more gas than they were
given.
-/

namespace Skaled

/-- A script goes on as another one, if calls and creations hand back no more gas
than they get. -/
inductive Script.Leads : Script → Script → Prop where
  | refl (run : Script) : Leads run run
  | instruction {next run} : Leads next run → Leads (.instruction next) run
  | query {question next run} (answer : U256) :
      Leads (next answer) run → Leads (.query question next) run
  | codeAt {a next run} (answer : Bytes) : Leads (next answer) run → Leads (.codeAt a next) run
  | setStore {key value next run} : Leads next run → Leads (.setStore key value next) run
  | log {topics data next run} : Leads next run → Leads (.log topics data next) run
  | refund {amount next run} : Leads next run → Leads (.refund amount next) run
  | suicide {beneficiary next run} : Leads next run → Leads (.suicide beneficiary next) run
  | call {kind a value gas data next run} (result : FrameResult) :
      result.gas ≤ gas → Leads (next (some result)) run →
        Leads (.call kind a value gas data next) run
  | callRefused {kind a value gas data next run} :
      Leads (next none) run → Leads (.call kind a value gas data next) run
  | create {salt endowment gas init next run} (result : FrameResult) :
      result.gas ≤ gas → Leads (next (some result)) run →
        Leads (.create salt endowment gas init next) run
  | createRefused {salt endowment gas init next run} :
      Leads (next none) run → Leads (.create salt endowment gas init next) run

/-- A script is not cut off, whatever frugal answers it gets. -/
def Script.Finishes : Script → Prop
  | .returned _ _ | .reverted _ _ | .failed _ | .internalError => True
  | .unfinished => False
  | .instruction next | .setStore _ _ next | .log _ _ next | .refund _ next | .suicide _ next =>
    next.Finishes
  | .query _ next => ∀ answer, (next answer).Finishes
  | .codeAt _ next => ∀ answer, (next answer).Finishes
  | .call _ _ _ gas _ next | .create _ _ gas _ next =>
    (next none).Finishes ∧ ∀ result : FrameResult, result.gas ≤ gas → (next (some result)).Finishes

theorem Script.Leads.finishes {run run' : Script} (hleads : run.Leads run')
    (hrun : run.Finishes) : run'.Finishes := by
  induction hleads with
  | refl => exact hrun
  | instruction _ ih | setStore _ ih | log _ ih | refund _ ih | suicide _ ih => exact ih hrun
  | query answer _ ih | codeAt answer _ ih => exact ih (hrun answer)
  | call result hgas _ ih | create result hgas _ ih => exact ih (hrun.2 result hgas)
  | callRefused _ ih | createRefused _ ih => exact ih hrun.1

namespace LegacyVM

/-- The memory an instruction needs, over all integers. -/
def rangeNeed (offset size : U256) : Nat := if size = 0 then 0 else offset.toNat + size.toNat

def memNeeded (vm : LegacyVM) : Instruction → Nat
  | .mload | .mstore => (vm.sp 0).toNat + 32
  | .mstore8 => (vm.sp 0).toNat + 1
  | .sha3 | .log _ | .ret | .revert => rangeNeed (vm.sp 0) (vm.sp 1)
  | .copy .extCode => rangeNeed (vm.sp 1) (vm.sp 3)
  | .copy _ => rangeNeed (vm.sp 0) (vm.sp 2)
  | .create _ => rangeNeed (vm.sp 1) (vm.sp 2)
  | .call kind =>
    max (rangeNeed (vm.sp (sizesOffset kind)) (vm.sp (sizesOffset kind + 1)))
      (rangeNeed (vm.sp (sizesOffset kind + 2)) (vm.sp (sizesOffset kind + 3)))
  | _ => 0

/-- The interpreter after an instruction, apart from its gas: the frame and the
prices are the same, and so is the size of a memory that was large enough. -/
structure Follows (vm : LegacyVM) (op : Instruction) (vm' : LegacyVM) : Prop where
  ext : vm'.ext = vm.ext
  schedule : vm'.schedule = vm.schedule
  memory : vm.memNeeded op ≤ vm.mem.length → vm'.mem.length = vm.mem.length

/-- What an instruction does after it was paid for, with `k` for the instructions
that follow. -/
inductive Performs (vm : LegacyVM) (k : LegacyVM → Script) : Instruction → Script → Prop where
  | returned {op} (output : Bytes) : Performs vm k op (.returned vm.gasLeft output)
  | reverted {op} (output : Bytes) : Performs vm k op (.reverted vm.gasLeft output)
  | failed {op} (e : VMException) : Performs vm k op (.failed e)
  | next {op} {vm' : LegacyVM} : vm.Follows op vm' → vm'.ioGas = vm.ioGas → Performs vm k op (k vm')
  | query {op} (question : Query) {next : U256 → LegacyVM} :
      (∀ answer, vm.Follows op (next answer)) → (∀ answer, (next answer).ioGas = vm.ioGas) →
        Performs vm k op (.query question fun answer => k (next answer))
  | codeAt {op} (a : Address) {next : Bytes → LegacyVM} :
      (∀ answer, vm.Follows op (next answer)) → (∀ answer, (next answer).ioGas = vm.ioGas) →
        Performs vm k op (.codeAt a fun answer => k (next answer))
  | setStore (key value : U256) {vm' : LegacyVM} :
      vm.Follows .sstore vm' → vm'.ioGas = vm.ioGas →
        Performs vm k .sstore (.setStore key value (k vm'))
  | log {count : Nat} (topics : List H256) (data : Bytes) {vm' : LegacyVM} :
      vm.Follows (.log count) vm' → vm'.ioGas = vm.ioGas →
        Performs vm k (.log count) (.log topics data (k vm'))
  | suicide (beneficiary : Address) :
      Performs vm k .suicide (.suicide beneficiary (.returned vm.gasLeft []))
  | call {kind : CallKind} (a : Address) {value : U256} (data : Bytes)
      {next : Option FrameResult → LegacyVM} :
      (value ≠ 0 → vm.transfersValue kind = true) →
      (∀ answer, vm.Follows (.call kind) (next answer)) →
      (next none).ioGas = u64 (vm.ioGas + u64 vm.callGas.toNat) →
      (∀ result, (next (some result)).ioGas = u64 (vm.ioGas + u64 result.gas.toNat)) →
        Performs vm k (.call kind)
          (.call kind a value vm.callGas data fun answer => k (next answer))
  | create {salted : Bool} (salt : Option U256) (endowment : U256) (init : Bytes)
      {next : Option FrameResult → LegacyVM} :
      (∀ answer, vm.Follows (.create salted) (next answer)) →
      (next none).ioGas = vm.ioGas →
      (∀ result, (next (some result)).ioGas =
        u64 (vm.gasLeft - (BitVec.ofNat 256 vm.createGas - result.gas)).toNat) →
        Performs vm k (.create salted)
          (.create salt endowment (BitVec.ofNat 256 vm.createGas) init fun answer =>
            k (next answer))

theorem length_overwrite {bytes : Bytes} {offset : Nat} {new : Bytes}
    (hfits : offset + new.length ≤ bytes.length) :
    (overwrite bytes offset new).length = bytes.length := by
  simp only [overwrite, List.length_append, List.length_take, List.length_drop]
  omega

theorem overwrite_nil (bytes : Bytes) (offset : Nat) : overwrite bytes offset [] = bytes := by
  simp [overwrite]

theorem u64_of_lt {n : Nat} (h : n < 2 ^ 64) : u64 n = n := Nat.mod_eq_of_lt h

theorem u64_le (n : Nat) : u64 n ≤ n := Nat.mod_le n _

theorem u64_lt (n : Nat) : u64 n < 2 ^ 64 := Nat.mod_lt n (by norm_num)

/-- Bytes that are written into a range that memory covers. -/
theorem length_overwrite_range {mem new : Bytes} {offset : U256} (size : U256)
    (hfits : rangeNeed offset size ≤ mem.length) (hnew : new.length ≤ size.toNat) :
    (overwrite mem (u64 offset.toNat) new).length = mem.length := by
  unfold rangeNeed at hfits
  by_cases hsize : size = 0
  · have hnil : new = [] := List.eq_nil_of_length_eq_zero (by simpa [hsize] using hnew)
    rw [hnil, overwrite_nil]
  · rw [if_neg hsize] at hfits
    apply length_overwrite
    have := u64_le offset.toNat
    omega

theorem length_copyDataToMemory {mem data : Bytes} {offset index size : U256}
    (hfits : rangeNeed offset size ≤ mem.length) :
    (copyDataToMemory mem data offset index size).length = mem.length := by
  apply length_overwrite_range size hfits
  have hsize := u64_le size.toNat
  simp only [List.length_append, List.length_take, List.length_drop, List.length_replicate]
  split
  next => split <;> omega
  next => omega

theorem u32_le (n : Nat) : u32 n ≤ n := Nat.mod_le n _

theorem caseCall_performs (vm : LegacyVM) (k : LegacyVM → Script) (kind : CallKind) :
    Performs vm k (.call kind) (vm.caseCall kind k) := by
  refine .call vm.destination _ (fun hvalue => ?_) (fun answer => ?_) rfl fun _ => rfl
  · cases kind with
    | call | callCode =>
      simp only [haveValueArg] at hvalue
      simpa [transfersValue, haveValueArg, BitVec.pos_iff_ne_zero] using hvalue
    | delegateCall | staticCall => simp [haveValueArg] at hvalue
  · cases answer with
    | none => exact ⟨rfl, rfl, fun _ => rfl⟩
    | some result =>
      refine ⟨rfl, rfl, fun hfits => length_overwrite_range (vm.sp (sizesOffset kind + 3))
        (le_trans (le_max_right _ _) hfits) ?_⟩
      rw [List.length_take]
      exact (Nat.min_le_left _ _).trans (u64_le _)

theorem caseCreate_performs (vm : LegacyVM) (k : LegacyVM → Script) (salted : Bool) :
    Performs vm k (.create salted) (vm.caseCreate salted k) := by
  refine .create _ _ _ (fun answer => ?_) rfl fun _ => rfl
  cases answer <;> exact ⟨rfl, rfl, fun _ => rfl⟩

theorem jumpTo_performs {vm : LegacyVM} {op : Instruction} (vm' : LegacyVM) (k : LegacyVM → Script)
    (dest : U256) (hfollows : vm.Follows op vm') (hgas : vm'.ioGas = vm.ioGas) :
    Performs vm k op (vm'.jumpTo dest k) := by
  unfold jumpTo
  split
  next => exact .next ⟨hfollows.ext, hfollows.schedule, hfollows.memory⟩ hgas
  next => exact .failed _

/-- Every instruction has one of the shapes. -/
theorem perform_performs [Keccak] (vm : LegacyVM) (k : LegacyVM → Script) (op : Instruction) :
    Performs vm k op (vm.perform op k) := by
  cases op with
  | stop => exact .returned _
  | unary op | binary op | ternary op | exp | sha3 | word op =>
    exact .next ⟨rfl, rfl, fun _ => rfl⟩ rfl
  | lookup op | selfBalance => exact .query _ (fun _ => ⟨rfl, rfl, fun _ => rfl⟩) fun _ => rfl
  | callDataLoad => exact .next ⟨rfl, rfl, fun _ => rfl⟩ rfl
  | copy op =>
    cases op with
    | callData | code | returnData => exact .next ⟨rfl, rfl, length_copyDataToMemory⟩ rfl
    | extCode =>
      exact .codeAt _ (fun _ => ⟨rfl, rfl, length_copyDataToMemory⟩) fun _ => rfl
  | pop | mload => exact .next ⟨rfl, rfl, fun _ => rfl⟩ rfl
  | mstore =>
    refine .next ⟨rfl, rfl, fun hfits => length_overwrite ?_⟩ rfl
    have hoffset := u32_le (vm.sp 0).toNat
    simp only [memNeeded] at hfits
    rw [toBigEndian, BigEndian.length_encode]
    omega
  | mstore8 =>
    refine .next ⟨rfl, rfl, fun hfits => length_overwrite ?_⟩ rfl
    have hoffset := u32_le (vm.sp 0).toNat
    simp only [memNeeded] at hfits
    rw [List.length_singleton]
    omega
  | sstore => exact .setStore _ _ ⟨rfl, rfl, fun _ => rfl⟩ rfl
  | jump => exact jumpTo_performs (vm.replace 1 []) k _ ⟨rfl, rfl, fun _ => rfl⟩ rfl
  | jumpi =>
    unfold perform
    dsimp only
    split
    next => exact jumpTo_performs (vm.replace 2 []) k _ ⟨rfl, rfl, fun _ => rfl⟩ rfl
    next => exact .next ⟨rfl, rfl, fun _ => rfl⟩ rfl
  | jumpDest | push bytes | dup n | swap n => exact .next ⟨rfl, rfl, fun _ => rfl⟩ rfl
  | log topics => exact .log _ _ ⟨rfl, rfl, fun _ => rfl⟩ rfl
  | pushc | jumpc | jumpci => exact .next ⟨rfl, rfl, fun _ => rfl⟩ rfl
  | create salted => exact caseCreate_performs vm k salted
  | call kind => exact caseCall_performs vm k kind
  | ret => exact .returned _
  | revert => exact .reverted _
  | suicide => exact .suicide _
  | other opcode => exact .failed _

/-! ## What holds of an instruction -/

section

variable {P : Script → Prop} {vm : LegacyVM} {op : Instruction}

/-- The questions before the charge do nothing else. -/
theorem inquire_of_next (hquery : ∀ question next, (∀ answer, P (next answer)) →
      P (.query question next))
    {next : Answers → Script} (hnext : ∀ answers, P (next answers)) : P (vm.inquire op next) := by
  unfold inquire
  split
  next =>
    split
    next => exact hquery _ _ fun _ => hnext _
    next => exact hnext _
  next =>
    split_ifs
    · exact hnext _
    · exact hquery _ _ fun _ => hnext _
    · refine hquery _ _ fun ownBalance => ?_
      split
      next => exact hquery _ _ fun _ => hnext _
      next => exact hnext _
  next =>
    refine hquery _ _ fun current => ?_
    split
    next => exact hquery _ _ fun _ => hnext _
    next => exact hnext _
  next => exact hnext _

/-- What holds of an instruction that was paid for holds of the instruction, if
questions, failures and the refund keep it. -/
theorem interpret_of_perform [Keccak] {k : LegacyVM → Script} (hfailed : ∀ e, P (.failed e))
    (hquery : ∀ question next, (∀ answer, P (next answer)) → P (.query question next))
    (hrefund : op = .sstore → ∀ amount next, P next → P (.refund amount next))
    (hperform : vm.reject op = none → ∀ answers charged, vm.meter op answers = .ok charged →
      P (charged.perform op k)) :
    P (vm.interpret op k) := by
  unfold interpret
  cases hreject : vm.reject op with
  | some e => exact hfailed e
  | none =>
    refine inquire_of_next hquery fun answers => ?_
    dsimp only
    cases hmeter : vm.meter op answers with
    | error e =>
      split
      next hsstore => exact hrefund hsstore _ _ (hfailed e)
      next => exact hfailed e
    | ok charged =>
      have hact := hperform hreject answers charged hmeter
      split
      next hsstore => exact hrefund hsstore _ _ hact
      next => exact hact

end

end LegacyVM

end Skaled
