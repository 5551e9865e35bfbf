import Skaled.Evm.GasCost
import Skaled.State.Operations

/-! # Gas metering

The interpreters that a run can reach from less than 2 ^ 63 gas have paid for
their memory. For these an instruction that is not refused is charged exactly
its price, or fails with `OutOfGas`, which it does only for a price above the
gas that is left.

Instructions are refused before their price is looked at: unknown ones, those
without operands or with a full stack, a change of state in a static call, and a
copy from beyond the return data.
-/

namespace Skaled.LegacyVM

/-- An instruction up to its charge. -/
def attempt (vm : LegacyVM) (answers : Answers) : Except VMException LegacyVM := do
  let (op, vm) ← vm.fetchInstruction
  match vm.reject op with
  | some e => .error e
  | none => vm.meter op answers

/-- Why an instruction is refused before its price is looked at. -/
def refused (vm : LegacyVM) : Option VMException :=
  match vm.fetchInstruction with
  | .error e => some e
  | .ok (op, vm) => vm.reject op

/-- The instruction at the program counter. -/
def instruction (vm : LegacyVM) : Instruction := .ofOpcode (vm.code.getD vm.pc 0).toNat

/-- An instruction is charged its price or fails with `OutOfGas`, and it fails so
just if the price exceeds the gas. -/
def MeteredExactly (vm : LegacyVM) (answers : Answers) : Prop :=
  ((∃ vm', vm.attempt answers = .ok vm' ∧
      vm'.ioGas + vm.cost vm.instruction answers = vm.ioGas) ∨
    vm.attempt answers = .error .outOfGas) ∧
  (vm.attempt answers = .error .outOfGas ↔ vm.ioGas < vm.cost vm.instruction answers)

/-- The interpreters that a run from less than 2 ^ 63 gas reaches, if calls and
creations hand back no more gas than they get. -/
inductive Reached [Keccak] : LegacyVM → Prop where
  | start (config : VMConfig) (block : BlockWords) {schedule : VMSchedule} (ext : Ext)
      {gas : U256} : schedule ∈ VMSchedule.standard → gas.toNat < 2 ^ 63 →
        Reached (start config block schedule ext gas)
  | step {vm vm' : LegacyVM} : Reached vm → (∀ k, (vm.step k).Leads (k vm')) → Reached vm'

/-! ## Fetching -/

/-- The interpreter as `fetchInstruction` leaves it. -/
def fetched (vm : LegacyVM) : LegacyVM :=
  { vm with
    runGas := vm.schedule.tierStepGas vm.instruction.metric.gasPriceTier
    newMemSize := vm.mem.length
    copyMemSize := 0 }

theorem fetchInstruction_eq (vm : LegacyVM) :
    vm.fetchInstruction =
      (do vm.adjustStack vm.instruction.metric.args vm.instruction.metric.ret
          pure (vm.instruction, vm.fetched)) := by
  have htier : toInt63 (vm.schedule.tierStepGas vm.instruction.metric.gasPriceTier) =
      .ok (vm.schedule.tierStepGas vm.instruction.metric.gasPriceTier) :=
    toInt63_of_lt ((tierStepGas_le _ _).trans_lt (by norm_num))
  change (vm.adjustStack _ _ >>= fun _ =>
    toInt63 (vm.schedule.tierStepGas vm.instruction.metric.gasPriceTier) >>= _) = _
  rw [htier]
  rfl

theorem fetchInstruction_eq_ok {vm vm' : LegacyVM} {op : Instruction}
    (h : vm.fetchInstruction = .ok (op, vm')) : op = vm.instruction ∧ vm' = vm.fetched := by
  rw [fetchInstruction_eq] at h
  cases hstack : vm.adjustStack vm.instruction.metric.args vm.instruction.metric.ret with
  | error e => simp [hstack, bind, Except.bind] at h
  | ok _ =>
    rw [hstack] at h
    cases h
    exact ⟨rfl, rfl⟩

/-- No instruction writes more than four topics. -/
theorem topics_le (opcode : UInt8) (count : Nat)
    (h : Instruction.ofOpcode opcode.toNat = .log count) : count ≤ 4 := by
  have hall : ∀ opcode : Fin 256,
      (match Instruction.ofOpcode opcode with | .log count => count | _ => 0) ≤ 4 := by
    decide +kernel
  have hcount := hall ⟨opcode.toNat, opcode.toNat_lt⟩
  rwa [h] at hcount

theorem fetched_fetched (vm : LegacyVM) : vm.fetched.Fetched vm.instruction :=
  ⟨rfl, rfl, fun count h => topics_le _ count h⟩

variable {vm : LegacyVM} {k : LegacyVM → Script}

theorem Paid.fetched (h : vm.Paid) : vm.fetched.Paid := ⟨h.whole, h.gas⟩

/-! ## Memory is paid for -/

theorem createGas_le (vm : LegacyVM) : vm.createGas ≤ vm.ioGas := by
  unfold createGas
  split <;> omega

theorem toNat_createGas (hgas : vm.ioGas < 2 ^ 64) :
    (BitVec.ofNat 256 vm.createGas).toNat = vm.createGas := by
  have hcreate := createGas_le vm
  rw [BitVec.toNat_ofNat, Nat.mod_eq_of_lt (by omega)]

/-- After a creation there is the gas that was not given away and what came back. -/
theorem gas_after_create_le {result : FrameResult} (hgas : vm.ioGas < 2 ^ 64)
    (hresult : result.gas ≤ BitVec.ofNat 256 vm.createGas) :
    u64 (vm.gasLeft - (BitVec.ofNat 256 vm.createGas - result.gas)).toNat + vm.createGas ≤
      vm.ioGas + result.gas.toNat := by
  have hcreate := createGas_le vm
  have hleft : vm.gasLeft.toNat = vm.ioGas := by
    rw [gasLeft, BitVec.toNat_ofNat, Nat.mod_eq_of_lt (by omega)]
  have hreturned : result.gas.toNat ≤ vm.createGas := toNat_createGas hgas ▸ hresult
  have hused : (BitVec.ofNat 256 vm.createGas - result.gas).toNat =
      vm.createGas - result.gas.toNat := by
    rw [BitVec.toNat_sub_of_le hresult, toNat_createGas hgas]
  have hsub : BitVec.ofNat 256 vm.createGas - result.gas ≤ vm.gasLeft := by
    rw [BitVec.le_def, hused, hleft]
    omega
  have htrunc := u64_le (vm.gasLeft - (BitVec.ofNat 256 vm.createGas - result.gas)).toNat
  rw [BitVec.toNat_sub_of_le hsub, hused, hleft] at *
  omega

/-- What follows an instruction finishes, if it does so for every interpreter that
the instruction can leave. -/
theorem Performs.finishes {op : Instruction}
    {run : Script} (h : Performs vm k op run) (hgas : vm.ioGas < 2 ^ 64)
    (hk : ∀ vm', vm.Follows op vm' → vm'.ioGas ≤ vm.ioGas + vm.returnable op → (k vm').Finishes) :
    run.Finishes := by
  cases h with
  | returned | reverted | failed | suicide => trivial
  | next hfollows hsame | setStore _ _ hfollows hsame | log _ _ hfollows hsame =>
    exact hk _ hfollows (by omega)
  | query _ hfollows hsame | codeAt _ hfollows hsame =>
    intro answer
    have := hsame answer
    exact hk _ (hfollows answer) (by omega)
  | call a data _ hfollows hnone hsome =>
    refine ⟨hk _ (hfollows none) ?_, fun result hresult => hk _ (hfollows (some result)) ?_⟩
    · rw [hnone]
      exact (u64_le _).trans (Nat.add_le_add_left (u64_le _) _)
    · rw [hsome]
      exact (u64_le _).trans (Nat.add_le_add_left ((u64_le _).trans hresult) _)
  | create salt endowment init hfollows hnone hsome =>
    refine ⟨hk _ (hfollows none) (by omega), fun result hresult => ?_⟩
    refine hk _ (hfollows (some result)) (le_trans ?_ (Nat.le_add_right _ _))
    have hafter := gas_after_create_le hgas hresult
    have hreturned : result.gas.toNat ≤ vm.createGas := toNat_createGas hgas ▸ hresult
    rw [hsome]
    omega

theorem Charged.memNeeded_eq {vm vm' : LegacyVM} {price need : Nat}
    (h : vm.Charged price need vm') (op : Instruction) : vm'.memNeeded op = vm.memNeeded op := by
  unfold memNeeded
  simp only [h.sp]

/-- An instruction leaves memory that is paid for. -/
theorem Paid.follow {vm charged vm' : LegacyVM} (hmoderate : Moderate vm.schedule)
    {op : Instruction} (hpaid : vm.Paid) (hfetched : vm.Fetched op) {answers : Answers}
    (hmeter : vm.meter op answers = .ok charged) (hfollows : charged.Follows op vm')
    (hgas : vm'.ioGas ≤ charged.ioGas + charged.returnable op) :
    vm'.Paid ∧ vm'.schedule = vm.schedule := by
  have hcharged : vm.Charged (vm.cost op answers) (vm.memNeeded op) charged := by
    have hcharges := meter_charges hmoderate hfetched answers
    rwa [hmeter] at hcharges
  have hreturnable := meter_returnable hmoderate hfetched hmeter
  have hgranted := granted_le_basePrice hmoderate op answers
  have hneeded : charged.memNeeded op ≤ charged.mem.length := by
    rw [hcharged.memNeeded_eq, hcharged.memory]
    unfold words
    omega
  have hschedule := hfollows.schedule.trans hcharged.schedule
  refine ⟨hpaid.extend ((hfollows.memory hneeded).trans hcharged.memory) hschedule ?_, hschedule⟩
  unfold ownCost at hreturnable
  omega

/-- What holds of a round of the interpreter, after the instruction was fetched. -/
theorem step_of_interpret [Keccak] {P : Script → Prop} (hfailed : ∀ e, P (.failed e))
    (hinterpret : P (vm.fetched.interpret vm.instruction k)) :
    ∃ next, vm.step k = .instruction next ∧ P next := by
  refine ⟨_, rfl, ?_⟩
  cases hfetch : vm.fetchInstruction with
  | error e => exact hfailed e
  | ok result =>
    obtain ⟨op, fetched⟩ := result
    obtain ⟨rfl, rfl⟩ := fetchInstruction_eq_ok hfetch
    exact hinterpret

/-- A round of the interpreter goes on only where memory is paid for. -/
theorem step_finishes [Keccak] (hmoderate : Moderate vm.schedule) (hpaid : vm.Paid)
    (hk : ∀ vm' : LegacyVM, vm'.Paid → vm'.schedule = vm.schedule → (k vm').Finishes) :
    (vm.step k).Finishes := by
  have hinterpret : (vm.fetched.interpret vm.instruction k).Finishes := by
    refine interpret_of_perform (fun _ => trivial) (fun _ _ hnext => hnext)
      (fun _ _ _ hnext => hnext) fun _ answers charged hmeter => ?_
    have hcharged := @meter_charges vm.fetched hmoderate _ (fetched_fetched vm) answers
    rw [hmeter] at hcharged
    have hless : charged.ioGas < 2 ^ 64 := by
      have hgas := hpaid.fetched.gas
      have hcost := hcharged.gas
      omega
    refine (perform_performs charged k vm.instruction).finishes hless fun vm' hfollows hgas => ?_
    have hnext := @Paid.follow vm.fetched _ _ hmoderate _ hpaid.fetched
      (fetched_fetched vm) _ hmeter hfollows hgas
    exact hk vm' hnext.1 hnext.2
  obtain ⟨next, hstep, hnext⟩ := step_of_interpret (fun _ => trivial) hinterpret
  rw [hstep]
  exact hnext

theorem Reached.paid [Keccak] (h : Reached vm) : vm.schedule ∈ VMSchedule.standard ∧ vm.Paid := by
  induction h with
  | @start config block schedule ext gas hstandard hgas =>
    refine ⟨hstandard, rfl, ?_⟩
    have hempty : (LegacyVM.start config block schedule ext gas).mem = [] := rfl
    rw [hempty, List.length_nil, memCost, Nat.zero_div, Nat.mul_zero, Nat.zero_mul, Nat.zero_div,
      Nat.zero_add]
    exact (u64_le _).trans_lt hgas
  | @step vm vm' _ hleads ih =>
    classical
    -- the run goes on with `vm'` for every `k`, so for one that is cut off at an unpaid machine
    let k : LegacyVM → Script := fun v =>
      if v.schedule ∈ VMSchedule.standard ∧ v.Paid then .internalError else .unfinished
    have hfinishes : (vm.step k).Finishes := by
      refine step_finishes (moderate_of_standard ih.1) ih.2 fun v hpaid hschedule => ?_
      change Script.Finishes (if _ then _ else _)
      rw [if_pos ⟨hschedule ▸ ih.1, hpaid⟩]
      trivial
    by_contra hnot
    have hcut := (hleads k).finishes hfinishes
    change Script.Finishes (if _ then _ else _) at hcut
    rw [if_neg hnot] at hcut
    exact hcut

/-! ## Exact charges -/

theorem attempt_of_not_refused (answers : Answers) (hrefused : vm.refused = none) :
    vm.attempt answers = vm.fetched.meter vm.instruction answers := by
  unfold refused at hrefused
  unfold attempt
  cases hfetch : vm.fetchInstruction with
  | error e => simp [hfetch] at hrefused
  | ok result =>
    obtain ⟨op, fetched⟩ := result
    obtain ⟨rfl, rfl⟩ := fetchInstruction_eq_ok hfetch
    rw [hfetch] at hrefused
    change vm.fetched.reject vm.instruction = none at hrefused
    change (match vm.fetched.reject vm.instruction with
      | some e => Except.error e
      | none => vm.fetched.meter vm.instruction answers) = _
    rw [hrefused]

theorem Paid.meteredExactly (hmoderate : Moderate vm.schedule) (hpaid : vm.Paid)
    (answers : Answers) (hrefused : vm.refused = none) : vm.MeteredExactly answers := by
  have hcharges : vm.fetched.Charges (vm.cost vm.instruction answers)
      (vm.memNeeded vm.instruction) (vm.attempt answers) := by
    rw [attempt_of_not_refused answers hrefused]
    exact @meter_charges vm.fetched hmoderate _ (fetched_fetched vm) answers
  unfold MeteredExactly
  cases hattempt : vm.attempt answers with
  | error e =>
    rw [hattempt] at hcharges
    obtain ⟨rfl, hless⟩ := hcharges
    exact ⟨.inr rfl, fun _ => hless hpaid.fetched, fun _ => rfl⟩
  | ok charged =>
    rw [hattempt] at hcharges
    have hgas : charged.ioGas + vm.cost vm.instruction answers = vm.ioGas := hcharges.gas
    refine ⟨.inl ⟨charged, rfl, hgas⟩, ⟨fun h => (nomatch h), fun hless => ?_⟩⟩
    omega

/-- Gas metering is exact: for every interpreter that a run reaches, and any code
and operands in it, an instruction that is not refused is charged its price over
all integers, or fails with `OutOfGas`, just if the price exceeds the gas. -/
theorem meteredExactly_of_reached [Keccak] (hreached : Reached vm) (code : Bytes)
    (pc : Nat) (stack : List U256) (answers : Answers)
    (hrefused : refused { vm with code, pc, stack } = none) :
    MeteredExactly { vm with code, pc, stack } answers := by
  obtain ⟨hstandard, hpaid⟩ := hreached.paid
  exact @Paid.meteredExactly { vm with code, pc, stack } (moderate_of_standard hstandard)
    ⟨hpaid.whole, hpaid.gas⟩ answers hrefused

/-- A frame of a contract, static or not. -/
def sampleExt (code : Bytes) (staticCall : Bool) : Ext :=
  { myAddress := 7, caller := 8, origin := 9, value := 0, gasPrice := 1, data := [], code
    codeHash := 0, version := 0, depth := 0, isCreate := false, staticCall, readOnly := false }

def sampleBlock : BlockWords :=
  { number := 1, author := 3, timestamp := 100, difficulty := 0, gasLimit := 10000000
    chainID := 1 }

/-- The interpreter of a frame with one instruction and two operands. -/
def sampleVM (opcode : UInt8) (staticCall : Bool) (stack : List U256) (gas : U256) : LegacyVM :=
  { start {} sampleBlock .istanbul (sampleExt [opcode] staticCall) gas with
    code := [opcode], pc := 0, stack }

/-- `MSTORE` beyond all memory that can be paid for. -/
theorem meteredExactly_of_reached_mstore :
    letI := State.sampleKeccak
    Reached (start {} sampleBlock .istanbul (sampleExt [0x52] false) 1000000) ∧
      (sampleVM 0x52 false [BitVec.ofNat 256 (2 ^ 255), 1] 1000000).refused = none ∧
      (sampleVM 0x52 false [BitVec.ofNat 256 (2 ^ 255), 1] 1000000).MeteredExactly {} := by
  let _ := State.sampleKeccak
  have hreached : Reached (start {} sampleBlock .istanbul (sampleExt [0x52] false) 1000000) :=
    .start {} sampleBlock _ (by decide) (by decide)
  have hrefused :
      (sampleVM 0x52 false [BitVec.ofNat 256 (2 ^ 255), 1] 1000000).refused = none := by
    decide +kernel
  exact ⟨hreached, hrefused, meteredExactly_of_reached hreached [0x52] 0 _ {} hrefused⟩

/-- `SSTORE` in a static call fails with `DisallowedStateChange`, whatever gas
there is. -/
theorem sstore_not_meteredExactly :
    letI := State.sampleKeccak
    Reached (start {} sampleBlock .istanbul (sampleExt [0x55] true) 1000000) ∧
      (sampleVM 0x55 true [0, 1] 1000000).attempt {} = .error .disallowedStateChange ∧
      ¬ (sampleVM 0x55 true [0, 1] 1000000).MeteredExactly {} := by
  let _ := State.sampleKeccak
  have hattempt :
      (sampleVM 0x55 true [0, 1] 1000000).attempt {} = .error .disallowedStateChange := by
    decide +kernel
  refine ⟨.start {} sampleBlock _ (by decide) (by decide), hattempt, ?_⟩
  unfold MeteredExactly
  rw [hattempt]
  rintro ⟨⟨vm', h, -⟩ | h, -⟩ <;> cases h

end Skaled.LegacyVM
