import Skaled.Evm.Metering
import Skaled.Executive.GasUse

/-! # The interpreter stops

Every instruction that does not end its frame costs gas, in every schedule, and a
call costs more than the stipend that it grants. So a frame that starts with some
gas runs at most that many instructions and one more, not counting those of the
frames below. `Script.Affords` says this of the script of a frame: every
instruction takes one unit of credit, and gas that is given away takes as many
units as there is gas, of which those come back that were not used.
-/

namespace Skaled

def VMSchedule.inForce : List VMSchedule := sinceEip150 ++ sinceEip150.map withPush0

theorem VMSchedule.standard_of_inForce {schedule : VMSchedule} (h : schedule ∈ inForce) :
    schedule ∈ standard := by
  unfold standard
  rw [List.append_assoc]
  exact List.mem_append_right _ h

theorem VMSchedule.forVersion_standard {current : VMSchedule} (h : current ∈ standard)
    (version : U256) : current.forVersion version ∈ standard := by
  unfold forVersion latestScheduleForAccountVersion
  split_ifs
  · exact h
  · decide
  · decide
  · decide

/-- The instructions of a script, and the gas it ends with or gives away, are
covered by a credit. -/
def Script.Affords (credit : Nat) : Script → Prop
  | .returned gas _ | .reverted gas _ => gas.toNat ≤ credit
  | .failed _ | .internalError => True
  | .unfinished => False
  | .instruction next => ∃ rest, credit = rest + 1 ∧ next.Affords rest
  | .query _ next => ∀ answer, (next answer).Affords credit
  | .codeAt _ next => ∀ answer, (next answer).Affords credit
  | .setStore _ _ next | .log _ _ next | .refund _ next | .suicide _ next => next.Affords credit
  | .call _ _ _ gas _ next | .create _ _ gas _ next =>
    gas.toNat ≤ credit ∧ (next none).Affords credit ∧
      ∀ result : FrameResult, result.gas ≤ gas →
        (next (some result)).Affords (credit - gas.toNat + result.gas.toNat)

theorem Script.Affords.finishes {run : Script} {credit : Nat} (h : run.Affords credit) :
    run.Finishes := by
  induction run generalizing credit with
  | returned | reverted | failed | internalError => trivial
  | unfinished => exact h
  | instruction next ih =>
    obtain ⟨rest, -, hnext⟩ := h
    exact ih hnext
  | query question next ih | codeAt a next ih => exact fun answer => ih answer (h answer)
  | setStore key value next ih | log topics data next ih | refund amount next ih
  | suicide beneficiary next ih => exact ih h
  | call kind a value gas data next ih | create salt endowment gas init next ih =>
    exact ⟨ih none h.2.1, fun result hgas => ih (some result) (h.2.2 result hgas)⟩

/-- A script that is covered by a credit ends with at most that much gas. -/
theorem Script.Affords.gasAtMost {run : Script} {credit : Nat} {limit : U256}
    (h : run.Affords credit) (hlimit : credit ≤ limit.toNat) : run.prog.GasAtMost limit := by
  induction run generalizing credit with
  | returned gas output | reverted gas output => exact h.trans hlimit
  | failed | internalError => trivial
  | unfinished => exact h.elim
  | instruction next ih =>
    obtain ⟨rest, rfl, hnext⟩ := h
    exact ih hnext (by omega)
  | query question next ih | codeAt a next ih => exact fun answer => ih answer (h answer) hlimit
  | setStore key value next ih | log topics data next ih | refund amount next ih
  | suicide beneficiary next ih => exact ih h hlimit
  | call kind a value gas data next ih | create salt endowment gas init next ih =>
    refine ⟨ih none h.2.1 hlimit, fun result hgas => ih (some result) (h.2.2 result hgas) ?_⟩
    have hback : result.gas.toNat ≤ gas.toNat := hgas
    have hgiven := h.1
    omega

namespace LegacyVM

def ends : Instruction → Bool
  | .stop | .ret | .revert | .suicide | .other _ => true
  | _ => false

structure ChargesAll (schedule : VMSchedule) : Prop where
  expGas : 0 < schedule.expGas
  sha3Gas : 0 < schedule.sha3Gas
  logGas : 0 < schedule.logGas
  lookupGas : ∀ op, 0 < LegacyVM.lookupGas schedule op
  extcodecopyGas : 0 < schedule.extcodecopyGas
  sstoreSetGas : 0 < schedule.sstoreSetGas
  sstoreResetGas : 0 < schedule.sstoreResetGas
  sstoreUnchangedGas : 0 < schedule.sstoreUnchangedGas
  createGas : 0 < schedule.createGas
  callGas : 0 < schedule.callGas

theorem chargesAll_of_standard {schedule : VMSchedule} (h : schedule ∈ VMSchedule.standard) :
    ChargesAll schedule := by
  have hlookup : ∀ schedule ∈ VMSchedule.standard,
      0 < schedule.balanceGas ∧ 0 < schedule.extcodesizeGas ∧ 0 < schedule.extcodehashGas ∧
        0 < schedule.blockhashGas ∧ 0 < schedule.sloadGas := by decide
  constructor
  case lookupGas =>
    obtain ⟨hbalance, hsize, hhash, hblock, hslot⟩ := hlookup schedule h
    intro op
    cases op <;> assumption
  all_goals
    revert schedule
    decide

variable {vm : LegacyVM} {op : Instruction} {credit : Nat}

theorem ssGas_pos (h : ChargesAll vm.schedule) (answers : Answers) : 0 < (vm.ssGas answers).1 := by
  have hset := h.sstoreSetGas
  have hreset := h.sstoreResetGas
  have hunchanged := h.sstoreUnchangedGas
  unfold ssGas ssGasEIP1283 ssGasPreEIP1283
  split_ifs <;> assumption

/-- An instruction that does not end the frame costs more than what it grants. -/
theorem granted_lt_ownCost (hmoderate : Moderate vm.schedule) (h : ChargesAll vm.schedule)
    (hends : ends op = false) (answers : Answers) : vm.granted op < vm.ownCost op answers := by
  suffices hbase : vm.granted op < vm.basePrice op answers by
    unfold ownCost
    omega
  cases op with
  | stop | ret | revert | suicide | other => cases hends
  | exp => exact Nat.add_pos_left h.expGas _
  | sha3 => exact Nat.add_pos_left h.sha3Gas _
  | log topics => exact Nat.add_pos_left (Nat.add_pos_left h.logGas _) _
  | lookup op => exact h.lookupGas op
  | sstore => exact ssGas_pos h answers
  | copy op =>
    cases op with
    | extCode => exact h.extcodecopyGas
    | callData | code | returnData => exact Nat.succ_pos _
  | create salted => exact Nat.add_pos_left h.createGas _
  | call kind =>
    have hstipend := hmoderate.callStipend
    have hcall := h.callGas
    change vm.stipend kind < vm.callPrice kind answers
    unfold stipend callPrice
    split <;> omega
  | binary op =>
    change 0 < vm.schedule.tierStepGas (Instruction.binaryTier op)
    cases op <;> exact Nat.succ_pos _
  | jumpDest => exact Nat.one_pos
  | _ => exact Nat.succ_pos _

/-- What follows an instruction is covered, if there is one unit more than the gas
that can be left, and the rest of the run is covered from there. -/
theorem Performs.affords {k : LegacyVM → Script} {run : Script}
    (h : Performs vm k op run) (hgas : vm.ioGas < 2 ^ 64)
    (hcredit : vm.ioGas + vm.returnable op < credit)
    (hk : ∀ vm' rest, vm.Follows op vm' → vm'.ioGas ≤ vm.ioGas + vm.returnable op →
      vm'.ioGas < rest → (k vm').Affords rest) :
    run.Affords credit := by
  have hleft : vm.gasLeft.toNat ≤ credit := (Nat.mod_le _ _).trans (by omega)
  cases h with
  | returned | reverted | suicide => exact hleft
  | failed => trivial
  | next hfollows hsame | setStore _ _ hfollows hsame | log _ _ hfollows hsame =>
    exact hk _ _ hfollows (by omega) (by omega)
  | query _ hfollows hsame | codeAt _ hfollows hsame =>
    intro answer
    have hsame := hsame answer
    exact hk _ _ (hfollows answer) (by omega) (by omega)
  | call a data _ hfollows hnone hsome =>
    have hreturnable : vm.callGas.toNat ≤ credit := (Nat.le_add_left _ _).trans hcredit.le
    change vm.ioGas + vm.callGas.toNat < credit at hcredit
    refine ⟨hreturnable, ?_, fun result hresult => ?_⟩
    · have hafter : _ ≤ vm.ioGas + vm.callGas.toNat :=
        hnone.trans_le ((u64_le _).trans (Nat.add_le_add_left (u64_le _) _))
      exact hk _ _ (hfollows none) hafter (by omega)
    · have hback : result.gas.toNat ≤ vm.callGas.toNat := hresult
      have hafter : _ ≤ vm.ioGas + result.gas.toNat :=
        (hsome result).trans_le ((u64_le _).trans (Nat.add_le_add_left (u64_le _) _))
      refine hk _ _ (hfollows (some result)) (hafter.trans (Nat.add_le_add_left hback _)) ?_
      omega
  | create salt endowment init hfollows hnone hsome =>
    have hcreate := createGas_le vm
    change vm.ioGas < credit at hcredit
    refine ⟨by rw [toNat_createGas hgas]; omega, ?_, fun result hresult => ?_⟩
    · exact hk _ _ (hfollows none) (by omega) (by omega)
    · have hafter := gas_after_create_le hgas hresult
      rw [← hsome] at hafter
      have hback : result.gas.toNat ≤ vm.createGas := toNat_createGas hgas ▸ hresult
      rw [toNat_createGas hgas]
      exact hk _ _ (hfollows (some result)) (by omega) (by omega)

/-- The end of a frame hands back the gas that is left. -/
theorem perform_affords_of_ends [Keccak] (vm : LegacyVM) (k : LegacyVM → Script)
    (hends : ends op = true) (hcredit : vm.ioGas ≤ credit) : (vm.perform op k).Affords credit := by
  have hleft : vm.gasLeft.toNat ≤ credit := (Nat.mod_le _ _).trans hcredit
  cases op with
  | stop | ret | revert | suicide => exact hleft
  | other opcode => trivial
  | _ => cases hends

/-- A round of the interpreter takes one unit of credit, and every round costs
gas that follows. -/
theorem step_affords [Keccak] (hschedule : vm.schedule ∈ VMSchedule.standard)
    (hgas : vm.ioGas < 2 ^ 64) {k : LegacyVM → Script} (hcredit : vm.ioGas < credit)
    (hk : ∀ vm' rest, vm'.schedule = vm.schedule → vm'.ioGas < vm.ioGas → vm'.ioGas < rest →
      (k vm').Affords rest) :
    (vm.step k).Affords credit := by
  have hmoderate : Moderate vm.fetched.schedule := moderate_of_standard hschedule
  obtain ⟨rest, rfl⟩ : ∃ rest, credit = rest + 1 := ⟨credit - 1, by omega⟩
  have hinterpret : (vm.fetched.interpret vm.instruction k).Affords rest := by
    refine interpret_of_perform (fun _ => trivial) (fun _ _ hnext => hnext)
      (fun _ _ _ hnext => hnext) fun _ answers charged hmeter => ?_
    have hcharged := meter_charges hmoderate (fetched_fetched vm) answers
    rw [hmeter] at hcharged
    have hpayment : charged.ioGas + _ = vm.ioGas := hcharged.gas
    cases hends : ends vm.instruction with
    | true => exact perform_affords_of_ends charged k hends (by omega)
    | false =>
      have hcost := granted_lt_ownCost hmoderate (chargesAll_of_standard hschedule) hends answers
      have hback := meter_returnable hmoderate (fetched_fetched vm) hmeter
      change _ = vm.ioGas + _ at hback
      refine (perform_performs charged k vm.instruction).affords (by omega) (by omega) ?_
      intro vm' rest' hfollows hafter hrest
      exact hk vm' rest' (hfollows.schedule.trans hcharged.schedule) (by omega) hrest
  obtain ⟨next, hstep, hnext⟩ := step_of_interpret (fun _ => trivial) hinterpret
  rw [hstep]
  exact ⟨rest, rfl, hnext⟩

/-- A run of the interpreter, by induction on the rounds: each of them that is not
the last one costs gas. -/
theorem interpretCases_affords [Keccak] {rounds : Nat}
    (hschedule : vm.schedule ∈ VMSchedule.standard) (hgas : vm.ioGas < 2 ^ 64)
    (hrounds : vm.ioGas < rounds) (hcredit : vm.ioGas < credit) :
    (interpretCases rounds vm).Affords credit := by
  induction rounds generalizing vm credit with
  | zero => omega
  | succ rounds ih =>
    refine step_affords hschedule hgas hcredit fun vm' rest heq hless hrest => ?_
    exact ih (heq ▸ hschedule) (by omega) (by omega) hrest

/-- A frame runs with the schedule of the block, or with the latest one for the version of
its account. -/
theorem exec_affords [Keccak] (config : VMConfig) (block : BlockWords) {current : VMSchedule}
    (hcurrent : current ∈ VMSchedule.standard) (ext : Ext) (gas : U256) :
    (exec config block current.forVersion ext gas).Affords (gas.toNat + 1) := by
  refine interpretCases_affords (VMSchedule.forVersion_standard hcurrent ext.version) (u64_lt _)
    (Nat.lt_succ_self _) ?_
  exact Nat.lt_succ_of_le (u64_le _)

/-- The interpreter hands back no more gas than it got. -/
theorem exec_frugal [Keccak] (machine : Machine) (config : VMConfig) (block : BlockWords)
    {current : VMSchedule} (hcurrent : current ∈ VMSchedule.standard) :
    (machine.running (exec config block current.forVersion)).Frugal := by
  intro ext gas
  obtain ⟨rest, hrest, hnext⟩ := exec_affords config block hcurrent ext gas
  exact hnext.gasAtMost (by omega)

/-! ## What a frame gives away -/

/-- A call gets at most all but one 64th of the gas that is left after its price,
and the stipend, which the price of a transfer covers. A creation gets all but one
64th. -/
structure SharesGas [Keccak] (vm : LegacyVM) : Prop where
  call : ∀ {kind answers charged}, vm.instruction = .call kind →
    vm.attempt answers = .ok charged → ∀ k, ∃ codeAddress value gas data next,
      charged.perform (.call kind) k = .call kind codeAddress value gas data next ∧
      vm.ownCost (.call kind) answers ≤ vm.ioGas ∧
      gas.toNat ≤ (vm.ioGas - vm.ownCost (.call kind) answers) -
        (vm.ioGas - vm.ownCost (.call kind) answers) / 64 + vm.stipend kind
  stipend : ∀ kind, vm.stipend kind =
    if vm.transfersValue kind then 2300 else 0
  transfer : 2300 ≤ vm.schedule.callValueTransferGas
  create : ∀ {salted answers charged}, vm.instruction = .create salted →
    vm.attempt answers = .ok charged → ∀ k, ∃ salt endowment gas init next,
      charged.perform (.create salted) k = .create salt endowment gas init next ∧
      charged.ioGas = vm.ioGas - vm.ownCost (.create salted) answers ∧
      gas.toNat = charged.ioGas - charged.ioGas / 64

/-- What an attempt to run an instruction charges. -/
theorem attempt_eq_ok {vm charged : LegacyVM} {answers : Answers}
    (h : vm.attempt answers = .ok charged) :
    vm.fetched.meter vm.instruction answers = .ok charged := by
  rw [← h]
  refine (attempt_of_not_refused answers ?_).symm
  unfold attempt at h
  unfold refused
  cases hfetch : vm.fetchInstruction with
  | error e => simp [hfetch, bind, Except.bind] at h
  | ok result =>
    rw [hfetch] at h
    change result.2.reject result.1 = none
    cases hreject : result.2.reject result.1 with
    | none => rfl
    | some e => simp [hreject, bind, Except.bind] at h

theorem sharesGas_of_inForce [Keccak] (h : vm.schedule ∈ VMSchedule.inForce)
    (hgas : vm.ioGas < 2 ^ 64) : vm.SharesGas := by
  have hmoderate : Moderate vm.fetched.schedule :=
    moderate_of_standard (VMSchedule.standard_of_inForce h)
  have hprices : vm.schedule.staticCallDepthLimit = false ∧ vm.schedule.callStipend = 2300 ∧
      2300 ≤ vm.schedule.callValueTransferGas := by
    revert h
    generalize vm.schedule = schedule
    revert schedule
    decide +kernel
  obtain ⟨hlimit, hstipend, htransfer⟩ := hprices
  have hcharges : ∀ {answers charged}, vm.attempt answers = .ok charged →
      vm.fetched.Charged (vm.fetched.cost vm.instruction answers)
        (vm.fetched.memNeeded vm.instruction) charged := by
    intro answers charged hattempt
    have hcharges := meter_charges hmoderate (fetched_fetched vm) answers
    rwa [attempt_eq_ok hattempt] at hcharges
  refine ⟨?_, fun kind => ?_, htransfer, ?_⟩
  · intro kind answers charged hop hattempt k
    have hcharged := hcharges hattempt
    have hmeter := attempt_eq_ok hattempt
    rw [hop] at hcharged hmeter
    have hcallGas := meterCall_callGas hmoderate rfl hmeter
    have hcost := hcharged.gas
    refine ⟨_, _, _, _, _, rfl, ?_, ?_⟩
    · change _ + (vm.ownCost (.call kind) answers + _) = vm.ioGas at hcost
      omega
    · rw [hcallGas]
      change (if vm.schedule.staticCallDepthLimit then _ else min _ _) + vm.stipend kind ≤ _
      rw [hlimit]
      exact Nat.add_le_add_right (min_le_right _ _) _
  · unfold stipend
    rw [hstipend]
  · intro salted answers charged hop hattempt k
    have hcharged := hcharges hattempt
    rw [hop] at hcharged
    have hcost : charged.ioGas + vm.ownCost (.create salted) answers = vm.ioGas := hcharged.gas
    refine ⟨_, _, _, _, _, rfl, by omega, ?_⟩
    rw [toNat_createGas (by omega)]
    unfold createGas
    rw [hcharged.schedule]
    change (if vm.schedule.staticCallDepthLimit then _ else _) = _
    rw [hlimit]
    rfl

end LegacyVM

end Skaled
