import Skaled.Evm.Steps

/-! # What instructions cost

The price of an instruction over all integers, and the interpreter's computation
of it with 64 bits. The memory of a frame was paid for with the gas of the
frame. So a price of memory that does not fit into 63 bits cannot be paid, and
below that no sum of prices wraps around.
-/

namespace Skaled.LegacyVM

/-! ## Prices over all integers -/

/-- The number of words that hold some bytes. -/
def words (bytes : Nat) : Nat := (bytes + 31) / 32

def memCost (schedule : VMSchedule) (words : Nat) : Nat :=
  schedule.memoryGas * words + words * words / schedule.quadCoeffDiv

/-- The price of extending the memory. -/
def expansionCost (vm : LegacyVM) (need : Nat) : Nat :=
  memCost vm.schedule (max (words need) (vm.mem.length / 32)) -
    memCost vm.schedule (vm.mem.length / 32)

/-- The number of bytes that are copied. -/
def copied (vm : LegacyVM) : Instruction → Nat
  | .copy .extCode => (vm.sp 3).toNat
  | .copy _ => (vm.sp 2).toNat
  | _ => 0

/-- The price of a call apart from memory and the gas that it gives away. -/
def callPrice (vm : LegacyVM) (kind : CallKind) (answers : Answers) : Nat :=
  vm.schedule.callGas +
    (if kind = .call ∧ vm.chargesNewAccount ∧ !answers.accountExists then
      vm.schedule.callNewAccountGas else 0) +
    if vm.transfersValue kind then vm.schedule.callValueTransferGas else 0

/-- The price of an instruction apart from memory, copied bytes and gas that is
given away. -/
def basePrice (vm : LegacyVM) (op : Instruction) (answers : Answers) : Nat :=
  match op with
  | .exp => vm.schedule.expGas + vm.schedule.expByteGas * (32 - firstBitSet (vm.sp 1) / 8)
  | .sha3 => vm.schedule.sha3Gas + words (vm.sp 1).toNat * vm.schedule.sha3WordGas
  | .log topics => vm.schedule.logGas + vm.schedule.logTopicGas * topics +
      vm.schedule.logDataGas * (vm.sp 1).toNat
  | .lookup op => lookupGas vm.schedule op
  | .copy .extCode => vm.schedule.extcodecopyGas
  | .sstore => (vm.ssGas answers).1
  | .suicide => vm.schedule.suicideGas +
      if vm.paysNewAccount answers then vm.schedule.callNewAccountGas else 0
  | .jumpDest => 1
  | .create salted => vm.schedule.createGas +
      if salted then words (vm.sp 2).toNat * vm.schedule.sha3WordGas else 0
  | .call kind => vm.callPrice kind answers
  | op => vm.schedule.tierStepGas op.metric.gasPriceTier

/-- The price of an instruction apart from gas that is given away. -/
def ownCost (vm : LegacyVM) (op : Instruction) (answers : Answers) : Nat :=
  vm.basePrice op answers + vm.expansionCost (vm.memNeeded op) +
    vm.schedule.copyGas * words (vm.copied op)

/-- What a call gives away of the gas that is left. -/
def forwarded (vm : LegacyVM) (left : Nat) : Nat :=
  if vm.schedule.staticCallDepthLimit then (vm.sp 0).toNat
  else min (vm.sp 0).toNat (left - left / 64)

def cost (vm : LegacyVM) (op : Instruction) (answers : Answers) : Nat :=
  match op with
  | .call _ => vm.ownCost op answers + vm.forwarded (vm.ioGas - vm.ownCost op answers)
  | op => vm.ownCost op answers

/-! ## The standard schedules -/

/-- The facts about prices that rule out a carry. -/
structure Moderate (schedule : VMSchedule) : Prop where
  memoryGas : schedule.memoryGas = 3
  quadCoeffDiv : schedule.quadCoeffDiv = 512
  copyGas : schedule.copyGas = 3
  sha3WordGas : schedule.sha3WordGas = 6
  expGas : schedule.expGas + schedule.expByteGas * 32 < 2 ^ 32
  logGas : schedule.logGas + schedule.logTopicGas * 4 < 2 ^ 32
  sha3Gas : schedule.sha3Gas < 2 ^ 32
  lookupGas : ∀ op, LegacyVM.lookupGas schedule op < 2 ^ 32
  extcodecopyGas : schedule.extcodecopyGas < 2 ^ 32
  sstoreSetGas : schedule.sstoreSetGas < 2 ^ 32
  sstoreResetGas : schedule.sstoreResetGas < 2 ^ 32
  sstoreUnchangedGas : schedule.sstoreUnchangedGas < 2 ^ 32
  suicideGas : schedule.suicideGas < 2 ^ 32
  createGas : schedule.createGas < 2 ^ 32
  callGas : schedule.callGas < 2 ^ 32
  callNewAccountGas : schedule.callNewAccountGas < 2 ^ 32
  callValueTransferGas : schedule.callValueTransferGas < 2 ^ 32
  callStipend : schedule.callStipend ≤ schedule.callValueTransferGas

theorem moderate_of_standard {schedule : VMSchedule} (h : schedule ∈ VMSchedule.standard) :
    Moderate schedule := by
  have hlookup : ∀ schedule ∈ VMSchedule.standard,
      schedule.balanceGas < 2 ^ 32 ∧ schedule.extcodesizeGas < 2 ^ 32 ∧
        schedule.extcodehashGas < 2 ^ 32 ∧ schedule.blockhashGas < 2 ^ 32 ∧
        schedule.sloadGas < 2 ^ 32 := by decide
  constructor
  case lookupGas =>
    obtain ⟨hbalance, hsize, hhash, hblock, hslot⟩ := hlookup schedule h
    intro op
    cases op
    · exact hbalance
    · exact hsize
    · exact hhash
    · exact hblock
    · exact hslot
  all_goals
    revert schedule
    decide

theorem tierStepGas_le (schedule : VMSchedule) (tier : Tier) : schedule.tierStepGas tier ≤ 20 := by
  cases tier <;> simp [VMSchedule.tierStepGas]

/-! ## Memory -/

/-- The memory consists of whole words, and with the gas that is left it stays
below 2 ^ 63. -/
structure Paid (vm : LegacyVM) : Prop where
  whole : vm.mem.length % 32 = 0
  gas : memCost vm.schedule (vm.mem.length / 32) + vm.ioGas < 2 ^ 63

theorem memCost_mono (schedule : VMSchedule) {m n : Nat} (h : m ≤ n) :
    memCost schedule m ≤ memCost schedule n :=
  Nat.add_le_add (Nat.mul_le_mul_left _ h) (Nat.div_le_div_right (Nat.mul_le_mul h h))

variable {need copyMemSize price : Nat}

/-- A memory that needs 2 ^ 63 bytes cannot be paid for. -/
theorem memCost_large {schedule : VMSchedule} (hmoderate : Moderate schedule)
    (hneed : 2 ^ 63 ≤ need) : 2 ^ 63 ≤ memCost schedule (words need) := by
  have hwords : 2 ^ 58 ≤ words need := by
    unfold words
    omega
  calc 2 ^ 63 ≤ memCost schedule (2 ^ 58) := by
        rw [memCost, hmoderate.memoryGas, hmoderate.quadCoeffDiv]
        norm_num
    _ ≤ memCost schedule (words need) := memCost_mono schedule hwords

variable {vm vm' : LegacyVM} {runGas : Nat}

theorem expansionCost_of_large (hpaid : vm.Paid)
    (hlarge : 2 ^ 63 ≤ memCost vm.schedule (words need)) : vm.ioGas < vm.expansionCost need := by
  have hmax : memCost vm.schedule (words need) ≤
      memCost vm.schedule (max (words need) (vm.mem.length / 32)) :=
    memCost_mono _ (le_max_left _ _)
  have hgas := hpaid.gas
  unfold expansionCost
  omega

theorem toInt63_of_lt {v : Nat} (h : v < 2 ^ 63) : toInt63 v = .ok v :=
  if_neg (by norm_num at h; omega)

theorem toInt63_of_le {v : Nat} (h : 2 ^ 63 ≤ v) : toInt63 v = .error .outOfGas :=
  if_pos (by norm_num at h; omega)

/-! ## Charging -/

/-- The interpreter after a charge: the gas is less by the price, and the memory
is as large as it needs to be. -/
structure Charged (vm : LegacyVM) (price need : Nat) (vm' : LegacyVM) : Prop where
  gas : vm'.ioGas + price = vm.ioGas
  memory : vm'.mem.length = max (words need * 32) vm.mem.length
  ext : vm'.ext = vm.ext
  schedule : vm'.schedule = vm.schedule
  stack : vm'.stack = vm.stack

/-- A charge of exactly a price. If the memory is paid for, then it fails only
where the price exceeds the gas. -/
def Charges (vm : LegacyVM) (price need : Nat) : Except VMException LegacyVM → Prop
  | .ok vm' => vm.Charged price need vm'
  | .error e => e = .outOfGas ∧ (vm.Paid → vm.ioGas < price)

@[simp] theorem words_zero : words 0 = 0 := rfl

@[simp] theorem expansionCost_zero (vm : LegacyVM) : vm.expansionCost 0 = 0 := by
  simp [expansionCost]

theorem expansionCost_of_le (h : words need * 32 ≤ vm.mem.length) : vm.expansionCost need = 0 := by
  have hwords : words need ≤ vm.mem.length / 32 := (Nat.le_div_iff_mul_le (by norm_num)).2 h
  rw [expansionCost, max_eq_right hwords, Nat.sub_self]

theorem expansionCost_of_lt (h : vm.mem.length < words need * 32) :
    vm.expansionCost need =
      memCost vm.schedule (words need) - memCost vm.schedule (vm.mem.length / 32) := by
  have hwords : vm.mem.length / 32 ≤ words need := by omega
  rw [expansionCost, max_eq_left hwords]

theorem updateIOGas_charges (vm : LegacyVM) (runGas : Nat) :
    vm.Charges (runGas + vm.expansionCost 0 + vm.schedule.copyGas * words 0) 0
      (vm.withRunGas runGas).updateIOGas := by
  rw [expansionCost_zero, words_zero, Nat.mul_zero, Nat.add_zero]
  unfold updateIOGas withRunGas
  split
  next hless => exact ⟨rfl, fun _ => hless⟩
  next hless =>
    refine ⟨Nat.sub_add_cancel (Nat.le_of_not_lt hless), ?_, rfl, rfl, rfl⟩
    rw [words_zero, Nat.zero_mul, Nat.zero_max]

/-- The price of memory in `updateGas`. -/
theorem addMemoryGas_eq (hsize : vm.newMemSize = words need * 32) (hrun : vm.runGas ≤ 2 ^ 63) :
    vm.addMemoryGas =
      if vm.mem.length < words need * 32 ∧ 2 ^ 63 ≤ memCost vm.schedule (words need) then
        .error .outOfGas
      else .ok { vm with runGas := vm.runGas + vm.expansionCost need } := by
  have hfor : ∀ size, gasForMem vm.schedule size = toInt63 (memCost vm.schedule (size / 32)) :=
    fun _ => rfl
  have hnew : vm.newMemSize / 32 = words need := by omega
  unfold addMemoryGas
  by_cases hgrows : vm.mem.length < words need * 32
  · rw [if_pos (hsize ▸ hgrows), hfor, hfor, hnew]
    by_cases hlarge : 2 ^ 63 ≤ memCost vm.schedule (words need)
    · rw [toInt63_of_le hlarge, if_pos ⟨hgrows, hlarge⟩]
      rfl
    · have hbefore : memCost vm.schedule (vm.mem.length / 32) ≤ memCost vm.schedule (words need) :=
        memCost_mono _ (by omega)
      have hmore : u64 (memCost vm.schedule (words need) +
          (2 ^ 64 - memCost vm.schedule (vm.mem.length / 32))) = vm.expansionCost need := by
        rw [expansionCost_of_lt hgrows, u64]
        omega
      have hexpansion : vm.expansionCost need < 2 ^ 63 := by
        rw [expansionCost_of_lt hgrows]
        omega
      rw [toInt63_of_lt (by omega), toInt63_of_lt (by omega), if_neg (by tauto)]
      change (toInt63 (u64 _) >>= _) = _
      rw [hmore, toInt63_of_lt hexpansion, ← u64_of_lt (n := vm.runGas + vm.expansionCost need)
        (by omega)]
      rfl
  · rw [if_neg (hsize ▸ hgrows), if_neg (by tauto), expansionCost_of_le (Nat.le_of_not_lt hgrows)]
    rfl

theorem addCopyGas_eq (hcopy : vm.copyMemSize < 2 ^ 63)
    (hrun : vm.runGas + vm.schedule.copyGas * words vm.copyMemSize < 2 ^ 64) :
    vm.addCopyGas =
      { vm with runGas := vm.runGas + vm.schedule.copyGas * words vm.copyMemSize } := by
  have hwords : u64 (vm.copyMemSize + 31) / 32 = words vm.copyMemSize := by
    rw [u64_of_lt (by omega), words]
  have hprice : u64 (vm.schedule.copyGas * words vm.copyMemSize) =
      vm.schedule.copyGas * words vm.copyMemSize :=
    u64_of_lt (by omega)
  rw [addCopyGas, hwords, hprice, u64_of_lt hrun]

/-- What `updateGas` makes of the price so far: memory and copied bytes are added
to it. -/
def updatedPrice (vm : LegacyVM) (need : Nat) : Nat :=
  vm.runGas + vm.expansionCost need + vm.schedule.copyGas * words vm.copyMemSize

/-- No sum in `updateGas` wraps around, as long as the rest of the price has 63
bits. -/
theorem updateGas_eq {need : Nat} (hsize : vm.newMemSize = words need * 32)
    (hcopy : vm.copyMemSize < 2 ^ 63)
    (hrun : vm.runGas + vm.schedule.copyGas * words vm.copyMemSize ≤ 2 ^ 63) :
    vm.updateGas =
      if (vm.mem.length < words need * 32 ∧ 2 ^ 63 ≤ memCost vm.schedule (words need)) ∨
          vm.ioGas < vm.updatedPrice need then .error .outOfGas
      else .ok (vm.withRunGas (vm.updatedPrice need)) := by
  rw [updateGas, addMemoryGas_eq hsize (by omega)]
  by_cases hlarge : vm.mem.length < words need * 32 ∧ 2 ^ 63 ≤ memCost vm.schedule (words need)
  · rw [if_pos hlarge, if_pos (.inl hlarge)]
    rfl
  · have hexpansion : vm.expansionCost need < 2 ^ 63 := by
      by_cases hgrows : vm.mem.length < words need * 32
      · rw [expansionCost_of_lt hgrows]
        omega
      · rw [expansionCost_of_le (Nat.le_of_not_lt hgrows)]
        norm_num
    have hcopied : (vm.withRunGas (vm.runGas + vm.expansionCost need)).addCopyGas =
        vm.withRunGas (vm.updatedPrice need) :=
      addCopyGas_eq hcopy (by dsimp only [withRunGas]; omega)
    rw [if_neg hlarge]
    change (if (addCopyGas (vm.withRunGas _)).ioGas < (addCopyGas (vm.withRunGas _)).runGas
      then Except.error VMException.outOfGas else Except.ok (addCopyGas (vm.withRunGas _))) = _
    rw [hcopied]
    simp only [hlarge, false_or]
    rfl

/-- Memory is paid for at its price. -/
theorem payMem_charges (hneed : need < 2 ^ 63 + 32) (hcopy : vm.copyMemSize < 2 ^ 63)
    (hrun : vm.runGas + vm.schedule.copyGas * words vm.copyMemSize ≤ 2 ^ 63) :
    vm.Charges (vm.updatedPrice need) need (vm.payMem need) := by
  have hsize : u64 (u64 (need + 31) / 32 * 32) = words need * 32 := by
    unfold u64 words
    omega
  have hgas := @updateGas_eq { vm with newMemSize := words need * 32 } need rfl hcopy hrun
  rw [payMem, updateMem, hsize, hgas]
  split
  next hless =>
    refine ⟨rfl, fun hpaid => hless.elim (fun hlarge => ?_) id⟩
    have hexpansion := expansionCost_of_large hpaid hlarge.2
    unfold updatedPrice
    omega
  next hfits =>
    have hprice : ¬ vm.ioGas < vm.updatedPrice need := fun hless => hfits (.inr hless)
    change vm.Charges _ need (if vm.ioGas < vm.updatedPrice need then _ else _)
    rw [if_neg hprice]
    refine ⟨Nat.sub_add_cancel (Nat.le_of_not_lt hprice), ?_, rfl, rfl, rfl⟩
    simp only [resized, withRunGas, List.length_append, List.length_replicate]
    omega

/-- The interpreter with the parts of a price that `updateGas` adds to. -/
def priced (vm : LegacyVM) (runGas copyMemSize : Nat) : LegacyVM := { vm with runGas, copyMemSize }

theorem Charges.of_priced {x : Except VMException LegacyVM}
    (h : (vm.priced runGas copyMemSize).Charges price need x) : vm.Charges price need x := by
  cases x with
  | error e => exact ⟨h.1, fun hpaid => h.2 ⟨hpaid.whole, hpaid.gas⟩⟩
  | ok vm' => exact { h with }

/-- A failure for a price that needs more than 63 bits. -/
theorem outOfGas_charges (hprice : 2 ^ 63 ≤ price) : vm.Charges price need (.error .outOfGas) := by
  refine ⟨rfl, fun hpaid => ?_⟩
  have hgas := hpaid.gas
  omega

/-- A failure for memory that needs more than 63 bits. -/
theorem outOfMemory_charges (hmoderate : Moderate vm.schedule) (hneed : 2 ^ 63 ≤ need)
    (hprice : vm.expansionCost need ≤ price) : vm.Charges price need (.error .outOfGas) :=
  ⟨rfl, fun hpaid =>
    (expansionCost_of_large hpaid (memCost_large hmoderate hneed)).trans_le hprice⟩

/-- A number that needs more than 63 bits is a failure. -/
theorem toInt63_charges {v : Nat} {f : Nat → Except VMException LegacyVM}
    (hlarge : 2 ^ 63 ≤ v → vm.Charges price need (.error .outOfGas))
    (hf : v < 2 ^ 63 → vm.Charges price need (f v)) : vm.Charges price need (toInt63 v >>= f) := by
  rcases lt_or_ge v (2 ^ 63) with hv | hv
  · rw [toInt63_of_lt hv]
    exact hf hv
  · rw [toInt63_of_le hv]
    exact hlarge hv

theorem priced_charges (hneed : need < 2 ^ 63 + 32) (hcopy : copyMemSize < 2 ^ 63)
    (hrun : runGas + vm.schedule.copyGas * words copyMemSize ≤ 2 ^ 63) :
    vm.Charges (runGas + vm.expansionCost need + vm.schedule.copyGas * words copyMemSize) need
      ((vm.priced runGas copyMemSize).payMem need) :=
  .of_priced (payMem_charges hneed hcopy hrun)

/-- The memory of a word or a byte at a place. -/
theorem place_charges (hmoderate : Moderate vm.schedule) {runGas size : Nat}
    (place : U256) (hsize : size ≤ 32) (hrun : runGas ≤ 2 ^ 63) :
    vm.Charges (runGas + vm.expansionCost (place.toNat + size) + vm.schedule.copyGas * words 0)
      (place.toNat + size)
      (do (vm.priced runGas 0).payMem (u64 ((← toInt63 place.toNat) + size))) := by
  refine toInt63_charges (fun hplace => ?_) fun hplace => ?_
  · exact outOfMemory_charges hmoderate (by omega) (by omega)
  · rw [u64_of_lt (by omega)]
    exact priced_charges (by omega) (by norm_num) hrun

theorem memNeed_eq (offset size : U256) :
    memNeed offset size = toInt63 (rangeNeed offset size) := by
  unfold memNeed rangeNeed
  simp only [ne_eq, ite_not]

theorem size_le_rangeNeed (offset size : U256) : size.toNat ≤ rangeNeed offset size := by
  unfold rangeNeed
  split
  next hsize => simp [hsize]
  next => exact Nat.le_add_left _ _

/-- The memory of a range. -/
theorem range_charges (hmoderate : Moderate vm.schedule) {runGas copyMemSize : Nat}
    (offset size : U256) (hcopy : rangeNeed offset size < 2 ^ 63 → copyMemSize < 2 ^ 63)
    (hrun : rangeNeed offset size < 2 ^ 63 →
      runGas + vm.schedule.copyGas * words copyMemSize ≤ 2 ^ 63) :
    vm.Charges (runGas + vm.expansionCost (rangeNeed offset size) +
        vm.schedule.copyGas * words copyMemSize) (rangeNeed offset size)
      (do (vm.priced runGas copyMemSize).payMem (← memNeed offset size)) := by
  rw [memNeed_eq]
  refine toInt63_charges (fun hneed => ?_) fun hneed => ?_
  · exact outOfMemory_charges hmoderate hneed (by omega)
  · exact priced_charges (by omega) (hcopy hneed) (hrun hneed)

/-! ## Instructions -/

structure Fetched (vm : LegacyVM) (op : Instruction) : Prop where
  runGas : vm.runGas = vm.schedule.tierStepGas op.metric.gasPriceTier
  copyMemSize : vm.copyMemSize = 0
  topics : ∀ count, op = .log count → count ≤ 4

theorem copyVM_charges (hmoderate : Moderate vm.schedule) {op : CopyOp} (offset size : U256)
    (hgas : runGas = if op = .extCode then vm.schedule.extcodecopyGas else vm.runGas)
    (hrun : runGas < 2 ^ 32) :
    vm.Charges (runGas + vm.expansionCost (rangeNeed offset size) +
        vm.schedule.copyGas * words size.toNat) (rangeNeed offset size)
      (do let vm' ← vm.copyVM op size.toNat; vm'.payMem (← memNeed offset size)) := by
  have hcopy := size_le_rangeNeed offset size
  have hread : vm.copyVM op size.toNat =
      (do pure (vm.priced runGas (← toInt63 size.toNat))) := by
    subst hgas
    cases op with
    | extCode =>
      rw [if_pos rfl] at hrun
      rw [copyVM, if_pos rfl, toInt63_of_lt (hrun.trans (by norm_num))]
      rfl
    | callData | code | returnData => rfl
  rw [hread, bind_assoc]
  refine toInt63_charges (fun hsize => ?_) fun hsize => ?_
  · exact outOfMemory_charges hmoderate (by omega) (by omega)
  · refine range_charges hmoderate offset size (fun _ => hsize) fun _ => ?_
    rw [hmoderate.copyGas, words]
    omega

theorem withRunGas_eq_priced (hcopy : vm.copyMemSize = 0) (runGas : Nat) :
    vm.withRunGas runGas = vm.priced runGas 0 := by
  rw [priced, ← hcopy]
  rfl

/-- A price that is computed with 63 bits, and then a range of memory. -/
theorem rated_charges (hmoderate : Moderate vm.schedule) (runGas : Nat)
    (offset size : U256) (hcopy : vm.copyMemSize = 0) :
    vm.Charges (runGas + vm.expansionCost (rangeNeed offset size) + vm.schedule.copyGas * words 0)
      (rangeNeed offset size)
      (do let runGas ← toInt63 runGas; (vm.withRunGas runGas).payMem (← memNeed offset size)) := by
  refine toInt63_charges (fun hrun => outOfGas_charges (by omega)) fun hrun => ?_
  rw [withRunGas_eq_priced hcopy]
  exact range_charges hmoderate offset size (fun _ => by norm_num) fun _ => hrun.le

/-- A price that does not depend on memory. -/
theorem flat_charges (hrun : runGas < 2 ^ 63) :
    vm.Charges (runGas + vm.expansionCost 0 + vm.schedule.copyGas * words 0) 0
      (do (vm.withRunGas (← toInt63 runGas)).updateIOGas) := by
  rw [toInt63_of_lt hrun]
  exact updateIOGas_charges vm runGas

theorem ssGas_lt (hmoderate : Moderate vm.schedule) (answers : Answers) :
    (vm.ssGas answers).1 < 2 ^ 32 := by
  have hset := hmoderate.sstoreSetGas
  have hreset := hmoderate.sstoreResetGas
  have hunchanged := hmoderate.sstoreUnchangedGas
  unfold ssGas ssGasEIP1283 ssGasPreEIP1283
  split_ifs <;> assumption

/-- Memory stays paid for, if the gas is less by its price at least. -/
theorem Paid.extend (hpaid : vm.Paid)
    (hmemory : vm'.mem.length = max (words need * 32) vm.mem.length)
    (hschedule : vm'.schedule = vm.schedule)
    (hprice : vm'.ioGas + vm.expansionCost need ≤ vm.ioGas) : vm'.Paid := by
  have hwhole := hpaid.whole
  have hgas := hpaid.gas
  have hmem : vm'.mem.length / 32 = max (words need) (vm.mem.length / 32) := by
    rw [hmemory]
    omega
  refine ⟨by rw [hmemory]; omega, ?_⟩
  rw [hmem, hschedule]
  unfold expansionCost at hprice
  omega

theorem Charged.paid (h : vm.Charged price need vm') (hpaid : vm.Paid)
    (hprice : vm.expansionCost need ≤ price) : vm'.Paid :=
  hpaid.extend h.memory h.schedule (h.gas ▸ Nat.add_le_add_left hprice _)

/-- One charge after another. -/
theorem Charges.bind {more : Nat} {x : Except VMException LegacyVM}
    {f : LegacyVM → Except VMException LegacyVM} (hx : vm.Charges price need x)
    (hprice : vm.expansionCost need ≤ price)
    (hf : ∀ vm', vm.Charged price need vm' → vm'.Charges more 0 (f vm')) :
    vm.Charges (price + more) need (x >>= f) := by
  cases x with
  | error e => exact ⟨hx.1, fun hpaid => (hx.2 hpaid).trans_le (Nat.le_add_right _ _)⟩
  | ok vm' =>
    have hrest := hf vm' hx
    have hgas := hx.gas
    change vm.Charges (price + more) need (f vm')
    cases hlast : f vm' with
    | error e =>
      rw [hlast] at hrest
      refine ⟨hrest.1, fun hpaid => ?_⟩
      have hless := hrest.2 (hx.paid hpaid hprice)
      omega
    | ok last =>
      rw [hlast] at hrest
      have hmore := hrest.gas
      refine ⟨by omega, ?_, hrest.ext.trans hx.ext, hrest.schedule.trans hx.schedule,
        hrest.stack.trans hx.stack⟩
      rw [hrest.memory, hx.memory, words_zero, Nat.zero_mul, Nat.zero_max]

section

variable (hmoderate : Moderate vm.schedule)

include hmoderate

theorem meterCreate_charges (hcopy : vm.copyMemSize = 0) (salted : Bool) (answers : Answers) :
    vm.Charges (vm.ownCost (.create salted) answers) (vm.memNeeded (.create salted))
      (vm.meterCreate salted) := by
  have hcreate := hmoderate.createGas
  have hsize := size_le_rangeNeed (vm.sp 1) (vm.sp 2)
  obtain ⟨hashGas, hhash⟩ : ∃ hashGas, hashGas =
    if salted then words (vm.sp 2).toNat * vm.schedule.sha3WordGas else 0 := ⟨_, rfl⟩
  have hcost : vm.ownCost (.create salted) answers = vm.schedule.createGas + hashGas +
      vm.expansionCost (rangeNeed (vm.sp 1) (vm.sp 2)) + vm.schedule.copyGas * words 0 := by
    rw [hhash]
    rfl
  have hread : vm.createHashGas salted = toInt63 hashGas := by
    subst hhash
    cases salted <;> rfl
  rw [hcost, meterCreate, toInt63_of_lt (by omega), hread]
  refine toInt63_charges (fun hlarge => outOfGas_charges (by omega)) fun hfits => ?_
  rw [withRunGas_eq_priced hcopy, u64_of_lt (by omega)]
  refine range_charges hmoderate _ _ (fun _ => by norm_num) fun hneed => ?_
  -- a range below 2 ^ 63 bytes is hashed for less than six times 2 ^ 58
  have hwords : hashGas ≤ words (vm.sp 2).toNat * 6 := by
    rw [hhash, hmoderate.sha3WordGas]
    split <;> omega
  unfold words at hwords ⊢
  omega

theorem callRunGas_eq (kind : CallKind)
    (answers : Answers) : vm.callRunGas kind answers = .ok (vm.callPrice kind answers) := by
  have hcall := hmoderate.callGas
  have hnew := hmoderate.callNewAccountGas
  have htransfer := hmoderate.callValueTransferGas
  have hsum : ∀ new transfer, new < 2 ^ 32 → transfer < 2 ^ 32 →
      vm.schedule.callGas + new + transfer = u64 (u64 (vm.schedule.callGas + new) + transfer) := by
    intro new transfer hnew htransfer
    rw [u64_of_lt (n := vm.schedule.callGas + new) (by omega), u64_of_lt (by omega)]
  rw [callPrice, hsum _ _ (by split <;> omega) (by split <;> omega), callRunGas,
    toInt63_of_lt (hcall.trans (by norm_num)), toInt63_of_lt (hnew.trans (by norm_num)),
    toInt63_of_lt (htransfer.trans (by norm_num))]
  by_cases hcharges : kind = .call ∧ vm.chargesNewAccount ∧ !answers.accountExists
  · by_cases htransfers : vm.transfersValue kind
    · simp only [if_pos hcharges, if_pos htransfers]
      rfl
    · simp only [if_pos hcharges, if_neg htransfers]
      rfl
  · by_cases htransfers : vm.transfersValue kind
    · simp only [if_neg hcharges, if_pos htransfers]
      rfl
    · simp only [if_neg hcharges, if_neg htransfers]
      rfl

theorem callPrice_lt (kind : CallKind)
    (answers : Answers) : vm.callPrice kind answers < 2 ^ 34 := by
  have hcall := hmoderate.callGas
  have hnew := hmoderate.callNewAccountGas
  have htransfer := hmoderate.callValueTransferGas
  unfold callPrice
  split <;> split <;> omega

theorem payCall_charges (hcopy : vm.copyMemSize = 0) (kind : CallKind) (answers : Answers) :
    vm.Charges (vm.ownCost (.call kind) answers) (vm.memNeeded (.call kind))
      (vm.payCall kind answers) := by
  have hprice := callPrice_lt hmoderate kind answers
  unfold payCall
  dsimp only
  rw [callRunGas_eq hmoderate, memNeed_eq, memNeed_eq]
  have hfailed : 2 ^ 63 ≤ vm.memNeeded (.call kind) →
      vm.Charges (vm.ownCost (.call kind) answers) (vm.memNeeded (.call kind))
        (.error .outOfGas) := by
    intro hneed
    refine outOfMemory_charges hmoderate hneed ?_
    unfold ownCost
    omega
  refine toInt63_charges (fun hin => hfailed (hin.trans (le_max_left _ _))) fun hin => ?_
  refine toInt63_charges (fun hout => hfailed (hout.trans (le_max_right _ _))) fun hout => ?_
  have hneed : vm.memNeeded (.call kind) < 2 ^ 63 := max_lt hin hout
  have hsum : vm.callPrice kind answers + vm.schedule.copyGas * words 0 ≤ 2 ^ 63 := by
    rw [words_zero]
    omega
  rw [withRunGas_eq_priced hcopy]
  exact priced_charges (by omega) (Nat.two_pow_pos 63) hsum

end

theorem payCallGas_charges (vm : LegacyVM) (kind : CallKind) :
    vm.Charges vm.givenGas 0 (vm.payCallGas kind) := by
  unfold payCallGas
  dsimp only
  refine toInt63_charges outOfGas_charges fun hgiven => ?_
  have hcharges := updateIOGas_charges vm vm.givenGas
  rw [expansionCost_zero, words_zero, Nat.mul_zero, Nat.add_zero] at hcharges
  cases hpaid : (vm.withRunGas vm.givenGas).updateIOGas with
  | error e =>
    rw [hpaid] at hcharges
    exact hcharges
  | ok paid =>
    rw [hpaid] at hcharges
    exact { hcharges with }

theorem Charged.sp (h : vm.Charged price need vm') (i : Nat) : vm'.sp i = vm.sp i := by
  rw [LegacyVM.sp, LegacyVM.sp, h.stack]

theorem Charged.givenGas_eq (h : vm.Charged price need vm') :
    vm'.givenGas = vm.forwarded (vm.ioGas - price) := by
  have hgas : vm.ioGas - price = vm'.ioGas := Nat.sub_eq_of_eq_add h.gas.symm
  rw [givenGas, forwarded, h.schedule, h.sp, hgas]

theorem Charged.stipend_eq (h : vm.Charged price need vm') (kind : CallKind) :
    vm'.stipend kind = vm.stipend kind := by
  rw [stipend, stipend, transfersValue, transfersValue, h.schedule, h.sp]

section

variable (hmoderate : Moderate vm.schedule)

include hmoderate

theorem stipend_lt (kind : CallKind) : vm.stipend kind < 2 ^ 32 := by
  have hstipend := hmoderate.callStipend
  have htransfer := hmoderate.callValueTransferGas
  unfold stipend
  split <;> omega

theorem payCallGas_callGas {kind : CallKind} (hpay : vm.payCallGas kind = .ok vm') :
    vm'.callGas.toNat = vm.givenGas + vm.stipend kind := by
  have hstipend := stipend_lt hmoderate kind
  unfold payCallGas at hpay
  dsimp only at hpay
  by_cases hgiven : vm.givenGas < 2 ^ 63
  · rw [toInt63_of_lt hgiven] at hpay
    change ((vm.withRunGas vm.givenGas).updateIOGas >>= _) = Except.ok vm' at hpay
    have hcharges := updateIOGas_charges vm vm.givenGas
    cases hupdate : (vm.withRunGas vm.givenGas).updateIOGas with
    | error e => simp [hupdate, bind, Except.bind] at hpay
    | ok paid =>
      rw [hupdate] at hpay hcharges
      obtain rfl := Except.ok.inj hpay
      dsimp only
      rw [hcharges.stipend_eq, BitVec.toNat_ofNat, Nat.mod_eq_of_lt (by omega)]
  · rw [toInt63_of_le (Nat.le_of_not_lt hgiven)] at hpay
    exact absurd hpay (by simp [bind, Except.bind])

theorem meterCall_charges (hcopy : vm.copyMemSize = 0) (kind : CallKind) (answers : Answers) :
    vm.Charges (vm.cost (.call kind) answers) (vm.memNeeded (.call kind))
      (vm.meterCall kind answers) := by
  refine (payCall_charges hmoderate hcopy kind answers).bind ?_ fun vm' hcharged => ?_
  · unfold ownCost
    omega
  · rw [← hcharged.givenGas_eq]
    exact payCallGas_charges vm' kind

/-- What a call is given is what it was charged for and the stipend. -/
theorem meterCall_callGas (hcopy : vm.copyMemSize = 0) {kind : CallKind} {answers : Answers}
    (hmeter : vm.meterCall kind answers = .ok vm') :
    vm'.callGas.toNat =
      vm.forwarded (vm.ioGas - vm.ownCost (.call kind) answers) + vm.stipend kind := by
  have hcharges := payCall_charges hmoderate hcopy kind answers
  unfold meterCall at hmeter
  cases hpay : vm.payCall kind answers with
  | error e => simp [hpay, bind, Except.bind] at hmeter
  | ok paid =>
    rw [hpay] at hmeter hcharges
    have hgas := payCallGas_callGas (hcharges.schedule ▸ hmoderate) hmeter
    rw [hgas, hcharges.givenGas_eq, hcharges.stipend_eq]

/-- Every instruction is charged its price. -/
theorem meter_charges {op : Instruction} (hfetched : vm.Fetched op) (answers : Answers) :
    vm.Charges (vm.cost op answers) (vm.memNeeded op) (vm.meter op answers) := by
  have hcopy := hfetched.copyMemSize
  have hself : vm.priced vm.runGas 0 = vm := (withRunGas_eq_priced hcopy vm.runGas).symm
  have hrun : vm.runGas ≤ 20 := hfetched.runGas ▸ tierStepGas_le _ _
  have hplain := updateIOGas_charges vm vm.runGas
  have hwith : vm.withRunGas vm.runGas = vm := rfl
  rw [hwith, hfetched.runGas] at hplain
  cases op with
  | mload | mstore =>
    have hcharges := @place_charges vm hmoderate vm.runGas 32 (vm.sp 0) le_rfl (by omega)
    rw [hself, hfetched.runGas] at hcharges
    exact hcharges
  | mstore8 =>
    have hcharges := @place_charges vm hmoderate vm.runGas 1 (vm.sp 0) (by norm_num) (by omega)
    rw [hself, hfetched.runGas] at hcharges
    exact hcharges
  | sha3 => exact rated_charges hmoderate _ _ _ hcopy
  | log topics =>
    have htopics := hfetched.topics topics rfl
    have hlog := hmoderate.logGas
    have hexact : u32 (vm.schedule.logGas + vm.schedule.logTopicGas * topics) =
        vm.schedule.logGas + vm.schedule.logTopicGas * topics := by
      apply Nat.mod_eq_of_lt
      have := Nat.mul_le_mul_left vm.schedule.logTopicGas htopics
      omega
    rw [meter, hexact]
    exact rated_charges hmoderate _ _ _ hcopy
  | exp =>
    have hexp := hmoderate.expGas
    have hbits := Nat.mul_le_mul_left vm.schedule.expByteGas
      (Nat.sub_le 32 (firstBitSet (vm.sp 1) / 8))
    have hprice : vm.basePrice .exp answers < 2 ^ 32 := by
      unfold basePrice
      dsimp only
      omega
    have hexact : u32 (vm.basePrice .exp answers) = vm.basePrice .exp answers :=
      Nat.mod_eq_of_lt hprice
    change vm.Charges _ _
      (do (vm.withRunGas (← toInt63 (u32 (vm.basePrice .exp answers)))).updateIOGas)
    rw [hexact]
    exact flat_charges (hprice.trans (by norm_num))
  | lookup op => exact flat_charges ((hmoderate.lookupGas op).trans (by norm_num))
  | copy op =>
    cases op with
    | extCode =>
      exact copyVM_charges hmoderate (vm.sp 1) (vm.sp 3) rfl hmoderate.extcodecopyGas
    | callData | code | returnData =>
      exact copyVM_charges hmoderate (vm.sp 0) (vm.sp 2) hfetched.runGas.symm
        (show (3 : Nat) < 2 ^ 32 by norm_num)
  | sstore => exact flat_charges ((ssGas_lt hmoderate answers).trans (by norm_num))
  | suicide =>
    have hsuicide := hmoderate.suicideGas
    have hnew := hmoderate.callNewAccountGas
    rw [meter, toInt63_of_lt (by omega)]
    change vm.Charges _ _ (vm.withRunGas (u64 (vm.basePrice .suicide answers))).updateIOGas
    rw [u64_of_lt (by unfold basePrice; dsimp only; split <;> omega)]
    exact updateIOGas_charges vm _
  | jumpDest => exact updateIOGas_charges vm 1
  | ret | revert =>
    have hcharges := @range_charges vm hmoderate vm.runGas 0 (vm.sp 0) (vm.sp 1)
      (fun _ => by norm_num) (fun _ => by rw [words_zero]; omega)
    rw [hself, hfetched.runGas] at hcharges
    exact hcharges
  | create salted => exact meterCreate_charges hmoderate hcopy salted answers
  | call kind => exact meterCall_charges hmoderate hcopy kind answers
  | stop | unary op | binary op | ternary op | word op | selfBalance | callDataLoad | pop
  | jump | jumpi | push bytes | dup n | swap n | pushc | jumpc | jumpci | other opcode =>
    exact hplain

/-! ## Gas that comes back -/

/-- The gas that can come back to the interpreter. -/
def returnable (vm : LegacyVM) : Instruction → Nat
  | .call _ => vm.callGas.toNat
  | _ => 0

/-- The gas that is given on top of what was charged. -/
def granted (vm : LegacyVM) : Instruction → Nat
  | .call kind => vm.stipend kind
  | _ => 0

/-- If all gas comes back that can, then the price was `ownCost` less the stipend. -/
theorem meter_returnable {op : Instruction}
    (hfetched : vm.Fetched op) {answers : Answers} (hmeter : vm.meter op answers = .ok vm') :
    vm'.ioGas + vm'.returnable op + vm.ownCost op answers = vm.ioGas + vm.granted op := by
  have hcharged : vm.Charged (vm.cost op answers) (vm.memNeeded op) vm' := by
    have hcharges := meter_charges hmoderate hfetched answers
    rwa [hmeter] at hcharges
  have hgas := hcharged.gas
  unfold returnable granted cost at *
  cases op with
  | call kind =>
    have hcall := meterCall_callGas hmoderate hfetched.copyMemSize hmeter
    dsimp only at *
    omega
  | _ => exact hgas

theorem granted_le_basePrice
    (op : Instruction) (answers : Answers) : vm.granted op ≤ vm.basePrice op answers := by
  cases op with
  | call kind =>
    have hstipend := hmoderate.callStipend
    change vm.stipend kind ≤ vm.callPrice kind answers
    unfold stipend callPrice
    split <;> omega
  | _ => exact Nat.zero_le _

end

end Skaled.LegacyVM
