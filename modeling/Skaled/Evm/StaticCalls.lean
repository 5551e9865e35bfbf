import Skaled.Evm.Metering

/-! # Static calls

A static frame only reads the state, whatever its code is, and the frames that it
calls are static again.
-/

namespace Skaled

/-- Whatever it is answered, a script of a frame asks for no change of the state, and
its calls are static. Money goes from an account to itself at most. -/
def Script.OnlyReads (ext : Ext) : Script → Prop
  | .setStore .. | .log .. | .refund .. | .suicide .. | .create .. => False
  | .instruction next => next.OnlyReads ext
  | .query _ next => ∀ answer, (next answer).OnlyReads ext
  | .codeAt _ next => ∀ answer, (next answer).OnlyReads ext
  | .call kind a value gas data next =>
    let p := ext.callParameters kind a value gas data
    p.staticCall = true ∧ (p.valueTransfer ≠ 0 → p.receiveAddress = p.senderAddress) ∧
      ∀ answer, (next answer).OnlyReads ext
  | _ => True

namespace LegacyVM

variable {vm : LegacyVM} {op : Instruction} {k : LegacyVM → Script} {run : Script} {ext : Ext}

theorem Performs.onlyReads (h : Performs vm k op run) (hop : vm.changesState op = false)
    (hstatic : ext.staticCall = true) (hk : ∀ vm', vm.Follows op vm' → (k vm').OnlyReads ext) :
    run.OnlyReads ext := by
  cases h with
  | returned | reverted | failed => trivial
  | next hfollows => exact hk _ hfollows
  | query _ hfollows | codeAt _ hfollows => exact fun answer => hk _ (hfollows answer)
  | setStore | log | suicide | create => cases hop
  | @call kind a value data next hvalue hfollows =>
    refine ⟨by simp [Ext.callParameters, hstatic], ?_, fun answer => hk _ (hfollows answer)⟩
    cases kind <;> simp_all [Ext.callParameters, transfersValue, changesState]

/-- A round of the interpreter refuses what would change the state, and it leaves the
frame as it is. -/
theorem step_onlyReads [Keccak] (hschedule : vm.schedule ∈ VMSchedule.standard)
    (hext : vm.ext = ext) (hstatic : ext.staticCall = true)
    (hk : ∀ vm', vm'.schedule = vm.schedule → vm'.ext = ext → (k vm').OnlyReads ext) :
    (vm.step k).OnlyReads ext := by
  have hinterpret : (vm.fetched.interpret vm.instruction k).OnlyReads ext := by
    cases hreject : vm.fetched.reject vm.instruction with
    | some e => simp [interpret, hreject, Script.OnlyReads]
    | none =>
      have hop : vm.fetched.changesState vm.instruction = false := by
        unfold reject at hreject
        split_ifs at hreject with _ hchanges
        exact Bool.eq_false_iff.mpr fun hop => hchanges ⟨hext ▸ hstatic, hop⟩
      -- there is no refund, since `SSTORE` is refused
      refine interpret_of_perform (fun _ => trivial) (fun _ _ hnext => hnext)
        (fun hsstore => by cases hsstore ▸ hop) fun _ answers charged hmeter => ?_
      have hcharged := @meter_charges vm.fetched (moderate_of_standard hschedule) _
        (fetched_fetched vm) answers
      rw [hmeter] at hcharged
      refine (perform_performs charged k _).onlyReads ?_ hstatic fun vm' hfollows => hk vm' ?_ ?_
      · unfold changesState at hop ⊢
        rwa [hcharged.sp]
      · exact hfollows.schedule.trans hcharged.schedule
      · exact (hfollows.ext.trans hcharged.ext).trans hext
  obtain ⟨next, hstep, hnext⟩ := step_of_interpret (fun _ => trivial) hinterpret
  rw [hstep]
  exact hnext

theorem interpretCases_onlyReads [Keccak] (rounds : Nat)
    (hschedule : vm.schedule ∈ VMSchedule.standard) (hext : vm.ext = ext)
    (hstatic : ext.staticCall = true) : (interpretCases rounds vm).OnlyReads ext := by
  induction rounds generalizing vm with
  | zero => trivial
  | succ rounds ih =>
    exact step_onlyReads hschedule hext hstatic fun _ hsame => ih (hsame ▸ hschedule)

/-- No code changes the state in a static frame. -/
theorem exec_static_onlyReads [Keccak] (config : VMConfig) (block : BlockWords)
    (schedule : U256 → { schedule // schedule ∈ VMSchedule.standard }) (ext : Ext) (gas : U256) :
    (exec config block (fun version => schedule version) { ext with staticCall := true }
      gas).OnlyReads { ext with staticCall := true } :=
  interpretCases_onlyReads _ (schedule _).2 rfl rfl

end LegacyVM

end Skaled
