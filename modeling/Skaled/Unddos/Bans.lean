import Skaled.Unddos.Limits

/-! # The length of bans

A ban for everyone lasts until it expires. The ban of an origin is kept in the
record of its calls, which is dropped with the last call in it: it lasts as long
as one of the recorded calls is young enough.
-/

namespace Skaled.Unddos.Algorithm

variable {a : Algorithm} {c : Call} {origin : String} {banUntil : Int}

def BansOrigin (a : Algorithm) (c : Call) (length : Int) : Prop :=
  StartsBan (a.call c).1 ∧ ∃ tracked, (a.call c).2.trackedOrigins c.origin = some tracked ∧
    tracked.banUntil = c.ttmNow + length

def BansEveryone (a : Algorithm) (c : Call) (length : Int) : Prop :=
  StartsBan (a.call c).1 ∧ (a.call c).2.trackedGlobal.banUntil = c.ttmNow + length

/-- A call leaves the record of an origin whose ban is in force: one of the
recorded calls is not too old. -/
def Remembers (origin : String) (a : Algorithm) (c : Call) : Prop :=
  ∀ tracked, a.trackedOrigins origin = some tracked → tracked.InForce c.ttmNow →
    c.durationToPast = 0 ∨ ∃ ttm ∈ tracked.timeEntries, c.ttmNow - c.durationToPast ≤ ttm

def BannedUntil (a : Algorithm) (origin : String) (banUntil : Int) : Prop :=
  ∃ tracked, a.trackedOrigins origin = some tracked ∧ tracked.banUntil = banUntil

/-! ## One call -/

theorem kept_ne_nil {ttmNow ttm : Int} {durationToPast : Nat} {entries : List Int}
    (hmem : ttm ∈ entries) (h : ttmNow - durationToPast ≤ ttm) :
    kept ttmNow durationToPast entries ≠ [] := by
  intro hempty
  have hsingle : [ttm].Sublist (kept ttmNow durationToPast entries) := by
    apply sublist_kept (List.singleton_sublist.mpr hmem)
    intro ttm' hmem'
    rw [List.mem_singleton.mp hmem']
    exact h
  rw [hempty] at hsingle
  cases hsingle

/-- Dropping old calls leaves the ban of a record that is remembered. -/
theorem BannedUntil.admitted (h : BannedUntil a origin banUntil) (hne : banUntil ≠ 0)
    (hle : c.ttmNow ≤ banUntil) (hremembers : Remembers origin a c) :
    BannedUntil (a.admitted c) origin banUntil := by
  obtain ⟨tracked, hsome, rfl⟩ := h
  refine ⟨{ tracked with timeEntries := kept c.ttmNow c.durationToPast tracked.timeEntries }, ?_,
    rfl⟩
  unfold Algorithm.admitted
  rw [unload_trackedOrigins, hsome, Option.map_some, Option.filter_some_pos]
  rw [decide_eq_true_eq]
  rcases hremembers tracked hsome ⟨hne, hle⟩ with hzero | ⟨ttm, hmem, hrecent⟩
  · exact .inl hzero
  · exact .inr (kept_ne_nil hmem hrecent)

theorem BannedUntil.setOrigin_of_ne {origin' : String} (h : BannedUntil a origin banUntil)
    (hne : origin ≠ origin') (tracked : TrackedOrigin) :
    BannedUntil (a.setOrigin origin' tracked) origin banUntil := by
  obtain ⟨record, hsome, huntil⟩ := h
  refine ⟨record, ?_, huntil⟩
  change Function.update a.trackedOrigins origin' (some tracked) origin = _
  rw [Function.update_of_ne hne, hsome]

theorem bannedUntil_setOrigin (a : Algorithm) (origin : String) (tracked : TrackedOrigin) :
    BannedUntil (a.setOrigin origin tracked) origin tracked.banUntil :=
  ⟨tracked, Function.update_self .., rfl⟩

section

variable (h : BannedUntil a origin banUntil) (henabled : a.settings.enabled = true)
  (hne : banUntil ≠ 0)

include h henabled hne

/-- A banned origin stays banned until its ban expires, and is told so. -/
theorem BannedUntil.call (hle : c.ttmNow ≤ banUntil) (hremembers : Remembers origin a c)
    (hnamed : c.origin ≠ "") :
    BannedUntil (a.call c).2 origin banUntil ∧ (c.origin = origin → (a.call c).1 = .ban) := by
  have hadmitted := h.admitted hne hle hremembers
  -- what is recorded of the origin if it makes the call
  have hrecord : ∀ {tracked}, (a.admitted c).trackedOrigins c.origin = some tracked →
      c.origin = origin → tracked.banUntil = banUntil := by
    intro tracked hsome heq
    obtain ⟨record, hrecord, huntil⟩ := hadmitted
    rw [← heq, hsome] at hrecord
    cases hrecord
    exact huntil
  have hother : ∀ {tracked}, (a.admitted c).trackedOrigins c.origin = some tracked →
      ¬ tracked.InForce c.ttmNow → c.origin ≠ origin := by
    intro tracked hsome hunbanned heq
    have huntil := hrecord hsome heq
    exact hunbanned ⟨huntil ▸ hne, huntil ▸ hle⟩
  have houtcome := call_outcome henabled hnamed
  generalize a.call c = r at houtcome
  cases houtcome with
  | everyoneBanned => exact ⟨h, fun _ => rfl⟩
  | fresh _ hnone =>
    have hother : origin ≠ c.origin := by
      rintro rfl
      obtain ⟨record, hrecord, -⟩ := hadmitted
      rw [hnone] at hrecord
      cases hrecord
    exact ⟨hadmitted.setOrigin_of_ne hother _, fun heq => absurd heq.symm hother⟩
  | originBanned _ tracked hsome =>
    refine ⟨?_, fun _ => rfl⟩
    by_cases heq : c.origin = origin
    · rw [← hrecord hsome heq, ← heq]
      exact bannedUntil_setOrigin _ _ (tracked.pushBack c.ttmNow)
    · exact hadmitted.setOrigin_of_ne (Ne.symm heq) _
  | passed _ tracked hsome hunbanned =>
    have hne' := hother hsome hunbanned
    exact ⟨hadmitted.setOrigin_of_ne hne'.symm _, fun heq => absurd heq hne'⟩
  | startsBan _ tracked hsome hunbanned ban =>
    have hne' := hother hsome hunbanned
    have haccepted : BannedUntil (a.accepted c tracked) origin banUntil :=
      hadmitted.setOrigin_of_ne hne'.symm _
    refine ⟨?_, fun heq => absurd heq hne'⟩
    cases hscope : ban.scope with
    | origin => exact haccepted.setOrigin_of_ne hne'.symm _
    | everyone => exact haccepted

/-! ## Sequences of calls -/

/-- The property holds at each call of a sequence. -/
def Each (P : Algorithm → Call → Prop) : Algorithm → List Call → Prop
  | _, [] => True
  | a, c :: calls => P a c ∧ Each P (a.call c).2 calls

theorem BannedUntil.run {calls : List Call} (hle : ∀ c ∈ calls, c.ttmNow ≤ banUntil)
    (hremembers : Each (Remembers origin) a calls) : BannedUntil (a.run calls) origin banUntil := by
  induction calls generalizing a with
  | nil => exact h
  | cons c calls ih =>
    have hnext : BannedUntil (a.call c).2 origin banUntil := by
      by_cases hnamed : c.origin = ""
      · rw [call_of_unnamed henabled hnamed]
        exact h
      · exact (h.call henabled hne (hle c List.mem_cons_self) hremembers.1 hnamed).1
    exact ih hnext ((call_sameLimits a c).enabled.trans henabled)
      (fun d hd => hle d (List.mem_cons_of_mem _ hd)) hremembers.2

end

/-- A ban for everyone stays until it expires. -/
theorem banUntil_run {calls : List Call} (h : a.trackedGlobal.banUntil = banUntil)
    (henabled : a.settings.enabled = true) (hne : banUntil ≠ 0)
    (hle : ∀ c ∈ calls, c.ttmNow ≤ banUntil) : (a.run calls).trackedGlobal.banUntil = banUntil := by
  induction calls generalizing a with
  | nil => exact h
  | cons c calls ih =>
    have hnext : (a.call c).2.trackedGlobal.banUntil = banUntil := by
      by_cases hnamed : c.origin = ""
      · rw [call_of_unnamed henabled hnamed]
        exact h
      · rw [call_of_inForce henabled hnamed ⟨h ▸ hne, h ▸ hle c List.mem_cons_self⟩]
        exact h
    exact ih hnext ((call_sameLimits a c).enabled.trans henabled)
      fun d hd => hle d (List.mem_cons_of_mem _ hd)

theorem each_append_singleton {P : Algorithm → Call → Prop} {calls : List Call}
    (h : Each P a (calls ++ [c])) : Each P a calls ∧ P (a.run calls) c := by
  induction calls generalizing a with
  | nil => exact ⟨trivial, h.1⟩
  | cons d calls ih =>
    obtain ⟨hrest, hlast⟩ := ih h.2
    exact ⟨⟨h.1, hrest⟩, hlast⟩

/-- A ban lasts until it expires: for everyone, for every call that names an
origin, and for one origin, if each call up to then remembers its record. -/
theorem bans_last {settings : Settings} (henabled : settings.enabled = true) (calls : List Call)
    (c : Call) (between : List Call) (c' : Call) {length : Int} (hpositive : 0 < c'.ttmNow)
    (hordered : (c :: between ++ [c']).Pairwise fun d e => d.ttmNow ≤ e.ttmNow)
    (hle : c'.ttmNow ≤ c.ttmNow + length) :
    (BansEveryone (run { settings } calls) c length → c'.origin ≠ "" →
      (((run { settings } calls).run (c :: between)).call c').1 = .ban) ∧
    (BansOrigin (run { settings } calls) c length → c'.origin = c.origin →
      Each (Remembers c.origin) ((run { settings } calls).call c).2 (between ++ [c']) →
        (((run { settings } calls).run (c :: between)).call c').1 = .ban) := by
  have hcalls := (run_sameLimits { settings } calls).enabled.trans henabled
  have hbanned := (call_sameLimits (run { settings } calls) c).enabled.trans hcalls
  have hlater := (run_sameLimits ((run { settings } calls).call c).2 between).enabled.trans hbanned
  have hne : c.ttmNow + length ≠ 0 := by omega
  have hbetween : ∀ d ∈ between, d.ttmNow ≤ c.ttmNow + length := by
    intro d hd
    have hbefore := (List.pairwise_append.mp hordered).2.2 d (List.mem_cons_of_mem _ hd) c'
      List.mem_cons_self
    omega
  constructor
  · rintro ⟨-, huntil⟩ hnamed
    have hstill := banUntil_run huntil hbanned hne hbetween
    change (((run _ _).call c).2.run between).trackedGlobal.banUntil = _ at hstill
    have hforce : (((run { settings } calls).call c).2.run between).trackedGlobal.InForce
        c'.ttmNow := ⟨hstill ▸ hne, hstill ▸ hle⟩
    exact congrArg Prod.fst (call_of_inForce hlater hnamed hforce)
  · rintro ⟨hstarts, huntil⟩ horigin hremembers
    have hnamed : c.origin ≠ "" := by
      intro hunnamed
      rw [call_of_unnamed hcalls hunnamed] at hstarts
      rcases hstarts with h | h <;> cases h
    obtain ⟨hremembersBetween, hremembersLast⟩ := each_append_singleton hremembers
    have hstill : BannedUntil _ c.origin (c.ttmNow + length) :=
      BannedUntil.run huntil hbanned hne hbetween hremembersBetween
    exact (hstill.call hlater hne hle hremembersLast (horigin ▸ hnamed)).2 horigin

/-- One call per minute, and a ban of two minutes. -/
def lengthySettings : Settings := sampleSettings 5 1

/-- The second call bans the origin from second 100 to second 220. -/
theorem lengthy_bans :
    BansOrigin (run { settings := lengthySettings } [sampleCall]) sampleCall 120 :=
  ⟨.inr (by decide +kernel), ⟨[100, 100], 220⟩, by decide +kernel, by decide⟩

/-- It is still banned at second 130. -/
theorem bans_last_lengthy :
    BansOrigin (run { settings := lengthySettings } [sampleCall]) sampleCall 120 ∧
      (((run { settings := lengthySettings } [sampleCall]).run [sampleCall]).call
        { sampleCall with ttmNow := 130 }).1 = .ban := by
  have hremembers : Each (Remembers sampleCall.origin)
      ((run { settings := lengthySettings } [sampleCall]).call sampleCall).2
      ([] ++ [{ sampleCall with ttmNow := 130 }]) := by
    refine ⟨fun tracked hsome _ => .inr ⟨100, ?_, by decide⟩, trivial⟩
    have hrecord : ((run { settings := lengthySettings } [sampleCall]).call
        sampleCall).2.trackedOrigins sampleCall.origin = some ⟨[100, 100], 220⟩ := by decide +kernel
    rw [hrecord] at hsome
    cases hsome
    decide
  exact ⟨lengthy_bans, (bans_last rfl [sampleCall] sampleCall [] { sampleCall with ttmNow := 130 }
    (by decide) (by decide) (by decide)).2 lengthy_bans rfl hremembers⟩

/-- At second 161 its calls are forgotten, and the ban with them. -/
theorem lengthy_ban_forgotten :
    lengthySettings.enabled = true ∧
      BansOrigin (run { settings := lengthySettings } [sampleCall]) sampleCall 120 ∧
      (161 : Int) ≤ sampleCall.ttmNow + 120 ∧
      (((run { settings := lengthySettings } [sampleCall]).run [sampleCall]).call
        { sampleCall with ttmNow := 161 }).1 = .noError :=
  ⟨rfl, lengthy_bans, by decide, by decide +kernel⟩

end Skaled.Unddos.Algorithm
