import Mathlib.Data.List.Induction
import Skaled.Unddos.Algorithm

/-! # Sequences of calls

What one call does to the records: it is appended to the record of its origin and
to that of everyone, and calls that are too old are dropped from all records. A
call during a ban for everyone is appended to the record of everyone alone.
-/

namespace Skaled.Unddos

structure Call where
  origin : String
  strMethod : String := ""
  ttmNow : Int
  durationToPast : Nat := 60
  deriving DecidableEq, Repr

/-- The calls that are still recorded at a time. -/
def kept (ttmNow : Int) (durationToPast : Nat) (entries : List Int) : List Int :=
  if durationToPast = 0 then entries else entries.dropWhile (· < ttmNow - durationToPast)

theorem kept_sublist (ttmNow : Int) (durationToPast : Nat) (entries : List Int) :
    (kept ttmNow durationToPast entries).Sublist entries := by
  unfold kept
  split
  · exact List.Sublist.refl _
  · exact List.dropWhile_sublist _

/-- Calls that are not too old are kept. -/
theorem sublist_kept {ttmNow : Int} {durationToPast : Nat} {times entries : List Int}
    (h : times.Sublist entries) (hrecent : ∀ ttm ∈ times, ttmNow - durationToPast ≤ ttm) :
    times.Sublist (kept ttmNow durationToPast entries) := by
  unfold kept
  split
  · exact h
  · induction h with
    | slnil => exact List.Sublist.slnil
    | @cons times entries ttm hsub ih =>
      rw [List.dropWhile_cons]
      split
      · exact ih hrecent
      · exact hsub.cons ttm
    | @cons_cons times entries ttm hsub ih =>
      have hfirst := hrecent ttm List.mem_cons_self
      rw [List.dropWhile_cons_of_neg (by simpa using hfirst)]
      exact hsub.cons_cons ttm

theorem kept_append_self (ttmNow : Int) (durationToPast : Nat) (entries : List Int) :
    kept ttmNow durationToPast (entries ++ [ttmNow]) =
      kept ttmNow durationToPast entries ++ [ttmNow] := by
  unfold kept
  split
  · rfl
  · have hle : ttmNow - durationToPast ≤ ttmNow := Int.sub_le_self _ (Int.natCast_nonneg _)
    have hnow : [ttmNow].dropWhile (· < ttmNow - durationToPast) = [ttmNow] :=
      List.dropWhile_cons_of_neg fun h => absurd (of_decide_eq_true h) (Int.not_lt.mpr hle)
    rw [List.dropWhile_append, hnow]
    split
    next hempty => rw [List.isEmpty_iff.mp hempty]; rfl
    next => rfl

/-- A ban that a call at the given time runs into. -/
def TrackedOrigin.InForce (tracked : TrackedOrigin) (ttmNow : Int) : Prop :=
  tracked.banUntil ≠ 0 ∧ ttmNow ≤ tracked.banUntil

/-- A call that was just recorded runs into the ban. -/
theorem TrackedOrigin.checkBan_of_inForce {tracked : TrackedOrigin} {ttmNow : Int}
    (h : tracked.InForce ttmNow) :
    (tracked.pushBack ttmNow).checkBan ttmNow = (true, tracked.pushBack ttmNow) :=
  (if_neg h.1).trans (if_pos h.2)

theorem TrackedOrigin.checkBan_of_not {tracked : TrackedOrigin} {ttmNow : Int}
    (h : ¬ tracked.InForce ttmNow) : (tracked.pushBack ttmNow).checkBan ttmNow =
      (false, { tracked.pushBack ttmNow with banUntil := 0 }) := by
  unfold checkBan
  split
  next hzero => rw [← hzero]
  next hne => exact if_neg fun hle => h ⟨hne, hle⟩

namespace Algorithm

def call (a : Algorithm) (c : Call) : HighLoad × Algorithm :=
  a.registerCallFromOrigin c.origin c.strMethod c.ttmNow c.durationToPast

/-- The state after a sequence of calls. -/
def run (a : Algorithm) (calls : List Call) : Algorithm :=
  calls.foldl (fun a c => (a.call c).2) a

theorem run_append_singleton (a : Algorithm) (calls : List Call) (c : Call) :
    a.run (calls ++ [c]) = ((a.run calls).call c).2 := by
  unfold run
  rw [List.foldl_append]
  rfl

/-- The calls of an origin that are recorded. -/
def entriesOf (a : Algorithm) (origin : String) : List Int :=
  ((a.trackedOrigins origin).map (·.timeEntries)).getD []

def rule (a : Algorithm) (origin : String) : OriginEntrySetting :=
  (a.settings.findOriginEntrySetting origin).1

section

variable (a : Algorithm) (ttmNow : Int) (durationToPast : Nat)

include a ttmNow durationToPast

/-- The record of an origin after old calls were dropped. -/
theorem unload_trackedOrigins (origin : String) :
    (a.unloadOldDataByTimeToPast ttmNow durationToPast).trackedOrigins origin =
      ((a.trackedOrigins origin).map fun tracked =>
        { tracked with timeEntries := kept ttmNow durationToPast tracked.timeEntries }).filter
          fun tracked => durationToPast = 0 ∨ tracked.timeEntries ≠ [] := by
  unfold unloadOldDataByTimeToPast kept
  split
  next hzero => cases a.trackedOrigins origin <;> simp [Option.filter, hzero]
  next hne => simp [TrackedOrigin.unloadOldDataByTimeToPast, hne]

theorem unload_entriesOf (origin : String) :
    (a.unloadOldDataByTimeToPast ttmNow durationToPast).entriesOf origin =
      kept ttmNow durationToPast (a.entriesOf origin) := by
  unfold entriesOf
  rw [unload_trackedOrigins]
  cases a.trackedOrigins origin with
  | none => simp [kept]
  | some tracked =>
    simp only [Option.map_some, Option.filter_some, Option.getD_some]
    split
    next => rfl
    next hempty =>
      -- a record without calls is forgotten, which leaves no calls either
      simp only [decide_eq_true_eq, not_or, not_not] at hempty
      rw [hempty.2]
      rfl

@[simp] theorem unload_trackedGlobal :
    (a.unloadOldDataByTimeToPast ttmNow durationToPast).trackedGlobal =
      { a.trackedGlobal with
        timeEntries := kept ttmNow durationToPast a.trackedGlobal.timeEntries } := by
  unfold unloadOldDataByTimeToPast kept
  split
  next => rfl
  next hne => simp only [TrackedOrigin.unloadOldDataByTimeToPast, if_neg hne]

@[simp] theorem unload_settings :
    (a.unloadOldDataByTimeToPast ttmNow durationToPast).settings = a.settings := by
  unfold unloadOldDataByTimeToPast
  split <;> rfl

end

/-! ## One call -/

variable {a : Algorithm} {c : Call}

/-- The state in which the call of an origin is looked at: it is recorded for
everyone, a ban for everyone that is over is cleared, and old calls are dropped. -/
def admitted (a : Algorithm) (c : Call) : Algorithm :=
  { a with
    trackedGlobal :=
      { timeEntries := a.trackedGlobal.timeEntries ++ [c.ttmNow], banUntil := 0 }
  }.unloadOldDataByTimeToPast c.ttmNow c.durationToPast

def counted (tracked : TrackedOrigin) (c : Call) : TrackedOrigin :=
  { timeEntries := tracked.timeEntries ++ [c.ttmNow], banUntil := 0 }

def accepted (a : Algorithm) (c : Call) (tracked : TrackedOrigin) : Algorithm :=
  { (a.admitted c).setOrigin c.origin (counted tracked c) with
    settings := (a.settings.findOriginEntrySetting c.origin).2 }

def detected (a : Algorithm) (c : Call) (tracked : TrackedOrigin) : Option Ban :=
  detect (a.rule c.origin) (a.settings.findOriginEntrySetting c.origin).2.globalLimit
    (counted tracked c) (a.admitted c).trackedGlobal c.strMethod c.ttmNow c.durationToPast

/-- How the call of a named origin can go. -/
inductive Outcome (a : Algorithm) (c : Call) : HighLoad × Algorithm → Prop where
  | everyoneBanned (hban : a.trackedGlobal.InForce c.ttmNow) :
      Outcome a c (.ban, { a with trackedGlobal := a.trackedGlobal.pushBack c.ttmNow })
  | fresh (hfree : ¬ a.trackedGlobal.InForce c.ttmNow)
      (hnone : (a.admitted c).trackedOrigins c.origin = none) :
      Outcome a c (.noError, (a.admitted c).setOrigin c.origin { timeEntries := [c.ttmNow] })
  | originBanned (hfree : ¬ a.trackedGlobal.InForce c.ttmNow) (tracked : TrackedOrigin)
      (hsome : (a.admitted c).trackedOrigins c.origin = some tracked)
      (hban : tracked.InForce c.ttmNow) :
      Outcome a c (.ban, (a.admitted c).setOrigin c.origin (tracked.pushBack c.ttmNow))
  | passed (hfree : ¬ a.trackedGlobal.InForce c.ttmNow) (tracked : TrackedOrigin)
      (hsome : (a.admitted c).trackedOrigins c.origin = some tracked)
      (hunbanned : ¬ tracked.InForce c.ttmNow) (hdetected : a.detected c tracked = none) :
      Outcome a c (.noError, a.accepted c tracked)
  | startsBan (hfree : ¬ a.trackedGlobal.InForce c.ttmNow) (tracked : TrackedOrigin)
      (hsome : (a.admitted c).trackedOrigins c.origin = some tracked)
      (hunbanned : ¬ tracked.InForce c.ttmNow) (ban : Ban)
      (hdetected : a.detected c tracked = some ban) :
      Outcome a c (ban.reason, (a.accepted c tracked).startBan c.origin (counted tracked c)
        (c.ttmNow + ban.length) ban.scope)

theorem call_of_unnamed (henabled : a.settings.enabled = true) (hnamed : c.origin = "") :
    a.call c = (.badOrigin, a) := by
  unfold Algorithm.call registerCallFromOrigin
  rw [if_neg (by simp [henabled]), if_pos hnamed]

section

variable (henabled : a.settings.enabled = true) (hnamed : c.origin ≠ "")

include henabled hnamed

theorem call_of_inForce (hban : a.trackedGlobal.InForce c.ttmNow) :
    a.call c = (.ban, { a with trackedGlobal := a.trackedGlobal.pushBack c.ttmNow }) := by
  unfold call registerCallFromOrigin
  rw [if_neg (by simp [henabled]), if_neg hnamed, TrackedOrigin.checkBan_of_inForce hban]
  rfl

theorem call_of_not_inForce (hfree : ¬ a.trackedGlobal.InForce c.ttmNow) :
    a.call c =
      match (a.admitted c).trackedOrigins c.origin with
      | none => (.noError, (a.admitted c).setOrigin c.origin { timeEntries := [c.ttmNow] })
      | some tracked => (a.admitted c).checkTracked c.origin c.strMethod c.ttmNow c.durationToPast
          (tracked.pushBack c.ttmNow) := by
  unfold call registerCallFromOrigin
  rw [if_neg (by simp [henabled]), if_neg hnamed, TrackedOrigin.checkBan_of_not hfree]
  rfl

theorem call_outcome : Outcome a c (a.call c) := by
  by_cases hfree : a.trackedGlobal.InForce c.ttmNow
  · rw [call_of_inForce henabled hnamed hfree]
    exact .everyoneBanned hfree
  · rw [call_of_not_inForce henabled hnamed hfree]
    cases hsome : (a.admitted c).trackedOrigins c.origin with
    | none => exact .fresh hfree hsome
    | some tracked =>
      dsimp only [checkTracked]
      by_cases hban : tracked.InForce c.ttmNow
      · rw [TrackedOrigin.checkBan_of_inForce hban]
        exact .originBanned hfree tracked hsome hban
      · have hcheck : (tracked.pushBack c.ttmNow).checkBan c.ttmNow =
            (false, counted tracked c) := TrackedOrigin.checkBan_of_not hban
        rw [hcheck]
        have hsettings : (a.admitted c).settings = a.settings := unload_settings _ _ _
        cases hdetected : a.detected c tracked with
        | none =>
          have houtcome := Outcome.passed hfree tracked hsome hban hdetected
          unfold detected rule at hdetected
          simpa [hsettings, setOrigin, hdetected, accepted] using houtcome
        | some ban =>
          have houtcome := Outcome.startsBan hfree tracked hsome hban ban hdetected
          unfold detected rule at hdetected
          simpa [hsettings, setOrigin, hdetected, accepted] using houtcome

end

/-! ## Records after a call -/

theorem entriesOf_setOrigin (a : Algorithm) (origin : String) (tracked : TrackedOrigin)
    (origin' : String) :
    (a.setOrigin origin tracked).entriesOf origin' =
      if origin' = origin then tracked.timeEntries else a.entriesOf origin' := by
  unfold entriesOf setOrigin
  dsimp only
  split
  next heq => rw [heq, Function.update_self]; rfl
  next hne => rw [Function.update_of_ne hne]

theorem admitted_entriesOf (a : Algorithm) (c : Call) (origin : String) :
    (a.admitted c).entriesOf origin = kept c.ttmNow c.durationToPast (a.entriesOf origin) :=
  unload_entriesOf _ _ _ _

theorem admitted_trackedGlobal (a : Algorithm) (c : Call) :
    (a.admitted c).trackedGlobal.timeEntries =
      kept c.ttmNow c.durationToPast a.trackedGlobal.timeEntries ++ [c.ttmNow] := by
  unfold admitted
  rw [unload_trackedGlobal, kept_append_self]

/-- A call that runs into a ban for everyone is recorded for everyone alone. -/
structure Unrecorded (a : Algorithm) (c : Call) (a' : Algorithm) : Prop where
  everyone : a'.trackedGlobal.timeEntries = a.trackedGlobal.timeEntries ++ [c.ttmNow]
  origin : ∀ origin, a'.entriesOf origin = a.entriesOf origin

/-- Every other call is recorded for its origin too. -/
structure Recorded (a : Algorithm) (c : Call) (a' : Algorithm) : Prop where
  everyone : a'.trackedGlobal.timeEntries =
    kept c.ttmNow c.durationToPast a.trackedGlobal.timeEntries ++ [c.ttmNow]
  origin : ∀ origin, a'.entriesOf origin =
    kept c.ttmNow c.durationToPast (a.entriesOf origin) ++
      if origin = c.origin then [c.ttmNow] else []

variable {tracked : TrackedOrigin} {origin : String}

theorem recorded_setOrigin
    (h : tracked.timeEntries = (a.admitted c).entriesOf c.origin ++ [c.ttmNow]) :
    Recorded a c ((a.admitted c).setOrigin c.origin tracked) := by
  refine ⟨admitted_trackedGlobal a c, fun origin => ?_⟩
  rw [entriesOf_setOrigin]
  split
  next heq => rw [h, heq, admitted_entriesOf]
  next => rw [admitted_entriesOf, List.append_nil]

theorem entriesOf_of_some
    (h : a.trackedOrigins origin = some tracked) : a.entriesOf origin = tracked.timeEntries := by
  unfold entriesOf
  rw [h]
  rfl

/-- A tracked origin has recorded calls, once old ones were dropped. -/
theorem admitted_nonempty (hduration : c.durationToPast ≠ 0)
    (h : (a.admitted c).trackedOrigins origin = some tracked) : tracked.timeEntries ≠ [] := by
  unfold admitted at h
  rw [unload_trackedOrigins] at h
  have hfilter := (Option.filter_eq_some_iff.mp h).2
  simpa [hduration] using hfilter

theorem entriesOf_of_none (h : a.trackedOrigins origin = none) : a.entriesOf origin = [] := by
  unfold entriesOf
  rw [h]
  rfl

theorem recorded_accepted (hsome : (a.admitted c).trackedOrigins c.origin = some tracked) :
    Recorded a c (a.accepted c tracked) := by
  have h : Recorded a c ((a.admitted c).setOrigin c.origin (counted tracked c)) := by
    apply recorded_setOrigin
    rw [entriesOf_of_some hsome]
    rfl
  exact ⟨h.everyone, h.origin⟩

theorem accepted_entriesOf (a : Algorithm) (c : Call) (tracked : TrackedOrigin) :
    (a.accepted c tracked).entriesOf c.origin = tracked.timeEntries ++ [c.ttmNow] := by
  change ((a.admitted c).setOrigin c.origin (counted tracked c)).entriesOf c.origin = _
  rw [entriesOf_setOrigin, if_pos rfl]
  rfl

/-- Starting a ban changes no record. -/
theorem recorded_startBan {banUntil : Int} (scope : Scope)
    (hsome : (a.admitted c).trackedOrigins c.origin = some tracked) :
    Recorded a c ((a.accepted c tracked).startBan c.origin (counted tracked c) banUntil scope) := by
  have h := recorded_accepted hsome
  cases scope with
  | everyone => exact ⟨h.everyone, h.origin⟩
  | origin =>
    refine ⟨h.everyone, fun origin => ?_⟩
    change ((a.accepted c tracked).setOrigin c.origin _).entriesOf origin = _
    rw [entriesOf_setOrigin, ← h.origin origin]
    split
    next heq => rw [heq, accepted_entriesOf]; rfl
    next => rfl

theorem Outcome.records {r : HighLoad × Algorithm} (h : Outcome a c r) :
    (a.trackedGlobal.InForce c.ttmNow ∧ Unrecorded a c r.2) ∨
      (¬ a.trackedGlobal.InForce c.ttmNow ∧ Recorded a c r.2) := by
  cases h with
  | everyoneBanned hban => exact .inl ⟨hban, rfl, fun _ => rfl⟩
  | fresh hfree hnone =>
    refine .inr ⟨hfree, recorded_setOrigin ?_⟩
    rw [entriesOf_of_none hnone]
    rfl
  | originBanned hfree tracked hsome hban =>
    refine .inr ⟨hfree, recorded_setOrigin ?_⟩
    rw [entriesOf_of_some hsome]
    rfl
  | passed hfree tracked hsome => exact .inr ⟨hfree, recorded_accepted hsome⟩
  | startsBan hfree tracked hsome _ ban => exact .inr ⟨hfree, recorded_startBan ban.scope hsome⟩

/-! ## Settings after a call -/

/-- The settings after some calls: the default rule may have been added. -/
structure SameLimits (settings settings' : Settings) : Prop where
  enabled : settings'.enabled = settings.enabled
  globalLimit : settings'.globalLimit = settings.globalLimit
  origins : ∀ oe ∈ settings'.origins, oe ∈ settings.origins ∨ oe = .defaultsForAnyOrigin

theorem SameLimits.refl (settings : Settings) : SameLimits settings settings :=
  ⟨rfl, rfl, fun _ h => .inl h⟩

theorem SameLimits.trans {settings settings' settings'' : Settings}
    (h : SameLimits settings settings') (h' : SameLimits settings' settings'') :
    SameLimits settings settings'' := by
  refine ⟨h'.enabled.trans h.enabled, h'.globalLimit.trans h.globalLimit, fun oe hoe => ?_⟩
  rcases h'.origins oe hoe with hmem | hdefault
  · exact h.origins oe hmem
  · exact .inr hdefault

/-- The rule for an origin is one of the settings or the default rule. -/
theorem sameLimits_findOriginEntrySetting (settings : Settings) (origin : String) :
    SameLimits settings (settings.findOriginEntrySetting origin).2 ∧
      ((settings.findOriginEntrySetting origin).1 ∈ settings.origins ∨
        (settings.findOriginEntrySetting origin).1 = .defaultsForAnyOrigin) := by
  unfold Settings.findOriginEntrySetting Settings.autoAppendAnyOriginRule
  cases hmatch : settings.findOriginEntrySettingMatch origin with
  | some oe => exact ⟨.refl _, .inl (List.mem_of_find?_eq_some hmatch)⟩
  | none =>
    cases hstar : settings.findOriginEntrySettingMatch "*" with
    | some oe => exact ⟨.refl _, .inl (List.mem_of_find?_eq_some hstar)⟩
    | none =>
      refine ⟨⟨rfl, rfl, fun oe hoe => ?_⟩, .inr rfl⟩
      rcases List.mem_append.mp hoe with hmem | hmem
      · exact .inl hmem
      · exact .inr (List.mem_singleton.mp hmem)

theorem Outcome.sameLimits {r : HighLoad × Algorithm} (h : Outcome a c r) :
    SameLimits a.settings r.2.settings := by
  have hadmitted : (a.admitted c).settings = a.settings := unload_settings _ _ _
  have hfind := (sameLimits_findOriginEntrySetting a.settings c.origin).1
  cases h with
  | everyoneBanned => exact .refl _
  | fresh | originBanned => exact hadmitted ▸ .refl _
  | passed => exact hfind
  | startsBan _ tracked _ _ ban =>
    cases hscope : ban.scope with
    | origin | everyone => exact hfind

theorem call_sameLimits (a : Algorithm) (c : Call) :
    SameLimits a.settings (a.call c).2.settings := by
  by_cases henabled : a.settings.enabled = true
  · by_cases hnamed : c.origin = ""
    · rw [call_of_unnamed henabled hnamed]
      exact .refl _
    · exact (call_outcome henabled hnamed).sameLimits
  · have hcall : a.call c = (.noError, a) := by
      unfold call registerCallFromOrigin
      rw [if_pos (by simpa using henabled)]
    rw [hcall]
    exact .refl _

theorem run_sameLimits (a : Algorithm) (calls : List Call) :
    SameLimits a.settings (a.run calls).settings := by
  induction calls using List.reverseRecOn with
  | nil => exact .refl _
  | append_singleton calls c ih =>
    rw [run_append_singleton]
    exact ih.trans (call_sameLimits _ c)

end Algorithm

end Skaled.Unddos
