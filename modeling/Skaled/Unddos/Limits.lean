import Skaled.Unddos.Calls

/-! # The limits of calls

`count_to_past` looks at a bounded number of calls. If a record is longer than
that, it estimates the number of calls from the newest ones, and counts again
where the estimate reaches the limit, but only the calls that it has not looked
at yet. So it never finds more calls than there are, unless it stays below the
limit, and it may find fewer.

The limits are enforced on sequences in which every record is short enough to be
counted, or its windows are below their limits.
-/

namespace Skaled.Unddos

variable {ttmNow : Int} {durationToPast steps : Nat} {tracked : TrackedOrigin}

namespace TrackedOrigin

variable {ttRescaling ttRescaling' : Int} {idxStep cnt cnt' : Nat} {entries unread : List Int}

/-! ## Counting -/

/-- A scan that is not cut off has counted all calls of the window. -/
theorem scanBack_of_none
    (h : scanBack ttmNow durationToPast steps idxStep cnt ttRescaling entries =
      (cnt', ttRescaling', none)) :
    cnt' = cnt + entries.countP (inside ttmNow durationToPast) := by
  induction entries generalizing idxStep cnt ttRescaling with
  | nil =>
    cases h
    rfl
  | cons te rest ih =>
    simp only [scanBack] at h
    split at h
    · cases h
    · rw [ih h, List.countP_cons]
      split <;> omega

/-- What a scan has not looked at is the older part of the record. -/
theorem scanBack_of_some
    (h : scanBack ttmNow durationToPast steps idxStep cnt ttRescaling entries =
      (cnt', ttRescaling', some unread)) : unread.Sublist entries := by
  induction entries generalizing idxStep cnt ttRescaling with
  | nil => cases h
  | cons te rest ih =>
    simp only [scanBack] at h
    split at h
    · cases h
      exact List.Sublist.refl _
    · exact (ih h).cons te

/-- A short record is scanned to its end. -/
theorem scanBack_of_short (h : idxStep + entries.length ≤ steps) :
    (scanBack ttmNow durationToPast steps idxStep cnt ttRescaling entries).2.2 = none := by
  induction entries generalizing idxStep cnt ttRescaling with
  | nil => rfl
  | cons te rest ih =>
    rw [List.length_cons] at h
    simp only [scanBack]
    rw [if_neg (by omega)]
    exact ih (by omega)

theorem countToPast_of_short {target : Nat} (hsteps : steps ≠ 0)
    (h : tracked.timeEntries.length ≤ steps) :
    tracked.countToPast ttmNow durationToPast steps target =
      tracked.timeEntries.countP (inside ttmNow durationToPast) := by
  have hnone : (scanBack ttmNow durationToPast steps 0 0 (ttmNow - durationToPast)
      tracked.timeEntries.reverse).2.2 = none :=
    scanBack_of_short (by rw [List.length_reverse]; omega)
  unfold countToPast
  rw [if_neg hsteps]
  cases hscan : scanBack ttmNow durationToPast steps 0 0 (ttmNow - durationToPast)
      tracked.timeEntries.reverse with
  | mk cnt rest =>
    obtain ⟨ttRescaling, unread⟩ := rest
    rw [hscan] at hnone
    cases hnone
    rw [scanBack_of_none hscan, List.countP_reverse, Nat.zero_add]

/-- A limit that is found to be exceeded is exceeded. -/
theorem lt_countP_of_exceeds {limit : Nat}
    (h : tracked.exceeds ttmNow durationToPast steps limit = true) :
    limit < tracked.timeEntries.countP (inside ttmNow durationToPast) := by
  simp only [exceeds, decide_eq_true_eq] at h
  obtain ⟨hpos, hcount⟩ := h
  unfold countToPast at hcount
  split at hcount
  · omega
  · have hrescan : ∀ {cnt ttRescaling unread},
        scanBack ttmNow durationToPast steps 0 0 (ttmNow - durationToPast)
          tracked.timeEntries.reverse = (cnt, ttRescaling, some unread) →
        unread.countP (inside ttmNow durationToPast) ≤
          tracked.timeEntries.countP (inside ttmNow durationToPast) := by
      intro cnt ttRescaling unread hscan
      have hcount := (scanBack_of_some hscan).countP_le (p := inside ttmNow durationToPast)
      rwa [List.countP_reverse] at hcount
    split at hcount
    next hscan =>
      rw [scanBack_of_none hscan, List.countP_reverse, Nat.zero_add] at hcount
      exact hcount
    next => omega
    next cnt ttRescaling unread _ hscan =>
      dsimp only at hcount
      split at hcount
      next =>
        split at hcount
        next => exact Nat.lt_of_lt_of_le hcount (hrescan hscan)
        next hsmall =>
          -- an estimate that is not checked stays below the limit, or the limit is the largest size
          have hsize : cnt * durationToPast % 2 ^ 64 / ttRescaling.toNat ≤ sizeMax :=
            Nat.le_trans (Nat.div_le_self _ _)
              (Nat.le_pred_of_lt (Nat.mod_lt _ (Nat.two_pow_pos 64)))
          have hzero : limit ≠ 0 := by omega
          by_cases hmax : limit = sizeMax
          · omega
          · exact absurd ⟨hzero, hmax, Nat.le_of_lt hcount⟩ hsmall
      next => exact Nat.lt_of_lt_of_le hcount (hrescan hscan)

end TrackedOrigin

namespace Algorithm

open TrackedOrigin (inside)

/-! ## Calls that were made -/

def times (calls : List Call) : List Int := calls.map (·.ttmNow)

def timesOf (origin : String) (calls : List Call) : List Int :=
  times (calls.filter (·.origin = origin))

structure Within (oe globalLimit : OriginEntrySetting) (calls : List Call) (c : Call) : Prop where
  originSecond : (timesOf c.origin calls).countP (inside c.ttmNow 1) ≤ oe.maxCallsPerSecond
  originMinute : (timesOf c.origin calls).countP (inside c.ttmNow 60) ≤ oe.maxCallsPerMinute
  everyoneSecond : (times calls).countP (inside c.ttmNow 1) ≤ globalLimit.maxCallsPerSecond
  everyoneMinute : (times calls).countP (inside c.ttmNow 60) ≤ globalLimit.maxCallsPerMinute

theorem times_append (calls : List Call) (c : Call) :
    times (calls ++ [c]) = times calls ++ [c.ttmNow] := List.map_append

theorem timesOf_append (origin : String) (calls : List Call) (c : Call) :
    timesOf origin (calls ++ [c]) =
      timesOf origin calls ++ if origin = c.origin then [c.ttmNow] else [] := by
  unfold timesOf
  rw [List.filter_append]
  by_cases heq : origin = c.origin
  · simp [times, heq]
  · simp [times, heq, Ne.symm heq]

structure Made (a : Algorithm) (calls : List Call) : Prop where
  everyone : a.trackedGlobal.timeEntries.Sublist (times calls)
  origin : ∀ origin, (a.entriesOf origin).Sublist (timesOf origin calls)

variable {a a' : Algorithm} {c : Call} {calls : List Call}

theorem Made.recorded (h : Made a calls) (hrecorded : Recorded a c a') :
    Made a' (calls ++ [c]) := by
  refine ⟨?_, fun origin => ?_⟩
  · rw [hrecorded.everyone, times_append]
    exact ((kept_sublist _ _ _).trans h.everyone).append (List.Sublist.refl _)
  · rw [hrecorded.origin, timesOf_append]
    exact ((kept_sublist _ _ _).trans (h.origin origin)).append (List.Sublist.refl _)

theorem Made.unrecorded (h : Made a calls) (hunrecorded : Unrecorded a c a') :
    Made a' (calls ++ [c]) := by
  refine ⟨?_, fun origin => ?_⟩
  · rw [hunrecorded.everyone, times_append]
    exact h.everyone.append (List.Sublist.refl _)
  · rw [hunrecorded.origin, timesOf_append]
    exact (h.origin origin).trans (List.sublist_append_left _ _)

theorem Made.call (h : Made a calls) (henabled : a.settings.enabled = true) (c : Call) :
    Made (a.call c).2 (calls ++ [c]) := by
  by_cases hnamed : c.origin = ""
  · rw [call_of_unnamed henabled hnamed]
    refine ⟨?_, fun origin => ?_⟩
    · rw [times_append]
      exact h.everyone.trans (List.sublist_append_left _ _)
    · rw [timesOf_append]
      exact (h.origin origin).trans (List.sublist_append_left _ _)
  · rcases (call_outcome henabled hnamed).records with ⟨-, hunrecorded⟩ | ⟨-, hrecorded⟩
    · exact h.unrecorded hunrecorded
    · exact h.recorded hrecorded

variable {settings : Settings} {made : List Int}

theorem run_made (henabled : settings.enabled = true) (calls : List Call) :
    Made (run { settings } calls) calls := by
  induction calls using List.reverseRecOn with
  | nil => exact ⟨List.Sublist.slnil, fun _ => List.Sublist.slnil⟩
  | append_singleton calls c ih =>
    rw [run_append_singleton]
    exact ih.call ((run_sameLimits _ calls).enabled.trans henabled) c

/-! ## Bans -/

variable {oe globalLimit : OriginEntrySetting} {trackedGlobal : TrackedOrigin} {strMethod : String}

/-- A ban is started where one of the four checks finds its limit exceeded. -/
theorem exceeds_of_detect {ban : Ban}
    (h : detect oe globalLimit tracked trackedGlobal strMethod ttmNow durationToPast = some ban) :
    (ban.reason = .lengthy ∨ ban.reason = .peak) ∧
      (tracked.exceeds ttmNow durationToPast 15 (oe.maxCallsPerMinuteOf strMethod) = true ∨
      tracked.exceeds ttmNow 1 15 (oe.maxCallsPerSecondOf strMethod) = true ∨
      trackedGlobal.exceeds ttmNow durationToPast 10
        (globalLimit.maxCallsPerMinuteOf strMethod) = true ∨
      trackedGlobal.exceeds ttmNow 1 10 (globalLimit.maxCallsPerSecondOf strMethod) = true) := by
  unfold detect at h
  split at h
  next hfound =>
    cases h
    exact ⟨.inl rfl, .inl hfound⟩
  next =>
    split at h
    next hfound =>
      cases h
      exact ⟨.inr rfl, .inr (.inl hfound)⟩
    next =>
      split at h
      next hfound =>
        cases h
        exact ⟨.inl rfl, .inr (.inr (.inl hfound))⟩
      next =>
        split at h
        next hfound =>
          cases h
          exact ⟨.inr rfl, .inr (.inr (.inr hfound))⟩
        next => cases h

theorem not_exceeds_of_detect
    (h : detect oe globalLimit tracked trackedGlobal strMethod ttmNow durationToPast = none) :
    tracked.exceeds ttmNow durationToPast 15 (oe.maxCallsPerMinuteOf strMethod) = false ∧
    tracked.exceeds ttmNow 1 15 (oe.maxCallsPerSecondOf strMethod) = false ∧
    trackedGlobal.exceeds ttmNow durationToPast 10
      (globalLimit.maxCallsPerMinuteOf strMethod) = false ∧
    trackedGlobal.exceeds ttmNow 1 10 (globalLimit.maxCallsPerSecondOf strMethod) = false := by
  unfold detect at h
  simp only [ite_eq_right_iff, reduceCtorEq, imp_false, ite_eq_iff] at h
  simpa [cntOptimizedMaxSteps4cm, cntOptimizedMaxSteps4cs, cntOptimizedMaxSteps4gm,
    cntOptimizedMaxSteps4gs] using h

def StartsBan (result : HighLoad) : Prop := result = .peak ∨ result = .lengthy

theorem maxCallsPerMinute_le (oe : OriginEntrySetting) (strMethod : String) :
    oe.maxCallsPerMinute ≤ oe.maxCallsPerMinuteOf strMethod := by
  unfold OriginEntrySetting.maxCallsPerMinuteOf
  split
  · exact Nat.le_refl _
  · exact Nat.le_max_left _ _

theorem maxCallsPerSecond_le (oe : OriginEntrySetting) (strMethod : String) :
    oe.maxCallsPerSecond ≤ oe.maxCallsPerSecondOf strMethod := by
  unfold OriginEntrySetting.maxCallsPerSecondOf
  split
  · exact Nat.le_refl _
  · exact Nat.le_max_left _ _

/-- A limit that a check finds exceeded is exceeded by the calls that were made. -/
theorem lt_countP_of_exceeds {limit limitOf : Nat}
    (h : tracked.exceeds ttmNow durationToPast steps limitOf = true)
    (hmade : tracked.timeEntries.Sublist made) (hlimit : limit ≤ limitOf) :
    limit < made.countP (inside ttmNow durationToPast) :=
  Nat.lt_of_le_of_lt hlimit
    (Nat.lt_of_lt_of_le (TrackedOrigin.lt_countP_of_exceeds h) hmade.countP_le)

theorem not_within_of_startsBan (hmade : Made a calls) (henabled : a.settings.enabled = true)
    (hduration : c.durationToPast = 60) (h : StartsBan (a.call c).1) :
    ¬ Within (a.rule c.origin) a.settings.globalLimit (calls ++ [c]) c := by
  have hnamed : c.origin ≠ "" := by
    intro hnamed
    rw [call_of_unnamed henabled hnamed] at h
    rcases h with h | h <;> cases h
  have houtcome := call_outcome henabled hnamed
  generalize a.call c = r at houtcome h
  intro hwithin
  cases houtcome with
  | everyoneBanned | originBanned | fresh | passed => rcases h with h | h <;> cases h
  | startsBan _ tracked hsome _ ban hdetected =>
    have hafter := hmade.recorded (recorded_accepted hsome)
    have hrecord : (counted tracked c).timeEntries.Sublist (timesOf c.origin (calls ++ [c])) := by
      have horigin := hafter.origin c.origin
      rwa [accepted_entriesOf] at horigin
    have hlimit := (sameLimits_findOriginEntrySetting a.settings c.origin).1.globalLimit
    unfold detected at hdetected
    rw [hduration, hlimit] at hdetected
    rcases (exceeds_of_detect hdetected).2 with hfound | hfound | hfound | hfound
    · have := lt_countP_of_exceeds hfound hrecord (maxCallsPerMinute_le _ _)
      have := hwithin.originMinute
      omega
    · have := lt_countP_of_exceeds hfound hrecord (maxCallsPerSecond_le _ _)
      have := hwithin.originSecond
      omega
    · have := lt_countP_of_exceeds hfound hafter.everyone (maxCallsPerMinute_le _ _)
      have := hwithin.everyoneMinute
      omega
    · have := lt_countP_of_exceeds hfound hafter.everyone (maxCallsPerSecond_le _ _)
      have := hwithin.everyoneSecond
      omega

/-! ## Calls that are recorded -/

structure Complete (a : Algorithm) (calls : List Call) (since : Int) : Prop where
  everyone : ((times calls).filter (since ≤ ·)).Sublist a.trackedGlobal.timeEntries
  origin : ∀ origin, ((timesOf origin calls).filter (since ≤ ·)).Sublist (a.entriesOf origin)

theorem filter_sublist_of_le {since since' : Int} (h : since ≤ since') (l : List Int) :
    (l.filter (since' ≤ ·)).Sublist (l.filter (since ≤ ·)) := by
  apply List.monotone_filter_right
  intro ttm httm
  simp only [decide_eq_true_eq] at httm ⊢
  omega

theorem Complete.mono {since : Int} (h : Complete a calls since) {since' : Int}
    (hle : since ≤ since') : Complete a calls since' :=
  ⟨(filter_sublist_of_le hle _).trans h.everyone,
    fun origin => (filter_sublist_of_le hle _).trans (h.origin origin)⟩

/-- All calls of the last minute are recorded after a call that is recorded. -/
theorem Complete.recorded (h : Complete a calls (c.ttmNow - 60)) (hduration : c.durationToPast = 60)
    (hrecorded : Recorded a c a') : Complete a' (calls ++ [c]) (c.ttmNow - 60) := by
  refine ⟨?_, fun origin => ?_⟩
  · rw [hrecorded.everyone, hduration, times_append, List.filter_append]
    refine (sublist_kept h.everyone fun ttm httm => ?_).append List.filter_sublist
    simpa using (List.mem_filter.mp httm).2
  · rw [hrecorded.origin, hduration, timesOf_append, List.filter_append]
    refine (sublist_kept (h.origin origin) fun ttm httm => ?_).append List.filter_sublist
    simpa using (List.mem_filter.mp httm).2

/-- Fewer calls are recorded than the limits allow, in the minute and in the second
before a call. -/
structure Below (entries : List Int) (limit : OriginEntrySetting) (ttmNow : Int) : Prop where
  minute : entries.countP (inside ttmNow 60) < limit.maxCallsPerMinute
  second : entries.countP (inside ttmNow 1) < limit.maxCallsPerSecond

/-- A record that is short enough to be counted, or below its limits. -/
def Countable (entries : List Int) (steps : Nat) (limit : OriginEntrySetting) (ttmNow : Int) :
    Prop :=
  (kept ttmNow 60 entries).length < steps ∨ Below entries limit ttmNow

/-- The state and the call for which the checks are reliable. An origin without
recorded calls is not checked at all. -/
structure Checkable (a : Algorithm) (c : Call) : Prop where
  named : c.origin ≠ ""
  unbanned : ¬ a.trackedGlobal.InForce c.ttmNow
  method : a.rule c.origin = .defaultsForAnyOrigin →
    OriginEntrySetting.defaultsForAnyOrigin.customMethodSetting c.strMethod = none
  fresh : kept c.ttmNow 60 (a.entriesOf c.origin) = [] →
    Below a.trackedGlobal.timeEntries a.settings.globalLimit c.ttmNow
  tracked : kept c.ttmNow 60 (a.entriesOf c.origin) ≠ [] →
    Countable (a.entriesOf c.origin) 15 (a.rule c.origin) c.ttmNow ∧
      Countable a.trackedGlobal.timeEntries 10 a.settings.globalLimit c.ttmNow

/-- Each call of a sequence finds such a state. -/
def EachCheckable (settings : Settings) (calls : List Call) : Prop :=
  ∀ prior c later, calls = prior ++ c :: later → Checkable (run { settings } prior) c

theorem EachCheckable.left (h : EachCheckable settings (calls ++ [c])) :
    EachCheckable settings calls := by
  intro prior d later heq
  exact h prior d (later ++ [c]) (by rw [heq, List.append_assoc]; rfl)

/-- An enabled configuration with positive limits and without settings for single
methods. -/
structure Limiting (settings : Settings) : Prop where
  enabled : settings.enabled = true
  origins : ∀ oe ∈ settings.origins, 0 < oe.maxCallsPerSecond ∧ 0 < oe.maxCallsPerMinute ∧
    oe.customMethodSettings = []
  globalLimit : 0 < settings.globalLimit.maxCallsPerSecond ∧
    0 < settings.globalLimit.maxCallsPerMinute ∧ settings.globalLimit.customMethodSettings = []

/-- Where every call since a minute is recorded, the window of a check holds all
calls that were made. -/
theorem countP_le_of_complete {record : List Int}
    (h : (made.filter (ttmNow - 60 ≤ ·)).Sublist record) (hduration : durationToPast ≤ 60) :
    made.countP (inside ttmNow durationToPast) ≤ record.countP (inside ttmNow durationToPast) := by
  have hfilter : made.countP (inside ttmNow durationToPast) =
      (made.filter (ttmNow - 60 ≤ ·)).countP (inside ttmNow durationToPast) := by
    rw [List.countP_filter]
    apply List.countP_congr
    intro ttm _
    simp only [inside, decide_eq_true_eq, Bool.and_eq_true]
    omega
  rw [hfilter]
  exact h.countP_le

/-- One window of a record that was checked. -/
theorem countP_le_of_not_exceeds {limit : Nat}
    (hmade : (made.filter (ttmNow - 60 ≤ ·)).Sublist tracked.timeEntries)
    (hduration : durationToPast ≤ 60) (hsteps : steps ≠ 0) (hlimit : 0 < limit)
    (hcheck : tracked.exceeds ttmNow durationToPast steps limit = false)
    (hcountable : tracked.timeEntries.length ≤ steps ∨
      tracked.timeEntries.countP (inside ttmNow durationToPast) ≤ limit) :
    made.countP (inside ttmNow durationToPast) ≤ limit := by
  have hle := countP_le_of_complete hmade hduration
  rcases hcountable with hshort | hbelow
  · simp only [TrackedOrigin.exceeds, hlimit, true_and, decide_eq_false_iff_not,
      TrackedOrigin.countToPast_of_short hsteps hshort] at hcheck
    omega
  · omega

theorem inside_self (ttmNow : Int) (durationToPast : Nat) :
    inside ttmNow durationToPast ttmNow = true := by
  simp only [inside, decide_eq_true_eq]
  omega

theorem countP_push_le (ttmNow : Int) (durationToPast : Nat) (entries : List Int) :
    (kept ttmNow 60 entries ++ [ttmNow]).countP (inside ttmNow durationToPast) ≤
      entries.countP (inside ttmNow durationToPast) + 1 := by
  rw [List.countP_append, List.countP_singleton, inside_self, if_pos rfl]
  exact Nat.add_le_add_right ((kept_sublist _ _ _).countP_le) 1

/-- What `Countable` says of the record with the new call. -/
theorem Countable.push {entries : List Int} {limit : OriginEntrySetting}
    (h : Countable entries steps limit ttmNow) :
    ((kept ttmNow 60 entries ++ [ttmNow]).length ≤ steps ∨
      (kept ttmNow 60 entries ++ [ttmNow]).countP (inside ttmNow 60) ≤ limit.maxCallsPerMinute) ∧
    ((kept ttmNow 60 entries ++ [ttmNow]).length ≤ steps ∨
      (kept ttmNow 60 entries ++ [ttmNow]).countP (inside ttmNow 1) ≤
        limit.maxCallsPerSecond) := by
  rcases h with hshort | hbelow
  · rw [List.length_append, List.length_singleton]
    exact ⟨.inl hshort, .inl hshort⟩
  · exact ⟨.inr (Nat.le_trans (countP_push_le _ _ _) hbelow.minute),
      .inr (Nat.le_trans (countP_push_le _ _ _) hbelow.second)⟩

theorem limitsOf_of_none (h : oe.customMethodSetting strMethod = none) :
    oe.maxCallsPerMinuteOf strMethod = oe.maxCallsPerMinute ∧
      oe.maxCallsPerSecondOf strMethod = oe.maxCallsPerSecond := by
  unfold OriginEntrySetting.maxCallsPerMinuteOf OriginEntrySetting.maxCallsPerSecondOf
  rw [h]
  exact ⟨rfl, rfl⟩

theorem customMethodSetting_of_nil (h : oe.customMethodSettings = []) (strMethod : String) :
    oe.customMethodSetting strMethod = none := by
  unfold OriginEntrySetting.customMethodSetting
  rw [h]
  split <;> rfl

/-- The rule for a checkable call has positive limits, whatever the method. -/
theorem Limiting.rule (h : Limiting settings) (hsame : SameLimits settings a.settings)
    (hcheckable : Checkable a c) :
    0 < (a.rule c.origin).maxCallsPerSecond ∧ 0 < (a.rule c.origin).maxCallsPerMinute ∧
      (a.rule c.origin).customMethodSetting c.strMethod = none := by
  have hdefault : a.rule c.origin = .defaultsForAnyOrigin →
      0 < (a.rule c.origin).maxCallsPerSecond ∧ 0 < (a.rule c.origin).maxCallsPerMinute ∧
        (a.rule c.origin).customMethodSetting c.strMethod = none := by
    intro heq
    have hmethod := hcheckable.method heq
    rw [heq]
    exact ⟨by decide, by decide, hmethod⟩
  rcases (sameLimits_findOriginEntrySetting a.settings c.origin).2 with hmem | heq
  · rcases hsame.origins _ hmem with hmem | heq
    · obtain ⟨hsecond, hminute, hplain⟩ := h.origins _ hmem
      exact ⟨hsecond, hminute, customMethodSetting_of_nil hplain _⟩
    · exact hdefault heq
  · exact hdefault heq

/-- The call of an origin without recorded calls, where everyone is below the
limits. -/
theorem within_of_fresh
    (hcomplete : Complete a calls (c.ttmNow - 60)) (hduration : c.durationToPast = 60)
    (hnone : (a.admitted c).trackedOrigins c.origin = none)
    (hsecond : 0 < oe.maxCallsPerSecond) (hminute : 0 < oe.maxCallsPerMinute)
    (hbelow : Below a.trackedGlobal.timeEntries globalLimit c.ttmNow) :
    Within oe globalLimit (calls ++ [c]) c := by
  have hrecorded : Recorded a c
      ((a.admitted c).setOrigin c.origin { timeEntries := [c.ttmNow] }) := by
    apply recorded_setOrigin
    rw [entriesOf_of_none hnone]
    rfl
  have hafter := hcomplete.recorded hduration hrecorded
  have horigin := hafter.origin c.origin
  rw [entriesOf_setOrigin, if_pos rfl] at horigin
  have heveryone := hafter.everyone
  rw [hrecorded.everyone, hduration] at heveryone
  have hone : ∀ durationToPast, [c.ttmNow].countP (inside c.ttmNow durationToPast) = 1 := by
    intro durationToPast
    rw [List.countP_singleton, inside_self, if_pos rfl]
  have hpush := fun durationToPast => countP_push_le c.ttmNow durationToPast
    a.trackedGlobal.timeEntries
  refine ⟨?_, ?_, ?_, ?_⟩
  · have hle := countP_le_of_complete horigin (show 1 ≤ 60 by decide)
    rw [hone] at hle
    exact Nat.le_trans hle hsecond
  · have hle := countP_le_of_complete horigin (Nat.le_refl 60)
    rw [hone] at hle
    exact Nat.le_trans hle hminute
  · have hle := countP_le_of_complete heveryone (show 1 ≤ 60 by decide)
    exact Nat.le_trans hle (Nat.le_trans (hpush 1) hbelow.second)
  · have hle := countP_le_of_complete heveryone (Nat.le_refl 60)
    exact Nat.le_trans hle (Nat.le_trans (hpush 60) hbelow.minute)

/-- The call of a tracked origin that passes the four checks. -/
theorem within_of_passed
    (hcomplete : Complete a calls (c.ttmNow - 60)) (hduration : c.durationToPast = 60)
    (hsome : (a.admitted c).trackedOrigins c.origin = some tracked)
    (hdetect : detect oe globalLimit (counted tracked c) (a.admitted c).trackedGlobal c.strMethod
      c.ttmNow 60 = none)
    (hoe : 0 < oe.maxCallsPerSecond ∧ 0 < oe.maxCallsPerMinute ∧
      oe.customMethodSetting c.strMethod = none)
    (hglobalLimit : 0 < globalLimit.maxCallsPerSecond ∧ 0 < globalLimit.maxCallsPerMinute ∧
      globalLimit.customMethodSetting c.strMethod = none)
    (horigin : Countable (a.entriesOf c.origin) 15 oe c.ttmNow)
    (heveryone : Countable a.trackedGlobal.timeEntries 10 globalLimit c.ttmNow) :
    Within oe globalLimit (calls ++ [c]) c := by
  have hafter := hcomplete.recorded hduration (recorded_accepted hsome)
  have hmade := hafter.origin c.origin
  rw [accepted_entriesOf] at hmade
  have hrecord : (counted tracked c).timeEntries =
      kept c.ttmNow 60 (a.entriesOf c.origin) ++ [c.ttmNow] := by
    change tracked.timeEntries ++ _ = _
    rw [← entriesOf_of_some hsome, admitted_entriesOf, hduration]
  have hglobal : (a.admitted c).trackedGlobal.timeEntries =
      kept c.ttmNow 60 a.trackedGlobal.timeEntries ++ [c.ttmNow] := by
    rw [admitted_trackedGlobal, hduration]
  have hcountable := horigin.push
  rw [← hrecord] at hcountable
  have hcountableAll := heveryone.push
  rw [← hglobal] at hcountableAll
  obtain ⟨hcheck₁, hcheck₂, hcheck₃, hcheck₄⟩ := not_exceeds_of_detect hdetect
  rw [(limitsOf_of_none hoe.2.2).1] at hcheck₁
  rw [(limitsOf_of_none hoe.2.2).2] at hcheck₂
  rw [(limitsOf_of_none hglobalLimit.2.2).1] at hcheck₃
  rw [(limitsOf_of_none hglobalLimit.2.2).2] at hcheck₄
  exact
    { originSecond := countP_le_of_not_exceeds hmade (by decide) (by decide) hoe.1 hcheck₂
        hcountable.2
      originMinute := countP_le_of_not_exceeds hmade (by decide) (by decide) hoe.2.1 hcheck₁
        hcountable.1
      everyoneSecond := countP_le_of_not_exceeds hafter.everyone (by decide) (by decide)
        hglobalLimit.1 hcheck₄ hcountableAll.2
      everyoneMinute := countP_le_of_not_exceeds hafter.everyone (by decide) (by decide)
        hglobalLimit.2.1 hcheck₃ hcountableAll.1 }

/-- A checkable call that gets no error is within the limits. -/
theorem within_of_checkable (hlimiting : Limiting settings) (hsame : SameLimits settings a.settings)
    (hcomplete : Complete a calls (c.ttmNow - 60)) (hduration : c.durationToPast = 60)
    (hcheckable : Checkable a c) (hresult : (a.call c).1 = .noError) :
    Within (a.rule c.origin) a.settings.globalLimit (calls ++ [c]) c := by
  have hoe := hlimiting.rule hsame hcheckable
  have hglobalLimit := hlimiting.globalLimit
  rw [← hsame.globalLimit] at hglobalLimit
  have houtcome := call_outcome (hsame.enabled.trans hlimiting.enabled) hcheckable.named
  generalize a.call c = r at houtcome hresult
  cases houtcome with
  | everyoneBanned | originBanned => cases hresult
  | startsBan _ _ _ _ ban hdetected =>
    rcases (exceeds_of_detect hdetected).1 with hreason | hreason
    · cases hreason.symm.trans hresult
    · cases hreason.symm.trans hresult
  | fresh _ hnone =>
    refine within_of_fresh hcomplete hduration hnone hoe.1 hoe.2.1 (hcheckable.fresh ?_)
    rw [← entriesOf_of_none hnone, admitted_entriesOf, hduration]
  | passed _ tracked hsome _ hdetected =>
    have hkept : kept c.ttmNow 60 (a.entriesOf c.origin) ≠ [] := by
      have hnonempty := admitted_nonempty (by rw [hduration]; decide) hsome
      rwa [← entriesOf_of_some hsome, admitted_entriesOf, hduration] at hnonempty
    obtain ⟨horigin, heveryone⟩ := hcheckable.tracked hkept
    unfold detected at hdetected
    rw [hduration, (sameLimits_findOriginEntrySetting a.settings c.origin).1.globalLimit]
      at hdetected
    exact within_of_passed hcomplete hduration hsome hdetected hoe
      ⟨hglobalLimit.1, hglobalLimit.2.1, customMethodSetting_of_nil hglobalLimit.2.2 _⟩
      horigin heveryone

/-! ## Sequences of calls -/

/-- On sequences of checkable calls the records have all calls of the last
minute. -/
theorem run_complete (henabled : settings.enabled = true)
    (hcheckable : EachCheckable settings calls) (hduration : ∀ c ∈ calls, c.durationToPast = 60)
    (hordered : calls.Pairwise fun c d => c.ttmNow ≤ d.ttmNow)
    (hnow : ∀ c ∈ calls, c.ttmNow ≤ ttmNow) :
    Complete (run { settings } calls) calls (ttmNow - 60) := by
  induction calls using List.reverseRecOn generalizing ttmNow with
  | nil => exact ⟨List.Sublist.slnil, fun _ => List.Sublist.slnil⟩
  | append_singleton calls c ih =>
    have hlast : c ∈ calls ++ [c] := List.mem_append_right _ List.mem_cons_self
    obtain ⟨hprior, -, hbefore⟩ := List.pairwise_append.mp hordered
    have hcomplete : Complete (run { settings } calls) calls (c.ttmNow - 60) := by
      exact ih hcheckable.left (fun d hd => hduration d (List.mem_append_left _ hd)) hprior
        fun d hd => hbefore d hd c List.mem_cons_self
    have hc : Checkable (run { settings } calls) c := hcheckable calls c [] rfl
    have hlimits := run_sameLimits { settings } calls
    rw [run_append_singleton]
    rcases (call_outcome (hlimits.enabled.trans henabled) hc.named).records with
      ⟨hban, -⟩ | ⟨-, hrecorded⟩
    · exact absurd hban hc.unbanned
    · have hle := hnow c hlast
      exact (hcomplete.recorded (hduration c hlast) hrecorded).mono (by omega)

/-- A call starts a ban only if a limit is exceeded. It gets no error only within
the limits, if each call up to it is checkable. -/
theorem limits_enforced {settings : Settings} (hlimiting : Limiting settings)
    (calls : List Call) (c : Call) (hduration : ∀ d ∈ calls ++ [c], d.durationToPast = 60)
    (hordered : (calls ++ [c]).Pairwise fun d e => d.ttmNow ≤ e.ttmNow) :
    (StartsBan ((run { settings } calls).call c).1 →
      ¬ Within ((run { settings } calls).rule c.origin) settings.globalLimit (calls ++ [c]) c) ∧
    (EachCheckable settings (calls ++ [c]) → ((run { settings } calls).call c).1 = .noError →
      Within ((run { settings } calls).rule c.origin) settings.globalLimit (calls ++ [c]) c) := by
  have hlimits := run_sameLimits { settings } calls
  have hlast := hduration c (List.mem_append_right _ List.mem_cons_self)
  constructor
  · intro hban
    have hmade := run_made hlimiting.enabled calls
    have hnot := not_within_of_startsBan hmade (hlimits.enabled.trans hlimiting.enabled) hlast hban
    rwa [hlimits.globalLimit] at hnot
  · intro hcheckable hresult
    obtain ⟨hprior, -, hbefore⟩ := List.pairwise_append.mp hordered
    have hcomplete : Complete (run { settings } calls) calls (c.ttmNow - 60) := by
      exact run_complete hlimiting.enabled hcheckable.left
        (fun d hd => hduration d (List.mem_append_left _ hd))
        hprior fun d hd => hbefore d hd c List.mem_cons_self
    have hwithin := within_of_checkable hlimiting hlimits hcomplete hlast
      (hcheckable calls c [] rfl) hresult
    rwa [hlimits.globalLimit] at hwithin

def sampleSettings (perSecond perMinute : Nat) : Settings where
  origins := [{ originWildcards := ["*"], maxCallsPerSecond := perSecond
                maxCallsPerMinute := perMinute, banPeak := 15, banLengthy := 120 }]
  globalLimit := { originWildcards := ["*"], maxCallsPerSecond := 1000, maxCallsPerMinute := 1000 }

theorem sampleSettings_limiting {perSecond perMinute : Nat} (hsecond : 0 < perSecond)
    (hminute : 0 < perMinute) : Limiting (sampleSettings perSecond perMinute) := by
  refine ⟨rfl, fun oe hoe => ?_, show 0 < 1000 by decide, show 0 < 1000 by decide, rfl⟩
  rw [List.mem_singleton.mp hoe]
  exact ⟨hsecond, hminute, rfl⟩

def sampleCall : Call := { origin := "10.0.0.1", ttmNow := 100 }

theorem EachCheckable.append_singleton (h : EachCheckable settings calls)
    (hc : Checkable (run { settings } calls) c) : EachCheckable settings (calls ++ [c]) := by
  intro prior d later heq
  rcases List.eq_nil_or_concat later with rfl | ⟨init, last, rfl⟩
  · obtain ⟨rfl, hlast⟩ := List.append_inj' heq rfl
    cases hlast
    exact hc
  · rw [List.concat_eq_append, ← List.cons_append, ← List.append_assoc] at heq
    exact h prior d init (List.append_inj' heq rfl).1

/-- With two calls per second and calls of two origins, the second call of an origin is
within the limits, and the third one in the same second starts a ban. -/
theorem limits_enforced_sample :
    let calls := [sampleCall, { sampleCall with origin := "10.0.0.2" }]
    Within ((run { settings := sampleSettings 2 60 } calls).rule sampleCall.origin)
        (sampleSettings 2 60).globalLimit (calls ++ [sampleCall]) sampleCall ∧
      ¬ Within ((run { settings := sampleSettings 2 60 } (calls ++ [sampleCall])).rule
          sampleCall.origin)
        (sampleSettings 2 60).globalLimit (calls ++ [sampleCall] ++ [sampleCall]) sampleCall := by
  intro calls
  have hlimiting := sampleSettings_limiting (show 0 < 2 by decide) (show 0 < 60 by decide)
  have hfirst : EachCheckable (sampleSettings 2 60) ([] ++ [sampleCall]) :=
    .append_singleton (fun prior d later heq => by simp at heq)
      ⟨by decide, fun h => h.1 rfl, by decide +kernel, fun _ => ⟨by decide, by decide⟩,
        fun h => absurd rfl h⟩
  have hother : EachCheckable (sampleSettings 2 60) calls :=
    hfirst.append_singleton ⟨by decide, fun h => h.1 (by decide +kernel), by decide +kernel,
      fun _ => ⟨by decide +kernel, by decide +kernel⟩, fun h => absurd (by decide +kernel) h⟩
  have hchecked : EachCheckable (sampleSettings 2 60) (calls ++ [sampleCall]) :=
    hother.append_singleton ⟨by decide, fun h => h.1 (by decide +kernel), by decide +kernel,
      fun _ => ⟨by decide +kernel, by decide +kernel⟩,
      fun _ => ⟨.inl (by decide +kernel), .inl (by decide +kernel)⟩⟩
  constructor
  · exact (limits_enforced hlimiting calls sampleCall (by decide) (by decide)).2 hchecked
      (by decide +kernel)
  · exact (limits_enforced hlimiting (calls ++ [sampleCall]) sampleCall (by decide)
      (by decide)).1 (.inl (by decide +kernel))

/-- With 20 calls per second, the 21st call of a second gets no error. -/
theorem sampleSettings_not_enforced :
    let a := run { settings := sampleSettings 20 100 } (List.replicate 20 sampleCall)
    Limiting (sampleSettings 20 100) ∧ (a.call sampleCall).1 = .noError ∧
      ¬ Within (a.rule sampleCall.origin) (sampleSettings 20 100).globalLimit
        (List.replicate 20 sampleCall ++ [sampleCall]) sampleCall := by
  intro a
  refine ⟨sampleSettings_limiting (by decide) (by decide), by decide +kernel, fun hwithin => ?_⟩
  have hrule : (a.rule sampleCall.origin).maxCallsPerSecond = 20 := by decide +kernel
  have hsecond := hwithin.originSecond
  rw [hrule] at hsecond
  revert hsecond
  decide +kernel

end Algorithm

end Skaled.Unddos
