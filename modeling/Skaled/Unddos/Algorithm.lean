import Mathlib.Algebra.Group.Nat.Defs
import Mathlib.Data.List.Basic

/-! # The limiter of calls and connections

`skutils::unddos` counts the calls and the WebSocket connections of each origin
and of all origins together, and bans an origin, or everyone, that exceeds a
limit. Times are seconds; a call carries the time that `adjust_now_tick_mark`
settles on. They are integers without a bound here, while `time_t` has 64 bits:
the end of a ban is the sum of a time and a configured length, which stays far
below 2 ^ 63. The characters of patterns and origins stand for bytes. The tracked
origins and the numbers of connections are finite maps in the source and functions
here.
-/

namespace Skaled.Unddos

/-! ## Wildcards -/

/-- Where a comparison without a star to go back to stops. -/
inductive Scan where
  | ended (wild : List Char)
  | star (wild s : List Char)
  | mismatch

/-- Compare up to the next star. -/
def scan : List Char → List Char → Scan
  | wild, [] => .ended wild
  | [], _ :: _ => .mismatch
  | w :: wild, c :: s =>
    if w = '*' then .star wild (c :: s)
    else if w = c ∨ w = '?' then scan wild s
    else .mismatch

theorem length_of_scan_eq_star {wild s wild' s' : List Char} (h : scan wild s = .star wild' s') :
    wild'.length < wild.length := by
  induction s generalizing wild with
  | nil => cases wild <;> cases h
  | cons c s ih =>
    cases wild with
    | nil => cases h
    | cons w wild =>
      unfold scan at h
      split at h
      · cases h
        exact Nat.lt_succ_self _
      · split at h
        · exact Nat.lt_trans (ih h) (Nat.lt_succ_self _)
        · cases h

/-- The text behind a star. After a mismatch the star takes one character more. -/
def retry (wild s : List Char) : Bool :=
  match h : scan wild s with
  | .ended rest => rest.all (· = '*')
  | .star wild' s' =>
    have := length_of_scan_eq_star h
    if wild' = [] then true else retry wild' s'
  | .mismatch =>
    match s with
    | [] => false
    | _ :: cp => retry wild cp
termination_by (wild.length, s.length)

def wildcmp (wild s : String) : Bool :=
  match scan wild.toList s.toList with
  | .ended rest => rest.all (· = '*')
  | .star wild s => if wild = [] then true else retry wild s
  | .mismatch => false

/-! ## Settings -/

structure CustomMethodSetting where
  maxCallsPerSecond : Nat := 0
  maxCallsPerMinute : Nat := 0
  deriving DecidableEq, Repr

structure OriginEntrySetting where
  originWildcards : List String := []
  maxCallsPerSecond : Nat := 0
  maxCallsPerMinute : Nat := 0
  banPeak : Int := 0
  banLengthy : Int := 0
  maxWsConn : Nat := 0
  customMethodSettings : List (String × CustomMethodSetting) := []
  deriving DecidableEq, Repr

namespace OriginEntrySetting

def recommendedCustomMethods : List String :=
  ["web3_clientVersion", "web3_sha3", "net_version", "eth_syncing", "eth_protocolVersion",
    "eth_gasPrice", "eth_blockNumber", "eth_getBalance", "eth_getBlockByHash",
    "eth_getBlockByNumber", "eth_getTransactionCount", "eth_getTransactionReceipt",
    "eth_getTransactionByHash", "eth_getTransactionByBlockHashAndIndex",
    "eth_getTransactionByBlockNumberAndIndex"]

def defaultsForAnyOrigin : OriginEntrySetting where
  originWildcards := ["*"]
  maxCallsPerSecond := 500
  maxCallsPerMinute := 15000
  banPeak := 15
  banLengthy := 120
  maxWsConn := 50
  customMethodSettings := recommendedCustomMethods.map fun method => (method, ⟨5000, 150000⟩)

def matchOrigin (oe : OriginEntrySetting) (origin : String) : Bool :=
  origin ≠ "" ∧ oe.originWildcards.any (wildcmp · origin)

/-- The setting of a method, if there is one. A call without a method has none. -/
def customMethodSetting (oe : OriginEntrySetting) (method : String) :
    Option CustomMethodSetting :=
  if method = "" then none else oe.customMethodSettings.lookup method

def maxCallsPerSecondOf (oe : OriginEntrySetting) (method : String) : Nat :=
  match oe.customMethodSetting method with
  | none => oe.maxCallsPerSecond
  | some cme => max oe.maxCallsPerSecond cme.maxCallsPerSecond

def maxCallsPerMinuteOf (oe : OriginEntrySetting) (method : String) : Nat :=
  match oe.customMethodSetting method with
  | none => oe.maxCallsPerMinute
  | some cme => max oe.maxCallsPerMinute cme.maxCallsPerMinute

end OriginEntrySetting

structure Settings where
  enabled : Bool := true
  origins : List OriginEntrySetting := []
  globalLimit : OriginEntrySetting := {}
  deriving DecidableEq, Repr

namespace Settings

def findOriginEntrySettingMatch (st : Settings) (origin : String) : Option OriginEntrySetting :=
  st.origins.find? (·.matchOrigin origin)

def autoAppendAnyOriginRule (st : Settings) : OriginEntrySetting × Settings :=
  match st.findOriginEntrySettingMatch "*" with
  | some oe => (oe, st)
  | none =>
    (.defaultsForAnyOrigin, { st with origins := st.origins ++ [.defaultsForAnyOrigin] })

/-- `find_origin_entry_setting`: an origin without a rule gets the default one, which
is then added to the settings. -/
def findOriginEntrySetting (st : Settings) (origin : String) : OriginEntrySetting × Settings :=
  match st.findOriginEntrySettingMatch origin with
  | some oe => (oe, st)
  | none => st.autoAppendAnyOriginRule

end Settings

/-! ## Recorded calls -/

def sizeMax : Nat := 2 ^ 64 - 1

/-- Recorded calls, the oldest first. A ban until zero is none. -/
structure TrackedOrigin where
  timeEntries : List Int := []
  banUntil : Int := 0
  deriving DecidableEq, Repr

namespace TrackedOrigin

def unloadOldDataByTimeToPast (tracked : TrackedOrigin) (ttmNow : Int) (durationToPast : Nat) :
    TrackedOrigin :=
  if durationToPast = 0 then tracked
  else { tracked with timeEntries := tracked.timeEntries.dropWhile (· < ttmNow - durationToPast) }

/-- The calls of a window of time. -/
def inside (ttmNow : Int) (durationToPast : Nat) (ttm : Int) : Bool :=
  ttmNow - durationToPast ≤ ttm ∧ ttm ≤ ttmNow

/-- The first loop of `count_to_past`, from the newest call backwards: the number
of calls in the window, how far the last of them is from its start, and, if the
scan was cut off, the calls from the one it stopped at. -/
def scanBack (ttmNow : Int) (durationToPast cntOptimizedMaxSteps : Nat) :
    Nat → Nat → Int → List Int → Nat × Int × Option (List Int)
  | _, cnt, ttRescaling, [] => (cnt, ttRescaling, none)
  | idxStep, cnt, ttRescaling, te :: rest =>
    let found := inside ttmNow durationToPast te
    let cnt := if found then cnt + 1 else cnt
    let ttRescaling := if found then te - (ttmNow - durationToPast) else ttRescaling
    if cntOptimizedMaxSteps ≠ sizeMax ∧ cntOptimizedMaxSteps ≤ idxStep then
      (cnt, ttRescaling, some (te :: rest))
    else scanBack ttmNow durationToPast cntOptimizedMaxSteps (idxStep + 1) cnt ttRescaling rest

/-- `count_to_past`. The second loop goes on where the first one stopped. -/
def countToPast (tracked : TrackedOrigin) (ttmNow : Int)
    (durationToPast cntOptimizedMaxSteps cntTargetUnDDoS : Nat) : Nat :=
  if cntOptimizedMaxSteps = 0 then 0
  else
    match scanBack ttmNow durationToPast cntOptimizedMaxSteps 0 0 (ttmNow - durationToPast)
        tracked.timeEntries.reverse with
    | (cnt, _, none) => cnt
    | (0, _, some _) => 0
    | (cnt, ttRescaling, some unread) =>
      let rescan := unread.countP (inside ttmNow durationToPast)
      if 0 < ttRescaling then
        let scaled := cnt * durationToPast % 2 ^ 64 / ttRescaling.toNat
        if cntTargetUnDDoS ≠ 0 ∧ cntTargetUnDDoS ≠ sizeMax ∧ cntTargetUnDDoS ≤ scaled then rescan
        else scaled
      else rescan

def clearBan (tracked : TrackedOrigin) : TrackedOrigin := { tracked with banUntil := 0 }

/-- `check_ban`. A ban that is over is cleared. -/
def checkBan (tracked : TrackedOrigin) (ttmNow : Int) : Bool × TrackedOrigin :=
  if tracked.banUntil = 0 then (false, tracked)
  else if ttmNow ≤ tracked.banUntil then (true, tracked)
  else (false, tracked.clearBan)

/-- Whether a limit is exceeded, as `register_call_from_origin` finds out. No
limit is a limit of zero. -/
def exceeds (tracked : TrackedOrigin) (ttmNow : Int)
    (durationToPast cntOptimizedMaxSteps nMaxCallsPerTimeUnit : Nat) : Bool :=
  0 < nMaxCallsPerTimeUnit ∧
    nMaxCallsPerTimeUnit <
      tracked.countToPast ttmNow durationToPast cntOptimizedMaxSteps nMaxCallsPerTimeUnit

def pushBack (tracked : TrackedOrigin) (ttm : Int) : TrackedOrigin :=
  { tracked with timeEntries := tracked.timeEntries ++ [ttm] }

end TrackedOrigin

/-! ## Calls -/

/-- `e_high_load_detection_result_t`. -/
inductive HighLoad where
  | noError
  | peak
  | lengthy
  | badOrigin
  | ban
  deriving DecidableEq, Repr

/-- Who is banned. -/
inductive Scope where
  | origin
  | everyone
  deriving DecidableEq, Repr

/-- A ban that a call starts. -/
structure Ban where
  scope : Scope
  reason : HighLoad
  length : Int
  deriving DecidableEq, Repr

structure Algorithm where
  settings : Settings
  trackedOrigins : String → Option TrackedOrigin := fun _ => none
  trackedGlobal : TrackedOrigin := {}
  mapWsConnCounts : String → Option Nat := fun _ => none
  wsConnCountGlobal : Nat := 0

namespace Algorithm

def cntOptimizedMaxSteps4cm : Nat := 15
def cntOptimizedMaxSteps4cs : Nat := 15
def cntOptimizedMaxSteps4gm : Nat := 10
def cntOptimizedMaxSteps4gs : Nat := 10

/-- `unload_old_data_by_time_to_past`. An origin without recorded calls is
forgotten, with its ban. -/
def unloadOldDataByTimeToPast (a : Algorithm) (ttmNow : Int) (durationToPast : Nat) : Algorithm :=
  if durationToPast = 0 then a
  else
    { a with
      trackedOrigins := fun origin =>
        ((a.trackedOrigins origin).map (·.unloadOldDataByTimeToPast ttmNow durationToPast)).filter
          (·.timeEntries ≠ [])
      trackedGlobal := a.trackedGlobal.unloadOldDataByTimeToPast ttmNow durationToPast }

/-- The four checks, and the ban that the first of them to fail starts. -/
def detect (oe globalLimit : OriginEntrySetting) (tracked trackedGlobal : TrackedOrigin)
    (strMethod : String) (ttmNow : Int) (durationToPast : Nat) : Option Ban :=
  if tracked.exceeds ttmNow durationToPast cntOptimizedMaxSteps4cm
      (oe.maxCallsPerMinuteOf strMethod) then
    some ⟨.origin, .lengthy, oe.banLengthy⟩
  else if tracked.exceeds ttmNow 1 cntOptimizedMaxSteps4cs (oe.maxCallsPerSecondOf strMethod) then
    some ⟨.origin, .peak, oe.banPeak⟩
  else if trackedGlobal.exceeds ttmNow durationToPast cntOptimizedMaxSteps4gm
      (globalLimit.maxCallsPerMinuteOf strMethod) then
    some ⟨.everyone, .lengthy, globalLimit.banLengthy⟩
  else if trackedGlobal.exceeds ttmNow 1 cntOptimizedMaxSteps4gs
      (globalLimit.maxCallsPerSecondOf strMethod) then
    some ⟨.everyone, .peak, globalLimit.banPeak⟩
  else none

def setOrigin (a : Algorithm) (origin : String) (tracked : TrackedOrigin) : Algorithm :=
  { a with trackedOrigins := Function.update a.trackedOrigins origin (some tracked) }

def startBan (a : Algorithm) (origin : String) (tracked : TrackedOrigin) (banUntil : Int) :
    Scope → Algorithm
  | .origin => a.setOrigin origin { tracked with banUntil }
  | .everyone => { a with trackedGlobal := { a.trackedGlobal with banUntil } }

/-- The call of an origin that is tracked: its record has the call already. -/
def checkTracked (a : Algorithm) (origin strMethod : String) (ttmNow : Int) (durationToPast : Nat)
    (tracked : TrackedOrigin) : HighLoad × Algorithm :=
  let (banned, tracked) := tracked.checkBan ttmNow
  let a := a.setOrigin origin tracked
  if banned then (.ban, a)
  else
    let (oe, settings) := a.settings.findOriginEntrySetting origin
    let a := { a with settings }
    match detect oe settings.globalLimit tracked a.trackedGlobal strMethod ttmNow
        durationToPast with
    | none => (.noError, a)
    | some ban => (ban.reason, a.startBan origin tracked (ttmNow + ban.length) ban.scope)

/-- The call of an origin while there is no ban for everyone. -/
def registerUnbanned (a : Algorithm) (origin strMethod : String) (ttmNow : Int)
    (durationToPast : Nat) : HighLoad × Algorithm :=
  let a := a.unloadOldDataByTimeToPast ttmNow durationToPast
  match a.trackedOrigins origin with
  | none => (.noError, a.setOrigin origin { timeEntries := [ttmNow] })
  | some tracked => a.checkTracked origin strMethod ttmNow durationToPast (tracked.pushBack ttmNow)

def registerCallFromOrigin (a : Algorithm) (origin strMethod : String) (ttmNow : Int)
    (durationToPast : Nat) : HighLoad × Algorithm :=
  if !a.settings.enabled then (.noError, a)
  else if origin = "" then (.badOrigin, a)
  else
    let (banned, trackedGlobal) := (a.trackedGlobal.pushBack ttmNow).checkBan ttmNow
    let a := { a with trackedGlobal }
    if banned then (.ban, a) else a.registerUnbanned origin strMethod ttmNow durationToPast

/-! ## Connections -/

/-- `register_ws_conn_for_origin`. A connection is counted before it is refused. -/
def registerWsConnForOrigin (a : Algorithm) (origin : String) : HighLoad × Algorithm :=
  if !a.settings.enabled then (.noError, a)
  else if origin = "" then (.badOrigin, a)
  else
    let a := { a with wsConnCountGlobal := a.wsConnCountGlobal + 1 }
    if a.settings.globalLimit.maxWsConn < a.wsConnCountGlobal then (.peak, a)
    else
      let count := (a.mapWsConnCounts origin).getD 0 + 1
      let (oe, settings) := a.settings.findOriginEntrySetting origin
      let a :=
        { a with
          settings
          mapWsConnCounts := Function.update a.mapWsConnCounts origin (some count) }
      if oe.maxWsConn < count then (.peak, a) else (.noError, a)

def unregisterWsConnForOrigin (a : Algorithm) (origin : String) : Bool × Algorithm :=
  if origin = "" then (!a.settings.enabled, a)
  else
    let a := { a with wsConnCountGlobal := a.wsConnCountGlobal - 1 }
    match a.mapWsConnCounts origin with
    | none => (!a.settings.enabled, a)
    | some count =>
      let left := if count - 1 = 0 then none else some (count - 1)
      (true, { a with mapWsConnCounts := Function.update a.mapWsConnCounts origin left })

end Algorithm

end Skaled.Unddos
