import Mathlib.Algebra.Order.Ring.Rat
import DraconGuard.Lib.Alarm
import DraconGuard.Guard.DiskPass

/-!
# Reports that repeat

Most checks of a pass keep their last report under a key and emit an event when it changes, or when
an alarm is due again (`report_state_transition`). Each check here is what it has measured, and what
it makes of it: whether its condition holds, and the value it passes on. A check that returns
without passing one on leaves what is stored.

| definition | source |
| --- | --- |
| `ReportState`, `reportStateTransition` | main.rs:2351 |
| `checkDiskTrends`, `diskTrendWarning` | main.rs:6194, 6167 |
| `checkDiskEarlyWarning` | main.rs:6248 |
| `checkSwapDevices` | main.rs:6291 |
| `checkRapidDiskFill` | main.rs:6354 |
| `memoryPressureReport` | `check_memory_pressure`, the report (main.rs:7058) |
| `autoCleanupReading`, `proactiveCleanupReading` | main.rs:8995, 10159 |
| `HeavySample.reading`, `AlertEvent.dropHeavy` | `check_heavy_processes` (main.rs:9210, 9268) |
| `checkInodeUsage` | main.rs:9615 |
| `checkZombieProcesses` | main.rs:9684 |
| `checkExtraMounts` | main.rs:9784 |
| `checkLargeLogs` | main.rs:9937 |
| `checkLinkDrift` | main.rs:10330 |
| `checkServiceMemoryGrowth` | main.rs:10557 |
| `passEvents` | `run_guard_once` (main.rs:10403-10595) |
-/

namespace DraconGuard

/-! ## Keys and values -/

/-- The keys of `report_states`. -/
inductive ReportKey where
  | diskTrend | diskEarlyWarning | swapDevices | diskRapidFill | memoryPressure
  | autoCleanup | proactiveCleanup
  | heavyProcess (pid : Pid) (starttime : Nat)
  | inodeWarning | zombieWarning
  | diskExtra (mount : String)
  | diskExtraUnreadable | logSizeWarning | links | serviceMemoryGrowth
deriving DecidableEq, Repr

/-- The states `Report::signature` tells apart (service_growth.rs:171). -/
inductive GrowthState where
  | observing | sustainedGrowth | unavailable
deriving DecidableEq, Repr

/-- The values reported under the keys. -/
inductive ReportValue where
  | ok | soon | early | wrong | rapid | unmeasured | warn | action | critical
  | applied | candidates | heavy | stuck | unreadable | overThreshold
  | drifted (n : Nat)
  /-- `Report::signature`: `target=state`, joined. -/
  | growth (states : List (String × GrowthState))
deriving DecidableEq, Repr

/-- The signature of no targets is the empty text. -/
def ReportValue.isEmpty : ReportValue → Bool
  | .growth [] => true
  | _ => false

/-- The value is an alarm: neither `ok`, nor `unmeasured`, nor a signature of services that are all
only observed. -/
def ReportValue.alarm : ReportValue → Bool
  | .ok | .unmeasured => false
  | .growth states => states.any fun s => s.2 ≠ .observing
  | _ => true

def DiskState.value : DiskState → ReportValue
  | .ok => .ok
  | .warn => .warn
  | .action => .action
  | .critical => .critical

def Pressure.value : Pressure → ReportValue
  | .ok => .ok
  | .warn => .warn
  | .critical => .critical

/-- `ReportState`; a value that is not set is the empty text. -/
structure ReportState where
  value : Option ReportValue := none
  lastEmitted : Option Time := none
deriving DecidableEq

/-- The value `report_state_transition` finds (main.rs:2359). -/
def ReportState.previous (entry : ReportState) : Option ReportValue :=
  entry.value.filter fun v => !v.isEmpty

abbrev ReportStates := FinMap ReportKey ReportState

/-- `report_state_transition` (main.rs:2351). -/
def reportStateTransition (states : ReportStates) (key : ReportKey) (value : ReportValue)
    (repeatSecs : Nat) (now : Time) : ReportStates × Option ReportValue × Bool :=
  let entry := (states.lookup key).getD {}
  let previous := entry.previous
  let changed := decide (previous ≠ some value)
  let repeatDue := entry.lastEmitted.all fun last => max repeatSecs 1 ≤ now - last
  let shouldEmit := changed || (decide (value ≠ .ok) && repeatDue)
  (AList.insert key
    ⟨some value, if shouldEmit then some now else entry.lastEmitted⟩ states, previous, shouldEmit)

/-! ## The checks -/

/-- What a check has seen: whether its condition holds, and the value it reports, if it does. -/
structure Reading where
  key : ReportKey
  holds : Bool
  report : Option ReportValue

/-- A check that reports an alarm while its condition holds, and something else otherwise. -/
def Reading.of (key : ReportKey) (holds : Bool) (alarm clear : ReportValue) : Reading :=
  ⟨key, holds, some (if holds then alarm else clear)⟩

/-- The settings of the checks (policy.rs:540). -/
structure AlertPolicy extends DiskPolicy where
  diskEarlyWarnPercent : Nat := 70
  trackTrends : Bool := true
  trendWarnHours : Nat := 24
  diskRapidFillGbph : ℚ := 20
  processSustainSecs : Nat := 30
  processStuckAfterSecs : Nat := 600
  monitorInodes : Bool := true
  inodeWarnPercent : Nat := 85
  monitorZombies : Bool := true
  zombieThreshold : Nat := 20
  monitorLogs : Bool := true
  monitorMemory : Bool := true
  monitorServiceMemoryGrowth : Bool := true
  autoCleanupApply : Bool := false
  autoCleanupRust : Bool := true
  reportRepeatSecs : Nat := 1800

/-- `DiskFillRate` (main.rs:1836), in GiB an hour. -/
inductive DiskFillRate where
  | unmeasured | notFilling
  | filling (gbph : ℚ)
deriving DecidableEq

/-- `disk_trend_warning` (main.rs:6167); `some` the hours until the disk is full. -/
def diskTrendWarning (guard : AlertPolicy) (availBytes : Nat) : DiskFillRate → Option ℚ
  | .filling gbph =>
    -- From there on the rapid-fill alarm speaks for this disk.
    if guard.diskRapidFillGbph ≤ gbph then none
    else
      let hours := (availBytes : ℚ) / 1073741824 / gbph
      if hours ≤ 0 ∨ (guard.trendWarnHours : ℚ) < hours then none else some hours
  | _ => none

def checkDiskTrends (guard : AlertPolicy) (availBytes : Nat) (rate : DiskFillRate) :
    List Reading :=
  if guard.trackTrends then
    [.of .diskTrend (diskTrendWarning guard availBytes rate).isSome .soon .ok]
  else []

def checkDiskEarlyWarning (guard : AlertPolicy) (used : Nat) : List Reading :=
  [.of .diskEarlyWarning (guard.diskEarlyWarnPercent ≤ used && used < guard.diskWarnPercent)
    .early .ok]

def checkSwapDevices (issues : List String) : List Reading :=
  [.of .swapDevices (!issues.isEmpty) .wrong .ok]

/-- Without a rate the alarm is re-armed: an old verdict must not silence the next window. -/
def checkRapidDiskFill (guard : AlertPolicy) : DiskFillRate → List Reading
  | .filling rate => [.of .diskRapidFill (guard.diskRapidFillGbph ≤ rate) .rapid .ok]
  | _ => [.of .diskRapidFill false .rapid .unmeasured]

/-- `pressure` is the stabilised state; without a memory sample the check returns. -/
def memoryPressureReport (guard : AlertPolicy) (pressure : Option Pressure) : List Reading :=
  match guard.monitorMemory, pressure with
  | true, some pressure => [⟨.memoryPressure, pressure ≠ .ok, some pressure.value⟩]
  | _, _ => []

def checkInodeUsage (guard : AlertPolicy) (inodePercent : Option Nat) : List Reading :=
  if guard.monitorInodes then
    match inodePercent with
    | none => [.of .inodeWarning true .unreadable .ok]
    | some percent => [.of .inodeWarning (guard.inodeWarnPercent ≤ percent) .overThreshold .ok]
  else []

def checkZombieProcesses (guard : AlertPolicy) (zombies : Nat) : List Reading :=
  if guard.monitorZombies then
    [.of .zombieWarning (guard.zombieThreshold < zombies) .overThreshold .ok]
  else []

/-- The mounts that could be read, with their usage, and those that could not. A pass on which all
could be read returns before it reports so. -/
def checkExtraMounts (guard : AlertPolicy) (mounts : List (String × Nat))
    (unreadable : List String) : List Reading :=
  mounts.map (fun m =>
    let state := diskState m.2 guard.toDiskPolicy
    ⟨.diskExtra m.1, state ≠ .ok, some state.value⟩) ++
  [⟨.diskExtraUnreadable, !unreadable.isEmpty,
    if unreadable.isEmpty then none else some .unreadable⟩]

/-- The logs over the limit; `none` where there is no directory to scan, or the scan fails. Without
one over the limit nothing is reported (main.rs:10074). -/
def checkLargeLogs (guard : AlertPolicy) (logs : Option (List String)) : List Reading :=
  match guard.monitorLogs, logs with
  | true, some logs =>
    [⟨.logSizeWarning, !logs.isEmpty, if logs.isEmpty then none else some .overThreshold⟩]
  | _, _ => []

/-- The number of managed links, and of those that have drifted; `none` where the policy cannot be
read. Without links the check returns (main.rs:10336). -/
def checkLinkDrift : Option (Nat × Nat) → List Reading
  | none => []
  | some (0, _) => [⟨.links, false, none⟩]
  | some (_ + 1, drifted) => [.of .links (drifted ≠ 0) (.drifted drifted) .ok]

/-- With the check off there are no observations (service_growth.rs:219). -/
def checkServiceMemoryGrowth (guard : AlertPolicy) (states : List (String × GrowthState)) :
    List Reading :=
  let states := if guard.monitorServiceMemoryGrowth then states else []
  [⟨.serviceMemoryGrowth, states.any fun s => s.2 ≠ .observing, some (.growth states)⟩]

/-- A process over the CPU or memory limit of this pass. -/
structure HeavySample where
  pid : Pid
  starttime : Nat
  /-- Seconds since `heavy_since`. -/
  sustained : Nat
  /-- The renice before the report found another process (main.rs:9140). -/
  replaced : Bool := false

def HeavySample.key (p : HeavySample) : ReportKey := .heavyProcess p.pid p.starttime

/-- A process that is heavy, but not for long enough yet, is not reported on. -/
def HeavySample.reading (guard : AlertPolicy) (p : HeavySample) : Option Reading :=
  if guard.processSustainSecs ≤ p.sustained && !p.replaced then
    some ⟨p.key, true,
      some (if guard.processStuckAfterSecs ≤ p.sustained then .stuck else .heavy)⟩
  else none

/-- `cleanup_state` (main.rs:8995, 10159) over what a cleanup found. -/
def cleanupReading (key : ReportKey) (guard : AlertPolicy) (cleaned : List String) : Reading :=
  .of key (!cleaned.isEmpty) (if guard.autoCleanupApply then .applied else .candidates) .ok

def autoCleanupReading (guard : AlertPolicy) (cleaned : List String) : Reading :=
  cleanupReading .autoCleanup guard cleaned

def proactiveCleanupReading (guard : AlertPolicy) (cleaned : List String) : Reading :=
  cleanupReading .proactiveCleanup guard cleaned

/-! ## The run -/

abbrev AlertHistory := List (Alarm.Sighting ReportValue)

/-- `report_states`, and the history of each condition, newest first. -/
structure AlertWorld where
  states : ReportStates := ∅
  history : ReportKey → AlertHistory := fun _ => []

inductive AlertEvent where
  /-- A check of a pass. -/
  | read (r : Reading) (now : Time)
  /-- The reports of processes no longer heavy are dropped (main.rs:9268). -/
  | dropHeavy (current : List ReportKey) (now : Time)
  /-- A check of a background cleanup. Its runtime state is a fresh one (main.rs:9422). -/
  | readScratch (r : Reading) (now : Time)

def ReportKey.isHeavyProcess : ReportKey → Bool
  | .heavyProcess _ _ => true
  | _ => false

def AlertWorld.saw (w : AlertWorld) (key : ReportKey) (s : Alarm.Sighting ReportValue) :
    AlertWorld :=
  { w with history := Function.update w.history key (s :: w.history key) }

/-- A check reports to `states`, and emits where its condition holds and an event is due. -/
def sightingOf (guard : AlertPolicy) (states : ReportStates) (r : Reading) (now : Time) :
    ReportStates × Alarm.Sighting ReportValue :=
  match r.report with
  | none => (states, ⟨now, r.holds, none, false⟩)
  | some value =>
    let (states, _, due) := reportStateTransition states r.key value guard.reportRepeatSecs now
    (states, ⟨now, r.holds, some value, due && r.holds⟩)

def alertStep (guard : AlertPolicy) (w : AlertWorld) : AlertEvent → AlertWorld
  | .read r now =>
    let (states, s) := sightingOf guard w.states r now
    { w with states := states }.saw r.key s
  | .dropHeavy current now =>
    { states := w.states.retain fun key _ => !key.isHeavyProcess || current.contains key
      history := fun key =>
        if key.isHeavyProcess && !current.contains key then
          ⟨now, false, none, false⟩ :: w.history key
        else w.history key }
  | .readScratch r now => w.saw r.key (sightingOf guard ∅ r now).2

/-- What one pass measures; `none` where a command fails and the pass ends. -/
structure PassReadings where
  /-- The usage and the free bytes of the primary mount. -/
  disk : Option (Nat × Nat)
  extraMounts : List (String × Nat) := []
  unreadableMounts : List String := []
  fillRate : DiskFillRate := .unmeasured
  links : Option (Nat × Nat) := some (0, 0)
  heavy : Option (List HeavySample) := some []
  inodePercent : Option Nat := some 0
  zombies : Nat := 0
  logs : Option (List String) := some []
  pressure : Option Pressure := some .ok
  growth : List (String × GrowthState) := []
  swapIssues : List String := []
  /-- When the check under a key reads the clock. -/
  now : ReportKey → Time

/-- The checks of a pass, in its order. -/
def passEvents (guard : AlertPolicy) (p : PassReadings) : List AlertEvent :=
  let read (rs : List Reading) : List AlertEvent := rs.map fun r => .read r (p.now r.key)
  match p.disk with
  | none => []
  | some (used, availBytes) =>
    read (checkExtraMounts guard p.extraMounts p.unreadableMounts ++
        checkDiskEarlyWarning guard used ++ checkRapidDiskFill guard p.fillRate ++
        checkDiskTrends guard availBytes p.fillRate ++ checkLinkDrift p.links) ++
      match p.heavy with
      | none => []
      | some samples =>
        read (samples.filterMap (HeavySample.reading guard)) ++
          [.dropHeavy (samples.map HeavySample.key) (p.now .links)] ++
          read (checkInodeUsage guard p.inodePercent ++ checkZombieProcesses guard p.zombies ++
            checkLargeLogs guard p.logs ++ memoryPressureReport guard p.pressure ++
            checkServiceMemoryGrowth guard p.growth ++ checkSwapDevices p.swapIssues)

/-- What a background cleanup finds; `none` where it does not come to its report. -/
structure CleanupReadings where
  proactive : Bool
  proactiveCleaned : List String := []
  cleaned : Option (List String)
  now : ReportKey → Time

/-- The reports of `spawn_background_cleanup` (main.rs:9455). -/
def cleanupEvents (guard : AlertPolicy) (c : CleanupReadings) : List AlertEvent :=
  let readings :=
    (if c.proactive && guard.autoCleanupRust then
      [proactiveCleanupReading guard c.proactiveCleaned] else []) ++
    c.cleaned.toList.map (autoCleanupReading guard)
  readings.map fun r => .readScratch r (c.now r.key)

inductive AlertInput where
  | pass (p : PassReadings)
  | cleanup (c : CleanupReadings)

def AlertInput.events (guard : AlertPolicy) : AlertInput → List AlertEvent
  | .pass p => passEvents guard p
  | .cleanup c => cleanupEvents guard c

end DraconGuard
