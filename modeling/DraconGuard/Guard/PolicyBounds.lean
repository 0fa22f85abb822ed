import Mathlib.Data.List.Destutter
import Mathlib.Data.List.Sort
import Mathlib.Data.String.Basic
import DraconGuard.Lib.FloatValue
import DraconGuard.Lib.RuleList
import DraconGuard.Lib.Text

/-!
# The legal range of each policy value

`normalize_guard_policy_with_home` (`src/src/policy.rs:1576-1843`): about forty rules in sequence,
each of one of a few shapes.

| here | there |
|---|---|
| `Rule.floor`, `.ceil`, `.band`, `.fband` | `floor!`, `ceil!`, `band!`, `fband!` (lines 1615-1657) |
| `Rule.notAbove`, `.notBelow`, `.startBefore` | the `if`s between two thresholds (1676-1714, 1729-1732) |
| `Rule.shorten` | `sort`, `dedup`, `truncate` (1757-1763, 1768-1776) |
| `Rule.floorWhenReaping` | the floor under `reap_stale_dev_servers` (1824-1826) |
| `Rule.fallback` | the empty string fallbacks (1829-1840) |
| `normalizationRules` | the body, in its order |
| `expandTildeWithHome` | `expand_tilde_with_home` (1866-1878) |
| `sentinelZeroKnobs` | `SENTINEL_ZERO_KNOBS` (1364-1405) |

The policy is the values of its fields by name, those that a rule reads or changes and those on
the list of sentinels. Unsigned values are natural numbers of any size.
-/

namespace DraconGuard

/-- The fields with an unsigned value. -/
inductive Knob where
  | intervalSecs | autoCleanupIntervalSecs | reportRepeatSecs | proactiveCleanupIntervalCycles
  | diskWarnPercent | diskEarlyWarnPercent | diskActionPercent | diskCriticalPercent
  | proactiveCleanupPercent | unfreezeBelowPercent | inodeWarnPercent | memAvailableWarnPercent
  | swapUsedWarnPercent | processRssMb | processSustainSecs | processStuckAfterSecs
  | releaseAfterSecs | notifyCooldownSecs | memSwapinWarnPagesPerSec
  | memoryPressureSustainSecs | tmuxPersistenceMaxSaveAgeSecs | serviceMemoryGrowthWindowSecs
  | serviceMemoryGrowthMinMb | capOffendersCpuPercent | guardLogMaxMb | logMaxTruncateMb
  | logPreserveHeaderLines | cleanupMinSizeMb | rustTargetMaxAgeDays | relocateMinSizeMb
  | relocateMaxMovesPerPass | reapReportMinIdleHours
  -- read by no rule
  | trendWarnHours | zombieThreshold | logSizeMb | nodeModulesMaxAgeDays | tmpMinAgeHours
  | tmpCruftMinAgeHours | tmpE2eMinAgeHours | tmpLargeMinAgeHours | tmpScratchWarnGib
  | relocateMinAgeDays | trashMinAgeDays | rustTargetActionMinAgeDays | stashTtlDays
  | stashExpireIntervalSecs | reapReportMaxCpuSeconds | nixKeepGenerations | gitTempMinAgeHours
deriving DecidableEq

inductive FloatKnob where
  | processCpuPercent | memPsiFullWarn | diskRapidFillGbph
deriving DecidableEq

inductive TextKnob where
  | syncFreezeMarker | stashDir | notifyCommand
deriving DecidableEq

inductive ListKnob where
  | tmuxPersistenceSockets | serviceMemoryGrowthTargets
deriving DecidableEq

structure GuardPolicy where
  num : Knob → Nat
  float : FloatKnob → FloatValue
  text : TextKnob → String
  list : ListKnob → List String
  reniceValue : Int
  protectedPaths : List String
  reapStaleDevServers : Bool

/-- The names by which a rule reports its field; `""` for fields that no rule is about. -/
def Knob.name : Knob → String
  | intervalSecs => "interval_secs"
  | autoCleanupIntervalSecs => "auto_cleanup_interval_secs"
  | reportRepeatSecs => "report_repeat_secs"
  | proactiveCleanupIntervalCycles => "proactive_cleanup_interval_cycles"
  | diskWarnPercent => "disk_warn_percent"
  | diskEarlyWarnPercent => "disk_early_warn_percent"
  | diskActionPercent => "disk_action_percent"
  | diskCriticalPercent => "disk_critical_percent"
  | proactiveCleanupPercent => "proactive_cleanup_percent"
  | unfreezeBelowPercent => "unfreeze_below_percent"
  | inodeWarnPercent => "inode_warn_percent"
  | memAvailableWarnPercent => "mem_available_warn_percent"
  | swapUsedWarnPercent => "swap_used_warn_percent"
  | processRssMb => "process_rss_mb"
  | processSustainSecs => "process_sustain_secs"
  | processStuckAfterSecs => "process_stuck_after_secs"
  | releaseAfterSecs => "release_after_secs"
  | notifyCooldownSecs => "notify_cooldown_secs"
  | memSwapinWarnPagesPerSec => "mem_swapin_warn_pages_per_sec"
  | memoryPressureSustainSecs => "memory_pressure_sustain_secs"
  | tmuxPersistenceMaxSaveAgeSecs => "tmux_persistence_max_save_age_secs"
  | serviceMemoryGrowthWindowSecs => "service_memory_growth_window_secs"
  | serviceMemoryGrowthMinMb => "service_memory_growth_min_mb"
  | capOffendersCpuPercent => "cap_offenders_cpu_percent"
  | guardLogMaxMb => "guard_log_max_mb"
  | logMaxTruncateMb => "log_max_truncate_mb"
  | logPreserveHeaderLines => "log_preserve_header_lines"
  | cleanupMinSizeMb => "cleanup_min_size_mb"
  | rustTargetMaxAgeDays => "rust_target_max_age_days"
  | relocateMinSizeMb => "relocate_min_size_mb"
  | relocateMaxMovesPerPass => "relocate_max_moves_per_pass"
  | reapReportMinIdleHours => "reap_report_min_idle_hours"
  | _ => ""

def FloatKnob.name : FloatKnob → String
  | processCpuPercent => "process_cpu_percent"
  | memPsiFullWarn => "mem_psi_full_warn"
  | diskRapidFillGbph => "disk_rapid_fill_gbph"

def TextKnob.name : TextKnob → String
  | syncFreezeMarker => "sync_freeze_marker"
  | stashDir => "stash_dir"
  | notifyCommand => "notify_command"

def ListKnob.name : ListKnob → String
  | tmuxPersistenceSockets => "tmux_persistence_sockets"
  | serviceMemoryGrowthTargets => "service_memory_growth_targets"

/-- Knobs where `0` is a documented "disabled" sentinel. -/
def sentinelZeroKnobs : List Knob :=
  [.trendWarnHours, .zombieThreshold, .logSizeMb, .nodeModulesMaxAgeDays, .tmpMinAgeHours,
    .tmpCruftMinAgeHours, .tmpE2eMinAgeHours, .tmpLargeMinAgeHours, .tmpScratchWarnGib,
    .relocateMinAgeDays, .trashMinAgeDays, .rustTargetActionMinAgeDays, .stashTtlDays,
    .stashExpireIntervalSecs, .capOffendersCpuPercent, .reapReportMinIdleHours,
    .reapReportMaxCpuSeconds, .nixKeepGenerations, .gitTempMinAgeHours]

/-! ## Paths and defaults -/

/-- `Path::join`, as displayed. -/
def joinChars (base rest : List Char) : List Char :=
  if rest.head? = some '/' then rest
  else if base = [] ∨ base.getLast? = some '/' then base ++ rest
  else base ++ '/' :: rest

def expandTildeWithHome (raw : List Char) (home : Option (List Char)) : List Char :=
  if raw = ['~'] then home.getD ['.']
  else match Text.stripPrefix raw ['~', '/'] with
    | some rest => joinChars (home.getD ['.']) rest
    | none => raw

/-- What the default texts depend on. -/
structure PolicyEnv where
  /-- `dirs::home_dir()`, as displayed. -/
  homeDir : Option (List Char)
  /-- `$USER`, where it is set and text. -/
  user : Option (List Char)
  pathExists : List Char → Bool

/-- `default_sync_freeze_marker` (line 854). -/
def defaultSyncFreezeMarker (env : PolicyEnv) : List Char :=
  let home := env.homeDir.getD "/var/tmp".toList
  joinChars (joinChars home ".dracon".toList) "dracon-sync.freeze".toList

/-- `default_stash_dir` (line 1298). -/
def defaultStashDir : List Char := "~/.local/share/dracon/stash".toList

def notifyCandidates (user : List Char) : List (List Char) :=
  ["/etc/profiles/per-user/".toList ++ user ++ "/bin/notify-send".toList,
    "/run/current-system/sw/bin/notify-send".toList, "/usr/bin/notify-send".toList]

/-- `default_notify_command` (line 904). -/
def defaultNotifyCommand (env : PolicyEnv) : List Char :=
  let user := env.user.getD "dracon".toList
  ((notifyCandidates user).find? env.pathExists).getD "/usr/bin/notify-send".toList

def defaultText (env : PolicyEnv) : TextKnob → List Char
  | .syncFreezeMarker => defaultSyncFreezeMarker env
  | .stashDir => defaultStashDir
  | .notifyCommand => defaultNotifyCommand env

/-! ## Rules -/

inductive Rule where
  | floor (knob : Knob) (min : Nat)
  | ceil (knob : Knob) (max : Nat)
  | band (knob : Knob) (min max : Nat)
  | fband (knob : FloatKnob) (min max : ℚ)
  | reniceBand (min max : Int)
  /-- Lower a threshold to another one. -/
  | notAbove (knob other : Knob)
  /-- Raise a threshold to another one. -/
  | notBelow (knob other : Knob)
  /-- Bring a threshold under another one, and not to zero. -/
  | startBefore (knob other : Knob)
  | shorten (knob : ListKnob) (max : Nat)
  | floorWhenReaping (knob : Knob) (min : Nat)
  | fallback (knob : TextKnob)

namespace GuardPolicy

def setNum (p : GuardPolicy) (k : Knob) (v : Nat) : GuardPolicy :=
  { p with num := Function.update p.num k v }

def setFloat (p : GuardPolicy) (k : FloatKnob) (v : FloatValue) : GuardPolicy :=
  { p with float := Function.update p.float k v }

def setText (p : GuardPolicy) (k : TextKnob) (v : String) : GuardPolicy :=
  { p with text := Function.update p.text k v }

def setList (p : GuardPolicy) (k : ListKnob) (v : List String) : GuardPolicy :=
  { p with list := Function.update p.list k v }

end GuardPolicy

/-- `sort`, `dedup` (runs of equal entries) and `truncate`. -/
def sortedPrefix (entries : List String) (max : Nat) : List String :=
  ((entries.insertionSort (· ≤ ·)).destutter (· ≠ ·)).take max

/-- What a rule makes of a policy, and the names it reports. -/
def Rule.apply (env : PolicyEnv) : Rule → GuardPolicy → GuardPolicy × List String
  | floor k min, p => if p.num k < min then (p.setNum k min, [k.name]) else (p, [])
  | ceil k max, p => if max < p.num k then (p.setNum k max, [k.name]) else (p, [])
  | band k low high, p =>
    if p.num k < low ∨ high < p.num k then
      (p.setNum k (min (max (p.num k) low) high), [k.name])
    else (p, [])
  | fband k low high, p =>
    let after := (p.float k).clamp low high
    if after.differs (p.float k) then (p.setFloat k after, [k.name]) else (p, [])
  | reniceBand low high, p =>
    if p.reniceValue < low ∨ high < p.reniceValue then
      ({ p with reniceValue := min (max p.reniceValue low) high }, ["renice_value"])
    else (p, [])
  | notAbove k other, p =>
    if p.num other < p.num k then (p.setNum k (p.num other), [k.name]) else (p, [])
  | notBelow k other, p =>
    if p.num k < p.num other then (p.setNum k (p.num other), [k.name]) else (p, [])
  | startBefore k other, p =>
    if p.num other ≤ p.num k then (p.setNum k (max (p.num other - 1) 1), [k.name]) else (p, [])
  | shorten k max, p =>
    let kept := sortedPrefix (p.list k) max
    (p.setList k kept, if (p.list k).length ≠ kept.length then [k.name] else [])
  | floorWhenReaping k min, p =>
    if p.reapStaleDevServers ∧ p.num k < min then (p.setNum k min, [k.name]) else (p, [])
  | fallback k, p =>
    if Text.trim (p.text k) = [] then
      (p.setText k (String.ofList (defaultText env k)), [k.name])
    else (p, [])

-- policy.rs:1410 and 1416-1417, tmux_health.rs:20, service_growth.rs:20
def logPreserveHeaderLinesMax : Nat := 10000
def reniceValueMin : Int := 0
def reniceValueMax : Int := 19
def maxTmuxServers : Nat := 8
def maxGrowthTargets : Nat := 16

def cadenceRules : List Rule :=
  [.floor .intervalSecs 5, .floor .autoCleanupIntervalSecs 60, .floor .reportRepeatSecs 60,
    .floor .proactiveCleanupIntervalCycles 1]

def diskBandRules : List Rule :=
  [.band .diskWarnPercent 1 100,
    .band .diskEarlyWarnPercent 1 100,
    .notAbove .diskEarlyWarnPercent .diskWarnPercent,
    .notBelow .diskActionPercent .diskWarnPercent,
    .notBelow .diskCriticalPercent .diskActionPercent,
    .ceil .diskActionPercent 100,
    .ceil .diskCriticalPercent 100,
    .startBefore .proactiveCleanupPercent .diskActionPercent,
    .band .unfreezeBelowPercent 1 100,
    .startBefore .unfreezeBelowPercent .diskActionPercent]

/-- The rules behind the disk bands. -/
def laterRules : List Rule :=
  [.band .inodeWarnPercent 1 100, .band .memAvailableWarnPercent 1 100,
    .band .swapUsedWarnPercent 1 100,
    -- process thresholds
    .fband .processCpuPercent 1 100000, .floor .processRssMb 64, .floor .processSustainSecs 5,
    .notBelow .processStuckAfterSecs .processSustainSecs,
    .reniceBand reniceValueMin reniceValueMax, .floor .releaseAfterSecs 5,
    .floor .notifyCooldownSecs 5, .ceil .notifyCooldownSecs 86400,
    -- memory pressure
    .fband .memPsiFullWarn 0 100, .floor .memSwapinWarnPagesPerSec 1,
    .floor .memoryPressureSustainSecs 30, .band .tmuxPersistenceMaxSaveAgeSecs 60 86400,
    .shorten .tmuxPersistenceSockets maxTmuxServers,
    .floor .serviceMemoryGrowthWindowSecs 60, .ceil .serviceMemoryGrowthWindowSecs 86400,
    .floor .serviceMemoryGrowthMinMb 1,
    .ceil .serviceMemoryGrowthMinMb ((2 ^ 64 - 1) / (1024 * 1024)),
    .shorten .serviceMemoryGrowthTargets maxGrowthTargets, .ceil .capOffendersCpuPercent 100,
    -- disk trends
    .fband .diskRapidFillGbph (1 / 2) 100000,
    -- logging
    .floor .guardLogMaxMb 1, .floor .logMaxTruncateMb 1,
    .ceil .logPreserveHeaderLines logPreserveHeaderLinesMax,
    -- cleanup thresholds, relocation
    .floor .cleanupMinSizeMb 1, .floor .rustTargetMaxAgeDays 1, .floor .relocateMinSizeMb 1,
    .floor .relocateMaxMovesPerPass 1, .floorWhenReaping .reapReportMinIdleHours 1,
    -- empty string fallbacks
    .fallback .syncFreezeMarker, .fallback .stashDir, .fallback .notifyCommand]

def normalizationRules : List Rule := cadenceRules ++ (diskBandRules ++ laterRules)

/-- The `~` of every protected path, expanded; not reported. -/
def expandProtectedPaths (home : Option (List Char)) (p : GuardPolicy) : GuardPolicy :=
  { p with protectedPaths := p.protectedPaths.map fun entry =>
      String.ofList (expandTildeWithHome (Text.trim entry) home) }

def normalizeGuardPolicyWithHome (env : PolicyEnv) (home : Option (List Char))
    (policy : GuardPolicy) : GuardPolicy × List String :=
  RuleList.run (Rule.apply env) normalizationRules (expandProtectedPaths home policy)

end DraconGuard
