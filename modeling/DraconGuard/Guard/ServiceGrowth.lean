import Mathlib.Algebra.Order.Ring.Rat
import DraconGuard.Proc
import DraconGuard.Lib.FinMap
import DraconGuard.Lib.SlidingWindow

/-!
# The growth of watched services

`Tracker::observe` (service_growth.rs:204) keeps a short history of the memory charged to each
watched service and reports what it grew by over a window.

| here | there |
| --- | --- |
| `ServiceSample` | an `Observation` as `sample_unit` hands it over (service_growth.rs:548) |
| `resetReason` | what makes a history start over (service_growth.rs:245-257) |
| `GrowthHistory.extend` | the point added, the window and the cap (service_growth.rs:269-278) |
| `rowStatus` | the verdict (service_growth.rs:279-313) |
| `observe` | the whole pass |

Times are nanoseconds. `Duration::from_secs_f64` rounds the midpoint of the window; `half` is how.
-/

namespace DraconGuard

open SlidingWindow (expire)

inductive ServiceManager where
  | system
  | user
deriving DecidableEq

/-- `Target`. -/
structure ServiceTarget where
  manager : ServiceManager
  unit : String
deriving DecidableEq

/-- `Generation`: one incarnation of a service. -/
structure ServiceGeneration where
  boot : String
  target : ServiceTarget
  userUid : Option Nat
  invocation : String
  group : String
  device : Nat
  inode : Nat
  pid : Pid
  identity : ProcessIdentity
deriving DecidableEq

/-- One row of a measurement. -/
structure ServiceSample where
  target : String
  generation : Option ServiceGeneration
  residentBytes : Option Nat
  swapBytes : Option Nat
  footprintBytes : Option Nat
  reason : Option String

inductive GrowthStatus where
  | unavailable
  | reset
  | warmingUp
  | sustainedGrowth
  | stable
deriving DecidableEq

/-- A row of the report: the sample and what `observe` fills in. -/
structure ServiceRow where
  sample : ServiceSample
  status : GrowthStatus := .unavailable
  reason : Option String
  elapsedNanos : Option Nat := none
  baselineResidentBytes : Option Nat := none
  baselineSwapBytes : Option Nat := none
  growthBytes : Option Nat := none
  growthMibPerMin : Option ℚ := none

/-- `Point`. -/
structure GrowthPoint where
  time : Nat
  resident : Nat
  swap : Nat
  total : Nat
deriving DecidableEq

/-- `History`. -/
structure GrowthHistory where
  generation : ServiceGeneration
  last : GrowthPoint
  points : List GrowthPoint
  nonempty : points ≠ []

def GrowthHistory.baseline (h : GrowthHistory) : GrowthPoint := h.points.head h.nonempty

def GrowthHistory.latest (h : GrowthHistory) : GrowthPoint := h.points.getLast h.nonempty

/-- `Tracker`. -/
structure GrowthTracker where
  histories : FinMap String GrowthHistory := ∅
  settings : Option (Nat × Nat) := none

/-- What the policy has about services. -/
structure GrowthPolicy where
  monitorServiceMemoryGrowth : Bool
  windowSecs : Nat
  minMb : Nat

def maxTargets : Nat := 16

def maxHistory : Nat := 32

def mib : Nat := 1024 * 1024

def nanosPerSec : Nat := 10 ^ 9

/-- `div_ceil`. -/
def divCeil (n d : Nat) : Nat := (n + d - 1) / d

/-- The window in seconds and the growth in MiB that are gone by (service_growth.rs:210-213). -/
def GrowthPolicy.settings (guard : GrowthPolicy) : Nat × Nat :=
  (max 60 (min guard.windowSecs 86400), max guard.minMb 1)

section Settings

variable (settings : Nat × Nat)

def windowNanos : Nat := settings.1 * nanosPerSec

/-- The least distance of two points. -/
def spacingNanos : Nat := divCeil settings.1 (maxHistory - 2) * nanosPerSec

def minGrowthBytes : Nat := min (settings.2 * mib) u64Max

end Settings

/-! ## One row -/

/-- Why a history starts over. -/
def resetReason (settings : Nat × Nat) (h : GrowthHistory) (generation : ServiceGeneration)
    (point : GrowthPoint) : Option String :=
  if h.generation ≠ generation then some "service/process incarnation changed"
  else if point.time ≤ h.last.time then some "non-increasing observation clock"
  else if windowNanos settings / 2 < point.time - h.last.time then some "sampling gap"
  else if point.total < h.last.total then some "footprint decreased (release/reset)"
  else none

theorem drop_excess_ne_nil {α : Type} {xs : List α} {cap : Nat} (hcap : 0 < cap) (h : xs ≠ []) :
    xs.drop (xs.length - cap) ≠ [] := by
  have hpos := List.length_pos_of_ne_nil h
  rw [Ne, List.drop_eq_nil_iff]
  omega

/-- A cap that leaves something. -/
abbrev HistoryCap := { cap : Nat // 0 < cap }

def hardCap : HistoryCap := ⟨maxHistory, by decide⟩

/-- The points with the new one, those too old dropped: before the cap. -/
def GrowthHistory.windowed (settings : Nat × Nat) (point : GrowthPoint) (h : GrowthHistory) :
    List GrowthPoint :=
  let added := if spacingNanos settings ≤ point.time - h.latest.time then h.points ++ [point]
    else h.points
  expire GrowthPoint.time (windowNanos settings) point.time added

theorem GrowthHistory.windowed_ne_nil (settings : Nat × Nat) (point : GrowthPoint)
    (h : GrowthHistory) : h.windowed settings point ≠ [] := by
  unfold windowed
  dsimp only
  split
  · exact SlidingWindow.expire_ne_nil (by simp)
  · exact SlidingWindow.expire_ne_nil h.nonempty

/-- One more point. -/
def GrowthHistory.extend (cap : HistoryCap) (settings : Nat × Nat) (point : GrowthPoint)
    (h : GrowthHistory) : GrowthHistory where
  generation := h.generation
  last := point
  points :=
    let points := h.windowed settings point
    points.drop (points.length - cap.1)
  nonempty := drop_excess_ne_nil cap.2 (h.windowed_ne_nil settings point)

/-- A history that starts. -/
def GrowthHistory.start (generation : ServiceGeneration) (point : GrowthPoint) : GrowthHistory where
  generation := generation
  last := point
  points := [point]
  nonempty := List.cons_ne_nil point []

section Row

variable (half : Nat → Nat) (settings : Nat × Nat) (h : GrowthHistory) (point : GrowthPoint)

def GrowthHistory.elapsed : Nat := point.time - h.baseline.time

def GrowthHistory.growth : Nat := point.total - h.baseline.total

/-- Each half of the window holds a quarter of the growth and of the minimum. -/
def bothHalves : Bool :=
  let meaningful := max (divCeil (h.growth point) 4) (divCeil (minGrowthBytes settings) 4)
  let midpoint := h.baseline.time + half (h.elapsed point)
  (h.points.reverse.find? fun p => p.time ≤ midpoint).any fun middle =>
    meaningful ≤ middle.total - h.baseline.total && meaningful ≤ point.total - middle.total

/-- The verdict on a history that was not reset. -/
def rowStatus : GrowthStatus :=
  if h.elapsed point < windowNanos settings then .warmingUp
  else if minGrowthBytes settings ≤ h.growth point && bothHalves half settings h point then
    .sustainedGrowth
  else .stable

/-- The row filled in. -/
def filledRow (sample : ServiceSample) (reset : Option String) : ServiceRow where
  sample := sample
  status := if reset.isSome then .reset else rowStatus half settings h point
  reason := reset
  elapsedNanos := some (h.elapsed point)
  baselineResidentBytes := some h.baseline.resident
  baselineSwapBytes := some h.baseline.swap
  growthBytes := some (h.growth point)
  growthMibPerMin :=
    if 0 < h.elapsed point then
      some ((h.growth point : ℚ) / mib * 60 / ((h.elapsed point : ℚ) / nanosPerSec))
    else none

end Row

/-- What a sample says when nothing of it is missing. -/
def ServiceSample.complete (sample : ServiceSample) (now : Nat) :
    Option (ServiceGeneration × GrowthPoint) :=
  match sample.generation, sample.residentBytes, sample.swapBytes, sample.footprintBytes with
  | some generation, some resident, some swap, some total =>
    some (generation, ⟨now, resident, swap, total⟩)
  | _, _, _, _ => none

/-- The history a reading goes on with, and why it is a new one. -/
def beginHistory (settings : Nat × Nat) (previous : Option GrowthHistory)
    (generation : ServiceGeneration) (point : GrowthPoint) : GrowthHistory × Option String :=
  match previous with
  | none => (.start generation point, none)
  | some h =>
    match resetReason settings h generation point with
    | none => (h, none)
    | some reason => (.start generation point, some reason)

/-- One turn of the loop (service_growth.rs:229-315). -/
def observeRow (cap : HistoryCap) (half : Nat → Nat) (settings : Nat × Nat) (now : Nat)
    (histories : FinMap String GrowthHistory) (sample : ServiceSample) :
    FinMap String GrowthHistory × ServiceRow :=
  match sample.complete now with
  | none => (histories.erase sample.target, { sample := sample, reason := sample.reason })
  | some (generation, point) =>
    let begun := beginHistory settings (histories.lookup sample.target) generation point
    let h := begun.1.extend cap settings point
    (histories.insert sample.target h, filledRow half settings h point sample begun.2)

/-! ## One pass -/

def observeRows (cap : HistoryCap) (half : Nat → Nat) (settings : Nat × Nat) (now : Nat) :
    FinMap String GrowthHistory → List ServiceSample →
      FinMap String GrowthHistory × List ServiceRow
  | histories, [] => (histories, [])
  | histories, sample :: rest =>
    let first := observeRow cap half settings now histories sample
    let others := observeRows cap half settings now first.1 rest
    (others.1, first.2 :: others.2)

/-- `Report`. -/
structure GrowthReport where
  enabled : Bool
  windowSecs : Nat
  minGrowthMb : Nat
  rows : List ServiceRow

/-- One pass: whether services are watched, what was measured, and when. -/
structure GrowthPass where
  monitor : Bool
  samples : List ServiceSample
  now : Nat

/-- The rows a pass looks at. -/
def GrowthPass.looked (pass : GrowthPass) : List ServiceSample :=
  (if pass.monitor then pass.samples else []).take maxTargets

/-- The histories a pass begins with. -/
def GrowthTracker.kept (t : GrowthTracker) (settings : Nat × Nat) (pass : GrowthPass) :
    FinMap String GrowthHistory :=
  let histories := if t.settings ≠ some settings || !pass.monitor then ∅ else t.histories
  histories.retain fun target _ => pass.looked.any fun sample => sample.target = target

/-- `Tracker::observe` (service_growth.rs:204), for any cap. -/
def observeWith (cap : HistoryCap) (half : Nat → Nat) (settings : Nat × Nat) (t : GrowthTracker)
    (pass : GrowthPass) : GrowthTracker × GrowthReport :=
  let seen := observeRows cap half settings pass.now (t.kept settings pass) pass.looked
  ({ histories := seen.1, settings := some settings },
    { enabled := pass.monitor, windowSecs := settings.1, minGrowthMb := settings.2,
      rows := seen.2 })

def observe (half : Nat → Nat) (guard : GrowthPolicy) (t : GrowthTracker)
    (samples : List ServiceSample) (now : Nat) : GrowthTracker × GrowthReport :=
  observeWith hardCap half guard.settings t ⟨guard.monitorServiceMemoryGrowth, samples, now⟩

/-- The passes one after the other: the tracker they leave, and what they report. -/
def growthRun (cap : HistoryCap) (half : Nat → Nat) (settings : Nat × Nat) :
    GrowthTracker → List GrowthPass → GrowthTracker × List GrowthReport
  | t, [] => (t, [])
  | t, pass :: rest =>
    let first := observeWith cap half settings t pass
    let others := growthRun cap half settings first.1 rest
    (others.1, first.2 :: others.2)

end DraconGuard
