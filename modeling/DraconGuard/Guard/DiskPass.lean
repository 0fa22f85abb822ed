import DraconGuard.Guard.Reload

/-!
# The disk part of a guard pass

A pass reads the usage of the primary mount, may start a disk cleanup in the background, and takes
what a finished one has left in the shared slot (main.rs:10400-10516). The cleanup runs in its own
task, for minutes on a busy filesystem: it completes between any two steps of the daemon.

| definition | source |
| --- | --- |
| `CleanupSummary` | main.rs:939 |
| `diskState` | `disk_state` (main.rs:2232) |
| `cooldownDue` | main.rs:9494 |
| `backgroundSummary` | `spawn_background_cleanup`, the relocation (main.rs:9432-9446) |
| `cleanupDue` | the two branches of `run_guard_once` (main.rs:10467-10503) |
| `beginPass`, `takeSummary`, `endPass` | `run_guard_once` (main.rs:10403, 10463, 10508, 10530) |
| `complete` | the end of the task (main.rs:9478) |
| `reload` | the SIGHUP arm of `cmd_guard_daemon` (main.rs:12180) |
| `guardOwnsText` | `guard_owns_sync_freeze_marker` (main.rs:2459) |
| `decideFreeze` | the conditions of `manage_sync_freeze` (main.rs:7583, 7605) |
| `freezeStep` | `run_guard_once` (main.rs:10406), `manage_sync_freeze` (main.rs:7581) |
-/

namespace DraconGuard

/-- The settings of the disk part (policy.rs:540). -/
structure DiskPolicy where
  enabled : Bool := true
  intervalSecs : Nat := 30
  diskWarnPercent : Nat := 80
  diskActionPercent : Nat := 90
  diskCriticalPercent : Nat := 95
  autoRelocate : Bool := true
  autoCleanupIntervalSecs : Nat := 1800
  proactiveCleanupPercent : Nat := 80
  proactiveCleanupIntervalCycles : Nat := 120
  freezeSyncAtAction : Bool := false
  unfreezeBelowPercent : Nat := 88

inductive DiskState where
  | ok | warn | action | critical
deriving DecidableEq, Repr

/-- `disk_state` (main.rs:2232). -/
def diskState (used : Nat) (guard : DiskPolicy) : DiskState :=
  if guard.diskCriticalPercent ≤ used then .critical
  else if guard.diskActionPercent ≤ used then .action
  else if guard.diskWarnPercent ≤ used then .warn
  else .ok

/-- `ColdCandidate` (relocate.rs:651). -/
structure ColdCandidate where
  path : String
  bytes : Nat
  files : Nat
  ageDays : Nat
deriving DecidableEq, Repr

/-- `CleanupSummary` (main.rs:939). -/
structure CleanupSummary where
  relocatedCount : Nat := 0
  relocatedBytes : Nat := 0
  relocateCandidates : List ColdCandidate := []
deriving DecidableEq, Repr

/-- What a pass looks at before it reports a summary (main.rs:10511). -/
def CleanupSummary.reportable (s : CleanupSummary) : Bool :=
  0 < s.relocatedCount || !s.relocateCandidates.isEmpty

/-- The summary a background cleanup ends with. A relocation that fails, and the deletions after
it, leave nothing in it. -/
def backgroundSummary (autoRelocate : Bool)
    (relocation : Except String (Nat × Nat × List ColdCandidate)) : CleanupSummary :=
  if autoRelocate then
    match relocation with
    | .ok (moves, movedBytes, candidates) => ⟨moves, movedBytes, candidates⟩
    | .error _ => {}
  else {}

/-! ## When a cleanup starts -/

/-- The fields of the runtime state the disk part keeps (main.rs:1008, 1051, 1068, 1071). The slot
is shared: `none` until the first pass. -/
structure CleanupState where
  cleanupSlot : Option Nat := none
  guardCycle : Nat := 0
  lastProactiveCleanup : Option Time := none
  lastAutoCleanup : Option Time := none

/-- `cooldown_due` (main.rs:9494). -/
def cooldownDue (last : Option Time) (intervalSecs : Nat) (now : Time) : Bool :=
  last.all fun last => max intervalSecs 60 ≤ now - last

/-- Whether the pass starts a cleanup, and what it has noted by then: the stamp is set before the
scan, so that an error that persists does not retry every pass. -/
def cleanupDue (guard : DiskPolicy) (s : CleanupState) (used : Nat) (now : Time) :
    CleanupState × Bool :=
  let dstate := diskState used guard
  if dstate = .action ∨ dstate = .critical then
    if cooldownDue s.lastAutoCleanup guard.autoCleanupIntervalSecs now then
      ({ s with lastAutoCleanup := some now }, true)
    else (s, false)
  else if guard.proactiveCleanupPercent ≤ used then
    let s := { s with guardCycle := s.guardCycle + 1 }
    let interval := guard.proactiveCleanupIntervalCycles
    let due := decide (interval ∣ s.guardCycle)
    let cooldownOk := s.lastProactiveCleanup.all fun t =>
      min (interval * guard.intervalSecs) u64Max ≤ now - t
    if due && cooldownOk then ({ s with lastProactiveCleanup := some now }, true) else (s, false)
  else (s, false)

/-! ## Slots, tasks and passes -/

/-- A summary where it lies, and the cleanup it is of. -/
structure Filed where
  summary : CleanupSummary := {}
  cleanup : Option Nat := none
deriving DecidableEq

/-- A cleanup that runs: the slot it was given, and the policy it was started under. -/
structure BackgroundCleanup where
  slot : Nat
  autoRelocate : Bool

/-- Where the daemon is. One task runs its passes and reloads, so none of them overlap. -/
inductive DiskPhase where
  | idle
  /-- In a pass that has its slot, and has not looked into it. -/
  | begun (slot : Nat)
  /-- In a pass that has taken this. -/
  | taken (filed : Filed)
  /-- Past a reload that disabled the guard. -/
  | stopped
deriving DecidableEq

/-- The daemon, the tasks it started, and what became of them. -/
structure CleanupWorld where
  guard : DiskPolicy
  cleanup : CleanupState := {}
  phase : DiskPhase := .idle
  slots : Nat → Filed := fun _ => {}
  /-- The number of slots there have been, and of cleanups. -/
  allocated : Nat := 0
  spawned : Nat := 0
  running : Nat → Option BackgroundCleanup := fun _ => none
  finished : Nat → Option CleanupSummary := fun _ => none
  /-- What each pass that came to its end put in its `GuardReport`. -/
  reports : List Filed := []

/-- `apply_policy_reload` assigns a default runtime state (main.rs:12095). -/
def discardsRuntime (runtime : GuardRuntimeState) (restored : Bool) : Bool :=
  restored && !runtime.mitigationLedgerUnavailable

namespace CleanupWorld

variable (w : CleanupWorld)

def setSlot (k : Nat) (f : Filed) : CleanupWorld :=
  { w with slots := Function.update w.slots k f }

/-- `get_or_insert_with` (main.rs:10463). -/
def ensureSlot : CleanupWorld × Nat :=
  match w.cleanup.cleanupSlot with
  | some k => (w, k)
  | none =>
    ({ w with cleanup := { w.cleanup with cleanupSlot := some w.allocated },
              allocated := w.allocated + 1 }, w.allocated)

def spawn (k : Nat) : CleanupWorld :=
  { w with running := Function.update w.running w.spawned (some ⟨k, w.guard.autoRelocate⟩),
           spawned := w.spawned + 1 }

/-- A pass up to the cleanup it may start. Without a reading of the disk it is over. -/
def beginPass (used : Option Nat) (now : Time) : CleanupWorld :=
  match w.phase, used with
  | .idle, some used =>
    let (w, k) := w.ensureSlot
    let (cleanup, due) := cleanupDue w.guard w.cleanup used now
    let w := { w with cleanup := cleanup, phase := .begun k }
    if due then w.spawn k else w
  | _, _ => w

/-- `std::mem::take` under the lock. A summary with nothing to report is dropped. -/
def takeSummary : CleanupWorld :=
  match w.phase with
  | .begun k =>
    let filed := if (w.slots k).summary.reportable then w.slots k else {}
    { w.setSlot k {} with phase := .taken filed }
  | _ => w

/-- The pass ends in its report, or in an error of one of the checks after the cleanup
(`process_samples`, `check_heavy_processes`). -/
def endPass (ok : Bool) : CleanupWorld :=
  match w.phase with
  | .taken filed =>
    let w := { w with phase := .idle }
    if ok then { w with reports := w.reports ++ [filed] } else w
  | _ => w

/-- A background cleanup hands back its summary. -/
def complete (c : Nat) (relocation : Except String (Nat × Nat × List ColdCandidate)) :
    CleanupWorld :=
  match w.running c with
  | none => w
  | some task =>
    let summary := backgroundSummary task.autoRelocate relocation
    { w.setSlot task.slot ⟨summary, some c⟩ with
      running := Function.update w.running c none,
      finished := Function.update w.finished c (some summary) }

/-- A reload, after a restore that left `runtime`. -/
def reload (normalize : DiskPolicy → DiskPolicy) (newPolicy : DiskPolicy)
    (runtime : GuardRuntimeState) (restored : Bool) : CleanupWorld :=
  match w.phase with
  | .idle =>
    let (guard, _, outcome) :=
      applyPolicyReload DiskPolicy.enabled normalize w.guard runtime newPolicy restored
    match outcome with
    | .deferred => w
    | .applied =>
      { w with guard := guard,
               cleanup := if discardsRuntime runtime restored then {} else w.cleanup,
               phase := if guard.enabled then .idle else .stopped }
  | _ => w

end CleanupWorld

inductive CleanupEvent where
  | beginPass (used : Option Nat) (now : Time)
  | takeSummary
  | endPass (ok : Bool)
  | complete (c : Nat) (relocation : Except String (Nat × Nat × List ColdCandidate))
  | reload (newPolicy : DiskPolicy) (runtime : GuardRuntimeState) (restored : Bool)

/-- One step of the daemon or of a task. -/
def cleanupStep (normalize : DiskPolicy → DiskPolicy) (w : CleanupWorld) :
    CleanupEvent → CleanupWorld
  | .beginPass used now => w.beginPass used now
  | .takeSummary => w.takeSummary
  | .endPass ok => w.endPass ok
  | .complete c relocation => w.complete c relocation
  | .reload newPolicy runtime restored => w.reload normalize newPolicy runtime restored

/-! ## The sync-freeze marker

The marker is one file the guard shares with `dracon-sync pause` and `dracon-sync resume`. A pass
looks for it once at its start, and comes back to it after the extra mounts and the disk checks;
each line of `manage_sync_freeze` that touches the file is a system call of its own.
-/

/-- `GUARD_FREEZE_MARKER_PREFIX` (main.rs:2457). -/
def guardFreezeMarker : String := "dracon-system guard freeze:"

/-- The comparison of `guard_owns_sync_freeze_marker` (main.rs:2467). -/
def guardOwnsText (text : String) : Bool :=
  guardFreezeMarker.toList.isPrefixOf text.toList

def freezeText (used : Nat) : String :=
  guardFreezeMarker ++ (" disk=" ++ toString used ++ "%\n")

/-- What `fs::write` comes to: it truncates what it opens, then writes. -/
inductive WriteOutcome where
  | written | openFailed | writeFailed
deriving DecidableEq

/-- Where a pass is with the marker. -/
inductive FreezePhase where
  | idle
  /-- `marker.exists()` has answered (main.rs:10407). -/
  | checked (used : Nat)
  /-- About to write the marker (main.rs:7590). -/
  | writing (used : Nat)
  /-- About to look for it again (main.rs:7606). -/
  | lifting
  /-- It is there: about to read whose it is (main.rs:7622). -/
  | found
  /-- It is the guard's: about to remove it (main.rs:7630). -/
  | owned
deriving DecidableEq

structure FreezeWorld where
  guard : DiskPolicy
  marker : Option String
  phase : FreezePhase := .idle
  /-- The `sync_frozen` of the pass. -/
  syncFrozen : Bool := false
  /-- The texts not its own that the guard has overwritten or removed. -/
  harmed : List String := []
  /-- The last command of the operator since the pass last learned about the marker: the text it
  left, or no marker. -/
  since : Option (Option String) := none

/-- Which way `manage_sync_freeze` goes. -/
def decideFreeze (guard : DiskPolicy) (used : Nat) (syncFrozen : Bool) : FreezePhase :=
  let dstate := diskState used guard
  if guard.freezeSyncAtAction ∧ (dstate = .action ∨ dstate = .critical) then
    if syncFrozen then .idle else .writing used
  else if syncFrozen ∧ used ≤ guard.unfreezeBelowPercent then .lifting
  else .idle

/-- What the guard is about to truncate or unlink, where it is not its own. -/
def FreezeWorld.foreign (w : FreezeWorld) : List String :=
  w.marker.toList.filter fun text => !guardOwnsText text

inductive FreezeEvent where
  | check (used : Nat)
  | decide
  | write (outcome : WriteOutcome)
  | look
  | readOwner (readable : Bool)
  | remove (ok : Bool)
  | reload (guard : DiskPolicy)
  /-- The operator's. -/
  | pause (text : String)
  | resume

/-- One system call of a pass, a reload between two passes, or a command of the operator. -/
def freezeStep (w : FreezeWorld) : FreezeEvent → FreezeWorld
  | .check used =>
    match w.phase with
    | .idle => { w with phase := .checked used, syncFrozen := w.marker.isSome, since := none }
    | _ => w
  | .decide =>
    match w.phase with
    | .checked used => { w with phase := decideFreeze w.guard used w.syncFrozen }
    | _ => w
  | .write outcome =>
    match w.phase with
    | .writing used =>
      match outcome with
      | .openFailed => { w with phase := .idle }
      | .writeFailed =>
        { w with phase := .idle, marker := some "", harmed := w.foreign ++ w.harmed }
      | .written =>
        { w with phase := .idle, marker := some (freezeText used), syncFrozen := true,
                 harmed := w.foreign ++ w.harmed }
    | _ => w
  | .look =>
    match w.phase with
    | .lifting =>
      -- Cleared by someone else: only the flag is still set.
      if w.marker.isSome then { w with phase := .found }
      else { w with phase := .idle, syncFrozen := false }
    | _ => w
  | .readOwner readable =>
    match w.phase with
    | .found =>
      { w with phase := if readable && w.marker.any guardOwnsText then .owned else .idle,
               since := none }
    | _ => w
  | .remove ok =>
    match w.phase with
    | .owned =>
      if ok && w.marker.isSome then
        { w with phase := .idle, marker := none, syncFrozen := false,
                 harmed := w.foreign ++ w.harmed }
      else { w with phase := .idle }
    | _ => w
  | .reload guard =>
    match w.phase with
    | .idle => { w with guard := guard }
    | _ => w
  | .pause text => { w with marker := some text, since := some (some text) }
  | .resume => { w with marker := none, since := some none }

end DraconGuard
