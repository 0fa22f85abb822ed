import DraconGuard.Guard.Caps
import DraconGuard.Guard.PendingDebts

/-!
# One-shot passes

`cmd_guard_once` (main.rs:11617): adopt what the ledger lists, restore it, run one pass, restore
whatever is adjusted, exit.

| definition | source |
| --- | --- |
| `niceRestorePlan` | `runtime_adjustment_plan`, nice part (main.rs:3040) |
| `restoreRuntimeAdjustments` | main.rs:3199 and 3235 |
| `checkMemoryPressure` | `check_memory_pressure` (main.rs:6415) |
| `runGuardOnce` | `run_guard_once` (main.rs:10383), as far as it adjusts processes |
| `cmdGuardOnce` | main.rs:11617 |

The run owns the daemon lock: a run that is refused does nothing. `cpu_limit::recover` works on the
leases and their units, which show in what a later release answers. The other steps of a pass
(disk, stash, logs, zombies, reports) touch neither a limiter nor the ledger, and a reap shows as a
change of the process table.
-/

namespace DraconGuard

/-! ## The limiters on one world -/

/-- A step of the nice limiters. -/
def OomWorld.onNice (f : NiceWorld → NiceWorld) (w : OomWorld) : OomWorld :=
  let n := f ⟨w.table, w.state.nice⟩
  { w with table := n.table, state := { w.state with nice := n.nice } }

/-- A step of the CPU caps. -/
def OomWorld.onCaps (f : CapWorld → CapWorld) (w : OomWorld) : OomWorld :=
  let c := f { table := w.table, caps := w.state.caps
               ledgerUnavailable := w.state.mitigationLedgerUnavailable }
  { w with state := { w.state with caps := c.caps } }

/-! ## Restoring -/

/-- `NiceRestoreScope` (main.rs:3005). -/
inductive NiceRestoreScope where
  | legacy | memory | both
deriving DecidableEq, Repr

/-- The entries a restoration stands for. -/
def NiceRestoreScope.covers : NiceRestoreScope → NiceLimiterKind → Bool
  | .legacy, k => k == .legacy
  | .memory, k => k == .memory
  | .both, _ => true

/-- `RuntimeAdjustment::Nice` (main.rs:3017). -/
structure NiceRestore where
  pid : Pid
  originalNice : Int
  identity : ProcessIdentity
  scope : NiceRestoreScope
deriving DecidableEq, Repr

/-- Both limiters hold this incarnation. -/
def heldByBoth (s : NiceState) (pid : Pid) : Bool :=
  match s.entry .legacy pid, s.entry .memory pid with
  | some l, some m => sameProcessIncarnation l.identity m.identity
  | _, _ => false

/-- The nice part of `runtime_adjustment_plan` (main.rs:3040): entries of one incarnation are one
restoration, entries of different ones stay apart. -/
def niceRestorePlan (s : NiceState) : List NiceRestore :=
  s.legacy.renicedPids.entries.map (fun e =>
    ⟨e.1, e.2.originalNice, e.2.identity, if heldByBoth s e.1 then .both else .legacy⟩) ++
  (s.memory.renicedPids.entries.filter fun e => !heldByBoth s e.1).map fun e =>
    ⟨e.1, e.2.originalNice, e.2.identity, .memory⟩

/-- `remove_nice_scope` (main.rs:3125). -/
def removeNiceScope (s : NiceState) (pid : Pid) : NiceRestoreScope → NiceState
  | .legacy => s.removeEntry .legacy pid
  | .memory => s.removeEntry .memory pid
  | .both => (s.removeEntry .legacy pid).removeEntry .memory pid

/-- `nice_restore_failure_is_permanent` (main.rs:1523). -/
def niceRestoreFailureIsPermanent (message : String) : Bool :=
  Text.contains message "Permission denied" || Text.contains message "Operation not permitted"

/-- What the outside answers during one `restore_runtime_adjustments`. -/
structure RuntimeRestoreEnv where
  /-- `process_samples`; an error is an empty scan. -/
  rows : List PsRow := []
  /-- `resolve_bin_strict` finds `renice` and `systemctl`. -/
  binsFound : Bool := true
  leases : CapReleaseEnv
  sweep : SweepEnv
  niceReadable : NiceRestoreScope → Pid → Bool := fun _ _ => true
  /-- `can_restore_nice_for`. -/
  canRestoreNiceFor : NiceRestoreScope → Pid → Bool := fun _ _ => true
  /-- The error of `renice_process_with_bin`, if it fails. -/
  reniceError : NiceRestoreScope → Pid → Option String := fun _ _ => none
  oom : ReleaseEnv
  caps : CapReleaseEnv

/-- The `Nice` arm of `restore_runtime_adjustments` (main.rs:3267). -/
def restoreNice (env : RuntimeRestoreEnv) (w : NiceWorld) (r : NiceRestore) : NiceWorld :=
  let dropped := { w with nice := removeNiceScope w.nice r.pid r.scope }
  match processIdentityStatus w.table (env.niceReadable r.scope r.pid) r.pid r.identity with
  | .gone | .mismatch => dropped
  | .unavailable => w
  | .matching =>
    -- A priority that cannot be raised again stays as it is, and is no debt any more.
    if !env.canRestoreNiceFor r.scope r.pid then dropped
    else match env.reniceError r.scope r.pid with
      | none => { dropped with table := w.table.renice r.pid r.originalNice }
      | some message => if niceRestoreFailureIsPermanent message then dropped else w

/-- The leases, then the sweep: what the plan of the restore is made from (main.rs:3245-3263). -/
def prepareRestore (env : RuntimeRestoreEnv) (samples : List ProcSample) (w : OomWorld) : OomWorld :=
  let w := w.onCaps fun c => c.caps.cappedPids.keys.foldl (restoreLease env.leases) c
  sweepStrandedOomDescendants env.sweep [] samples w

/-- The loop over `runtime_adjustment_plan` (main.rs:3265-3411). -/
def restorePlanned (env : RuntimeRestoreEnv) (w : OomWorld) : OomWorld :=
  let biased := w.state.oom.oomBiasedPids.keys
  let capped := w.state.caps.cappedPids.keys
  let w := w.onNice ((niceRestorePlan w.state.nice).foldl (restoreNice env))
  let w := biased.foldl (restoreOomBias env.oom) w
  w.onCaps fun c => capped.foldl (restoreCap env.caps) c

/-- Nothing is tracked any more (main.rs:3405). -/
def GuardRuntimeState.drained (s : GuardRuntimeState) : Bool :=
  s.nice.legacy.renicedPids.entries == [] && s.nice.memory.renicedPids.entries == [] &&
    s.oom.oomBiasedPids.entries == [] && s.oom.oomPendingDescendants.entries == [] &&
    s.caps.cappedPids.entries == []

/-- The restore returns before it touches anything. -/
def restoreBlocked (env : RuntimeRestoreEnv) (w : OomWorld) : Bool :=
  !env.binsFound || w.state.mitigationLedgerUnavailable

/-- `restore_runtime_adjustments` (main.rs:3199); the flag says whether nothing is left. -/
def restoreRuntimeAdjustments (env : RuntimeRestoreEnv) (w : OomWorld) : OomWorld × Bool :=
  if restoreBlocked env w then (w, false)
  else
    let w := restorePlanned env (prepareRestore env (processSamples w.table env.rows) w)
    (w, w.state.drained)

/-! ## The pass -/

/-- The part of `GuardPolicy` that decides adjustments. -/
structure AdjustPolicy extends NicePolicy where
  biasOomOnPressure : Bool := true
  capOffendersCpuPercent : Nat := 0

/-- What the outside answers during one pass. -/
structure PassEnv where
  /-- `disk_details_for` reads the primary mount. -/
  diskRead : Bool := true
  /-- `process_samples`; `none` is an error. -/
  rows : Option (List PsRow)
  /-- What becomes of the processes after the scan, and while orphans are reaped. -/
  meanwhile : ProcTable → ProcTable := id
  reaped : ProcTable → ProcTable := id
  heavy : NiceEnv
  /-- The stabilized pressure; `none`: monitoring is off or the sample failed. -/
  pressure : Option Pressure
  memory : NiceEnv
  /-- `managed_oom::is_managed_job_process`. -/
  managed : Pid → Bool := fun _ => false
  bias : Pid → BiasEnv
  cap : CapEnv
  sweep : SweepEnv
  oomRelease : ReleaseEnv
  capRelease : CapReleaseEnv
  oomPruneReadable : Pid → Bool := fun _ => true
  capPruneReadable : Pid → Bool := fun _ => true
  persist : PersistEnv

/-- A nice step asks whether the ledger may be relied on. -/
def NiceEnv.under (env : NiceEnv) (w : OomWorld) : NiceEnv :=
  { env with ledgerUnavailable := w.state.mitigationLedgerUnavailable }

/-- The bias of one offender (main.rs:6554-6586); managed jobs have debts of their own. -/
def biasOffender (env : PassEnv) (samples : List ProcSample) (w : OomWorld) (p : ProcSample) :
    OomWorld :=
  if env.managed p.pid then w else (applyOomBias (env.bias p.pid) p samples w).1

/-- The limiting part of `check_memory_pressure` (main.rs:6491-6640). -/
def limitOffenders (g : AdjustPolicy) (env : PassEnv) (pressure : Pressure) (canRestore : Bool)
    (samples : List ProcSample) (w : OomWorld) : OomWorld :=
  let topRss := (memoryPressureOffenders samples g.processExemptNames).1
  let niceEnv := env.memory.under w
  let w :=
    if memoryReniceActive g.toNicePolicy niceEnv pressure canRestore then
      w.onNice (topRss.foldl (memoryStep g.toNicePolicy niceEnv))
    else w
  let w :=
    if pressure == .critical && g.biasOomOnPressure then topRss.foldl (biasOffender env samples) w
    else w
  w.onCaps (capOffenders env.cap pressure g.capOffendersCpuPercent topRss)

/-- The releases of `check_memory_pressure` (main.rs:6785-7027). -/
def releaseOffenders (g : AdjustPolicy) (env : PassEnv) (pressure : Pressure) (canRestore : Bool)
    (w : OomWorld) : OomWorld :=
  let niceEnv := env.memory.under w
  if pressure = .ok then
    let w :=
      if !w.state.mitigationLedgerUnavailable && canRestore then
        w.onNice (releaseLimiter .memory (fun _ => false) g.releaseAfterSecs niceEnv)
      else w
    (releaseOomBiases env.oomRelease w).onCaps (releaseCaps env.capRelease)
  else (clearOomTimers (w.onNice (clearTimers .memory))).onCaps clearCapTimers

/-- The closing prunes (main.rs:7028-7063). -/
def pruneOffenders (env : PassEnv) (samples : List ProcSample) (w : OomWorld) : OomWorld :=
  let w := w.onNice (pruneLimiter .memory (env.memory.under w))
  (pruneOom env.oomPruneReadable samples w).onCaps (pruneCaps env.capPruneReadable)

/-- `check_memory_pressure` (main.rs:6415). -/
def checkMemoryPressure (g : AdjustPolicy) (env : PassEnv) (samples : List ProcSample)
    (w : OomWorld) : OomWorld :=
  match env.pressure with
  | none => w
  | some pressure =>
    let canRestore := canRestoreNice g.autoReniceOnMemory .memory env.memory w.state.nice
    let w := limitOffenders g env pressure canRestore samples w
    let w := { w with table := env.reaped w.table }
    let w := sweepStrandedOomDescendants env.sweep g.processExemptNames samples w
    pruneOffenders env samples (releaseOffenders g env pressure canRestore w)

/-- `run_guard_once` (main.rs:10383); the flag says whether there is a report. It persists last,
and its only failures come before anything is adjusted. -/
def runGuardOnce (g : AdjustPolicy) (env : PassEnv) (w : OomWorld) : OomWorld × Bool :=
  if !env.diskRead then (w, false)
  else match env.rows with
    | none => (w, false)
    | some rows =>
      let samples := processSamples w.table rows
      let w := { w with table := env.meanwhile w.table }
      let w := w.onNice (checkHeavyProcesses g.toNicePolicy (env.heavy.under w) samples)
      let w := checkMemoryPressure g env samples w
      ((w.persist env.persist).1, true)

/-! ## The run -/

/-- What the outside answers during one run. -/
structure OneShotEnv where
  /-- Whether the ledger file can be read. -/
  ledgerReadable : Bool := true
  hydrate : HydrateEnv
  first : RuntimeRestoreEnv
  /-- What becomes of the processes before the pass, and before the final restore. -/
  beforePass : ProcTable → ProcTable := id
  beforeRestore : ProcTable → ProcTable := id
  pass : PassEnv
  final : RuntimeRestoreEnv

/-- The run up to the end of its pass (main.rs:11628-11644). -/
def guardOncePass (g : AdjustPolicy) (env : OneShotEnv) (t : ProcTable) (disk : LedgerDisk) :
    OomWorld × Bool :=
  let read := if env.ledgerReadable then disk.read else .unreadable
  let s := hydrateMitigationsFrom t env.hydrate { persistMitigations := true } read
  let w : OomWorld := { table := t, state := s, disk := disk }
  let adopted := s.nice.memory.renicedPids.entries != [] || s.oom.oomBiasedPids.entries != [] ||
    s.caps.cappedPids.entries != []
  let w := if adopted then (restoreRuntimeAdjustments env.first w).1 else w
  runGuardOnce g env.pass { w with table := env.beforePass w.table }

/-- The state the final restore starts from. -/
def beforeFinalRestore (g : AdjustPolicy) (env : OneShotEnv) (t : ProcTable) (disk : LedgerDisk) :
    OomWorld :=
  let w := (guardOncePass g env t disk).1
  { w with table := env.beforeRestore w.table }

/-- `cmd_guard_once` (main.rs:11617), up to what it prints; the flag is its exit status. Every
limiter is restored before either a report or an error is handled. -/
def cmdGuardOnce (g : AdjustPolicy) (env : OneShotEnv) (t : ProcTable) (disk : LedgerDisk) :
    OomWorld × Bool :=
  let restored := restoreRuntimeAdjustments env.final (beforeFinalRestore g env t disk)
  (restored.1, (guardOncePass g env t disk).2 && restored.2)

end DraconGuard
