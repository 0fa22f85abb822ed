import DraconGuard.Guard.Alerts
import DraconGuard.Guard.OneShot

/-!
# The maps by pid

`GuardRuntimeState` (main.rs:945) keeps its adjustments, their timers, their retries and its
verdicts in maps by pid. A pass of `check_heavy_processes` and `check_memory_pressure` is taken
apart here into the loops that fill and prune them, with the maps the other modules leave out.

| here | there |
| --- | --- |
| `niceRestoreSkippedPids` | main.rs:1004, filled at 6522, pruned nowhere |
| `capRefusals` | main.rs:1047, filled at 6639, pruned nowhere; a cap that succeeds clears its own |
| `unavailable`, `failures` | main.rs:1084-1093, cleared by an attempt, left behind by a prune |
| `cooled` | cleared with the entry, left behind by a prune until the next release |
| `heavySince` | main.rs:953, kept to the heavy of the scan at 9264 |
| `heavyReports` | the `heavy-process-` entries of `report_states`, kept to the same at 9268 |
| `oomKnown` | main.rs:1017, kept to the biased at 896 |

`zombies_since` and `active_build_pids` are not of these two checks: the first is kept to the
zombies just seen (main.rs:7576), the second is replaced as a whole (3811, 4052).

`runGuardOnce_parts`: the parts in their order are the pass.
-/

namespace DraconGuard

/-- What one pass is given, with the text of a cap that is refused. -/
structure PidPass where
  policy : AdjustPolicy
  env : PassEnv
  capError : Pid → String := fun _ => ""
  processStuckAfterSecs : Nat := 600
  reportRepeatSecs : Nat := 1800

/-- The policy of the reports on heavy processes. -/
def PidPass.alertPolicy (i : PidPass) : AlertPolicy where
  processSustainSecs := i.policy.processSustainSecs
  processStuckAfterSecs := i.processStuckAfterSecs
  reportRepeatSecs := i.reportRepeatSecs

/-- The guard with its reports and verdicts, and what the pass under way has in hand. -/
structure PassWorld extends OomWorld where
  heavyReports : ReportStates := ∅
  niceRestoreSkippedPids : FinMap Pid Unit := ∅
  capRefusals : FinMap Pid String := ∅
  /-- The scan of the pass, or of the last one. -/
  samples : List ProcSample := []
  /-- `can_restore_nice` of the half under way. -/
  canRestore : Bool := true

namespace PassWorld

def onNice (f : NiceWorld → NiceWorld) (w : PassWorld) : PassWorld :=
  { w with toOomWorld := w.toOomWorld.onNice f }

def onCaps (f : CapWorld → CapWorld) (w : PassWorld) : PassWorld :=
  { w with toOomWorld := w.toOomWorld.onCaps f }

def onOom (f : OomWorld → OomWorld) (w : PassWorld) : PassWorld :=
  { w with toOomWorld := f w.toOomWorld }

/-- What the nice limiters see. -/
def niceWorld (w : PassWorld) : NiceWorld := ⟨w.table, w.state.nice⟩

def capWorld (w : PassWorld) : CapWorld :=
  { table := w.table, caps := w.state.caps
    ledgerUnavailable := w.state.mitigationLedgerUnavailable }

def topRss (i : PidPass) (w : PassWorld) : List ProcSample :=
  (memoryPressureOffenders w.samples i.policy.processExemptNames).1

def currentHeavy (i : PidPass) (w : PassWorld) : List Pid :=
  (w.samples.filter (heavySample i.policy.toNicePolicy)).map (·.pid)

def currentReportKeys (i : PidPass) (w : PassWorld) : List ReportKey :=
  (w.samples.filter (heavySample i.policy.toNicePolicy)).map fun p =>
    .heavyProcess p.pid p.starttime

end PassWorld

/-! ## Reports -/

/-- What the sample loop of `check_heavy_processes` has found out on a heavy process by its report
(main.rs:9087-9140). -/
def heavyFound (i : PidPass) (env : NiceEnv) (canRestore : Bool) (w : NiceWorld) (p : ProcSample) :
    HeavySample :=
  let now := env.sampleNow p.pid
  let seen := ((noteHeavy now w.nice.heavySince p).lookup p.pid).getD (now, p.starttime)
  let renices := !env.ledgerUnavailable && i.policy.autoRenice && canRestore
  { pid := p.pid
    starttime := p.starttime
    sustained := now - seen.1
    replaced := renices && !(processSampleIsCurrent w.table (env.sampleReadable p.pid) p &&
      (seen.2 == 0 || p.starttime == seen.2)) }

/-- One iteration of that loop, with its report (main.rs:9211). -/
def heavyOffender (i : PidPass) (env : NiceEnv) (canRestore : Bool) (w : NiceWorld × ReportStates)
    (p : ProcSample) : NiceWorld × ReportStates :=
  let reading :=
    if heavySample i.policy.toNicePolicy p then
      (heavyFound i env canRestore w.1 p).reading i.alertPolicy
    else none
  (heavyStep i.policy.toNicePolicy env canRestore w.1 p,
    match reading with
    | none => w.2
    | some r => (sightingOf i.alertPolicy w.2 r (env.sampleNow p.pid)).1)

/-! ## Verdicts -/

/-- The renice loop gets to a process whose priority it could not take back (main.rs:6521). -/
def refusesRenice (g : NicePolicy) (env : NiceEnv) (w : NiceWorld) (p : ProcSample) : Bool :=
  let s := dropStaleNiceAdjustments w.nice p.pid (processSampleIdentity p)
  processSampleIsCurrent w.table (env.sampleReadable p.pid) p &&
    (s.entry .memory p.pid).map (·.appliedNice) != some (memoryOffenderNiceValue p g.reniceValue) &&
      !env.canRestoreFor p.pid

/-- One iteration of the renice loop (main.rs:6496), with the pids it has skipped. -/
def reniceOffender (g : NicePolicy) (env : NiceEnv) (w : NiceWorld × FinMap Pid Unit)
    (p : ProcSample) : NiceWorld × FinMap Pid Unit :=
  (memoryStep g env w.1 p, if refusesRenice g env w.1 p then w.2.insert p.pid () else w.2)

/-- One iteration of the cap loop (main.rs:6585), with the refusals. -/
def capOffender (env : CapEnv) (capError : Pid → String) (w : CapWorld × FinMap Pid String)
    (p : ProcSample) : CapWorld × FinMap Pid String :=
  let tried := (w.1.caps.cappedPids.lookup p.pid).isNone &&
    processSampleIsCurrent w.1.table (env.readable p.pid) p
  (capStep env w.1 p,
    if !tried then w.2
    else match env.cap p.pid with
      | some _ => w.2.erase p.pid
      | none => w.2.insert p.pid (capError p.pid))

/-! ## The parts of a pass -/

inductive PassPart where
  | scan
  /-- The three parts of `check_heavy_processes` (main.rs:9063). -/
  | heavyLoop | heavyRelease | heavyPrune
  /-- Those of `check_memory_pressure` (main.rs:6415). -/
  | reniceLoop | biasLoop | capLoop | reap | sweep
  | niceRelease | oomRelease | capRelease
  | nicePrune | oomPrune | capPrune
  | persist
deriving DecidableEq, Repr

/-- The parts, in the order of the source. -/
def passParts : List PassPart :=
  [.scan, .heavyLoop, .heavyRelease, .heavyPrune, .reniceLoop, .biasLoop, .capLoop, .reap, .sweep,
    .niceRelease, .oomRelease, .capRelease, .nicePrune, .oomPrune, .capPrune, .persist]

/-- The sample loop of `check_heavy_processes` and what it forgets of the others. -/
def heavyLoop (i : PidPass) (w : PassWorld) : PassWorld :=
  let env := i.env.heavy.under w.toOomWorld
  let canRestore := canRestoreNice i.policy.autoRenice .legacy env w.state.nice
  let r := w.samples.foldl (heavyOffender i env canRestore) (w.niceWorld, w.heavyReports)
  let w' := w.onNice fun _ =>
    let since := r.1.nice.heavySince.retain fun pid _ => (w.currentHeavy i).contains pid
    { r.1 with nice := { r.1.nice with heavySince := since } }
  { w' with
    heavyReports := r.2.retain fun key _ =>
      !key.isHeavyProcess || (w.currentReportKeys i).contains key
    canRestore := canRestore }

def heavyRelease (i : PidPass) (w : PassWorld) : PassWorld :=
  if w.canRestore then
    w.onNice (releaseLimiter .legacy (fun pid => (w.currentHeavy i).contains pid)
      i.policy.releaseAfterSecs (i.env.heavy.under w.toOomWorld))
  else w

/-- The gated renice loop of `check_memory_pressure`. -/
def reniceLoop (i : PidPass) (pressure : Pressure) (w : PassWorld) : PassWorld :=
  let g := i.policy.toNicePolicy
  let env := i.env.memory.under w.toOomWorld
  let canRestore := canRestoreNice g.autoReniceOnMemory .memory i.env.memory w.state.nice
  let w' :=
    if memoryReniceActive g env pressure canRestore then
      let r := (w.topRss i).foldl (reniceOffender g env) (w.niceWorld, w.niceRestoreSkippedPids)
      { w.onNice (fun _ => r.1) with niceRestoreSkippedPids := r.2 }
    else w
  { w' with canRestore := canRestore }

def biasLoop (i : PidPass) (pressure : Pressure) (w : PassWorld) : PassWorld :=
  if pressure == .critical && i.policy.biasOomOnPressure then
    w.onOom ((w.topRss i).foldl (biasOffender i.env w.samples))
  else w

/-- The gated cap loop. -/
def capLoop (i : PidPass) (pressure : Pressure) (w : PassWorld) : PassWorld :=
  if !w.state.mitigationLedgerUnavailable && pressure == .critical &&
      0 < i.policy.capOffendersCpuPercent then
    let r := (w.topRss i).foldl (capOffender i.env.cap i.capError) (w.capWorld, w.capRefusals)
    { w.onCaps (fun _ => r.1) with capRefusals := r.2 }
  else w

/-- Whether the nice release of `check_memory_pressure` runs (main.rs:6779). -/
def niceReleaseRuns (w : PassWorld) : Bool :=
  !w.state.mitigationLedgerUnavailable && w.canRestore

def niceRelease (i : PidPass) (pressure : Pressure) (w : PassWorld) : PassWorld :=
  if pressure = .ok then
    if niceReleaseRuns w then
      w.onNice (releaseLimiter .memory (fun _ => false) i.policy.releaseAfterSecs
        (i.env.memory.under w.toOomWorld))
    else w
  else w.onNice (clearTimers .memory)

/-- One part. Without a level, `check_memory_pressure` has returned. -/
def passPart (i : PidPass) (w : PassWorld) : PassPart → PassWorld
  | .scan =>
    { w with
      table := i.env.meanwhile w.table
      samples := processSamples w.table (i.env.rows.getD []) }
  | .heavyLoop => heavyLoop i w
  | .heavyRelease => heavyRelease i w
  | .heavyPrune => w.onNice (pruneLimiter .legacy (i.env.heavy.under w.toOomWorld))
  | .reniceLoop => i.env.pressure.elim w fun pressure => reniceLoop i pressure w
  | .biasLoop => i.env.pressure.elim w fun pressure => biasLoop i pressure w
  | .capLoop => i.env.pressure.elim w fun pressure => capLoop i pressure w
  | .reap => i.env.pressure.elim w fun _ =>
    w.onOom fun o => { o with table := i.env.reaped o.table }
  | .sweep => i.env.pressure.elim w fun _ =>
    w.onOom (sweepStrandedOomDescendants i.env.sweep i.policy.processExemptNames w.samples)
  | .niceRelease => i.env.pressure.elim w fun pressure => niceRelease i pressure w
  | .oomRelease => i.env.pressure.elim w fun pressure =>
    w.onOom (if pressure = .ok then releaseOomBiases i.env.oomRelease else clearOomTimers)
  | .capRelease => i.env.pressure.elim w fun pressure =>
    w.onCaps (if pressure = .ok then releaseCaps i.env.capRelease else clearCapTimers)
  | .nicePrune => i.env.pressure.elim w fun _ =>
    w.onNice (pruneLimiter .memory (i.env.memory.under w.toOomWorld))
  | .oomPrune => i.env.pressure.elim w fun _ =>
    w.onOom (pruneOom i.env.oomPruneReadable w.samples)
  | .capPrune => i.env.pressure.elim w fun _ => w.onCaps (pruneCaps i.env.capPruneReadable)
  | .persist => w.onOom fun o => (o.persist i.env.persist).1

/-- A pass that gets its scan. -/
def runParts (i : PidPass) (w : PassWorld) : PassWorld := passParts.foldl (passPart i) w

theorem foldl_heavyOffender (i : PidPass) (env : NiceEnv) (canRestore : Bool)
    (ps : List ProcSample) (w : NiceWorld × ReportStates) :
    (ps.foldl (heavyOffender i env canRestore) w).1 =
      ps.foldl (heavyStep i.policy.toNicePolicy env canRestore) w.1 := by
  induction ps generalizing w with
  | nil => rfl
  | cons p ps ih => exact ih _

theorem foldl_reniceOffender (g : NicePolicy) (env : NiceEnv) (ps : List ProcSample)
    (w : NiceWorld × FinMap Pid Unit) :
    (ps.foldl (reniceOffender g env) w).1 = ps.foldl (memoryStep g env) w.1 := by
  induction ps generalizing w with
  | nil => rfl
  | cons p ps ih => exact ih _

theorem foldl_capOffender (env : CapEnv) (capError : Pid → String) (ps : List ProcSample)
    (w : CapWorld × FinMap Pid String) :
    (ps.foldl (capOffender env capError) w).1 = ps.foldl (capStep env) w.1 := by
  induction ps generalizing w with
  | nil => rfl
  | cons p ps ih => exact ih _

/-! ## The pass, from its parts -/

section Pass

variable (i : PidPass) (w : PassWorld)

theorem heavyParts_world :
    (passPart i (passPart i (passPart i w .heavyLoop) .heavyRelease) .heavyPrune).toOomWorld =
      w.toOomWorld.onNice (checkHeavyProcesses i.policy.toNicePolicy
        (i.env.heavy.under w.toOomWorld) w.samples) := by
  have hloop : (heavyLoop i w).canRestore = canRestoreNice i.policy.autoRenice .legacy
      (i.env.heavy.under w.toOomWorld) w.state.nice := rfl
  simp only [passPart, heavyRelease, hloop]
  unfold heavyLoop checkHeavyProcesses OomWorld.onNice
  dsimp only
  rw [foldl_heavyOffender]
  split <;> rfl

theorem reniceLoop_world (pressure : Pressure) :
    (reniceLoop i pressure w).toOomWorld =
      if memoryReniceActive i.policy.toNicePolicy (i.env.memory.under w.toOomWorld) pressure
          (canRestoreNice i.policy.autoReniceOnMemory .memory i.env.memory w.state.nice) then
        w.toOomWorld.onNice ((w.topRss i).foldl
          (memoryStep i.policy.toNicePolicy (i.env.memory.under w.toOomWorld)))
      else w.toOomWorld := by
  unfold reniceLoop
  dsimp only
  split
  · unfold PassWorld.onNice OomWorld.onNice
    dsimp only
    rw [foldl_reniceOffender]
    rfl
  · rfl

theorem biasLoop_world (pressure : Pressure) :
    (biasLoop i pressure w).toOomWorld =
      if pressure == .critical && i.policy.biasOomOnPressure then
        (w.topRss i).foldl (biasOffender i.env w.samples) w.toOomWorld
      else w.toOomWorld := by
  unfold biasLoop
  split <;> rfl

theorem capLoop_world (pressure : Pressure) :
    (capLoop i pressure w).toOomWorld = w.toOomWorld.onCaps
      (capOffenders i.env.cap pressure i.policy.capOffendersCpuPercent (w.topRss i)) := by
  unfold capLoop capOffenders PassWorld.onCaps OomWorld.onCaps
  dsimp only
  split
  · rw [foldl_capOffender]
    rfl
  · rfl

theorem niceRelease_world (pressure : Pressure) :
    (niceRelease i pressure w).toOomWorld =
      if pressure = .ok then
        if !w.state.mitigationLedgerUnavailable && w.canRestore then
          w.toOomWorld.onNice (releaseLimiter .memory (fun _ => false) i.policy.releaseAfterSecs
            (i.env.memory.under w.toOomWorld))
        else w.toOomWorld
      else w.toOomWorld.onNice (clearTimers .memory) := by
  unfold niceRelease niceReleaseRuns
  split
  · split <;> rfl
  · rfl

/-- What a part leaves of the scan, and of what the half has asked. -/
theorem reniceLoop_hand (pressure : Pressure) : (reniceLoop i pressure w).samples = w.samples ∧
    (reniceLoop i pressure w).canRestore =
      canRestoreNice i.policy.autoReniceOnMemory .memory i.env.memory w.state.nice := by
  unfold reniceLoop
  dsimp only
  split <;> exact ⟨rfl, rfl⟩

theorem biasLoop_hand (pressure : Pressure) : (biasLoop i pressure w).samples = w.samples ∧
    (biasLoop i pressure w).canRestore = w.canRestore := by
  unfold biasLoop
  split <;> exact ⟨rfl, rfl⟩

theorem capLoop_hand (pressure : Pressure) : (capLoop i pressure w).samples = w.samples ∧
    (capLoop i pressure w).canRestore = w.canRestore := by
  unfold capLoop
  split <;> exact ⟨rfl, rfl⟩

theorem niceRelease_samples (pressure : Pressure) :
    (niceRelease i pressure w).samples = w.samples := by
  unfold niceRelease
  split
  · split <;> rfl
  · rfl

theorem heavyRelease_samples : (heavyRelease i w).samples = w.samples := by
  unfold heavyRelease
  split <;> rfl

/-- The three limiting loops. -/
theorem limitParts_world (pressure : Pressure) :
    (capLoop i pressure (biasLoop i pressure (reniceLoop i pressure w))).toOomWorld =
      limitOffenders i.policy i.env pressure
        (canRestoreNice i.policy.autoReniceOnMemory .memory i.env.memory w.state.nice) w.samples
        w.toOomWorld := by
  have htop : (biasLoop i pressure (reniceLoop i pressure w)).topRss i = w.topRss i := by
    unfold PassWorld.topRss
    rw [(biasLoop_hand i _ pressure).1, (reniceLoop_hand i w pressure).1]
  have htop' : (reniceLoop i pressure w).topRss i = w.topRss i := by
    unfold PassWorld.topRss
    rw [(reniceLoop_hand i w pressure).1]
  rw [capLoop_world, htop, biasLoop_world, htop', reniceLoop_world,
    (reniceLoop_hand i w pressure).1]
  rfl

/-- The releases and the closing prunes. -/
theorem closingParts_world (pressure : Pressure) (hpressure : i.env.pressure = some pressure) :
    (([.niceRelease, .oomRelease, .capRelease, .nicePrune, .oomPrune, .capPrune] :
      List PassPart).foldl (passPart i) w).toOomWorld = pruneOffenders i.env w.samples
        (releaseOffenders i.policy i.env pressure w.canRestore w.toOomWorld) := by
  have hreleased : (((niceRelease i pressure w).onOom (if pressure = .ok then
      releaseOomBiases i.env.oomRelease else clearOomTimers)).onCaps (if pressure = .ok then
        releaseCaps i.env.capRelease else clearCapTimers)).toOomWorld =
          releaseOffenders i.policy i.env pressure w.canRestore w.toOomWorld := by
    unfold releaseOffenders PassWorld.onCaps PassWorld.onOom
    dsimp only
    rw [niceRelease_world]
    split <;> rfl
  simp only [List.foldl_cons, List.foldl_nil, passPart, hpressure, Option.elim]
  rw [← hreleased, ← niceRelease_samples i w pressure]
  rfl

/-- The parts of `check_memory_pressure`. -/
theorem memoryParts_world : (([.reniceLoop, .biasLoop, .capLoop, .reap, .sweep, .niceRelease,
    .oomRelease, .capRelease, .nicePrune, .oomPrune, .capPrune] : List PassPart).foldl
      (passPart i) w).toOomWorld = checkMemoryPressure i.policy i.env w.samples w.toOomWorld := by
  unfold checkMemoryPressure
  cases hpressure : i.env.pressure with
  | none => simp only [List.foldl_cons, List.foldl_nil, passPart, hpressure, Option.elim]
  | some pressure =>
    have hsamples : (capLoop i pressure (biasLoop i pressure (reniceLoop i pressure w))).samples =
        w.samples := by
      rw [(capLoop_hand i _ pressure).1, (biasLoop_hand i _ pressure).1,
        (reniceLoop_hand i w pressure).1]
    have hcan : (capLoop i pressure (biasLoop i pressure (reniceLoop i pressure w))).canRestore =
        canRestoreNice i.policy.autoReniceOnMemory .memory i.env.memory w.state.nice := by
      rw [(capLoop_hand i _ pressure).2, (biasLoop_hand i _ pressure).2,
        (reniceLoop_hand i w pressure).2]
    dsimp only
    rw [← limitParts_world i w pressure, ← hcan, ← hsamples]
    refine Eq.trans ?_ (closingParts_world i (((capLoop i pressure (biasLoop i pressure
      (reniceLoop i pressure w))).onOom fun o => { o with table := i.env.reaped o.table }).onOom
        (sweepStrandedOomDescendants i.env.sweep i.policy.processExemptNames
          (capLoop i pressure (biasLoop i pressure (reniceLoop i pressure w))).samples))
      pressure hpressure)
    simp only [List.foldl_cons, List.foldl_nil, passPart, hpressure, Option.elim]
    rfl

end Pass

/-- **The parts in their order are the pass.** -/
theorem runGuardOnce_parts (i : PidPass) (w : PassWorld) {rows : List PsRow}
    (hdisk : i.env.diskRead = true) (hrows : i.env.rows = some rows) :
    (runParts i w).toOomWorld = (runGuardOnce i.policy i.env w.toOomWorld).1 := by
  have hscan : (passPart i w .scan).samples = processSamples w.table rows := by
    simp only [passPart, hrows, Option.getD_some]
  have hheavy := heavyParts_world i (passPart i w .scan)
  have hmemory := memoryParts_world i
    (passPart i (passPart i (passPart i (passPart i w .scan) .heavyLoop) .heavyRelease) .heavyPrune)
  have hsamples : (passPart i (passPart i (passPart i (passPart i w .scan) .heavyLoop)
      .heavyRelease) .heavyPrune).samples = processSamples w.table rows := by
    rw [← hscan]
    exact heavyRelease_samples i _
  rw [hsamples, hheavy, hscan] at hmemory
  unfold runGuardOnce
  rw [hdisk, hrows]
  simp only [Bool.not_true, Bool.false_eq_true, if_false]
  exact congrArg (fun o : OomWorld => (o.persist i.env.persist).1) hmemory

/-! ## The maps -/

def ReportKey.names (pid : Pid) : ReportKey → Bool
  | .heavyProcess p _ => p == pid
  | _ => false

inductive PidMap where
  | heavySince | heavyReports
  | reniced (k : NiceLimiterKind)
  | cooled (k : NiceLimiterKind)
  | unavailable (k : NiceLimiterKind)
  | failures (k : NiceLimiterKind)
  | oomBiased | oomKnown | oomPending | oomCooled | oomUnavailable
  | capped | capCooled | capUnavailable
  | skipped | capRefused
deriving DecidableEq, Repr

namespace PidMap

/-- The pid is a key of the map, or in one. -/
def has (w : PassWorld) (pid : Pid) : PidMap → Bool
  | .heavySince => (w.state.nice.heavySince.lookup pid).isSome
  | .heavyReports => w.heavyReports.entries.any fun e => e.1.names pid
  | .reniced k => (w.state.nice.entry k pid).isSome
  | .cooled k => ((w.state.nice.limiter k).cooledSince.lookup pid).isSome
  | .unavailable k => ((w.state.nice.limiter k).identityUnavailableAttempts.lookup pid).isSome
  | .failures k => ((w.state.nice.limiter k).unreniceFailures.lookup pid).isSome
  | .oomBiased => (w.state.oom.oomBiasedPids.lookup pid).isSome
  | .oomKnown => (w.state.oom.oomKnownDescendants.lookup pid).isSome
  | .oomPending => w.state.oom.oomPendingDescendants.entries.any fun e => e.1.1 == pid
  | .oomCooled => (w.state.oom.oomCooledSince.lookup pid).isSome
  | .oomUnavailable => (w.state.oom.oomIdentityUnavailableAttempts.lookup pid).isSome
  | .capped => (w.state.caps.cappedPids.lookup pid).isSome
  | .capCooled => (w.state.caps.capCooledSince.lookup pid).isSome
  | .capUnavailable => (w.state.caps.capIdentityUnavailableAttempts.lookup pid).isSome
  | .skipped => (w.niceRestoreSkippedPids.lookup pid).isSome
  | .capRefused => (w.capRefusals.lookup pid).isSome

/-- The obligations a map goes with: themselves, if it is one of those that hold them. -/
def owing : PidMap → Option PidMap
  | .heavySince | .heavyReports | .skipped | .capRefused => none
  | .reniced k | .cooled k | .unavailable k | .failures k => some (.reniced k)
  | .oomBiased | .oomKnown | .oomCooled | .oomUnavailable => some .oomBiased
  | .oomPending => some .oomPending
  | .capped | .capCooled | .capUnavailable => some .capped

/-- The maps that no pass brings up to date: a verdict or a count stays until its own loop takes it
away. -/
def lasting : PidMap → Bool
  | .unavailable _ | .failures _ | .oomUnavailable | .capUnavailable => true
  | .skipped | .capRefused => true
  | _ => false

def timer : PidMap → Bool
  | .cooled _ | .oomCooled | .capCooled => true
  | _ => false

/-- A key comes with the obligation it is about. -/
def Backed (w : PassWorld) (pid : Pid) (m : PidMap) : Prop :=
  m.has w pid = true → ∃ o, m.owing = some o ∧ o.has w pid = true

end PidMap

namespace PassWorld

/-- A restoration is outstanding. -/
def Owed (w : PassWorld) (pid : Pid) : Prop :=
  ∃ m : PidMap, m.owing = some m ∧ m.has w pid = true

/-- The scan shows a process under the pid. -/
def Seen (w : PassWorld) (pid : Pid) : Prop := pid ∈ w.samples.map (·.pid)

/-- Every key of every map names a process of the snapshot, or one with a restoration
outstanding. -/
def Accounted (w : PassWorld) : Prop :=
  ∀ (m : PidMap) pid, m.has w pid = true → w.Seen pid ∨ w.Owed pid

end PassWorld

/-! ## Leaving nothing behind -/

/-- All the nice limiters keep under one pid, with the process that has it. -/
@[ext] structure NiceBook where
  proc : Option Proc
  entry : NiceLimiterKind → Option ReniceState
  cooled : NiceLimiterKind → Option Time
  unavailable : NiceLimiterKind → Option Nat
  failures : NiceLimiterKind → Option Nat
  heavy : Option (Time × Nat)

def NiceWorld.book (w : NiceWorld) (pid : Pid) : NiceBook where
  proc := w.table pid
  entry k := w.nice.entry k pid
  cooled k := (w.nice.limiter k).cooledSince.lookup pid
  unavailable k := (w.nice.limiter k).identityUnavailableAttempts.lookup pid
  failures k := (w.nice.limiter k).unreniceFailures.lookup pid
  heavy := w.nice.heavySince.lookup pid

namespace NiceBook

/-- Retries are counted under the pid. -/
def Counted (b : NiceBook) (k : NiceLimiterKind) : Prop :=
  (b.unavailable k).isSome = true ∨ (b.failures k).isSome = true

/-- A release that is due leaves no count without its entry: a process that is gone or replaced was
not counted; one that is given up on unread was never refused; one that is there drops no counted
entry of the other limiter as stale. -/
def LeavesNoCount (k : NiceLimiterKind) (env : NiceEnv) (pid : Pid) (b : NiceBook) : Prop :=
  ∀ e, b.entry k = some e →
    match processIdentityStatus (fun _ => b.proc) (env.releaseReadable pid) pid e.identity with
    | .gone | .mismatch => ¬ b.Counted k
    | .unavailable =>
      identityUnavailableRetryLimit ≤ (b.unavailable k).getD 0 + 1 → b.failures k = none
    | .matching =>
      (e.identity.starttime ≠ 0 ∨ env.reniceOk pid = true) ∧
        ∀ o, b.entry k.other = some o → sameProcessIncarnation o.identity e.identity = false →
          ¬ b.Counted k.other

end NiceBook

/-- The closing prune of a limiter finds the process of an entry gone or replaced. -/
def NicePrunes (k : NiceLimiterKind) (env : NiceEnv) (w : NiceWorld) (pid : Pid) : Prop :=
  ∃ e, w.nice.entry k pid = some e ∧
    (processIdentityStatus w.table (env.pruneReadable pid) pid e.identity).dead = true

/-- An obligation is kept under the pid with neither timer nor count. -/
def Bare (w : PassWorld) (pid : Pid) (o : PidMap) : Prop :=
  ∀ m : PidMap, m.owing = some o → m.lasting || m.timer → m.has w pid = false

/-- Where a release runs, it leaves no count; where it does not, no timer is without its entry. -/
def TidyRelease (k : NiceLimiterKind) (env : NiceEnv) (due : List Pid) (runs : Bool)
    (w : PassWorld) : Prop :=
  if runs then ∀ pid ∈ due, ¬ w.Seen pid → (w.niceWorld.book pid).LeavesNoCount k env pid
  else ∀ pid, ¬ w.Seen pid → (PidMap.cooled k).Backed w pid

/-- **A part of a pass leaves nothing behind** of a process the scan does not show. -/
def Tidy (i : PidPass) (w : PassWorld) : PassPart → Prop
  | .scan => ∀ pid, w.Seen pid → ¬ (passPart i w .scan).Seen pid →
    ∀ m : PidMap, m.lasting = true → m.Backed w pid
  | .heavyRelease =>
    let env := i.env.heavy.under w.toOomWorld
    let due := (startTimers .legacy (fun pid => (w.currentHeavy i).contains pid)
      i.policy.releaseAfterSecs env.now w.niceWorld).2
    TidyRelease .legacy env due w.canRestore w
  | .heavyPrune => ∀ pid, ¬ w.Seen pid →
    NicePrunes .legacy (i.env.heavy.under w.toOomWorld) w.niceWorld pid →
      Bare w pid (.reniced .legacy)
  | .niceRelease =>
    let env := i.env.memory.under w.toOomWorld
    let due := (startTimers .memory (fun _ => false) i.policy.releaseAfterSecs env.now
      w.niceWorld).2
    i.env.pressure.all (· = .ok) →
      TidyRelease .memory env due (i.env.pressure.isSome && niceReleaseRuns w) w
  | .oomRelease => i.env.pressure.all (· = .ok) →
    (i.env.pressure.isSome && !w.state.mitigationLedgerUnavailable) = false →
      ∀ pid, ¬ w.Seen pid → PidMap.oomCooled.Backed w pid
  | .capRelease => i.env.pressure.all (· = .ok) →
    (i.env.pressure.isSome && !w.state.mitigationLedgerUnavailable) = false →
      ∀ pid, ¬ w.Seen pid → PidMap.capCooled.Backed w pid
  | .nicePrune => i.env.pressure.isSome → ∀ pid, ¬ w.Seen pid →
    NicePrunes .memory (i.env.memory.under w.toOomWorld) w.niceWorld pid →
      Bare w pid (.reniced .memory)
  | .oomPrune =>
    if i.env.pressure.isSome then ∀ pid, ¬ w.Seen pid →
      (∃ b, w.state.oom.oomBiasedPids.lookup pid = some b ∧ (processIdentityStatus w.table
        (i.env.oomPruneReadable pid) pid b.2).dead = true) →
          oomRootHasPendingDescendants w.state.oom pid = false → Bare w pid .oomBiased
    else ∀ pid, ¬ w.Seen pid → PidMap.oomKnown.Backed w pid
  | .capPrune => i.env.pressure.isSome → ∀ pid, ¬ w.Seen pid →
    (∃ e, w.state.caps.cappedPids.lookup pid = some e ∧ (processIdentityStatus w.table
      (i.env.capPruneReadable pid) pid e.identity).dead = true) → Bare w pid .capped
  | _ => True

/-! ## Runs of passes -/

inductive PidEvent where
  | processes (t : ProcTable)
  | pass (i : PidPass)

/-- A pass without its scan does nothing. -/
def pidStep (w : PassWorld) : PidEvent → PassWorld
  | .processes t => { w with table := t }
  | .pass i => if i.env.diskRead && i.env.rows.isSome then runParts i w else w

def TidyEvent (w : PassWorld) : PidEvent → Prop
  | .processes _ => True
  | .pass i => (i.env.diskRead && i.env.rows.isSome) = true →
    Runs.Along (passPart i) (Tidy i) w passParts

theorem pidStep_pass (i : PidPass) (w : PassWorld) :
    (pidStep w (.pass i)).toOomWorld = (runGuardOnce i.policy i.env w.toOomWorld).1 := by
  unfold pidStep
  cases hdisk : i.env.diskRead with
  | false => simp [runGuardOnce, hdisk]
  | true =>
    cases hrows : i.env.rows with
    | none => simp [runGuardOnce, hdisk, hrows]
    | some rows =>
      rw [← runGuardOnce_parts i w hdisk hrows]
      simp [hdisk, hrows]

end DraconGuard
