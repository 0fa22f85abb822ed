import DraconGuard.Guard.OneShot

/-!
# Policy reloads

On SIGHUP the daemon restores what it holds adjusted, then adopts the new policy or refuses to
(main.rs:12180-12240).

| definition | source |
| --- | --- |
| `RuntimeAdjustment` | main.rs:3011 |
| `runtimeAdjustmentPlan` | `runtime_adjustment_plan` (main.rs:3040) |
| `restoreAdjustment` | one turn of the loop of `restore_runtime_adjustments` (main.rs:3265) |
| `applyPolicyReload` | `apply_policy_reload` (main.rs:12083) |
-/

namespace DraconGuard

/-- `RuntimeAdjustment` (main.rs:3011). -/
inductive RuntimeAdjustment where
  | nice (r : NiceRestore)
  | oomBias (pid : Pid) (origAdj : Int) (identity : ProcessIdentity)
  | cpuCap (pid : Pid) (cap : CapEntry)
deriving DecidableEq

/-- `runtime_adjustment_plan` (main.rs:3040). Pending descendants are no part of it: the sweep
before it retries them. -/
def runtimeAdjustmentPlan (s : GuardRuntimeState) : List RuntimeAdjustment :=
  (niceRestorePlan s.nice).map .nice ++
    s.oom.oomBiasedPids.entries.map (fun e => .oomBias e.1 e.2.1 e.2.2) ++
      s.caps.cappedPids.entries.map fun e => .cpuCap e.1 e.2

/-- The `OomBias` arm (main.rs:3323). -/
def restoreOomAdjustment (env : ReleaseEnv) (w : OomWorld) (pid : Pid) (origAdj : Int)
    (identity : ProcessIdentity) : OomWorld :=
  match processIdentityStatus w.table (env.readable pid) pid identity with
  | .gone | .mismatch => w.setOom (removeOomBias w.state.oom pid)
  | .unavailable => w
  | .matching => settleOomBias (env.restore pid) w pid identity origAdj

/-- The `CpuCap` arm (main.rs:3350). -/
def restoreCapAdjustment (env : CapReleaseEnv) (w : CapWorld) (pid : Pid) (cap : CapEntry) :
    CapWorld :=
  match processIdentityStatus w.table (env.readable pid) pid cap.identity with
  | .matching | .gone => if uncapCpuProcess (env.uncap pid) cap true then w.pay pid cap else w
  | .mismatch => if uncapCpuProcess (env.uncap pid) cap false then w.pay pid cap else w
  | .unavailable => w

/-- One turn of the loop over the plan (main.rs:3265-3404). -/
def restoreAdjustment (env : RuntimeRestoreEnv) (w : OomWorld) : RuntimeAdjustment → OomWorld
  | .nice r => w.onNice fun n => restoreNice env n r
  | .oomBias pid origAdj identity => restoreOomAdjustment env.oom w pid origAdj identity
  | .cpuCap pid cap => w.onCaps fun c => restoreCapAdjustment env.caps c pid cap

/-- `ReloadOutcome` (main.rs:12051). -/
inductive ReloadOutcome where
  | applied | deferred
deriving DecidableEq, Repr

/-- `apply_policy_reload` (main.rs:12083), over any policy that can be disabled and normalised.
A reload that disables the guard is always applied; its leftovers are the shutdown's. -/
def applyPolicyReload {π : Type} (enabled : π → Bool) (normalize : π → π) (guard : π)
    (runtime : GuardRuntimeState) (newPolicy : π) (adjustmentsRestored : Bool) :
    π × GuardRuntimeState × ReloadOutcome :=
  let disabling := !enabled newPolicy
  if (!adjustmentsRestored || runtime.mitigationLedgerUnavailable) && !disabling then
    (guard, runtime, .deferred)
  else
    let runtime :=
      if adjustmentsRestored && !runtime.mitigationLedgerUnavailable then
        { persistMitigations := runtime.persistMitigations }
      else runtime
    (normalize newPolicy, runtime, .applied)

end DraconGuard
