import DraconGuard.Guard.OneShotLaw
import DraconGuard.Guard.PressureTimers
import DraconGuard.Lib.Streak

/-!
# The release window

Under memory pressure the guard renices, biases and caps; it lets go once pressure has been ok for
`release_after_secs`. Two clocks decide: the hysteresis that stabilises the observed level
(`stabilize_memory_pressure_at`, main.rs:2402), and the three maps of release timers.

| definition | source |
| --- | --- |
| `classifyMemoryPressure` | main.rs:2386 |
| `stabilizeMemoryPressureAt` | main.rs:2402 |
| `observedPressure` | `check_memory_pressure`, classification (main.rs:6424-6457) |
| `releaseAttempts` | `to_unrenice`, `to_unbias`, `to_uncap` (main.rs:6795, 6884, 6941) |
| `guardStep` | the loop of `cmd_guard_daemon` (main.rs:12176) |

`releases_within_window`: in every run of the daemon, whatever a pass tries to release has seen
nothing but ok passes for the whole window.
-/

namespace DraconGuard

/-! ## The level -/

/-- The part of `GuardPolicy` that decides the level. -/
structure MemoryPolicy extends AdjustPolicy where
  monitorMemory : Bool := true
  memAvailableWarnPercent : Nat := 10
  swapUsedWarnPercent : Nat := 50
  memPsiFullWarn : Rat := 10
  memSwapinWarnPagesPerSec : Nat := 1000
  memoryPressureSustainSecs : Nat := 120

/-- What one pass measures: `memory_sample`, `psi_full_avg10`, and pages swapped in each second
since the pass before. -/
structure MemorySample where
  memAvailablePercent : Nat
  swapUsedPercent : Nat
  psiFullAvg10 : Option Rat := none
  pswpinRate : Option Rat := none

/-- `swapin_velocity_thrash` (main.rs:2382). -/
def swapinVelocityThrash (pswpinRate : Option Rat) (warnPagesPerSec : Nat) : Bool :=
  pswpinRate.any fun r => (warnPagesPerSec : Rat) ≤ r

/-- `classify_memory_pressure` (main.rs:2386). -/
def classifyMemoryPressure (memLow swapHigh psiOrSwapinActive : Bool) : Pressure :=
  if memLow && (swapHigh || psiOrSwapinActive) then .critical
  else if memLow || psiOrSwapinActive then .warn
  else .ok

/-- The level one pass observes. -/
def observedPressure (g : MemoryPolicy) (s : MemorySample) : Pressure :=
  classifyMemoryPressure (s.memAvailablePercent ≤ g.memAvailableWarnPercent)
    (g.swapUsedWarnPercent ≤ s.swapUsedPercent)
    (s.psiFullAvg10.any (fun v => g.memPsiFullWarn ≤ v) ||
      swapinVelocityThrash s.pswpinRate g.memSwapinWarnPagesPerSec)

/-- `memory_pressure_state`, `memory_pressure_candidate` and `memory_pressure_candidate_since`;
an empty string is `none`. -/
structure PressureHysteresis where
  state : Option Pressure := none
  candidate : Option Pressure := none
  candidateSince : Option Time := none

/-- `stabilize_memory_pressure_at` (main.rs:2402): the stable level, the one before it if this
pass changed it, and whether it did. -/
def stabilizeMemoryPressureAt (s : PressureHysteresis) (observed : Pressure) (sustainSecs : Nat)
    (now : Time) : PressureHysteresis × Pressure × Option Pressure × Bool :=
  let stable := s.state.getD .ok
  let s := { s with state := some stable }
  if stable = observed then
    ({ s with candidate := none, candidateSince := none }, stable, none, false)
  else if s.candidate ≠ some observed then
    ({ s with candidate := some observed, candidateSince := some now }, stable, none, false)
  else if now - s.candidateSince.getD now < sustainSecs then (s, stable, none, false)
  else
    ({ state := some observed, candidate := none, candidateSince := none }, observed, some stable,
      true)

/-! ## What a pass tries to release -/

inductive ReleaseAttempt where
  | renice (pid : Pid)
  | bias (pid : Pid)
  | cap (pid : Pid)
deriving DecidableEq, Repr

/-- Who is due in the release loops of `check_memory_pressure`. -/
def releaseAttempts (g : AdjustPolicy) (env : PassEnv) (pressure : Pressure) (canRestore : Bool)
    (w : OomWorld) : List ReleaseAttempt :=
  if pressure = .ok && !w.state.mitigationLedgerUnavailable then
    let renices :=
      if canRestore then
        (startTimers .memory (fun _ => false) g.releaseAfterSecs env.memory.now
          ⟨w.table, w.state.nice⟩).2
      else []
    let biases := (w.state.oom.oomBiasedPids.keys.foldl
      (coolStep (fun _ => false) env.oomRelease.now env.oomRelease.releaseAfterSecs)
      (w.state.oom.oomCooledSince, [])).2
    let caps := (w.state.caps.cappedPids.keys.foldl
      (coolStep (fun _ => false) env.capRelease.now env.capRelease.releaseAfterSecs)
      (w.state.caps.capCooledSince, [])).2
    renices.map .renice ++ (biases.map .bias ++ caps.map .cap)
  else []

/-- A pass up to `check_memory_pressure`: the scan is over, the heavy processes are done. -/
def afterHeavy (g : AdjustPolicy) (env : PassEnv) (samples : List ProcSample) (w : OomWorld) :
    OomWorld :=
  let w := { w with table := env.meanwhile w.table }
  w.onNice (checkHeavyProcesses g.toNicePolicy (env.heavy.under w) samples)

/-- `check_memory_pressure` up to its releases. -/
def beforeReleases (g : AdjustPolicy) (env : PassEnv) (pressure : Pressure)
    (samples : List ProcSample) (w : OomWorld) : OomWorld :=
  let canRestore := canRestoreNice g.autoReniceOnMemory .memory env.memory w.state.nice
  let w := limitOffenders g env pressure canRestore samples w
  sweepStrandedOomDescendants env.sweep g.processExemptNames samples
    { w with table := env.reaped w.table }

theorem checkMemoryPressure_eq (g : AdjustPolicy) (env : PassEnv) (pressure : Pressure)
    (hp : env.pressure = some pressure) (samples : List ProcSample) (w : OomWorld) :
    checkMemoryPressure g env samples w = pruneOffenders env samples
      (releaseOffenders g env pressure
        (canRestoreNice g.autoReniceOnMemory .memory env.memory w.state.nice)
        (beforeReleases g env pressure samples w)) := by
  unfold checkMemoryPressure
  rw [hp]
  rfl

theorem runGuardOnce_eq (g : AdjustPolicy) (env : PassEnv) (w : OomWorld) :
    runGuardOnce g env w =
      if !env.diskRead then (w, false)
      else match env.rows with
        | none => (w, false)
        | some rows =>
          let samples := processSamples w.table rows
          (((checkMemoryPressure g env samples (afterHeavy g env samples w)).persist
            env.persist).1, true) := rfl

/-! ## The daemon -/

/-- One pass: how long after the one before it takes its sample, and how long after the sample it
gets to its releases. -/
structure GuardPass where
  policy : MemoryPolicy
  wait : Nat
  /-- `memory_sample`; `none` is an error. -/
  sample : Option MemorySample
  work : Nat
  env : PassEnv

/-- A pass that stabilised a level. -/
structure EvaluatedPass where
  observedAt : Time
  releasedAt : Time
  level : Pressure
deriving DecidableEq, Repr

/-- The daemon between two steps. `evaluated` is a ghost: its evaluated passes, the last first. -/
structure PressureWorld extends OomWorld where
  hysteresis : PressureHysteresis := {}
  clock : Time := 0
  evaluated : List EvaluatedPass := []

/-- The sample is taken and looked at. -/
def GuardPass.observation (i : GuardPass) : Option Pressure :=
  if i.env.diskRead && i.env.rows.isSome && i.policy.monitorMemory then
    i.sample.map (observedPressure i.policy)
  else none

/-- The pass's `now` of the releases is one reading, and its window the policy's. -/
def GuardPass.envAt (i : GuardPass) (pressure : Option Pressure) (now : Time) : PassEnv :=
  { i.env with
    pressure := pressure
    memory := { i.env.memory with now := now }
    oomRelease :=
      { i.env.oomRelease with now := now, releaseAfterSecs := i.policy.releaseAfterSecs }
    capRelease :=
      { i.env.capRelease with now := now, releaseAfterSecs := i.policy.releaseAfterSecs } }

/-- The level of a pass, and the hysteresis after it. -/
def PressureWorld.stabilized (w : PressureWorld) (i : GuardPass) :
    Option (PressureHysteresis × Pressure) :=
  i.observation.map fun observed =>
    let r := stabilizeMemoryPressureAt w.hysteresis observed i.policy.memoryPressureSustainSecs
      (w.clock + i.wait)
    (r.1, r.2.1)

/-- The instant a pass's releases are measured at. -/
def PressureWorld.releasesAt (w : PressureWorld) (i : GuardPass) : Time := w.clock + i.wait + i.work

/-- One pass of the guard. -/
def guardPass (w : PressureWorld) (i : GuardPass) : PressureWorld :=
  let now := w.releasesAt i
  match w.stabilized i with
  | none =>
    { w with
      toOomWorld := (runGuardOnce i.policy.toAdjustPolicy (i.envAt none now) w.toOomWorld).1
      clock := now }
  | some (hysteresis, level) =>
    { toOomWorld := (runGuardOnce i.policy.toAdjustPolicy (i.envAt (some level) now)
        w.toOomWorld).1
      hysteresis := hysteresis
      clock := now
      evaluated := ⟨w.clock + i.wait, now, level⟩ :: w.evaluated }

/-- What a pass tries to release. -/
def passAttempts (w : PressureWorld) (i : GuardPass) : List ReleaseAttempt :=
  match i.env.rows, w.stabilized i with
  | some rows, some (_, level) =>
    let g := i.policy.toAdjustPolicy
    let env := i.envAt (some level) (w.releasesAt i)
    let samples := processSamples w.table rows
    let w := afterHeavy g env samples w.toOomWorld
    releaseAttempts g env level
      (canRestoreNice g.autoReniceOnMemory .memory env.memory w.state.nice)
      (beforeReleases g env level samples w)
  | _, _ => []

/-- `hydrate_mitigations_from_disk` reads the file, if it can. -/
def LedgerDisk.readIf (disk : LedgerDisk) (readable : Bool) : LedgerRead :=
  if readable then disk.read else .unreadable

/-- What happens in a daemon. The policy of a pass is its own: reloads change it at will. -/
inductive GuardEvent where
  | pass (i : GuardPass)
  /-- The processes of the host change. -/
  | processes (t : ProcTable)
  | hydrate (env : HydrateEnv) (readable : Bool)
  | restore (env : RuntimeRestoreEnv)
  | persist (env : PersistEnv)
  /-- SIGHUP, with a policy that is enabled or not. -/
  | reload (env : RuntimeRestoreEnv) (enabled : Bool)

/-- One step of the daemon. A reload that resets the runtime resets the hysteresis with it. -/
def guardStep (w : PressureWorld) : GuardEvent → PressureWorld
  | .pass i => guardPass w i
  | .processes t => { w with table := t }
  | .hydrate env readable =>
    -- main.rs:12177
    if w.state.mitigationLedgerUnavailable then
      { w with state := hydrateMitigationsFrom w.table env w.state (w.disk.readIf readable) }
    else w
  | .restore env => { w with toOomWorld := (restoreRuntimeAdjustments env w.toOomWorld).1 }
  | .persist env => { w with toOomWorld := (w.toOomWorld.persist env).1 }
  | .reload env enabled =>
    let r := restoreRuntimeAdjustments env w.toOomWorld
    let reset := r.2 && !r.1.state.mitigationLedgerUnavailable
    let runtime := (applyPolicyReload id id true r.1.state enabled r.2).2.1
    { w with
      toOomWorld := { r.1 with state := runtime }
      hysteresis := if reset then {} else w.hysteresis }

/-- A daemon that has just started and hydrated (main.rs:12166-12173). -/
def guardStart (t : ProcTable) (disk : LedgerDisk) (env : HydrateEnv) (readable : Bool) :
    PressureWorld where
  table := t
  state := hydrateMitigationsFrom t env { persistMitigations := true } (disk.readIf readable)
  disk := disk

/-! ## The law -/

/-- The level of every evaluated pass from one at least `dur` before `now` on is ok, so that no
pass whose releases fell within `dur` of `now` had another level. -/
structure OkThroughout (evaluated : List EvaluatedPass) (now : Time) (dur : Nat) : Prop where
  streak : ∃ recent older, evaluated = recent ++ older ∧ (∀ e ∈ recent, e.level = .ok) ∧
    ∃ e ∈ recent, e.releasedAt + dur ≤ now
  window : ∀ e ∈ evaluated, now < e.releasedAt + dur → e.level = .ok

/-- A pass that tries to release anything is ok itself, and so were the passes before it for the
whole window. -/
def ReleasesWithinWindow (w : PressureWorld) : GuardEvent → Prop
  | .pass i => passAttempts w i ≠ [] →
      (∃ h, w.stabilized i = some (h, .ok)) ∧
        OkThroughout (guardPass w i).evaluated (w.releasesAt i) i.policy.releaseAfterSecs
  | _ => True

/-- The evaluated passes have been ok since `c`. -/
abbrev OkSince (evaluated : List EvaluatedPass) (c : Time) : Prop :=
  Streak.Since (fun e : EvaluatedPass => e.level = .ok) (·.releasedAt) evaluated c

/-- Every timer measures a streak of ok passes. -/
structure TimersMeasure (w : PressureWorld) : Prop where
  stamps : Stamps (OkSince w.evaluated) w.state
  ordered : Streak.NewestFirst (·.releasedAt) w.evaluated
  past : ∀ e ∈ w.evaluated, e.releasedAt ≤ w.clock

/-! ### What a pass does to the timers -/

section Pass

variable {P : Time → Prop} {w : OomWorld} {g : AdjustPolicy} {env : PassEnv}

theorem Stamps.beforeReleases (h : Stamps P w.state) (g : AdjustPolicy) (env : PassEnv)
    (pressure : Pressure) (samples : List ProcSample) :
    Stamps P (beforeReleases g env pressure samples w).state := by
  have hlimited := fun canRestore => h.limitOffenders g env pressure canRestore samples
  unfold DraconGuard.beforeReleases
  refine Stamps.sweep ?_ _ _ _
  exact ⟨(hlimited _).renices, (hlimited _).biases, (hlimited _).caps⟩

/-- Releasing starts timers at the pass's own time. -/
theorem Stamps.releaseOffenders (h : Stamps P w.state) (canRestore : Bool)
    (hnice : P env.memory.now) (hoom : P env.oomRelease.now) (hcap : P env.capRelease.now) :
    Stamps P (releaseOffenders g env .ok canRestore w).state := by
  unfold DraconGuard.releaseOffenders
  rw [if_pos rfl]
  refine Stamps.onCaps (Stamps.releaseOomBiases ?_ hoom) fun c hc => capStamps_releaseCaps hc hcap
  split
  · exact h.onNice fun n hn => NiceStamps.releaseLimiter hn .memory _ _ fun _ => hnice
  · exact h

/-- Under pressure no timer is left running. -/
theorem stamps_pressurePersists (P : Time → Prop) (w : OomWorld) {pressure : Pressure}
    (hp : pressure ≠ .ok) (canRestore : Bool) :
    Stamps P (releaseOffenders g env pressure canRestore w).state := by
  unfold releaseOffenders
  rw [if_neg hp]
  exact ⟨StampsOf.empty, StampsOf.empty, StampsOf.empty⟩

/-- The heavy-process half of a pass. -/
theorem Stamps.afterHeavy (h : Stamps P w.state) (g : AdjustPolicy) (env : PassEnv)
    (samples : List ProcSample) : Stamps P (afterHeavy g env samples w).state := by
  unfold DraconGuard.afterHeavy
  refine Stamps.onNice ?_ fun _ hn => NiceStamps.checkHeavyProcesses hn _ _ _
  exact ⟨h.renices, h.biases, h.caps⟩

/-- The check keeps or sets the timers as its releases do. -/
theorem Stamps.checkMemoryPressure {pressure : Pressure} (hp : env.pressure = some pressure)
    (samples : List ProcSample)
    (hpass : ∀ canRestore, Stamps P (DraconGuard.releaseOffenders g env pressure canRestore
      (DraconGuard.beforeReleases g env pressure samples w)).state) :
    Stamps P (checkMemoryPressure g env samples w).state := by
  rw [checkMemoryPressure_eq g env pressure hp]
  exact (hpass _).pruneOffenders _ _

/-- A pass that does not look at the memory. -/
theorem Stamps.runGuardOnce_unobserved (h : Stamps P w.state) (hp : env.pressure = none) :
    Stamps P (runGuardOnce g env w).1.state := by
  rw [runGuardOnce_eq]
  split
  · exact h
  · split
    · exact h
    · refine Stamps.persist ?_ env.persist
      unfold DraconGuard.checkMemoryPressure
      rw [hp]
      exact h.afterHeavy _ _ _

/-- A pass that does. -/
theorem Stamps.runGuardOnce {pressure : Pressure} (hp : env.pressure = some pressure)
    {rows : List PsRow} (hdisk : env.diskRead = true) (hrows : env.rows = some rows)
    (hpass : ∀ canRestore samples, Stamps P (DraconGuard.releaseOffenders g env pressure canRestore
      (DraconGuard.beforeReleases g env pressure samples
        (DraconGuard.afterHeavy g env samples w))).state) :
    Stamps P (runGuardOnce g env w).1.state := by
  rw [runGuardOnce_eq, hdisk, hrows]
  exact (Stamps.checkMemoryPressure hp _ fun c => hpass c _).persist env.persist

theorem Stamps.trivial (s : GuardRuntimeState) : Stamps (fun _ => True) s :=
  ⟨fun _ _ _ => True.intro, fun _ _ _ => True.intro, fun _ _ _ => True.intro⟩

/-- What is due has a timer that ran for the window. -/
theorem releaseAttempts_ran (h : Stamps P w.state) {now : Time} {dur : Nat} {pressure : Pressure}
    {canRestore : Bool} (hdur : g.releaseAfterSecs = dur)
    (hnice : env.memory.now = now) (hoom : env.oomRelease.now = now)
    (hcap : env.capRelease.now = now) (hoomDur : env.oomRelease.releaseAfterSecs = dur)
    (hcapDur : env.capRelease.releaseAfterSecs = dur) (hnow : P now) {a : ReleaseAttempt}
    (ha : a ∈ releaseAttempts g env pressure canRestore w) :
    pressure = .ok ∧ ∃ c, P c ∧ dur ≤ now - c := by
  unfold releaseAttempts at ha
  rw [hnice, hoom, hcap, hoomDur, hcapDur, hdur] at ha
  split at ha
  · next hok =>
    refine ⟨by simpa using (Bool.and_eq_true_iff.1 hok).1, ?_⟩
    simp only [List.mem_append, List.mem_map] at ha
    rcases ha with ⟨pid, hpid, -⟩ | ⟨pid, hpid, -⟩ | ⟨pid, hpid, -⟩
    · split at hpid
      · exact (Cooling.loop hnow h.renices _ dur _).ran pid hpid
      · cases hpid
    · exact (Cooling.loop hnow h.biases _ dur _).ran pid hpid
    · exact (Cooling.loop hnow h.caps _ dur _).ran pid hpid
  · cases ha

end Pass

/-! ### Step and run -/

section Run

variable {w : PressureWorld}

/-- A state whose timers came from `w`'s, under `w`'s history. -/
theorem TimersMeasure.keep (h : TimersMeasure w) {w' : PressureWorld}
    (hstamps : ∀ P, Stamps P w.state → Stamps P w'.state) (hevaluated : w'.evaluated = w.evaluated)
    (hclock : w.clock ≤ w'.clock) : TimersMeasure w' where
  stamps := by rw [hevaluated]; exact hstamps _ h.stamps
  ordered := by rw [hevaluated]; exact h.ordered
  past e he := le_trans (h.past e (hevaluated ▸ he)) hclock

/-- An evaluated pass is the newest. -/
theorem TimersMeasure.evaluate (h : TimersMeasure w) {e : EvaluatedPass}
    (he : w.clock ≤ e.releasedAt) : Streak.NewestFirst (·.releasedAt) (e :: w.evaluated) ∧
      ∀ e' ∈ e :: w.evaluated, e'.releasedAt ≤ e.releasedAt := by
  have hpast : ∀ e' ∈ w.evaluated, e'.releasedAt ≤ e.releasedAt := fun e' he' =>
    le_trans (h.past e' he') he
  refine ⟨h.ordered.cons hpast, fun e' he' => ?_⟩
  rcases List.mem_cons.1 he' with rfl | he'
  · exact le_rfl
  · exact hpast e' he'

theorem clock_le_releasesAt (w : PressureWorld) (i : GuardPass) : w.clock ≤ w.releasesAt i := by
  unfold PressureWorld.releasesAt
  exact le_trans (Nat.le_add_right w.clock i.wait) (Nat.le_add_right _ i.work)

/-- A pass that stabilised a level read the disk and scanned. -/
theorem reached_of_stabilized {i : GuardPass} {r : PressureHysteresis × Pressure}
    (h : w.stabilized i = some r) : i.env.diskRead = true ∧ ∃ rows, i.env.rows = some rows := by
  unfold PressureWorld.stabilized GuardPass.observation at h
  split at h
  · next hreached =>
    simp only [Bool.and_eq_true, Option.isSome_iff_exists] at hreached
    exact hreached.1
  · cases h

/-- **Step lemma**, for a pass. -/
theorem TimersMeasure.pass (h : TimersMeasure w) (i : GuardPass) :
    TimersMeasure (guardPass w i) := by
  have hclock := clock_le_releasesAt w i
  unfold guardPass
  dsimp only
  split
  · exact h.keep (fun P hP => hP.runGuardOnce_unobserved rfl) rfl hclock
  · next hysteresis level hst =>
    obtain ⟨hdisk, rows, hrows⟩ := reached_of_stabilized hst
    obtain ⟨hordered, hpast⟩ := h.evaluate (e := ⟨w.clock + i.wait, w.releasesAt i, level⟩) hclock
    refine ⟨Stamps.runGuardOnce rfl hdisk hrows fun canRestore samples => ?_, hordered, hpast⟩
    by_cases hok : level = .ok
    · -- The streak goes on, and the pass's own time starts one.
      subst hok
      have hnow : OkSince (⟨w.clock + i.wait, w.releasesAt i, .ok⟩ :: w.evaluated)
          (w.releasesAt i) := Streak.Since.start rfl le_rfl
      have hold : Stamps (OkSince (⟨w.clock + i.wait, w.releasesAt i, .ok⟩ :: w.evaluated))
          w.state := h.stamps.mono fun c hc => hc.cons rfl
      exact ((hold.afterHeavy _ _ _).beforeReleases _ _ _ _).releaseOffenders canRestore hnow hnow
        hnow
    · exact stamps_pressurePersists _ _ hok canRestore

/-- **Step lemma.** -/
theorem TimersMeasure.step (h : TimersMeasure w) (e : GuardEvent) :
    TimersMeasure (guardStep w e) := by
  cases e with
  | pass i => exact h.pass i
  | processes t => exact h.keep (fun P hP => hP) rfl le_rfl
  | hydrate env readable =>
    dsimp only [guardStep]
    split
    · exact h.keep (fun P hP => hP.hydrate _ _ _) rfl le_rfl
    · exact h
  | restore env => exact h.keep (fun P hP => hP.restoreRuntimeAdjustments env) rfl le_rfl
  | persist env => exact h.keep (fun P hP => hP.persist env) rfl le_rfl
  | reload env enabled =>
    refine h.keep (fun P hP => ?_) rfl le_rfl
    have hrestored := hP.restoreRuntimeAdjustments env
    dsimp only [guardStep, applyPolicyReload]
    split
    · exact hrestored
    · dsimp only
      split
      · exact Stamps.fresh P _
      · exact hrestored

/-- A streak since `c` is one of `dur` once `dur` has passed since `c`. -/
theorem OkThroughout.of_since {evaluated : List EvaluatedPass} {now c : Time} {dur : Nat}
    (hordered : Streak.NewestFirst (·.releasedAt) evaluated)
    (hpast : ∀ e ∈ evaluated, e.releasedAt ≤ now) (hc : OkSince evaluated c)
    (hran : dur ≤ now - c) : OkThroughout evaluated now dur := by
  have hlate : ∀ e ∈ evaluated, e.releasedAt ≤ c → e.releasedAt + dur ≤ now := by
    intro e he hec
    have hadd : ∀ a c n d : Nat, a ≤ c → a ≤ n → d ≤ n - c → a + d ≤ n := by
      intro a c n d hac han hd
      omega
    exact hadd _ _ _ _ hec (hpast e he) hran
  constructor
  · obtain ⟨recent, older, heq, hok, e, he, hec⟩ := hc
    exact ⟨recent, older, heq, hok, e, he, hlate e (heq ▸ List.mem_append_left older he) hec⟩
  · intro e he hwindow
    by_contra hbad
    exact absurd hwindow (Nat.not_lt.2 (hlate e he (hc.failed_before hordered e he hbad)))

/-- What a pass tries to release has a timer that measures a streak ending with the pass. -/
theorem TimersMeasure.attempts (h : TimersMeasure w) (i : GuardPass) :
    ReleasesWithinWindow w (.pass i) := by
  intro hne
  obtain ⟨a, ha⟩ := List.exists_mem_of_ne_nil _ hne
  have hclock := clock_le_releasesAt w i
  unfold passAttempts at ha
  split at ha
  · next rows hysteresis level hrows hst =>
    obtain ⟨hordered, hpast⟩ := h.evaluate (e := ⟨w.clock + i.wait, w.releasesAt i, level⟩) hclock
    -- The pass counts as ok here because it tries to release: the list of the due says so.
    have hok : level = .ok :=
      (releaseAttempts_ran (Stamps.trivial _) rfl rfl rfl rfl rfl rfl trivial ha).1
    subst hok
    have hnow : OkSince (⟨w.clock + i.wait, w.releasesAt i, .ok⟩ :: w.evaluated)
        (w.releasesAt i) := Streak.Since.start rfl le_rfl
    have hold : Stamps (OkSince (⟨w.clock + i.wait, w.releasesAt i, .ok⟩ :: w.evaluated))
        w.state := h.stamps.mono fun c hc => hc.cons rfl
    obtain ⟨-, c, hc, hran⟩ := releaseAttempts_ran ((hold.afterHeavy _ _ _).beforeReleases _ _ _ _)
      rfl rfl rfl rfl rfl rfl hnow ha
    have hevaluated : (guardPass w i).evaluated =
        ⟨w.clock + i.wait, w.releasesAt i, .ok⟩ :: w.evaluated := by
      unfold guardPass
      rw [hst]
    refine ⟨⟨hysteresis, hst⟩, ?_⟩
    rw [hevaluated]
    exact OkThroughout.of_since hordered hpast hc hran
  · cases ha

theorem timersMeasure_start (t : ProcTable) (disk : LedgerDisk) (env : HydrateEnv)
    (readable : Bool) : TimersMeasure (guardStart t disk env readable) where
  stamps := (Stamps.fresh _ true).hydrate t env _
  ordered := List.Pairwise.nil
  past _ he := nomatch he

/-- **In every run of the daemon, a pass that tries to release a renice, a bias or a cap has a
stabilised level of ok, and so had every evaluated pass of the whole release window.** -/
theorem releases_within_window (t : ProcTable) (disk : LedgerDisk) (env : HydrateEnv)
    (readable : Bool) (es : List GuardEvent) :
    Runs.Along guardStep ReleasesWithinWindow (guardStart t disk env readable) es := by
  refine Runs.Along.of_inv (P := TimersMeasure) (fun w e h => h.step e) (fun w e h => ?_)
    (timersMeasure_start t disk env readable)
  cases e with
  | pass i => exact h.attempts i
  | _ => trivial

end Run

/-- A renice whose timer runs since 0. -/
private def cooledWorld : PressureWorld where
  table := fun _ => none
  disk := { visible := none }
  state := { nice := { memory :=
    { renicedPids := AList.singleton 7 ⟨0, 5, ⟨"cc", 1⟩⟩, cooledSince := AList.singleton 7 0 } } }

private def noPersist : PersistEnv where
  bootId := none
  outcome := .written

/-- A pass that sees half of the memory available. -/
private def quietPass (wait : Nat) : GuardPass where
  policy := {}
  wait := wait
  sample := some ⟨50, 0, none, none⟩
  work := 0
  env :=
    { rows := some [], heavy := { now := 0 }, memory := { now := 0 }, pressure := none
      bias := fun _ => { persist := noPersist }, cap := { cap := fun _ => none }
      sweep := { intent := noPersist, settled := noPersist }, persist := noPersist
      oomRelease := { now := 0, releaseAfterSecs := 0 }, capRelease := { uncap := fun _ => {} } }

example : passAttempts cooledWorld (quietPass 120) = [.renice 7] ∧
    passAttempts cooledWorld (quietPass 119) = [] := by decide

/-! ### Whoever is not due is left alone -/

section Untouched

/-- The nice value of whoever has the pid. -/
def niceRow (t : ProcTable) (pid : Pid) : Option Int := (t pid).map (·.nice)

theorem niceRow_writeAdj (w : OomWorld) (pid pid' : Pid) (v : Int) (cause : AdjCause) :
    niceRow (w.writeAdj pid v cause).table pid' = niceRow w.table pid' := by
  unfold niceRow
  rw [writeAdj_table, ProcTable.setAdj_apply]
  split
  · next h => rw [h, Option.map_map]; rfl
  · rfl

theorem niceRow_oomRestore (env : RestoreEnv) (w : OomWorld) (pid : Pid) (id : ProcessIdentity)
    (original : Int) (cause : AdjCause) (pid' : Pid) :
    niceRow (oomRestore env w pid id original cause).1.table pid' = niceRow w.table pid' := by
  rcases oomRestore_cases env w pid id original cause with ⟨he, -⟩ | ⟨he, -⟩
  · rw [he]
  · rw [he, niceRow_writeAdj]

theorem niceRow_releaseOomBias (env : ReleaseEnv) (w : OomWorld) (pid pid' : Pid) :
    niceRow (releaseOomBias env w pid).table pid' = niceRow w.table pid' := by
  unfold releaseOomBias
  dsimp only
  split
  · rfl
  · split
    · rfl
    · rfl
    · rfl
    · unfold settleOomBias
      dsimp only
      split <;> exact niceRow_oomRestore _ _ _ _ _ _ pid'

theorem RootOnly.trans {pid : Pid} {w₁ w₂ w₃ : OomWorld} (h : RootOnly pid w₁ w₂)
    (h' : RootOnly pid w₂ w₃) : RootOnly pid w₁ w₃ where
  toRootsOnly := h.toRootsOnly.trans h'.toRootsOnly
  adj pid' hne := (h'.adj pid' hne).trans (h.adj pid' hne)
  biased pid' hne := (h'.biased pid' hne).trans (h.biased pid' hne)

theorem RootOnly.settle {pid : Pid} {w w' : OomWorld} (h : RootOnly pid w w') (renv : RestoreEnv)
    (id : ProcessIdentity) (original : Int) :
    RootOnly pid w (settleOomBias renv w' pid id original) := by
  have hrestored := h.trans (rootOnly_oomRestore renv w' pid id original .release)
  unfold settleOomBias
  dsimp only
  split
  · exact hrestored
  · exact hrestored.remove

theorem rootOnly_releaseOomBias (env : ReleaseEnv) (w : OomWorld) (pid : Pid) :
    RootOnly pid w (releaseOomBias env w pid) := by
  have hcount : ∀ counts : FinMap Pid Nat, RootOnly pid w
      (w.setOom { w.state.oom with oomIdentityUnavailableAttempts := counts }) := fun counts =>
    ⟨⟨fun _ => rfl, rfl, rfl, rfl, rfl, rfl⟩, fun _ _ => rfl, fun _ _ => rfl⟩
  unfold releaseOomBias
  dsimp only
  split
  · exact RootOnly.refl pid w
  · split
    · exact (RootOnly.refl pid w).remove
    · exact (RootOnly.refl pid w).remove
    · exact hcount _
    · exact (hcount _).settle _ _ _

theorem lookup_releaseCap_ne (env : CapReleaseEnv) (w : CapWorld) {pid pid' : Pid}
    (hne : pid' ≠ pid) :
    (releaseCap env w pid).caps.cappedPids.lookup pid' = w.caps.cappedPids.lookup pid' := by
  have hpay : ∀ (w : CapWorld) (e : CapEntry),
      (w.pay pid e).caps.cappedPids.lookup pid' = w.caps.cappedPids.lookup pid' := by
    intro w e
    simp [CapWorld.pay, removeCpuCap, hne]
  have hlegacy : ∀ (e : CapEntry) (allow : Bool),
      (releaseLegacyCap (env.uncap pid) w pid e allow).caps.cappedPids.lookup pid' =
        w.caps.cappedPids.lookup pid' := by
    intro e allow
    unfold releaseLegacyCap
    dsimp only
    split
    · rw [hpay]
    · rfl
  unfold releaseCap
  split
  · rfl
  · split
    · split
      · exact hpay w _
      · rfl
    · split
      · exact hlegacy _ _
      · exact hlegacy _ _
      · exact hlegacy _ _
      · rfl

variable {g : AdjustPolicy} {env : PassEnv} {pressure : Pressure} {canRestore : Bool}
  {w : OomWorld} {pid : Pid}

/-- The OOM releases change no renice, no cap and nobody's nice value. -/
theorem releaseOomBiases_others (env : ReleaseEnv) (w : OomWorld) (pid : Pid) :
    (releaseOomBiases env w).state.nice = w.state.nice ∧
      (releaseOomBiases env w).state.caps = w.state.caps ∧
        niceRow (releaseOomBiases env w).table pid = niceRow w.table pid := by
  unfold releaseOomBiases
  split
  · exact ⟨rfl, rfl, rfl⟩
  · dsimp only
    refine ⟨?_, ?_, ?_⟩
    · exact Runs.foldl_unwritten (fun w : OomWorld => w.state.nice)
        (fun w pid => (rootOnly_releaseOomBias env w pid).nice) _ _
    · exact Runs.foldl_unwritten (fun w : OomWorld => w.state.caps)
        (fun w pid => (rootOnly_releaseOomBias env w pid).caps) _ _
    · exact Runs.foldl_unwritten (fun w : OomWorld => niceRow w.table pid)
        (fun w pid' => niceRow_releaseOomBias env w pid' pid) _ _

theorem releaseOomBiases_unavailable (env : ReleaseEnv) (w : OomWorld) :
    (releaseOomBiases env w).state.mitigationLedgerUnavailable =
      w.state.mitigationLedgerUnavailable := by
  unfold releaseOomBiases
  split
  · rfl
  · exact Runs.foldl_unwritten (fun w : OomWorld => w.state.mitigationLedgerUnavailable)
      (fun w pid => (rootOnly_releaseOomBias env w pid).unavailable) _ _

/-- Nobody is due under pressure, or without a ledger. -/
theorem mem_releaseAttempts {a : ReleaseAttempt} :
    a ∈ releaseAttempts g env pressure canRestore w ↔
      (pressure = .ok ∧ w.state.mitigationLedgerUnavailable = false) ∧
        ((canRestore = true ∧ ∃ pid ∈ (startTimers .memory (fun _ => false) g.releaseAfterSecs
            env.memory.now ⟨w.table, w.state.nice⟩).2, .renice pid = a) ∨
          (∃ pid ∈ (w.state.oom.oomBiasedPids.keys.foldl
            (coolStep (fun _ => false) env.oomRelease.now env.oomRelease.releaseAfterSecs)
            (w.state.oom.oomCooledSince, [])).2, .bias pid = a) ∨
          ∃ pid ∈ (w.state.caps.cappedPids.keys.foldl
            (coolStep (fun _ => false) env.capRelease.now env.capRelease.releaseAfterSecs)
            (w.state.caps.capCooledSince, [])).2, .cap pid = a) := by
  unfold releaseAttempts
  split
  · next h =>
    have hgate : pressure = .ok ∧ w.state.mitigationLedgerUnavailable = false := by
      simpa using h
    dsimp only
    simp only [hgate, List.mem_append, List.mem_map, and_self, true_and]
    split
    · next hc => simp only [hc, true_and]
    · next hc => simp [hc]
  · next h =>
    have hgate : ¬ (pressure = .ok ∧ w.state.mitigationLedgerUnavailable = false) := by
      simpa using h
    simp [hgate]

/-- One limiter's releases leave a process that is not due. -/
theorem view_releaseLimiter {k : NiceLimiterKind} {busy : Pid → Bool} {dur : Nat} {e : NiceEnv}
    {n : NiceWorld} (h : pid ∉ (startTimers k busy dur e.now n).2) :
    (releaseLimiter k busy dur e n).view pid = n.view pid := by
  unfold releaseLimiter
  dsimp only
  rw [view_forgetTimers, Runs.foldl_unvisited NiceWorld.view id
    (fun w a k' hne => view_unrenice_ne k e w a k' hne) _ _ (by simpa using h),
    view_startTimers]

theorem adjRow_releaseLimiter (k : NiceLimiterKind) (busy : Pid → Bool) (dur : Nat)
    (nenv : NiceEnv) (n : NiceWorld) (pid : Pid) :
    adjRow (releaseLimiter k busy dur nenv n).table pid = adjRow n.table pid := by
  have hunrenice : ∀ (w : NiceWorld) (pid' : Pid),
      adjRow (unrenice k nenv w pid').table pid = adjRow w.table pid := by
    intro w pid'
    unfold unrenice
    split
    · rfl
    · dsimp only
      split
      · rfl
      · rfl
      · split <;> rfl
      · split
        · exact adjRow_renice w.table pid' pid _
        · split <;> rfl
  exact Runs.foldl_unwritten (fun w : NiceWorld => adjRow w.table pid) hunrenice _ _

/-- The renice part of the releases (main.rs:6793-6882). -/
def releaseRenices (g : AdjustPolicy) (env : PassEnv) (canRestore : Bool) (w : OomWorld) :
    OomWorld :=
  if !w.state.mitigationLedgerUnavailable && canRestore then
    w.onNice (releaseLimiter .memory (fun _ => false) g.releaseAfterSecs (env.memory.under w))
  else w

theorem releaseOffenders_ok (g : AdjustPolicy) (env : PassEnv) (canRestore : Bool) (w : OomWorld) :
    releaseOffenders g env .ok canRestore w =
      (releaseOomBiases env.oomRelease (releaseRenices g env canRestore w)).onCaps
        (releaseCaps env.capRelease) := rfl

/-- Everything but the renices is as before. -/
theorem releaseRenices_others (g : AdjustPolicy) (env : PassEnv) (canRestore : Bool)
    (w : OomWorld) (pid : Pid) :
    (releaseRenices g env canRestore w).state.oom = w.state.oom ∧
      (releaseRenices g env canRestore w).state.caps = w.state.caps ∧
        (releaseRenices g env canRestore w).state.mitigationLedgerUnavailable =
          w.state.mitigationLedgerUnavailable ∧
            adjRow (releaseRenices g env canRestore w).table pid = adjRow w.table pid := by
  unfold releaseRenices
  split
  · exact ⟨rfl, rfl, rfl, adjRow_releaseLimiter _ _ _ _ _ pid⟩
  · exact ⟨rfl, rfl, rfl, rfl⟩

/-- Under pressure the releases only stop timers. -/
theorem releaseOffenders_pressure (hp : pressure ≠ .ok) :
    releaseOffenders g env pressure canRestore w =
      (clearOomTimers (w.onNice (clearTimers .memory))).onCaps clearCapTimers := by
  unfold releaseOffenders
  rw [if_neg hp]

/-- **A renice that is not due stays**, and so does the nice value. -/
theorem renice_untouched (h : .renice pid ∉ releaseAttempts g env pressure canRestore w) :
    (releaseOffenders g env pressure canRestore w).state.nice.entry .memory pid =
        w.state.nice.entry .memory pid ∧
      niceRow (releaseOffenders g env pressure canRestore w).table pid = niceRow w.table pid := by
  by_cases hok : pressure = .ok
  · subst hok
    obtain ⟨hnice, -, hrow⟩ :=
      releaseOomBiases_others env.oomRelease (releaseRenices g env canRestore w) pid
    rw [releaseOffenders_ok]
    dsimp only [OomWorld.onCaps]
    rw [hnice, hrow]
    unfold releaseRenices
    split
    · next hgate =>
      simp only [Bool.and_eq_true, Bool.not_eq_true'] at hgate
      have hdue : pid ∉ (startTimers .memory (fun _ => false) g.releaseAfterSecs env.memory.now
          ⟨w.table, w.state.nice⟩).2 := fun hin =>
        h (mem_releaseAttempts.2 ⟨⟨rfl, hgate.1⟩, Or.inl ⟨hgate.2, pid, hin, rfl⟩⟩)
      have hview := view_releaseLimiter (e := env.memory.under w) hdue
      exact ⟨congrFun (congrArg NiceView.held hview) .memory,
        congrArg (Option.map Proc.nice) (congrArg NiceView.proc hview)⟩
    · exact ⟨rfl, rfl⟩
  · rw [releaseOffenders_pressure hok]
    exact ⟨rfl, rfl⟩

/-- **A bias that is not due stays**, and so does the adjustment. -/
theorem bias_untouched (h : .bias pid ∉ releaseAttempts g env pressure canRestore w) :
    (releaseOffenders g env pressure canRestore w).state.oom.oomBiasedPids.lookup pid =
        w.state.oom.oomBiasedPids.lookup pid ∧
      adjRow (releaseOffenders g env pressure canRestore w).table pid = adjRow w.table pid := by
  by_cases hok : pressure = .ok
  · subst hok
    obtain ⟨hoom, -, hun, hrow⟩ := releaseRenices_others g env canRestore w pid
    rw [releaseOffenders_ok]
    dsimp only [OomWorld.onCaps]
    rw [← hrow, ← hoom]
    unfold releaseOomBiases
    split
    · exact ⟨rfl, rfl⟩
    · next hgate =>
      rw [hun] at hgate
      have hdue : pid ∉ ((releaseRenices g env canRestore w).state.oom.oomBiasedPids.keys.foldl
          (coolStep (fun _ => false) env.oomRelease.now env.oomRelease.releaseAfterSecs)
          ((releaseRenices g env canRestore w).state.oom.oomCooledSince, [])).2 := by
        intro hin
        rw [hoom] at hin
        exact h (mem_releaseAttempts.2 ⟨⟨rfl, by simpa using hgate⟩,
          Or.inr (Or.inl ⟨pid, hin, rfl⟩)⟩)
      let view : OomWorld → Pid → Option (Nat × Int) × Option (Int × ProcessIdentity) :=
        fun w pid => (adjRow w.table pid, w.state.oom.oomBiasedPids.lookup pid)
      have hsame := fun w' : OomWorld => Runs.foldl_unvisited view id
        (f := releaseOomBias env.oomRelease)
        (fun w a k hne => Prod.ext ((rootOnly_releaseOomBias _ w a).adj k hne)
          ((rootOnly_releaseOomBias _ w a).biased k hne)) _ w' (by simpa using hdue)
      exact ⟨congrArg Prod.snd (hsame _), congrArg Prod.fst (hsame _)⟩
  · rw [releaseOffenders_pressure hok]
    exact ⟨rfl, rfl⟩

/-- **A cap that is not due stays.** -/
theorem cap_untouched (h : .cap pid ∉ releaseAttempts g env pressure canRestore w) :
    (releaseOffenders g env pressure canRestore w).state.caps.cappedPids.lookup pid =
      w.state.caps.cappedPids.lookup pid := by
  by_cases hok : pressure = .ok
  · subst hok
    obtain ⟨-, hcaps, hun, -⟩ := releaseRenices_others g env canRestore w pid
    rw [releaseOffenders_ok]
    dsimp only [OomWorld.onCaps]
    rw [(releaseOomBiases_others _ _ pid).2.1, releaseOomBiases_unavailable, hcaps, hun]
    unfold releaseCaps
    split
    · rfl
    · next hgate =>
      have hdue : pid ∉ (w.state.caps.cappedPids.keys.foldl
          (coolStep (fun _ => false) env.capRelease.now env.capRelease.releaseAfterSecs)
          (w.state.caps.capCooledSince, [])).2 := fun hin =>
        h (mem_releaseAttempts.2 ⟨⟨rfl, by simpa using hgate⟩, Or.inr (Or.inr ⟨pid, hin, rfl⟩)⟩)
      exact Runs.foldl_unvisited (fun (w : CapWorld) pid => w.caps.cappedPids.lookup pid) id
        (fun w a k hne => lookup_releaseCap_ne env.capRelease w hne) _ _ (by simpa using hdue)
  · rw [releaseOffenders_pressure hok]
    rfl

end Untouched

end DraconGuard
